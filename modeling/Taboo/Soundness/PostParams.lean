import Taboo.Soundness.Parameters

/-! # Parameters that arrive in pieces

The post processor hands over a long value piece by piece, and each piece is added as if it were a value.
The map then keeps a first piece and the signature is a last one; these are the whole values exactly if
the other pieces are empty. Filters are judged piece by piece, for the map by the first that is an object
and for the member of the handler by the last.
-/

namespace Taboo.ManageHandler

open BaseHandler

/-- One parameter of a body and the pieces its value arrives in. -/
structure Posted where
  key : Bytes
  pieces : List Bytes
  nonempty : pieces ≠ []

def Posted.whole (posted : Posted) : Bytes := posted.pieces.flatten

/-- The parameters of one key. -/
def ofKey (key : Bytes) (body : List Posted) : List Posted :=
  body.filter fun posted => decide (cStr posted.key = key)

section

variable {τ : Type} (config : Config) (hook : Review τ) (handler : Handler (Manage τ)) (body : List Posted)

/-- Every value in its pieces. -/
def postSplit : Handler (Manage τ) :=
  body.foldl (fun handler posted =>
    postPieces (reviewParam config hook.review) posted.key 0 posted.pieces handler) handler

/-- Every value in one call. -/
def postWhole : Handler (Manage τ) :=
  body.foldl (fun handler posted =>
    postParamIterator (reviewParam config hook.review) handler posted.key posted.whole 0) handler

theorem postSplit_eq : postSplit config hook handler body =
    addAll config hook handler (body.flatMap fun posted => posted.pieces.map (cStr posted.key, ·)) := by
  have one : ∀ (key : Bytes) (pieces : List Bytes) (offset : ℕ) (handler : Handler (Manage τ)),
      postPieces (reviewParam config hook.review) key offset pieces handler =
        addAll config hook handler (pieces.map (cStr key, ·)) := by
    intro key pieces
    induction pieces with
    | nil => exact fun _ _ => rfl
    | cons piece rest ih => exact fun offset handler => ih _ _
  simp only [postSplit, one]
  induction body generalizing handler with
  | nil => rfl
  | cons posted rest ih =>
    rw [List.foldl_cons, ih, List.flatMap_cons]
    simp only [addAll, List.foldl_append]

theorem postWhole_eq : postWhole config hook handler body =
    addAll config hook handler (body.map fun posted => (cStr posted.key, posted.whole)) := by
  simp only [postWhole, addAll, List.foldl_map]
  rfl

theorem valuesOf_split (key : Bytes) :
    valuesOf key (body.flatMap fun posted => posted.pieces.map (cStr posted.key, ·)) =
      (ofKey key body).flatMap Posted.pieces := by
  induction body with
  | nil => rfl
  | cons posted rest ih =>
    have append : ∀ first second,
        valuesOf key (first ++ second) = valuesOf key first ++ valuesOf key second := by
      simp [valuesOf]
    rw [List.flatMap_cons, append, ih]
    by_cases own : cStr posted.key = key <;>
      simp [valuesOf, own, ofKey, List.filter_map, Function.comp_def]

theorem valuesOf_whole (key : Bytes) :
    valuesOf key (body.map fun posted => (cStr posted.key, posted.whole)) =
      (ofKey key body).map Posted.whole := by
  simp [valuesOf, ofKey, List.filter_map, Function.comp_def]

end

/-- The first piece is the first value exactly if nothing follows it. -/
theorem head_piece_iff (body : List Posted) :
    (body.flatMap Posted.pieces).head? = (body.map Posted.whole).head? ↔
      ∀ first ∈ body.head?, ∀ piece ∈ first.pieces.tail, piece = [] := by
  cases body with
  | nil => simp
  | cons first rest =>
    obtain ⟨key, pieces, nonempty⟩ := first
    cases pieces with
    | nil => exact absurd rfl nonempty
    | cons piece others => simp [Posted.whole, eq_comm]

/-- The last piece is the last value exactly if nothing comes before it. -/
theorem last_piece_iff (body : List Posted) :
    (body.flatMap Posted.pieces).getLast? = (body.map Posted.whole).getLast? ↔
      ∀ last ∈ body.getLast?, ∀ piece ∈ last.pieces.dropLast, piece = [] := by
  rcases List.eq_nil_or_concat body with rfl | ⟨others, last, rfl⟩
  · simp
  · obtain ⟨key, pieces, nonempty⟩ := last
    rcases List.eq_nil_or_concat pieces with rfl | ⟨earlier, piece, rfl⟩
    · exact absurd rfl nonempty
    · simp [Posted.whole, eq_comm]

/-- A piece is the whole value exactly if the other pieces are empty. -/
theorem piece_eq_whole_iff {posted : Posted} {piece : Bytes} (member : piece ∈ posted.pieces) :
    piece = posted.whole ↔ ∀ other ∈ posted.pieces.erase piece, other = [] := by
  obtain ⟨before, after, absent, split, erased⟩ := List.exists_erase_eq member
  rw [erased, Posted.whole, split, List.flatten_append, List.flatten_cons, List.forall_mem_append,
    ← List.flatten_eq_nil_iff, ← List.flatten_eq_nil_iff]
  constructor
  · intro same
    have lengths := congrArg List.length same
    simp only [List.length_append] at lengths
    exact ⟨List.eq_nil_of_length_eq_zero (by omega), List.eq_nil_of_length_eq_zero (by omega)⟩
  · rintro ⟨none, nothing⟩
    simp [none, nothing]

/-- The map keeps the same text either way. Of the first parameter that has an accepted piece or is
accepted: if it is both, its other pieces are empty; if it is one of them, the first text of the other
kind is the same, in a later parameter. -/
def FirstAlike (accepts : Bytes → Bool) : List Posted → Prop
  | [] => True
  | posted :: rest =>
      match posted.pieces.find? accepts, accepts posted.whole with
      | some piece, true => ∀ other ∈ posted.pieces.erase piece, other = []
      | some piece, false => (rest.map Posted.whole).find? accepts = some piece
      | none, true => (rest.flatMap Posted.pieces).find? accepts = some posted.whole
      | none, false => FirstAlike accepts rest

/-- The member that is read is left with the same either way; the latest parameter comes first. Of the first
one here that has a piece that can be read or can be read itself: if it is both, the last such piece is
read as the whole; if it is one of them, it is read as what the earlier ones leave the other way. -/
def LastAlike {τ : Type} (reading : Bytes → Option τ) (own : τ) : List Posted → Prop
  | [] => True
  | posted :: earlier =>
      match (posted.pieces.filterMap reading).getLast?, reading posted.whole with
      | some piece, some whole => piece = whole
      | some piece, none => piece = lastRead reading own (earlier.reverse.map Posted.whole)
      | none, some whole => lastRead reading own (earlier.reverse.flatMap Posted.pieces) = whole
      | none, none => LastAlike reading own earlier

theorem firstAlike_iff (accepts : Bytes → Bool) (body : List Posted) : FirstAlike accepts body ↔
    (body.flatMap Posted.pieces).find? accepts = (body.map Posted.whole).find? accepts := by
  induction body with
  | nil => exact iff_of_true trivial rfl
  | cons posted rest ih =>
    rw [List.flatMap_cons, List.find?_append, List.map_cons, FirstAlike]
    cases found : posted.pieces.find? accepts with
    | none =>
      cases whole : accepts posted.whole with
      | true => simp [whole]
      | false => simpa [whole] using ih
    | some piece =>
      cases whole : accepts posted.whole with
      | true => simp [whole, ← piece_eq_whole_iff (List.mem_of_find?_eq_some found)]
      | false => simp [whole, eq_comm]

theorem lastAlike_iff {τ : Type} (reading : Bytes → Option τ) (own : τ) (body : List Posted) :
    LastAlike reading own body ↔ lastRead reading own (body.reverse.flatMap Posted.pieces) =
      lastRead reading own (body.reverse.map Posted.whole) := by
  induction body with
  | nil => exact iff_of_true trivial rfl
  | cons posted earlier ih =>
    have pieces : lastRead reading own ((posted :: earlier).reverse.flatMap Posted.pieces) =
        (posted.pieces.filterMap reading).getLast?.getD
          (lastRead reading own (earlier.reverse.flatMap Posted.pieces)) := by
      cases read : (posted.pieces.filterMap reading).getLast? <;> simp [lastRead, read]
    have whole : lastRead reading own ((posted :: earlier).reverse.map Posted.whole) =
        (reading posted.whole).getD (lastRead reading own (earlier.reverse.map Posted.whole)) := by
      cases read : reading posted.whole <;> simp [lastRead, read]
    rw [pieces, whole, LastAlike]
    cases (posted.pieces.filterMap reading).getLast? with
    | none =>
      cases reading posted.whole with
      | none => exact ih
      | some whole => exact Iff.rfl
    | some piece => cases reading posted.whole <;> exact Iff.rfl

/-- Where a body may be split: behind nothing but the first value of a key that the handler does not
have, and before nothing but the last signature. The values of a key that is judged are to leave the same
in the map, if it does not have the key, and in the member of the handler. -/
structure SplitHarmlessly {τ : Type} (config : Config) (hook : Review τ) (handler : Handler (Manage τ))
    (body : List Posted) : Prop where
  kept : ∀ key, key ≠ config.keyMUSign → hook.judged ≠ some key → handler.params[key]? = none →
    ∀ first ∈ (ofKey key body).head?, ∀ piece ∈ first.pieces.tail, piece = []
  judged : ∀ key, key ≠ config.keyMUSign → hook.judged = some key → handler.params[key]? = none →
    FirstAlike (fun value => (hook.reading value).isSome) (ofKey key body)
  read : ∀ key, key ≠ config.keyMUSign → hook.judged = some key →
    LastAlike hook.reading handler.own.own (ofKey key body).reverse
  sign : ∀ last ∈ (ofKey config.keyMUSign body).getLast?, ∀ piece ∈ last.pieces.dropLast, piece = []

section Alike

variable {τ : Type} (config : Config) (hook : Review τ) (handler : Handler (Manage τ)) (body : List Posted)

/-- Under a key that is not there yet, the first value is kept that the hook accepts. -/
theorem params_alike_iff :
    (postSplit config hook handler body).params = (postWhole config hook handler body).params ↔
      ∀ key, key ≠ config.keyMUSign → handler.params[key]? = none →
        ((ofKey key body).flatMap Posted.pieces).find? (hook.accepts key) =
          ((ofKey key body).map Posted.whole).find? (hook.accepts key) := by
  rw [postSplit_eq, postWhole_eq]
  constructor
  · intro same key other absent
    have stored := congrArg (fun params : ParamMap => params[key]?) same
    simpa only [addAll_params _ _ _ _ other, absent, Option.none_or, valuesOf_split, valuesOf_whole]
      using stored
  · intro same
    apply Std.ExtTreeMap.ext_getElem?
    intro key
    rcases eq_or_ne key config.keyMUSign with rfl | other
    · rw [addAll_params_sign, addAll_params_sign]
    · rw [addAll_params _ _ _ _ other, addAll_params _ _ _ _ other, valuesOf_split, valuesOf_whole]
      cases stored : handler.params[key]? with
      | some value => rfl
      | none => rw [same key other stored]

/-- Of the signatures, the last piece is kept. -/
theorem sign_alike_iff :
    (postSplit config hook handler body).own.sign = (postWhole config hook handler body).own.sign ↔
      ∀ last ∈ (ofKey config.keyMUSign body).getLast?, ∀ piece ∈ last.pieces.dropLast, piece = [] := by
  rw [postSplit_eq, postWhole_eq, addAll_sign, addAll_sign, valuesOf_split, valuesOf_whole, ← last_piece_iff]
  rcases List.eq_nil_or_concat (ofKey config.keyMUSign body) with empty | ⟨others, last, ends⟩
  · simp [empty]
  · simp [ends, List.getLast?_eq_some_getLast last.nonempty]

/-- Of the values that are read, the last counts. -/
theorem own_alike_iff :
    (postSplit config hook handler body).own.own = (postWhole config hook handler body).own.own ↔
      ∀ key, key ≠ config.keyMUSign → hook.judged = some key →
        LastAlike hook.reading handler.own.own (ofKey key body).reverse := by
  rw [postSplit_eq, postWhole_eq]
  by_cases unread : ∀ key, hook.judged = some key → key = config.keyMUSign
  · rw [addAll_own_unread _ _ _ _ unread, addAll_own_unread _ _ _ _ unread]
    exact iff_of_true rfl fun key other judges => absurd (unread key judges) other
  · push Not at unread
    obtain ⟨key, judges, other⟩ := unread
    rw [addAll_own _ _ _ _ other judges, addAll_own _ _ _ _ other judges, valuesOf_split, valuesOf_whole]
    have alike := lastAlike_iff hook.reading handler.own.own (ofKey key body).reverse
    rw [List.reverse_reverse] at alike
    rw [← alike]
    constructor
    · intro same name _ names
      rwa [← Option.some.inj (judges.symm.trans names)]
    · exact fun all => all key other judges

/-- The handler is the same if its members are. -/
theorem alike_iff : postSplit config hook handler body = postWhole config hook handler body ↔
    (postSplit config hook handler body).params = (postWhole config hook handler body).params ∧
      (postSplit config hook handler body).own.own = (postWhole config hook handler body).own.own ∧
      (postSplit config hook handler body).own.sign = (postWhole config hook handler body).own.sign := by
  constructor
  · intro same
    rw [same]
    exact ⟨rfl, rfl, rfl⟩
  · rintro ⟨params, own, sign⟩
    obtain ⟨method, uri⟩ :
        (postSplit config hook handler body).method = (postWhole config hook handler body).method ∧
        (postSplit config hook handler body).uri = (postWhole config hook handler body).uri := by
      rw [postSplit_eq, postWhole_eq]
      exact ⟨(addAll_meta ..).1.trans (addAll_meta ..).1.symm, (addAll_meta ..).2.trans (addAll_meta ..).2.symm⟩
    generalize postSplit config hook handler body = split at *
    generalize postWhole config hook handler body = whole at *
    obtain ⟨_, _, _, _, _⟩ := split
    obtain ⟨_, _, _, _, _⟩ := whole
    simp_all

end Alike

/-- For every handler, whatever it has received before, and every body: the handler with all its members
does not depend on the split exactly if the body is split harmlessly. -/
theorem split_alike_iff {τ : Type} (config : Config) (hook : Review τ) (handler : Handler (Manage τ))
    (body : List Posted) :
    postSplit config hook handler body = postWhole config hook handler body ↔
      SplitHarmlessly config hook handler body := by
  have unjudged : ∀ key, hook.judged ≠ some key → ∀ values : List Bytes,
      values.find? (hook.accepts key) = values.head? := by
    intro key unread values
    cases values <;> simp [Review.accepts, unread]
  have judges : ∀ key, hook.judged = some key →
      hook.accepts key = fun value => (hook.reading value).isSome := by
    intro key judges
    funext value
    exact if_pos judges
  rw [alike_iff, params_alike_iff, own_alike_iff, sign_alike_iff]
  constructor
  · rintro ⟨same, read, last⟩
    refine ⟨fun key other unread absent => ?_, fun key other judged absent => ?_, read, last⟩
    · rw [← head_piece_iff, ← unjudged key unread, ← unjudged key unread]
      exact same key other absent
    · rw [firstAlike_iff, ← judges key judged]
      exact same key other absent
  · rintro ⟨kept, judged, read, last⟩
    refine ⟨fun key other absent => ?_, read, last⟩
    by_cases judging : hook.judged = some key
    · rw [judges key judging]
      exact (firstAlike_iff ..).mp (judged key other judging absent)
    · rw [unjudged key judging, unjudged key judging, head_piece_iff]
      exact kept key other judging absent

/-- An item in two pieces. -/
def twoPieces : List Posted := [⟨ascii "item", [ascii "ab", ascii "cd"], by decide⟩]

theorem twoPieces_cut :
    (postSplit default Review.plain (create ⟨[], ()⟩) twoPieces).params.toList = [(ascii "item", ascii "ab")] ∧
    (postWhole default Review.plain (create ⟨[], ()⟩) twoPieces).params.toList =
      [(ascii "item", ascii "abcd")] ∧
    (postSplit default Review.plain (create ⟨[], ()⟩) twoPieces).params ≠
      (postWhole default Review.plain (create ⟨[], ()⟩) twoPieces).params := by
  decide

end Taboo.ManageHandler
