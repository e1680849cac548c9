import Taboo.Model.Predicter
import Taboo.Soundness.AcceptedQueries
import Taboo.Soundness.KeeperRuns

/-! # One predicter for many queries

The query of a predicter is refilled by every payload that is accepted, and its items are collected
anew. Its two filter chains are not: one that is rebuilt from an object goes on from the head it still
has. Nor is its set of fields, which keeps its buckets, and with them may iterate in another order. As
long as no object meets such a head, and no hidden field such an order, every payload is answered as by a
new predicter.
-/

namespace Taboo

/-- Only an object looks at the chain that is there. -/
theorem Filter.rebuild_alike (hashing : Hashing) (keyId : Bytes) {chain : List Filter} {cond : Option Value}
    (usable : ∀ value, cond = some value → Query.Usable value)
    (clear : ∀ members, cond = some (.object members) → chain = []) :
    Filter.rebuild hashing keyId chain cond = Filter.rebuild hashing keyId [] cond := by
  cases cond with
  | none => rfl
  | some value =>
    cases value with
    | object members => rw [clear members rfl]
    | array elements => rfl
    | null | bool | number | string =>
      have unsigned : Value.isUint _ = true := usable _ rfl
      simp only [Filter.rebuild, unsigned, if_true]

namespace Query

variable {config : Config} {aside : Aside} {parse : Parser} {hash newHash : HashOrder Bytes}

/-! ### The set of fields -/

theorem rebuild_clearsFields {text : Bytes} {body : Members} (aside : Aside) (hash : HashOrder Bytes)
    (cleared : clearsFields config parse text = some body) (query : Query) :
    ∃ read, query.rebuild config aside parse hash text = rebuildFields config aside hash body read := by
  unfold clearsFields at cleared
  split at cleared
  · next object parsed =>
    split at cleared
    · next wanted found =>
      split_ifs at cleared with good
      obtain ⟨valid, nonempty, filters, excludes⟩ := good
      obtain ⟨filters, filtersGood⟩ := Option.isSome_iff_exists.mp filters
      obtain ⟨excludes, excludesGood⟩ := Option.isSome_iff_exists.mp excludes
      cases cleared
      simp only [rebuild, parsed, found, valid, nonempty, rebuildConditions, filtersGood, excludesGood,
        Bool.not_true, Bool.false_eq_true, if_false]
      exact ⟨_, rfl⟩
    · cases cleared
  · cases cleared

/-- A payload for which the set is not cleared leaves it as it was. -/
theorem rebuild_fields {text : Bytes} {query rebuilt : Query} {answer : Bool}
    (early : clearsFields config parse text = none)
    (ended : query.rebuild config aside parse hash text = .ok (answer, rebuilt)) :
    rebuilt.fields = query.fields := by
  unfold rebuild at ended
  split at ended
  · next body parsed =>
    split at ended
    · cases ended
      rfl
    · next wanted found =>
      split_ifs at ended with short empty
      · cases ended
        rfl
      · cases ended
        rfl
      · have refused : ¬((condition (findMember body config.keyQUFilters)).isSome ∧
            (condition (findMember body config.keyQUExcludes)).isSome) := by
          intro both
          simp [clearsFields, parsed, found, both, empty] at early
          exact short (by simp [early])
        unfold rebuildConditions at ended
        split at ended
        · cases ended
          rfl
        · next filtersGood =>
          split at ended
          · cases ended
            rfl
          · next excludesGood => exact absurd ⟨by simp [filtersGood], by simp [excludesGood]⟩ refused
    · cases ended
  · cases ended
    rfl

theorem eraseLoop_sublist {hidden : Bytes → Bool} {names kept : List Bytes}
    (done : eraseLoop hidden names = .ok kept) : kept.Sublist names := by
  fun_induction eraseLoop hidden names generalizing kept with
  | case1 =>
    cases done
    exact .refl _
  | case2 => cases done
  | case3 name hides next rest ih =>
    obtain ⟨others, erased, rfl⟩ := ok_of_map done
    exact ((ih erased).cons_cons next).cons name
  | case4 name rest shows ih =>
    obtain ⟨others, erased, rfl⟩ := ok_of_map done
    exact (ih erased).cons_cons name

/-- If nothing is hidden, the loop keeps everything. -/
theorem eraseLoop_shown {hidden : Bytes → Bool} {names : List Bytes}
    (shown : ∀ name ∈ names, hidden name = false) :
    eraseLoop hidden names = .ok names := by
  induction names with
  | nil => rfl
  | cons name rest ih =>
    rw [List.forall_mem_cons] at shown
    unfold eraseLoop
    simp only [shown.1, Bool.false_eq_true, if_false, ih shown.2]
    rfl

/-- In whatever order, the same names are requested. -/
theorem requestedFields_perm (hash newHash : HashOrder Bytes) (found : Option Value) :
    (requestedFields hash found).1.Perm (requestedFields newHash found).1 ∧
      (requestedFields hash found).2 = (requestedFields newHash found).2 := by
  unfold requestedFields
  split
  · exact ⟨(hash.perm _).trans (newHash.perm _).symm, rfl⟩
  · exact ⟨.refl _, rfl⟩
  · exact ⟨.refl _, rfl⟩

/-- The set holds nothing that was not inserted since it was cleared. -/
theorem rebuild_inserted {text : Bytes} {body : Members} {query rebuilt : Query} {answer : Bool}
    (cleared : clearsFields config parse text = some body)
    (ended : query.rebuild config aside parse hash text = .ok (answer, rebuilt)) :
    rebuilt.fields ⊆ insertedFields config aside body := by
  obtain ⟨read, come⟩ := rebuild_clearsFields aside hash cleared query
  obtain ⟨perm, strings⟩ := requestedFields_perm hash (.insertion _) (findMember body config.keyQUFields)
  rw [come, rebuildFields] at ended
  simp only [insertedFields, ← strings]
  cases good : (requestedFields hash (findMember body config.keyQUFields)).2 with
  | false =>
    simp only [good, Bool.not_false, if_true] at ended
    cases ended
    simpa using perm.subset
  | true =>
    simp only [good, Bool.not_true, Bool.false_eq_true, if_false] at ended
    obtain ⟨shown, revised, finished⟩ := ok_of_map ended
    have fields : rebuilt.fields = shown.1 := by
      unfold finish at finished
      split_ifs at finished <;> cases finished <;> rfl
    rw [fields]
    rw [reviseFields_eq] at revised
    split_ifs at revised with all unasked
    · cases revised
      simpa [all] using perm.subset
    · cases revised
      have nothing : (requestedFields (.insertion _) (findMember body config.keyQUFields)).1 = [] :=
        List.perm_nil.mp (unasked.2 ▸ perm.symm)
      simpa [all, unasked.1, nothing] using (hash.perm _).subset
    · obtain ⟨kept, erased, rfl⟩ := ok_of_map revised
      have listed := List.Subset.trans (eraseLoop_sublist erased).subset perm.subset
      split_ifs with visible
      · simp only [Bool.and_eq_true, List.isEmpty_iff] at visible
        exact absurd ⟨visible.1.2, List.perm_nil.mp (visible.2 ▸ perm)⟩ unasked
      · exact listed

/-! ### Two orders -/

theorem reviseFields_alike {names newNames : List Bytes} {shown : List Bytes × Bool}
    (newHash : HashOrder Bytes) (perm : names.Perm newNames)
    (same : (∀ name ∈ names, aside.hides name = false) ∨ newNames = names)
    (revised : reviseFields aside hash names = .ok shown) :
    ∃ newShown, reviseFields aside newHash newNames = .ok newShown ∧ shown.1.Perm newShown.1 ∧
      shown.2 = newShown.2 := by
  have unasked : names = [] ↔ newNames = [] :=
    ⟨fun none => (none ▸ perm).nil_eq.symm, fun none => (none ▸ perm).eq_nil⟩
  rw [reviseFields_eq] at revised ⊢
  simp only [← unasked]
  split_ifs at revised ⊢ with all nothing
  · cases revised
    exact ⟨_, rfl, perm, by rw [Bool.eq_iff_iff, List.isEmpty_iff, List.isEmpty_iff, unasked]⟩
  · cases revised
    exact ⟨_, rfl, (hash.perm _).trans (newHash.perm _).symm, rfl⟩
  · rcases same with shown | rfl
    · have newShown : ∀ name ∈ newNames, aside.hides name = false :=
        fun name member => shown name (perm.mem_iff.mpr member)
      rw [eraseLoop_shown shown] at revised
      rw [eraseLoop_shown newShown]
      cases revised
      exact ⟨_, rfl, perm, rfl⟩
    · exact ⟨shown, revised, .refl _, rfl⟩

theorem Wish.Spelled.reorder {text : Bytes} {wish : Wish} (newHash : HashOrder Bytes)
    (spelled : Wish.Spelled config parse hash text wish) :
    Wish.Spelled config parse newHash text
      { wish with names := (requestedFields newHash (findMember wish.body config.keyQUFields)).1 } where
  parsed := spelled.parsed
  found := spelled.found
  valid := spelled.valid
  nonempty := spelled.nonempty
  filters := spelled.filters
  excludes := spelled.excludes
  fields := by
    have strings : (requestedFields hash (findMember wish.body config.keyQUFields)).2 = true := by
      rw [spelled.fields]
    exact Prod.ext rfl ((requestedFields_perm newHash hash _).2.trans strings)

/-- Nothing that is requested is hidden, or the other set has it in the same order. -/
def SameOrder (aside : Aside) (newHash : HashOrder Bytes) (config : Config) (wish : Wish) : Prop :=
  (∀ name ∈ wish.names, aside.hides name = false) ∨
    (requestedFields newHash (findMember wish.body config.keyQUFields)).1 = wish.names

/-- What a payload is rebuilt to, from another query and with a set in another order. -/
theorem rebuild_alike {text : Bytes} {query rebuilt : Query} {answer : Bool} (newHash : HashOrder Bytes)
    (other : Query)
    (ordered : ∀ wish, Wish.Spelled config parse hash text wish → SameOrder aside newHash config wish)
    (ended : query.rebuild config aside parse hash text = .ok (answer, rebuilt)) :
    ∃ anew, other.rebuild config aside parse newHash text = .ok (answer, anew) ∧
      (answer = true → ∃ wish shown newShown, Wish.Spelled config parse hash text wish ∧
        Selects aside wish.names ∧ rebuilt = wish.query config shown ∧ anew = wish.query config newShown ∧
        shown.1.Perm newShown.1 ∧ shown.2 = newShown.2) := by
  by_cases wished : ∃ wish, Wish.Spelled config parse hash text wish
  · obtain ⟨wish, spelled⟩ := wished
    obtain ⟨rejected, come⟩ := spelled.rebuild_eq aside query
    obtain ⟨newRejected, newCome⟩ := (spelled.reorder newHash).rebuild_eq aside other
    rw [come] at ended
    obtain ⟨shown, revised, done⟩ := ok_of_map ended
    have perm := (requestedFields_perm hash newHash (findMember wish.body config.keyQUFields)).1
    rw [spelled.fields] at perm
    obtain ⟨newShown, newRevised, same, all⟩ :=
      reviseFields_alike newHash perm (ordered wish spelled) revised
    have selects : (shown.2 = true ∨ shown.1 ≠ []) ↔ (newShown.2 = true ∨ newShown.1 ≠ []) := by
      rw [all, ne_eq, ne_eq, ← List.length_eq_zero_iff, same.length_eq, List.length_eq_zero_iff]
    rw [newCome, newRevised]
    simp only [Except.map, ← selects]
    split_ifs at done ⊢ with shows
    · cases done
      exact ⟨_, rfl, fun _ => ⟨wish, shown, newShown, spelled, (reviseFields_selects revised).mp shows, rfl,
        rfl, same, all⟩⟩
    · cases done
      exact ⟨_, rfl, nofun⟩
  · have unwished := not_exists.mp wished
    have newUnwished : ∀ wish, ¬Wish.Spelled config parse newHash text wish :=
      fun wish spelled => unwished _ (spelled.reorder hash)
    rcases rebuild_unwished aside query unwished with ⟨string, rejected, early⟩ | ⟨notString, failed⟩
    · cases early.symm.trans ended
      rcases rebuild_unwished aside other newUnwished with ⟨_, newRejected, newEarly⟩ | ⟨notString, _⟩
      · exact ⟨newRejected, newEarly, nofun⟩
      · exact absurd string notString
    · cases failed.symm.trans ended

end Query

namespace Predicter

open Machine

/-- Payloads that one predicter has handled, and how it answered them. -/
structure Dialogue where
  predicter : Predicter
  log : List (Bytes × Answer)

def Dialogue.start : Dialogue := ⟨create, []⟩

def step (service : Service) (store : Store) (dialogue : Dialogue) (payload : Bytes) : Option Dialogue :=
  match answer service store dialogue.predicter payload with
  | .ok (reply, predicter) => some ⟨predicter, dialogue.log ++ [(payload, reply)]⟩
  | .error _ => none

/-- The same items, and the same fields of them, written alike where they are in one order. -/
inductive Answer.Same : Answer → Answer → Prop
  | noQuery : Same .noQuery .noQuery
  | badQuery : Same .badQuery .badQuery
  | predicted {items : List Item} {fields newFields : List Bytes} {fieldsAll : Bool} {reply newReply : Value}
      (perm : fields.Perm newFields) (written : fields = newFields → reply = newReply) :
      Same (.predicted items fields fieldsAll reply) (.predicted items newFields fieldsAll newReply)

/-- Every payload was answered as by a new predicter. -/
def Alike (service : Service) (store : Store) (dialogue : Dialogue) : Prop :=
  ∀ payload reply, (payload, reply) ∈ dialogue.log →
    ∃ newReply predicter, answer service store create payload = .ok (newReply, predicter) ∧ reply.Same newReply

/-- Where the payload is good, none of its fields is hidden, or the buckets left over put them in the order
of a new set; and if there is something to show, a condition that is an object meets an empty chain. -/
def Clear (service : Service) (dialogue : Dialogue) (payload : Bytes) : Prop :=
  payload.length ≤ service.around.config.queryDataMaxSize →
    ∀ wish, Query.Wish.Spelled service.around.config service.parse
        (service.fieldSet.order dialogue.predicter.buckets) payload wish →
      Query.SameOrder service.aside (service.fieldSet.order 0) service.around.config wish ∧
      (Query.Selects service.aside wish.names →
        (∀ members, wish.filters = some (.object members) → dialogue.predicter.seeker.filter.filter = []) ∧
        ∀ members, wish.excludes = some (.object members) → dialogue.predicter.seeker.filter.exclude = [])

variable {service : Service} {store : Store}

theorem rebuildChain_alike {query : Query} (ready : ∀ value, query.filters = some value ∨
      query.excludes = some value → Query.Usable value) {chain : FilterChain}
    (filters : ∀ members, query.filters = some (.object members) → chain.filter = [])
    (excludes : ∀ members, query.excludes = some (.object members) → chain.exclude = []) :
    Seeker.rebuildChain service.around chain query = Seeker.rebuildChain service.around .empty query := by
  unfold Seeker.rebuildChain
  rw [Filter.rebuild_alike _ _ (fun value there => ready value (Or.inl there)) filters,
    Filter.rebuild_alike _ _ (fun value there => ready value (Or.inr there)) excludes]
  rfl

/-- What a predicter finds for a wish depends on the chains that an object meets, and on nothing else. -/
theorem predict_alike (store : Store) {hash : HashOrder Bytes} {payload : Bytes} {wish : Query.Wish}
    (spelled : Query.Wish.Spelled service.around.config service.parse hash payload wish)
    (shown : List Bytes × Bool) {seeker : Seeker}
    (filters : ∀ members, wish.filters = some (.object members) → seeker.filter.filter = [])
    (excludes : ∀ members, wish.excludes = some (.object members) → seeker.filter.exclude = []) :
    predict service.around store seeker (wish.query service.around.config shown) =
      predict service.around store .fresh (wish.query service.around.config shown) := by
  have usable : ∀ value, wish.filters = some value ∨ wish.excludes = some value → Query.Usable value := by
    rintro value (there | there)
    · exact Query.condition_usable (spelled.filters.trans (congrArg some there))
    · exact Query.condition_usable (spelled.excludes.trans (congrArg some there))
  have chain : Seeker.rebuildChain service.around seeker.filter (wish.query service.around.config shown) =
      Seeker.rebuildChain service.around .empty (wish.query service.around.config shown) :=
    rebuildChain_alike usable filters excludes
  unfold predict Seeker.seek
  rw [chain]
  rfl

theorem answer_alike {dialogue : Dialogue} {payload : Bytes} {reply : Answer} {after : Predicter}
    (clear : Clear service dialogue payload)
    (answered : answer service store dialogue.predicter payload = .ok (reply, after)) :
    ∃ newReply predicter, answer service store create payload = .ok (newReply, predicter) ∧
      reply.Same newReply := by
  unfold answer at answered ⊢
  split_ifs at answered ⊢ with long
  · cases answered
    exact ⟨_, _, rfl, .badQuery⟩
  · obtain ⟨⟨good, query⟩, rebuilt, same⟩ := ok_of_map answered
    obtain ⟨anew, newRebuilt, accepted⟩ := Query.rebuild_alike (service.fieldSet.order 0) create.query
      (fun wish spelled => (clear (not_lt.mp long) wish spelled).1) rebuilt
    have come : Query.rebuild service.around.config service.aside service.parse
        (service.fieldSet.order create.buckets) create.query payload = .ok (good, anew) := newRebuilt
    rw [come]
    cases good with
    | false =>
      cases same
      exact ⟨_, _, rfl, .badQuery⟩
    | true =>
      obtain ⟨wish, shown, newShown, spelled, selects, rfl, rfl, perm, all⟩ := accepted rfl
      obtain ⟨filters, excludes⟩ := (clear (not_lt.mp long) wish spelled).2 selects
      have found := predict_alike store spelled shown filters excludes
      simp only [if_true, found] at same
      cases same
      obtain ⟨newFields, newAll⟩ := newShown
      cases all
      exact ⟨_, _, rfl, .predicted perm fun order => by cases order; rfl⟩

theorem Alike.step {dialogue next : Dialogue} {payload : Bytes} (alike : Alike service store dialogue)
    (clear : Clear service dialogue payload) (stepped : step service store dialogue payload = some next) :
    Alike service store next := by
  unfold Predicter.step at stepped
  cases answered : answer service store dialogue.predicter payload with
  | error fault => simp [answered] at stepped
  | ok result =>
    obtain ⟨reply, predicter⟩ := result
    simp only [answered, Option.some.injEq] at stepped
    subst stepped
    intro earlier earlierReply member
    rcases List.mem_append.mp member with before | now
    · exact alike earlier earlierReply before
    · obtain ⟨rfl, rfl⟩ := Prod.mk.inj (List.mem_singleton.mp now)
      exact answer_alike clear answered

/-- Along a run in which no object meets a chain, and no leftover buckets reorder fields of which some are
hidden, every payload is answered as by a new predicter. -/
theorem alike_throughout (service : Service) (store : Store) (payloads : List Bytes)
    (clear : EachStep (step service store) .start payloads (Clear service)) :
    Throughout (step service store) .start payloads (Alike service store) := by
  refine run_everywhere (P := fun _ dialogue => Alike service store dialogue) ?_ ?_
  · intro payload reply member
    cases member
  · intro before payload after dialogue next split ran alike stepped
    exact alike.step (clear before payload after dialogue split ran) stepped

/-- Asks for the items whose `a` is 1. -/
def wantsA : Bytes := ascii "\x7b\"prefix\":\"ab\",\"filters\":\x7b\"a\":1\x7d\x7d"

/-- Asks for the items whose `b` is 2. -/
def wantsB : Bytes := ascii "\x7b\"prefix\":\"ab\",\"filters\":\x7b\"b\":2\x7d\x7d"

/-- Asks for all items. -/
def wantsAll : Bytes := ascii "\x7b\"prefix\":\"ab\"\x7d"

def parseWanted : Parser := fun text =>
  if text = wantsA then
    some (.object [(ascii "prefix", .string (ascii "ab")), (ascii "filters", .object [(ascii "a", .ofUint 1)])])
  else if text = wantsB then
    some (.object [(ascii "prefix", .string (ascii "ab")), (ascii "filters", .object [(ascii "b", .ofUint 2)])])
  else if text = wantsAll then some (.object [(ascii "prefix", .string (ascii "ab"))])
  else none

/-- Every field is visible. -/
def openService : Service where
  around := ⟨Config.loadVisibility default [star] [], default, .insertion _⟩
  aside := Aside.ofConfig (Config.loadVisibility default [star] [])
  parse := parseWanted
  fieldSet := .insertion _

/-- One item, whose `b` is 2. -/
def oneItem : Store :=
  (Keeper.attach .empty [Keeper.keyAB] (.sent 1 [(ascii "b", .ofUint 2)]) true).2

/-- The identifiers of the items in an answer. -/
def Answer.ids : Answer → List IdT
  | .predicted items _ _ _ => items.map Item.id
  | _ => []

theorem alike_wantsA_wantsAll :
    (run (step openService oneItem) .start [wantsA, wantsAll]).isSome = true ∧
      Throughout (step openService oneItem) .start [wantsA, wantsAll] (Alike openService oneItem) := by
  refine ⟨rfl, alike_throughout openService oneItem [wantsA, wantsAll] ?_⟩
  rw [eachStep_cons]
  refine ⟨fun _ wish spelled => ⟨Or.inr (congrArg Prod.fst spelled.fields), fun _ =>
    ⟨fun _ _ => rfl, fun _ _ => rfl⟩⟩, fun next _ => ?_⟩
  rw [eachStep_cons]
  refine ⟨fun _ wish spelled => ⟨Or.inr (congrArg Prod.fst spelled.fields), fun _ => ?_⟩,
    fun _ _ before _ _ _ split => ?_⟩
  · have parsed : some (Value.object [(ascii "prefix", .string (ascii "ab"))]) = some (.object wish.body) :=
      spelled.parsed
    have filters := spelled.filters
    have excludes := spelled.excludes
    rw [← Value.object.inj (Option.some.inj parsed)] at filters excludes
    have unfiltered : wish.filters = none := (Option.some.inj filters).symm
    have unexcluded : wish.excludes = none := (Option.some.inj excludes).symm
    simp [unfiltered, unexcluded]
  · simp at split

/-- After a query for `a`, the query for `b` still looks for `a` as well, and finds nothing. -/
theorem reused_unalike : ∃ middle next, step openService oneItem .start wantsA = some middle ∧
    step openService oneItem middle wantsB = some next ∧ next.log.map (fun entry => entry.2.ids) = [[], []] ∧
    (answer openService oneItem create wantsB).map (fun result => result.1.ids) = .ok [1] ∧
    ¬Alike openService oneItem next := by
  refine ⟨_, _, rfl, rfl, rfl, rfl, fun alike => ?_⟩
  obtain ⟨reply, after, answered, same⟩ :=
    alike wantsB _ (List.mem_append_right _ (List.mem_singleton_self _))
  cases answered
  cases same

/-- Asks for three fields. -/
def wantsFields : Bytes := ascii "\x7b\"prefix\":\"ab\",\"fields\":[\"x\",\"y\",\"a\"]\x7d"

def parseFields : Parser := fun text =>
  if text = wantsFields then
    some (.object [(ascii "prefix", .string (ascii "ab")),
      (ascii "fields", .array [.string (ascii "x"), .string (ascii "y"), .string (ascii "a")])])
  else none

/-- The fields `x` and `y` are invisible. A set that has grown iterates backwards. -/
def growingService : Service where
  around := ⟨Config.loadVisibility default [star] [ascii "x", ascii "y"], default, .insertion _⟩
  aside := Aside.ofConfig (Config.loadVisibility default [star] [ascii "x", ascii "y"])
  parse := parseFields
  fieldSet :=
    ⟨fun buckets => if buckets = 0 then .insertion _ else ⟨List.reverse, List.reverse_perm⟩, fun _ _ => 1⟩

/-- The fields of an answer. -/
def Answer.fields : Answer → List Bytes
  | .predicted _ fields _ _ => fields
  | _ => []

/-- One payload sent twice is answered with `y` and `a`, then with `a` and `x`. -/
theorem regrown_unalike : ∃ middle next, step growingService oneItem .start wantsFields = some middle ∧
    step growingService oneItem middle wantsFields = some next ∧
    next.log.map (fun entry => entry.2.fields) = [[ascii "y", ascii "a"], [ascii "a", ascii "x"]] ∧
    ¬Alike growingService oneItem next := by
  refine ⟨_, _, rfl, rfl, rfl, fun alike => ?_⟩
  obtain ⟨reply, after, answered, same⟩ :=
    alike wantsFields _ (List.mem_append_right _ (List.mem_singleton_self _))
  cases answered
  cases same with
  | predicted perm written => exact absurd perm (by decide)

end Predicter

end Taboo
