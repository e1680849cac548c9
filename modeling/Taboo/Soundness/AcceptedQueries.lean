import Mathlib.Algebra.Group.Nat.Even
import Taboo.Soundness.Rebuild

/-! # What an accepted query can rely on

The prefix is measured before it is cut at its first zero byte, and its type is not looked at; the
loops that drop hidden fields step over the end of the set after an odd number of hidden names. Apart
from that, `rebuild` ends, and what it accepts is well formed.
-/

namespace Taboo

namespace Query

/-! ### The end of the loops -/

/-- How many hidden names there are at the end. -/
def hiddenTail (hidden : Bytes → Bool) (names : List Bytes) : ℕ := (names.reverse.takeWhile hidden).length

theorem hiddenTail_le (hidden : Bytes → Bool) (names : List Bytes) :
    hiddenTail hidden names ≤ names.length := by
  rw [← List.length_reverse]
  exact (List.takeWhile_prefix hidden).length_le

theorem hiddenTail_cons (hidden : Bytes → Bool) (name : Bytes) (rest : List Bytes) :
    hiddenTail hidden (name :: rest) =
      if hiddenTail hidden rest = rest.length ∧ hidden name = true then rest.length + 1
      else hiddenTail hidden rest := by
  unfold hiddenTail
  rw [List.reverse_cons, List.takeWhile_append, List.length_reverse]
  split_ifs with all both <;> simp_all

/-- The loop pairs each hidden name with the next one, so what matters is the run at the end. -/
theorem eraseLoop_ok_iff (hidden : Bytes → Bool) (names : List Bytes) :
    (∃ kept, eraseLoop hidden names = .ok kept) ↔ Even (hiddenTail hidden names) := by
  have keep : ∀ (name : Bytes) (rest : List Bytes),
      (∃ kept, (eraseLoop hidden rest).map (name :: ·) = .ok kept) ↔
      ∃ kept, eraseLoop hidden rest = .ok kept := by
    intro name rest
    cases eraseLoop hidden rest <;> simp [Except.map]
  fun_induction eraseLoop hidden names with
  | case1 => simp [hiddenTail]
  | case2 name hides => simp [hiddenTail, hides]
  | case3 name hides next rest ih =>
    refine (keep next rest).trans (ih.trans ?_)
    have short := hiddenTail_le hidden rest
    rw [hiddenTail_cons, hiddenTail_cons]
    simp only [hides, and_true, List.length_cons]
    split_ifs with all both
    · rw [all.1, Nat.even_add_one, Nat.even_add_one, not_not]
    · exact absurd rfl both
    · omega
    · rfl
  | case4 name rest shows ih =>
    refine (keep name rest).trans (ih.trans ?_)
    rw [hiddenTail_cons, if_neg fun both => shows both.2]

theorem reviseFields_ok_iff (aside : Aside) (hash : HashOrder Bytes) (names : List Bytes) :
    (∃ shown, reviseFields aside hash names = .ok shown) ↔ Even (hiddenTail aside.hides names) := by
  have loop : ∀ hidden : Bytes → Bool, aside.hides = hidden →
      ((∃ shown, (eraseLoop hidden names).map (·, false) = .ok shown) ↔
        Even (hiddenTail aside.hides names)) := by
    rintro hidden rfl
    rw [← eraseLoop_ok_iff]
    cases eraseLoop aside.hides names <;> simp [Except.map]
  unfold reviseFields
  split_ifs with all noneHidden nothing
  · refine iff_of_true ⟨_, rfl⟩ ?_
    have shows : ∀ rest : List Bytes, rest.takeWhile aside.hides = [] := by
      intro rest
      cases rest <;> simp [List.takeWhile, Aside.hides, all]
    simp [hiddenTail, shows]
  · refine iff_of_true ⟨_, rfl⟩ ?_
    simp [List.isEmpty_iff.mp nothing, hiddenTail]
  · apply loop
    simp [funext_iff, Aside.hides, all, noneHidden]
  · apply loop
    simp [funext_iff, Aside.hides, all, noneHidden]

/-- There is something to show: everything, a name that was asked for, or the visible fields. -/
def Selects (aside : Aside) (names : List Bytes) : Prop :=
  aside.queryVisibleAll = true ∨ names ≠ [] ∨ (aside.queryInvisibleFields = [] ∧ aside.queryVisibleFields ≠ [])

theorem reviseFields_selects {aside : Aside} {hash : HashOrder Bytes} {names : List Bytes}
    {shown : List Bytes × Bool} (revised : reviseFields aside hash names = .ok shown) :
    (shown.2 = true ∨ shown.1 ≠ []) ↔ Selects aside names := by
  have loop : ∀ hidden : Bytes → Bool, (eraseLoop hidden names).map (·, false) = .ok shown →
      ((shown.2 = true ∨ shown.1 ≠ []) ↔ names ≠ []) := by
    intro hidden done
    obtain ⟨fields, kept, rfl⟩ := ok_of_map done
    simp [eraseLoop_nil_iff kept]
  have ordered : hash.order aside.queryVisibleFields = [] ↔ aside.queryVisibleFields = [] := by
    rw [← List.length_eq_zero_iff, (hash.perm _).length_eq, List.length_eq_zero_iff]
  unfold reviseFields at revised
  split_ifs at revised with all noneHidden nothing
  · cases revised
    refine iff_of_true ?_ (Or.inl all)
    cases names <;> simp
  · cases revised
    simp [Selects, all, List.isEmpty_iff.mp nothing, List.isEmpty_iff.mp noneHidden, ordered]
  · have asked : names ≠ [] := by simpa using nothing
    rw [loop _ revised]
    exact iff_of_true asked (Or.inr (Or.inl asked))
  · have hides : aside.queryInvisibleFields ≠ [] := by simpa using noneHidden
    rw [loop _ revised]
    simp [Selects, all, hides]

/-! ### The postcondition -/

/-- `filters` or `excludes` where it is no `NULL`. -/
def Usable : Value → Prop
  | .object members => members ≠ []
  | .array elements => elements ≠ []
  | value => value.isUint = true

theorem condition_usable {found : Option Value} {value : Value} (good : condition found = some (some value)) :
    Usable value := by
  unfold condition at good
  split at good
  · cases good
  · split_ifs at good with empty
    · cases good
    · cases good
      simpa [Usable] using empty
  · split_ifs at good with empty
    · cases good
    · cases good
      simpa [Usable] using empty
  · cases good
  · next noObject noArray noNull =>
    split_ifs at good with unsigned
    cases good
    cases value with
    | object members => exact (noObject members rfl).elim
    | array elements => exact (noArray elements rfl).elim
    | null | bool | number | string => exact unsigned

/-- What the seeker and the writer of the reply rely on. -/
structure Ready (config : Config) (query : Query) : Prop where
  prefixed : query.queryPrefix ≠ []
  long : config.prefixMinLen ≤ query.queryPrefix.length ∧ query.queryPrefix.length ≤ config.prefixMaxLen
  filters : ∀ value, query.filters = some value → Usable value
  excludes : ∀ value, query.excludes = some value → Usable value
  selects : query.fieldsAll = true ∨ query.fields ≠ []

/-- `rebuild` ends, and what it accepts is ready. -/
def Established (config : Config) (aside : Aside) (parse : Parser) (hash : HashOrder Bytes) (query : Query)
    (text : Bytes) : Prop :=
  ∃ answer rebuilt, query.rebuild config aside parse hash text = .ok (answer, rebuilt) ∧
    (answer = true → Ready config rebuilt)

/-- The prefix is a string; and in a payload that is good up to its fields, an even number of hidden
names comes last, and the prefix is long enough up to its first zero byte if there is something to
show. -/
structure Regular (config : Config) (aside : Aside) (parse : Parser) (hash : HashOrder Bytes)
    (text : Bytes) : Prop where
  string : StringPrefix config parse text
  even : ∀ names, askedFields config parse hash text = some names → Even (hiddenTail aside.hides names)
  long : ∀ names, askedFields config parse hash text = some names → Selects aside names →
    ∀ body wanted, parse (cStr text) = some (.object body) →
      findMember body config.keyQUPrefix = some (.string wanted) → config.prefixMinLen ≤ (cStr wanted).length

/-- Of a wish that is accepted, only the lower bound of its prefix is open. -/
theorem Wish.Spelled.ready_iff {config : Config} {parse : Parser} {hash : HashOrder Bytes} {text : Bytes}
    {wish : Wish} (spelled : Wish.Spelled config parse hash text wish) {shown : List Bytes × Bool}
    (selects : shown.2 = true ∨ shown.1 ≠ []) :
    Ready config (wish.query config shown) ↔ config.prefixMinLen ≤ (cStr wish.wanted).length := by
  refine ⟨fun ready => ready.long.1, fun long => ?_⟩
  have valid := spelled.valid
  rw [prefixValid, decide_eq_true_eq] at valid
  refine ⟨spelled.nonempty, ⟨long, le_trans (cStr_length_le _) valid.2⟩, ?_, ?_, selects⟩
  · exact fun value there => condition_usable (spelled.filters.trans (congrArg some there))
  · exact fun value there => condition_usable (spelled.excludes.trans (congrArg some there))

/-- Exactly the regular payloads are dealt with as they should be, whatever the query was before. -/
theorem established_iff (config : Config) (aside : Aside) (parse : Parser) (hash : HashOrder Bytes)
    (query : Query) (text : Bytes) :
    Established config aside parse hash query text ↔ Regular config aside parse hash text := by
  constructor
  · rintro ⟨answer, rebuilt, ended, ready⟩
    have safe : ∀ fault, query.rebuild config aside parse hash text ≠ .error fault := by simp [ended]
    have revisable : ∀ names, askedFields config parse hash text = some names →
        ∃ shown, reviseFields aside hash names = .ok shown := by
      intro names asked
      obtain ⟨wish, spelled, rfl⟩ := askedFields_iff.mp asked
      cases revised : reviseFields aside hash wish.names with
      | ok shown => exact ⟨shown, rfl⟩
      | error fault => exact absurd ((rebuild_error_iff ..).mpr (Or.inr ⟨wish, spelled, revised⟩)) (safe fault)
    refine ⟨?_, fun names asked => ?_, fun names asked selects body wanted parsed found => ?_⟩
    · by_contra notString
      exact safe _ ((rebuild_error_iff ..).mpr (Or.inl ⟨notString, rfl⟩))
    · exact (reviseFields_ok_iff ..).mp (revisable names asked)
    · obtain ⟨shown, revised⟩ := revisable names asked
      obtain ⟨wish, spelled, rfl⟩ := askedFields_iff.mp asked
      have shows := (reviseFields_selects revised).mpr selects
      have accepted := (rebuild_accepted_iff aside query _).mpr ⟨wish, shown, spelled, revised, shows, rfl⟩
      rw [ended] at accepted
      cases accepted
      cases spelled.parsed.symm.trans parsed
      cases spelled.found.symm.trans found
      exact (spelled.ready_iff shows).mp (ready rfl)
  · intro regular
    cases ended : query.rebuild config aside parse hash text with
    | error fault =>
      rcases (rebuild_error_iff ..).mp ended with ⟨notString, _⟩ | ⟨wish, spelled, failed⟩
      · exact absurd regular.string notString
      · obtain ⟨shown, revised⟩ := (reviseFields_ok_iff aside hash wish.names).mpr
          (regular.even wish.names (askedFields_iff.mpr ⟨wish, spelled, rfl⟩))
        cases failed.symm.trans revised
    | ok outcome =>
      obtain ⟨answer, rebuilt⟩ := outcome
      refine ⟨answer, rebuilt, ended, ?_⟩
      rintro rfl
      obtain ⟨wish, shown, spelled, revised, shows, rfl⟩ := (rebuild_accepted_iff ..).mp ended
      refine (spelled.ready_iff shows).mpr ?_
      exact regular.long wish.names (askedFields_iff.mpr ⟨wish, spelled, rfl⟩)
        ((reviseFields_selects revised).mp shows) wish.body wish.wanted spelled.parsed spelled.found

/-- A payload whose prefix is a number. -/
def numberPrefix : Bytes := ascii "\x7b\"prefix\":1\x7d"

/-- A payload whose prefix has three bytes, the second of them zero. -/
def zeroInside : Bytes := ascii "\x7b\"prefix\":\"a\\u0000b\"\x7d"

def parsePrefix : Parser := fun text =>
  if text = numberPrefix then some (.object [(ascii "prefix", .ofUint 1)])
  else if text = zeroInside then some (.object [(ascii "prefix", .string [97, 0, 98])])
  else none

/-- With `id` and `name` visible, the first payload ends the process; the second one is accepted with a
prefix of one byte, where two are required. -/
theorem prefix_unestablished :
    fresh.rebuild (Config.loadVisibility default [ascii "id", ascii "name"] [])
      (Aside.ofConfig (Config.loadVisibility default [ascii "id", ascii "name"] [])) parsePrefix
      (.insertion _) numberPrefix = .error .badAccess ∧
    ¬Established (Config.loadVisibility default [ascii "id", ascii "name"] [])
      (Aside.ofConfig (Config.loadVisibility default [ascii "id", ascii "name"] [])) parsePrefix
      (.insertion _) fresh numberPrefix ∧
    ∃ accepted, fresh.rebuild (Config.loadVisibility default [ascii "id", ascii "name"] [])
        (Aside.ofConfig (Config.loadVisibility default [ascii "id", ascii "name"] [])) parsePrefix
        (.insertion _) zeroInside = .ok (true, accepted) ∧
      accepted.queryPrefix = ascii "a" ∧
      ¬Ready (Config.loadVisibility default [ascii "id", ascii "name"] []) accepted := by
  refine ⟨rfl, ?_, _, rfl, rfl, fun ready => ?_⟩
  · rintro ⟨answer, rebuilt, ended, _⟩
    cases ended
  · have long := ready.long.1
    revert long
    decide

end Query

end Taboo
