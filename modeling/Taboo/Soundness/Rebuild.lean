import Taboo.Model.Query

/-! # What `rebuild` makes of a payload

A payload that is good up to its fields is a `Wish`; for such a one the revision of the fields decides,
and the query that comes out depends on nothing that was in it before. Every other payload is rejected,
or ends the process on a prefix that is no string.
-/

namespace Taboo

/-- The test that decides over a field. -/
def Aside.hides (aside : Aside) (name : Bytes) : Bool :=
  !aside.queryVisibleAll &&
    if aside.queryInvisibleFields.isEmpty then !aside.queryVisibleFields.contains name
    else aside.queryInvisibleFields.contains name

namespace Query

/-! ### The revision of the fields -/

/-- Past the end is the only way for the loop to fail. -/
theorem eraseLoop_error {hidden : Bytes → Bool} {names : List Bytes} {fault : Fault}
    (failed : eraseLoop hidden names = .error fault) : fault = .pastEnd := by
  fun_induction eraseLoop hidden names with
  | case1 => cases failed
  | case2 => exact (Except.error.inj failed).symm
  | case3 name hides next rest ih => exact ih (error_of_map failed)
  | case4 name rest shows ih => exact ih (error_of_map failed)

/-- The loop keeps at least one of the names it is given. -/
theorem eraseLoop_nil_iff {hidden : Bytes → Bool} {names kept : List Bytes}
    (done : eraseLoop hidden names = .ok kept) : kept = [] ↔ names = [] := by
  fun_induction eraseLoop hidden names with
  | case1 =>
    cases done
    exact iff_of_true rfl rfl
  | case2 => cases done
  | case3 name hides next rest ih =>
    obtain ⟨others, _, rfl⟩ := ok_of_map done
    simp
  | case4 name rest shows ih =>
    obtain ⟨others, _, rfl⟩ := ok_of_map done
    simp

/-- The revision by the test that decides over a field. -/
theorem reviseFields_eq (aside : Aside) (hash : HashOrder Bytes) (names : List Bytes) :
    reviseFields aside hash names =
      if aside.queryVisibleAll then .ok (names, names.isEmpty)
      else if aside.queryInvisibleFields = [] ∧ names = [] then .ok (hash.order aside.queryVisibleFields, false)
      else (eraseLoop aside.hides names).map (·, false) := by
  unfold reviseFields
  split_ifs with all noneHidden nothing both both
  · rfl
  · rfl
  · simp_all
  · simp_all
  · congr 2
    funext name
    simp [Aside.hides, all, noneHidden]
  · simp_all
  · congr 2
    funext name
    simp [Aside.hides, all, noneHidden]

theorem reviseFields_error {aside : Aside} {hash : HashOrder Bytes} {names : List Bytes} {fault : Fault}
    (failed : reviseFields aside hash names = .error fault) : fault = .pastEnd := by
  unfold reviseFields at failed
  split_ifs at failed
  · exact eraseLoop_error (error_of_map failed)
  · exact eraseLoop_error (error_of_map failed)

/-- Whole documents are shown only where no field is hidden. -/
theorem reviseFields_all {aside : Aside} {hash : HashOrder Bytes} {names : List Bytes}
    {shown : List Bytes × Bool} (revised : reviseFields aside hash names = .ok shown) (all : shown.2 = true)
    (name : Bytes) : aside.hides name = false := by
  have partly : ∀ result : Except Fault (List Bytes), result.map (·, false) ≠ .ok shown := by
    intro result partly
    obtain ⟨kept, _, rfl⟩ := ok_of_map partly
    cases all
  unfold reviseFields at revised
  split_ifs at revised with everything
  · simp [Aside.hides, everything]
  · cases revised
    cases all
  · exact absurd revised (partly _)
  · exact absurd revised (partly _)

/-! ### Payloads -/

/-- A payload that is good up to its fields, with the names it asks for in iteration order. -/
structure Wish where
  body : Members
  wanted : Bytes
  filters : Option Value
  excludes : Option Value
  names : List Bytes

/-- The payload spells this wish. -/
structure Wish.Spelled (config : Config) (parse : Parser) (hash : HashOrder Bytes) (text : Bytes)
    (wish : Wish) : Prop where
  parsed : parse (cStr text) = some (.object wish.body)
  found : findMember wish.body config.keyQUPrefix = some (.string wish.wanted)
  valid : prefixValid config wish.wanted.length = true
  nonempty : cStr wish.wanted ≠ []
  filters : condition (findMember wish.body config.keyQUFilters) = some wish.filters
  excludes : condition (findMember wish.body config.keyQUExcludes) = some wish.excludes
  fields : requestedFields hash (findMember wish.body config.keyQUFields) = (wish.names, true)

/-- The query that the wish becomes once its fields are revised. -/
def Wish.query (config : Config) (wish : Wish) (shown : List Bytes × Bool) : Query where
  fields := shown.1
  queryPrefix := cStr wish.wanted
  echoData := if config.keyQEchoData.isEmpty then none else findMember wish.body config.keyQEchoData
  filters := wish.filters
  excludes := wish.excludes
  num := wantedNum config (findMember wish.body config.keyQUNum)
  fieldsAll := shown.2

/-- The prefix of the payload, if it has one, is a string. -/
def StringPrefix (config : Config) (parse : Parser) (text : Bytes) : Prop :=
  ∀ body value, parse (cStr text) = some (.object body) → findMember body config.keyQUPrefix = some value →
    value.isString = true

/-- The names that the payload asks for, in iteration order, if it is good enough for `rebuild` to come
to the revision of the fields. -/
def askedFields (config : Config) (parse : Parser) (hash : HashOrder Bytes) (text : Bytes) :
    Option (List Bytes) :=
  match parse (cStr text) with
  | some (.object body) =>
      match findMember body config.keyQUPrefix with
      | some (.string wanted) =>
          if prefixValid config wanted.length ∧ cStr wanted ≠ [] ∧
              (condition (findMember body config.keyQUFilters)).isSome ∧
              (condition (findMember body config.keyQUExcludes)).isSome ∧
              (requestedFields hash (findMember body config.keyQUFields)).2 then
            some (requestedFields hash (findMember body config.keyQUFields)).1
          else none
      | _ => none
  | _ => none

variable {config : Config} {parse : Parser} {hash : HashOrder Bytes} {query : Query} {text : Bytes}

theorem askedFields_iff {names : List Bytes} : askedFields config parse hash text = some names ↔
    ∃ wish, Wish.Spelled config parse hash text wish ∧ wish.names = names := by
  constructor
  · intro asked
    unfold askedFields at asked
    split at asked
    · next body parsed =>
      split at asked
      · next wanted found =>
        split_ifs at asked with good
        obtain ⟨valid, nonempty, filters, excludes, strings⟩ := good
        obtain ⟨filters, filtersGood⟩ := Option.isSome_iff_exists.mp filters
        obtain ⟨excludes, excludesGood⟩ := Option.isSome_iff_exists.mp excludes
        exact ⟨⟨body, wanted, filters, excludes, names⟩, ⟨parsed, found, valid, nonempty, filtersGood,
          excludesGood, Prod.ext (Option.some.inj asked) strings⟩, rfl⟩
      · cases asked
    · cases asked
  · rintro ⟨wish, spelled, rfl⟩
    simp [askedFields, spelled.parsed, spelled.found, spelled.valid, spelled.nonempty, spelled.filters,
      spelled.excludes, spelled.fields]

theorem stringPrefix_iff {body : Members} (parsed : parse (cStr text) = some (.object body)) :
    StringPrefix config parse text ↔
      ∀ value, findMember body config.keyQUPrefix = some value → value.isString = true := by
  constructor
  · exact fun good value found => good body value parsed found
  · intro good other value parsed' found
    cases parsed.symm.trans parsed'
    exact good value found

theorem Wish.Spelled.stringPrefix {wish : Wish} (spelled : Wish.Spelled config parse hash text wish) :
    StringPrefix config parse text := by
  rw [stringPrefix_iff spelled.parsed, spelled.found]
  rintro value ⟨⟩
  rfl

/-- For a wish the revision decides. -/
theorem Wish.Spelled.rebuild_eq {wish : Wish} (spelled : Wish.Spelled config parse hash text wish)
    (aside : Aside) (query : Query) : ∃ rejected : List Bytes × Bool → Query,
      query.rebuild config aside parse hash text = (reviseFields aside hash wish.names).map fun shown =>
        if shown.2 = true ∨ shown.1 ≠ [] then (true, wish.query config shown) else (false, rejected shown) := by
  let read : Query := { query with
    queryPrefix := cStr wish.wanted, filters := wish.filters, excludes := wish.excludes }
  have come : query.rebuild config aside parse hash text =
      (reviseFields aside hash wish.names).map (finish config wish.body read) := by
    simp [rebuild, spelled.parsed, spelled.found, spelled.valid, spelled.nonempty, rebuildConditions,
      spelled.filters, spelled.excludes, rebuildFields, spelled.fields, read]
  refine ⟨fun shown => { read with fields := shown.1, fieldsAll := shown.2 }, come.trans ?_⟩
  congr 1
  funext shown
  obtain ⟨fields, all⟩ := shown
  cases all <;> cases fields <;> rfl

/-- A prefix that is a string leads to the fields, which spell no wish, or is turned away before. -/
theorem rebuild_refused (aside : Aside) (query : Query) {body : Members} {wanted : Bytes}
    (parsed : parse (cStr text) = some (.object body))
    (found : findMember body config.keyQUPrefix = some (.string wanted))
    (early : ∀ wish, ¬Wish.Spelled config parse hash text wish) :
    ∃ rejected, query.rebuild config aside parse hash text = .ok (false, rejected) := by
  simp only [rebuild, parsed, found]
  split_ifs with short empty
  · exact ⟨_, rfl⟩
  · exact ⟨_, rfl⟩
  · unfold rebuildConditions
    cases filters : condition (findMember body config.keyQUFilters) with
    | none => exact ⟨_, rfl⟩
    | some filter =>
      cases excludes : condition (findMember body config.keyQUExcludes) with
      | none => exact ⟨_, rfl⟩
      | some exclude =>
        cases strings : (requestedFields hash (findMember body config.keyQUFields)).2 with
        | false =>
          simp only [rebuildFields, strings]
          exact ⟨_, rfl⟩
        | true =>
          have wish := early ⟨body, wanted, filter, exclude,
            (requestedFields hash (findMember body config.keyQUFields)).1⟩
          exact absurd ⟨parsed, found, by simpa using short, empty, filters, excludes,
            Prod.ext rfl strings⟩ wish

/-- A payload that spells no wish is rejected, or ends the process before the fields are revised. -/
theorem rebuild_unwished (aside : Aside) (query : Query)
    (early : ∀ wish, ¬Wish.Spelled config parse hash text wish) :
    (StringPrefix config parse text ∧
        ∃ rejected, query.rebuild config aside parse hash text = .ok (false, rejected)) ∨
      (¬StringPrefix config parse text ∧ query.rebuild config aside parse hash text = .error .badAccess) := by
  cases parsed : parse (cStr text) with
  | none => exact Or.inl ⟨by simp [StringPrefix, parsed], query, by simp [rebuild, parsed]⟩
  | some value =>
    cases value with
    | object body =>
      cases found : findMember body config.keyQUPrefix with
      | none =>
        refine Or.inl ⟨by simp [stringPrefix_iff parsed, found], ?_⟩
        simp only [rebuild, parsed, found]
        exact ⟨_, rfl⟩
      | some wanted =>
        cases wanted with
        | string wanted =>
          have prefixed : StringPrefix config parse text := by
            simp [stringPrefix_iff parsed, found, Value.isString]
          exact Or.inl ⟨prefixed, rebuild_refused aside query parsed found early⟩
        | null | bool | number | array | object =>
          refine Or.inr ⟨?_, by simp [rebuild, parsed, found]⟩
          simp [stringPrefix_iff parsed, found, Value.isString]
    | null | bool | number | string | array =>
      exact Or.inl ⟨by simp [StringPrefix, parsed], query, by simp [rebuild, parsed]⟩

/-- What `rebuild` accepts, and as what. The query it started from does not matter. -/
theorem rebuild_accepted_iff (aside : Aside) (query accepted : Query) :
    query.rebuild config aside parse hash text = .ok (true, accepted) ↔
      ∃ wish shown, Wish.Spelled config parse hash text wish ∧
        reviseFields aside hash wish.names = .ok shown ∧ (shown.2 = true ∨ shown.1 ≠ []) ∧
        accepted = wish.query config shown := by
  constructor
  · intro done
    by_cases wished : ∃ wish, Wish.Spelled config parse hash text wish
    · obtain ⟨wish, spelled⟩ := wished
      obtain ⟨rejected, come⟩ := spelled.rebuild_eq aside query
      rw [come] at done
      obtain ⟨shown, revised, answer⟩ := ok_of_map done
      split_ifs at answer with selects
      · exact ⟨wish, shown, spelled, revised, selects, (congrArg Prod.snd answer).symm⟩
      · cases congrArg Prod.fst answer
    · rcases rebuild_unwished aside query (not_exists.mp wished) with ⟨_, rejected, early⟩ | ⟨_, failed⟩
      · cases early.symm.trans done
      · cases failed.symm.trans done
  · rintro ⟨wish, shown, spelled, revised, selects, rfl⟩
    obtain ⟨rejected, come⟩ := spelled.rebuild_eq aside query
    rw [come, revised]
    simp only [Except.map, if_pos selects]

theorem rebuild_error_iff (aside : Aside) (query : Query) (fault : Fault) :
    query.rebuild config aside parse hash text = .error fault ↔
      (¬StringPrefix config parse text ∧ fault = .badAccess) ∨
        ∃ wish, Wish.Spelled config parse hash text wish ∧
          reviseFields aside hash wish.names = .error fault := by
  by_cases wished : ∃ wish, Wish.Spelled config parse hash text wish
  · obtain ⟨wish, spelled⟩ := wished
    obtain ⟨rejected, come⟩ := spelled.rebuild_eq aside query
    rw [come]
    constructor
    · exact fun failed => Or.inr ⟨wish, spelled, error_of_map failed⟩
    · rintro (⟨notString, _⟩ | ⟨other, spelled', failed⟩)
      · exact absurd spelled.stringPrefix notString
      · have same := askedFields_iff.mpr ⟨other, spelled', rfl⟩
        rw [askedFields_iff.mpr ⟨wish, spelled, rfl⟩] at same
        rw [Option.some.inj same, failed]
        rfl
  · have unwished := not_exists.mp wished
    rcases rebuild_unwished aside query unwished with ⟨string, rejected, early⟩ | ⟨notString, failed⟩
    · rw [early]
      refine iff_of_false (by simp) ?_
      rintro (⟨notString, _⟩ | ⟨wish, spelled, _⟩)
      · exact notString string
      · exact unwished wish spelled
    · rw [failed]
      constructor
      · exact fun same => Or.inl ⟨notString, (Except.error.inj same).symm⟩
      · rintro (⟨_, rfl⟩ | ⟨wish, spelled, _⟩)
        · rfl
        · exact absurd spelled (unwished wish)

end Query

end Taboo
