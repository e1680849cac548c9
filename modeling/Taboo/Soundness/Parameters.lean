import Taboo.Model.TokenHandler

/-! # What a handler keeps of its parameters

Of the values of a key the map keeps the first that is accepted; the signature is the last value of its
key. Both are read off the list of parameters in the order of their arrival.
-/

namespace Taboo.ManageHandler

open BaseHandler

/-- A `_reviewParam` that accepts what it does not judge. Of the key that it judges it accepts the values
that it can read, and keeps what it reads. -/
structure Review (τ : Type) where
  review : Bytes → Bytes → τ → Bool × τ
  judged : Option Bytes
  reading : Bytes → Option τ
  reads : ∀ key value own, review key value own =
    if judged = some key then ((reading value).isSome, (reading value).getD own) else (true, own)

/-- The review of all handlers but `TokenHandler`. -/
def Review.plain : Review Unit := ⟨_reviewParam, none, fun _ => none, fun _ _ _ => rfl⟩

/-- The object that a text parses as. -/
def objectOf (parse : Parser) (text : Bytes) : Option Value := (parse (cStr text)).filter Value.isObject

/-- The review of `TokenHandler`. -/
def Review.token (config : Config) (parse : Parser) : Review Value where
  review := TokenHandler._reviewParam config parse
  judged := some config.keyMUFilters
  reading := objectOf parse
  reads key value own := by
    simp only [TokenHandler._reviewParam, objectOf, Option.some.injEq, eq_comm (a := config.keyMUFilters)]
    split_ifs
    · cases parse (cStr value) with
      | none => rfl
      | some parsed => cases parsed <;> rfl
    · rfl

def Review.accepts {τ : Type} (hook : Review τ) (key value : Bytes) : Bool :=
  if hook.judged = some key then (hook.reading value).isSome else true

theorem Review.decides {τ : Type} (hook : Review τ) (key value : Bytes) (own : τ) :
    (hook.review key value own).1 = hook.accepts key value := by
  rw [hook.reads, Review.accepts]
  split_ifs <;> rfl

/-- The values of one key, in the order of their arrival. -/
def valuesOf (key : Bytes) (params : List (Bytes × Bytes)) : List Bytes :=
  (params.filter fun param => decide (param.1 = key)).map Prod.snd

theorem valuesOf_cons (key : Bytes) (param : Bytes × Bytes) (rest : List (Bytes × Bytes)) :
    valuesOf key (param :: rest) =
      if param.1 = key then param.2 :: valuesOf key rest else valuesOf key rest := by
  simp only [valuesOf, List.filter_cons, decide_eq_true_eq]
  split_ifs <;> rfl

section

variable {τ : Type} (config : Config) (hook : Review τ)

def addAll (handler : Handler (Manage τ)) (params : List (Bytes × Bytes)) : Handler (Manage τ) :=
  params.foldl (fun handler param => addParam (reviewParam config hook.review) handler param.1 param.2) handler

theorem addAll_cons (handler : Handler (Manage τ)) (param : Bytes × Bytes) (rest : List (Bytes × Bytes)) :
    addAll config hook handler (param :: rest) =
      addAll config hook (addParam (reviewParam config hook.review) handler param.1 param.2) rest := rfl

theorem addParam_params (handler : Handler (Manage τ)) (name value key : Bytes) :
    (addParam (reviewParam config hook.review) handler name value).params[key]? =
      if key = name ∧ key ≠ config.keyMUSign ∧ hook.accepts key value = true then
        handler.params[key]?.or (some value)
      else handler.params[key]? := by
  have verdict : (reviewParam config hook.review name value handler.own).1 = true ↔
      name ≠ config.keyMUSign ∧ hook.accepts name value = true := by
    unfold reviewParam
    split_ifs with signs
    · simp [signs]
    · simp [signs, hook.decides]
  simp only [addParam, verdict]
  split_ifs with accepted kept kept
  · obtain ⟨rfl, _⟩ := kept
    rw [FiniteMap.getElem?_insertIfNew]
    cases handler.params[key]? <;> simp
  · rw [FiniteMap.getElem?_insertIfNew, if_neg]
    rintro ⟨rfl, _⟩
    exact kept ⟨rfl, accepted⟩
  · obtain ⟨rfl, others⟩ := kept
    exact absurd others accepted
  · rfl

theorem addParam_sign (handler : Handler (Manage τ)) (name value : Bytes) :
    (addParam (reviewParam config hook.review) handler name value).own.sign =
      if name = config.keyMUSign then value else handler.own.sign := by
  simp only [addParam, reviewParam]
  split_ifs <;> rfl

/-- The map keeps what it has, and else the first accepted value. -/
theorem addAll_params (handler : Handler (Manage τ)) (params : List (Bytes × Bytes)) {key : Bytes}
    (other : key ≠ config.keyMUSign) : (addAll config hook handler params).params[key]? =
      handler.params[key]?.or ((valuesOf key params).find? (hook.accepts key)) := by
  induction params generalizing handler with
  | nil => simp [addAll, valuesOf]
  | cons param rest ih =>
    rw [addAll_cons, ih, addParam_params, valuesOf_cons]
    by_cases same : param.1 = key
    · cases accepted : hook.accepts key param.2 <;> simp [same, other, accepted]
    · simp [same, Ne.symm same]

/-- The signature is not a parameter. -/
theorem addAll_params_sign (handler : Handler (Manage τ)) (params : List (Bytes × Bytes)) :
    (addAll config hook handler params).params[config.keyMUSign]? = handler.params[config.keyMUSign]? := by
  induction params generalizing handler with
  | nil => rfl
  | cons param rest ih =>
    rw [addAll_cons, ih, addParam_params, if_neg]
    simp

/-- The last signature counts. -/
theorem addAll_sign (handler : Handler (Manage τ)) (params : List (Bytes × Bytes)) :
    (addAll config hook handler params).own.sign =
      (valuesOf config.keyMUSign params).getLast?.getD handler.own.sign := by
  induction params generalizing handler with
  | nil => rfl
  | cons param rest ih =>
    rw [addAll_cons, ih, addParam_sign, valuesOf_cons]
    split_ifs
    · rw [List.getLast?_cons]
      rfl
    · rfl

theorem addAll_meta (handler : Handler (Manage τ)) (params : List (Bytes × Bytes)) :
    (addAll config hook handler params).method = handler.method ∧
      (addAll config hook handler params).uri = handler.uri := by
  induction params generalizing handler with
  | nil => exact ⟨rfl, rfl⟩
  | cons param rest ih => exact ih _

/-- What the values leave of a member that each one that can be read replaces. -/
def lastRead (reading : Bytes → Option τ) (own : τ) (values : List Bytes) : τ :=
  (values.filterMap reading).getLast?.getD own

theorem addParam_own (handler : Handler (Manage τ)) (name value : Bytes) :
    (addParam (reviewParam config hook.review) handler name value).own.own =
      if name ≠ config.keyMUSign ∧ hook.judged = some name then (hook.reading value).getD handler.own.own
      else handler.own.own := by
  simp only [addParam, reviewParam, hook.reads]
  split_ifs <;> simp_all

/-- The last value that can be read counts. -/
theorem addAll_own (handler : Handler (Manage τ)) (params : List (Bytes × Bytes)) {key : Bytes}
    (other : key ≠ config.keyMUSign) (judges : hook.judged = some key) :
    (addAll config hook handler params).own.own =
      lastRead hook.reading handler.own.own (valuesOf key params) := by
  unfold lastRead
  induction params generalizing handler with
  | nil => rfl
  | cons param rest ih =>
    rw [addAll_cons, ih, addParam_own, valuesOf_cons]
    by_cases same : param.1 = key
    · cases read : hook.reading param.2 <;> simp [same, other, judges, read, List.getLast?_cons]
    · simp [same, judges, Ne.symm same]

/-- A hook that judges nothing, or what is taken for the signature, keeps nothing. -/
theorem addAll_own_unread (handler : Handler (Manage τ)) (params : List (Bytes × Bytes))
    (unread : ∀ key, hook.judged = some key → key = config.keyMUSign) :
    (addAll config hook handler params).own.own = handler.own.own := by
  induction params generalizing handler with
  | nil => rfl
  | cons param rest ih =>
    rw [addAll_cons, ih, addParam_own, if_neg]
    exact fun judges => judges.1 (unread _ judges.2)

end

end Taboo.ManageHandler
