import Mathlib.Data.Set.List
import Taboo.Model.Keeper
import Taboo.Model.ManageHandler

/-! # Attach requests

`deal` reads its keys, its item and its upsert flag from the parameters and hands them to the keeper. An
empty key ends the process. The functions are written for any keeper and its keys: the one on the trie
takes keys without zero bytes, the one on cedar's arrays takes any words.
-/

namespace Taboo

open BaseHandler ManageHandler

/-- `manager::AttachHandler` adds no member. -/
abbrev AttachHandler := Handler (Manage Unit)

namespace AttachHandler

def errNoKeys : Ec := ecc 1 2 1
def errCreateItem : Ec := ecc 1 2 2
def errAlreadyExists : Ec := ecc 1 2 3
def errAttachKeys : Ec := ecc 1 2 4
def errAttachItem : Ec := ecc 1 2 5

/-- `GetString` and `GetStringLength` of an element. -/
def keyOf : Value → Except Fault Bytes
  | .string value => .ok value
  | _ => .error .badAccess

/-- Only an array yields keys: the branch for a single string tests for an array again. -/
def getKeys (config : Config) (parse : Parser) (params : ParamMap) : Except Fault (List Bytes) :=
  match params[config.keyMUPrefixes]? with
  | none => .ok []
  | some text =>
      match parse (cStr text) with
      | some (.array elements) => elements.mapM keyOf
      | _ => .ok []

/-- What `update` asks of a key: an empty one ends the process. -/
def toWord (bytes : Bytes) : Except Fault Bytes := if bytes = [] then .error .badKey else .ok bytes

/-- A key of the trie. A zero byte, which the arrays follow like any other, has no place there. -/
def toKey (bytes : Bytes) : Except Fault Key :=
  if empty : bytes = [] then .error .badKey
  else if zero : 0 ∈ bytes then .error .zeroByte
  else .ok ⟨bytes, empty, zero⟩

def zeroDigit : UInt8 := 48

/-- Upsert is on unless the parameter begins with `0`. -/
def upsertFlag (config : Config) (params : ParamMap) : Bool :=
  match params[config.keyMUUpsert]? with
  | none => true
  | some [] => true
  | some (first :: _) => first != zeroDigit

/-- The arguments of one `Keeper::attach`. -/
structure RequestOf (κ : Type) where
  keys : List κ
  item : Item
  upsert : Bool

abbrev Request := RequestOf Key

def okReply (config : Config) : Reply := genReply config errOk []

section

variable {κ σ : Type} (config : Config) (parse : Parser) (toKey : Bytes → Except Fault κ)
  (attach : σ → List κ → Item → Bool → Bool × σ)

/-- `deal` before it calls the keeper: an error code, or the arguments of that call. -/
def requestOf (params : ParamMap) : Except Fault (Ec ⊕ RequestOf κ) := do
  let keys ← getKeys config parse params
  if keys = [] then return .inl errNoKeys
  else
    match params[config.keyMUItem]? with
    | none => return .inl errBadParam
    | some text =>
        match ← makeItem parse config.keyId text with
        | none => return .inl errCreateItem
        | some item => return .inr ⟨← keys.mapM toKey, item, upsertFlag config params⟩

def dealOf (handler : AttachHandler) (store : σ) : Except Fault (Option Result × σ) := do
  match ← requestOf config parse toKey handler.params with
  | .inl code => return (some ⟨none, code⟩, store)
  | .inr request =>
      let answer := attach store request.keys request.item request.upsert
      if answer.1 then return (some ⟨some (okReply config), errOk⟩, answer.2)
      else return (some ⟨none, errAlreadyExists⟩, answer.2)

end

def request (config : Config) (parse : Parser) (params : ParamMap) : Except Fault (Ec ⊕ Request) :=
  requestOf config parse toKey params

def deal (config : Config) (parse : Parser) (handler : AttachHandler) (store : Store) :
    Except Fault (Option Result × Store) :=
  dealOf config parse toKey Keeper.attach handler store

/-- Where success is recognised from the argument, it is for a whole list as well. -/
theorem mapM_ok_iff {α β : Type} {read : α → Except Fault β} {write : β → α}
    (reads : ∀ source target, read source = .ok target ↔ source = write target) (sources : List α)
    (targets : List β) : sources.mapM read = .ok targets ↔ sources = targets.map write := by
  induction sources generalizing targets with
  | nil => cases targets <;> simp [pure, Except.pure]
  | cons source rest ih =>
    rw [List.mapM_cons]
    cases targets with
    | nil =>
      cases read source with
      | error fault => simp [bind, Except.bind]
      | ok target => cases rest.mapM read <;> simp [bind, Except.bind, pure, Except.pure]
    | cons target targets =>
      rw [List.map_cons, List.cons.injEq, ← reads, ← ih]
      cases read source with
      | error fault => simp [bind, Except.bind]
      | ok found => cases rest.mapM read <;> simp [bind, Except.bind, pure, Except.pure]

theorem mapM_ends_iff {α β : Type} {read : α → Except Fault β} {write : β → α}
    (reads : ∀ source target, read source = .ok target ↔ source = write target) (sources : List α) :
    (∃ targets, sources.mapM read = .ok targets) ↔ ∀ source ∈ sources, ∃ target, write target = source := by
  simp only [mapM_ok_iff reads, eq_comm (a := sources)]
  exact Set.ext_iff.mp (Set.range_list_map write) sources

theorem keyOf_ok_iff (element : Value) (bytes : Bytes) :
    keyOf element = .ok bytes ↔ element = .string bytes := by
  cases element <;> simp [keyOf]

theorem toKey_ok_iff (bytes : Bytes) (key : Key) : toKey bytes = .ok key ↔ bytes = key.bytes := by
  unfold toKey
  split_ifs with empty zero
  · exact iff_of_false (by simp) fun same => key.nonempty (same ▸ empty)
  · exact iff_of_false (by simp) fun same => key.noZero (same ▸ zero)
  · simp [Key.ext_iff]

theorem toWord_ok_iff (bytes word : Bytes) : toWord bytes = .ok word ↔ bytes = word ∧ word ≠ [] := by
  unfold toWord
  split_ifs with empty
  · exact iff_of_false (by simp) fun ⟨same, nonempty⟩ => nonempty (same ▸ empty)
  · simp only [Except.ok.injEq]
    exact ⟨fun same => ⟨same, same ▸ empty⟩, And.left⟩

/-- The keys of a list spell it. -/
theorem toKeys_ok (keys : KeyList) : (keys.map Key.bytes).mapM toKey = .ok keys :=
  (mapM_ok_iff toKey_ok_iff ..).mpr rfl

theorem keeper_true_of_upsert (store : Store) (keys : KeyList) (item : Item) :
    (Keeper.attach store keys item true).1 = true := by
  simp [Keeper.attach]

section

variable {config : Config} {parse : Parser} {κ σ : Type} {toKey : Bytes → Except Fault κ}
  {attach : σ → List κ → Item → Bool → Bool × σ}

/-- How far a request gets, and with what. -/
theorem requestOf_cases {params : ParamMap} {outcome : Ec ⊕ RequestOf κ}
    (sent : requestOf config parse toKey params = .ok outcome) :
    (getKeys config parse params = .ok [] ∧ outcome = .inl errNoKeys) ∨
      ∃ keys, getKeys config parse params = .ok keys ∧ keys ≠ [] ∧
        ((params[config.keyMUItem]? = none ∧ outcome = .inl errBadParam) ∨
          ∃ text, params[config.keyMUItem]? = some text ∧
            ((makeItem parse config.keyId text = .ok none ∧ outcome = .inl errCreateItem) ∨
              ∃ (item : Item) (listed : List κ), makeItem parse config.keyId text = .ok (some item) ∧
                keys.mapM toKey = .ok listed ∧ outcome = .inr ⟨listed, item, upsertFlag config params⟩)) := by
  simp only [requestOf, bind, Except.bind, pure, Except.pure] at sent
  cases read : getKeys config parse params with
  | error fault => simp [read] at sent
  | ok keys =>
    simp only [read] at sent
    split_ifs at sent with nothing
    · cases sent
      exact Or.inl ⟨by rw [nothing], rfl⟩
    · refine Or.inr ⟨keys, rfl, nothing, ?_⟩
      split at sent
      · next absent =>
        cases sent
        exact Or.inl ⟨absent, rfl⟩
      · next text given =>
        refine Or.inr ⟨text, given, ?_⟩
        cases made : makeItem parse config.keyId text with
        | error fault => simp [made] at sent
        | ok item =>
          cases item with
          | none =>
            simp only [made] at sent
            cases sent
            exact Or.inl ⟨rfl, rfl⟩
          | some item =>
            cases taken : keys.mapM toKey with
            | error fault => simp [made, taken] at sent
            | ok listed =>
              simp only [made, taken] at sent
              cases sent
              exact Or.inr ⟨item, listed, rfl, rfl, rfl⟩

/-- A code of `requestOf` is the result, and otherwise the keeper decides. -/
theorem dealOf_cases {handler : AttachHandler} {store after : σ} {result : Option Result}
    (done : dealOf config parse toKey attach handler store = .ok (result, after)) :
    (∃ code, requestOf config parse toKey handler.params = .ok (.inl code) ∧ result = some ⟨none, code⟩ ∧
        after = store) ∨
      ∃ sent, requestOf config parse toKey handler.params = .ok (.inr sent) ∧
        after = (attach store sent.keys sent.item sent.upsert).2 ∧
          result = if (attach store sent.keys sent.item sent.upsert).1 then
            some ⟨some (okReply config), errOk⟩ else some ⟨none, errAlreadyExists⟩ := by
  simp only [dealOf, bind, Except.bind, pure, Except.pure] at done
  cases sent : requestOf config parse toKey handler.params with
  | error fault => simp [sent] at done
  | ok outcome =>
    cases outcome with
    | inl code =>
      simp only [sent] at done
      cases done
      exact Or.inl ⟨code, rfl, rfl, rfl⟩
    | inr arguments =>
      simp only [sent] at done
      refine Or.inr ⟨arguments, rfl, ?_⟩
      split_ifs at done with accepted
      · cases done
        exact ⟨rfl, (if_pos accepted).symm⟩
      · cases done
        exact ⟨rfl, (if_neg accepted).symm⟩

/-- On the trie the keys spell what was read. -/
theorem request_cases {params : ParamMap} {outcome : Ec ⊕ Request}
    (sent : request config parse params = .ok outcome) :
    (getKeys config parse params = .ok [] ∧ outcome = .inl errNoKeys) ∨
      ∃ keys, getKeys config parse params = .ok keys ∧ keys ≠ [] ∧
        ((params[config.keyMUItem]? = none ∧ outcome = .inl errBadParam) ∨
          ∃ text, params[config.keyMUItem]? = some text ∧
            ((makeItem parse config.keyId text = .ok none ∧ outcome = .inl errCreateItem) ∨
              ∃ (item : Item) (listed : KeyList), makeItem parse config.keyId text = .ok (some item) ∧
                keys = listed.map Key.bytes ∧ outcome = .inr ⟨listed, item, upsertFlag config params⟩)) := by
  rcases requestOf_cases sent with nothing | ⟨keys, read, listed, absent | ⟨text, given, failed |
    ⟨item, taken, made, spelled, same⟩⟩⟩
  · exact Or.inl nothing
  · exact Or.inr ⟨keys, read, listed, Or.inl absent⟩
  · exact Or.inr ⟨keys, read, listed, Or.inr ⟨text, given, Or.inl failed⟩⟩
  · exact Or.inr ⟨keys, read, listed, Or.inr ⟨text, given, Or.inr ⟨item, taken, made,
      (mapM_ok_iff toKey_ok_iff keys taken).mp spelled, same⟩⟩⟩

theorem code_of_request {params : ParamMap} {code : Ec}
    (sent : requestOf config parse toKey params = .ok (.inl code)) :
    code = errNoKeys ∨ code = errBadParam ∨ code = errCreateItem := by
  rcases requestOf_cases sent with
    ⟨_, same⟩ | ⟨_, _, _, ⟨_, same⟩ | ⟨_, _, ⟨_, same⟩ | ⟨_, _, _, _, same⟩⟩⟩
  · exact Or.inl (Sum.inl.inj same)
  · exact Or.inr (Or.inl (Sum.inl.inj same))
  · exact Or.inr (Or.inr (Sum.inl.inj same))
  · cases same

theorem deal_cases {handler : AttachHandler} {store after : Store} {result : Option Result}
    (done : deal config parse handler store = .ok (result, after)) :
    (∃ code, request config parse handler.params = .ok (.inl code) ∧ result = some ⟨none, code⟩ ∧
      after = store) ∨
      ∃ sent, request config parse handler.params = .ok (.inr sent) ∧
        after = (Keeper.attach store sent.keys sent.item sent.upsert).2 ∧
          result = if (Keeper.attach store sent.keys sent.item sent.upsert).1 then
            some ⟨some (okReply config), errOk⟩ else some ⟨none, errAlreadyExists⟩ :=
  dealOf_cases done

end

def checkParams (config : Config) (handler : AttachHandler) : Ec :=
  if ¬(config.checkSign ∧ handler.own.sign = []) ∧ config.keyMUKey ∈ handler.params ∧
      config.keyMUPrefixes ∈ handler.params ∧ config.keyMUItem ∈ handler.params then errOk
  else errBadParam

theorem checkParams_cases (config : Config) (handler : AttachHandler) :
    checkParams config handler = errOk ∨ checkParams config handler = errBadParam := by
  unfold checkParams
  split_ifs <;> simp

def processOf {κ σ : Type} (config : Config) (parse : Parser) (digest : Bytes → Bytes)
    (toKey : Bytes → Except Fault κ) (attach : σ → List κ → Item → Bool → Bool × σ) (handler : AttachHandler)
    (store : σ) : Except Fault (Option Result × σ) :=
  ManageHandler.process config digest (checkParams config) (dealOf config parse toKey attach · store)
    (fun result => .ok (result, store)) handler

def process (config : Config) (parse : Parser) (digest : Bytes → Bytes) (handler : AttachHandler)
    (store : Store) : Except Fault (Option Result × Store) :=
  processOf config parse digest toKey Keeper.attach handler store

/-- `Keeper::attach` on the trie for a list of words, if they are keys; `astray` for any other list. -/
def attachWords (astray : Store → List Bytes → Item → Bool → Bool × Store) (store : Store)
    (words : List Bytes) (item : Item) (upsert : Bool) : Bool × Store :=
  match words.mapM toKey with
  | .ok keys => Keeper.attach store keys item upsert
  | .error _ => astray store words item upsert

/-! ### The call of the keeper -/

section

variable (config : Config) (parse : Parser) (digest : Bytes → Bytes)

/-- The call of the keeper that a request leads to, if it comes that far. -/
def requested (handler : AttachHandler) : Option (RequestOf Bytes) :=
  if validate config digest (checkParams config) handler = errOk then
    match requestOf config parse toWord handler.params with
    | .ok (.inr request) => some request
    | _ => none
  else none

variable {config parse digest} {σ : Type} (attach : σ → List Bytes → Item → Bool → Bool × σ)
  {handler : AttachHandler}

/-- The words of a request are not empty. -/
theorem requested_nonempty {request : RequestOf Bytes}
    (reaches : requested config parse digest handler = some request) : ∀ word ∈ request.keys, word ≠ [] := by
  have words : ∀ sources targets : List Bytes, sources.mapM toWord = .ok targets →
      ∀ word ∈ targets, word ≠ [] := by
    intro sources
    induction sources with
    | nil =>
      intro targets taken
      cases taken
      simp
    | cons source rest ih =>
      intro targets taken
      rw [List.mapM_cons] at taken
      cases here : toWord source with
      | error fault => simp [here, bind, Except.bind] at taken
      | ok word =>
        cases others : rest.mapM toWord with
        | error fault => simp [here, others, bind, Except.bind] at taken
        | ok words =>
          simp only [here, others, bind, Except.bind, pure, Except.pure, Except.ok.injEq] at taken
          subst taken
          exact List.forall_mem_cons.mpr ⟨((toWord_ok_iff ..).mp here).2, ih words others⟩
  unfold requested at reaches
  split_ifs at reaches with valid
  split at reaches
  · next sent =>
    cases reaches
    rcases requestOf_cases sent with
      ⟨_, same⟩ | ⟨keys, _, _, ⟨_, same⟩ | ⟨_, _, ⟨_, same⟩ | ⟨_, _, _, taken, same⟩⟩⟩
    · cases same
    · cases same
    · cases same
    · cases same
      exact words keys _ taken
  · cases reaches

/-- A request that reaches the keeper is answered by what the keeper returns. -/
theorem processOf_requested {request : RequestOf Bytes}
    (reaches : requested config parse digest handler = some request) (store : σ) :
    ∃ result, processOf config parse digest toWord attach handler store =
        .ok (some result, (attach store request.keys request.item request.upsert).2) ∧
      (result.code = errOk ↔ (attach store request.keys request.item request.upsert).1 = true) := by
  unfold requested at reaches
  split_ifs at reaches with valid
  split at reaches
  · next sent =>
    cases reaches
    simp only [processOf, ManageHandler.process, valid, if_true, dealOf, sent, pure, Except.pure, bind,
      Except.bind]
    split_ifs with accepted
    · exact ⟨_, rfl, iff_of_true rfl accepted⟩
    · exact ⟨_, rfl, iff_of_false (by decide) accepted⟩
  · cases reaches

/-- Every other request leaves the store alone. -/
theorem processOf_unrequested (stays : requested config parse digest handler = none) {store after : σ}
    {result : Option Result}
    (done : processOf config parse digest toWord attach handler store = .ok (result, after)) :
    after = store := by
  unfold requested at stays
  simp only [processOf, ManageHandler.process] at done
  split_ifs at stays done with valid
  · rcases dealOf_cases done with ⟨_, _, _, same⟩ | ⟨arguments, sent, _, _⟩
    · exact same
    · simp [sent] at stays
  · cases done
    rfl

end

/-- `AttachHandler::initReplys`, but for `okReply`. -/
def initReplys (config : Config) (replys : Replys) : Replys :=
  let replys := fillReply config replys errNoKeys (ascii "no prefixes supplied")
  let replys := fillReply config replys errCreateItem (ascii "failed on creating item")
  let replys := fillReply config replys errAlreadyExists
    (ascii "all keys already exist or item already exists")
  let replys := fillReply config replys errAttachKeys (ascii "failed on attaching prefixes")
  fillReply config replys errAttachItem (ascii "failed on attaching item")

end AttachHandler

end Taboo
