import Taboo.Model.BaseHandler
import Taboo.Model.Seeker

/-! # Answers to queries

What the predicter writes for the items that the seeker found. The written document is a value; how
the writer spells it does not matter here.
-/

namespace Taboo

/-- The mutable members of `BasePredicter`; `buckets` are those of the query's set of fields. -/
structure Predicter where
  query : Query
  buckets : ℕ
  seeker : Seeker

namespace Predicter

def create : Predicter := ⟨.fresh, 0, .fresh⟩

/-- `addItems` for a set of fields, in the order of the set. -/
def addItems (fields : List Bytes) (items : List Item) : List Members :=
  items.map fun item => fields.filterMap fun key => (findMember item.dom key).map (key, ·)

/-- `addItems` for whole documents. -/
def addDocuments (items : List Item) : List Members := items.map Item.dom

/-- The members written for each item. -/
def payload (query : Query) (items : List Item) : List Members :=
  if query.fieldsAll then addDocuments items else addItems query.fields items

/-- `writer.Uint` of an `int32_t`. -/
def unsigned (code : ℤ) : Value :=
  .number (.integer (code % 2 ^ 32) ⟨by omega, by omega⟩)

def formReply (config : Config) (query : Query) (items : List Item) (errCode : ℤ) : Value :=
  .object ([(config.keyQDErrCode, unsigned errCode),
    (config.keyQDPayload, .array ((payload query items).map .object))] ++
    query.echoData.toList.map fun echo => (config.keyQEchoData, echo))

/-- `predict`, whose seeker keeps its chain and items for the next query. -/
def predict (around : Surroundings) (store : Store) (seeker : Seeker) (query : Query) : Value × Seeker :=
  let found := seeker.seek around store query
  (formReply around.config query found.items 0, found)

/-- What a predicter runs with besides the store. -/
structure Service where
  around : Surroundings
  aside : Aside
  parse : Parser
  fieldSet : HashBuckets Bytes

/-- The two replies to bad requests, or the items found, the fields selected, and the document written
of them. -/
inductive Answer
  | noQuery
  | badQuery
  | predicted (items : List Item) (fields : List Bytes) (fieldsAll : Bool) (reply : Value)

/-- `process` of both predicters, once they have a payload. -/
def answer (service : Service) (store : Store) (predicter : Predicter) (payload : Bytes) :
    Except Fault (Answer × Predicter) :=
  if service.around.config.queryDataMaxSize < payload.length then .ok (.badQuery, predicter)
  else
    (predicter.query.rebuild service.around.config service.aside service.parse
        (service.fieldSet.order predicter.buckets) payload).map fun rebuilt =>
      let buckets := Query.bucketsAfter service.around.config service.aside service.parse service.fieldSet
        predicter.buckets payload
      if rebuilt.1 then
        let found := predict service.around store predicter.seeker rebuilt.2
        (.predicted found.2.items rebuilt.2.fields rebuilt.2.fieldsAll found.1, ⟨rebuilt.2, buckets, found.2⟩)
      else (.badQuery, { predicter with query := rebuilt.2, buckets })

/-- `WsPredicter::process` -/
def processWs (service : Service) (store : Store) (predicter : Predicter) (message : Bytes) :
    Except Fault (Answer × Predicter) :=
  if message = [] then .ok (.noQuery, predicter) else answer service store predicter message

/-- `HttpPredicter::process` -/
def processHttp (service : Service) (store : Store) (predicter : Predicter) (params : ParamMap) :
    Except Fault (Answer × Predicter) :=
  match params[service.around.config.keyQUPayload]? with
  | none => .ok (.noQuery, predicter)
  | some payload => answer service store predicter payload

end Predicter

end Taboo
