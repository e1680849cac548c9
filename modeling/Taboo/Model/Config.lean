import Mathlib.Data.List.Dedup
import Mathlib.Data.List.DropRight
import Taboo.Model.Json
import Taboo.Text.Segments

/-! # Options and the visibility sets

The options that the modelled functions read, the part of `loadOptions` that decides which item
fields are visible, and the sets that `Aside` derives from it.
-/

namespace Taboo

structure Config where
  prefixMinLen : ℕ
  prefixMaxLen : ℕ
  queryDataMaxSize : ℕ
  maxIterations : ℕ
  maxMatches : ℕ
  defaultMatches : ℕ
  checkSign : Bool
  manageSecret : Bytes
  signHyphen : Bytes
  signDelimiter : Bytes
  tokenDefaultExpire : ℤ
  keyMUKey : Bytes
  keyMUSign : Bytes
  keyMUPrefixes : Bytes
  keyMUItem : Bytes
  keyMUUpsert : Bytes
  keyMUIdenty : Bytes
  keyMUFilters : Bytes
  keyMUExpire : Bytes
  keyMDErrCode : Bytes
  keyMDErrDesc : Bytes
  keyId : Bytes
  keyQEchoData : Bytes
  keyQUPayload : Bytes
  keyQUPrefix : Bytes
  keyQUFilters : Bytes
  keyQUExcludes : Bytes
  keyQUFields : Bytes
  keyQUNum : Bytes
  keyQDErrCode : Bytes
  keyQDPayload : Bytes
  queryVisibleFields : List Bytes
  queryInvisibleFields : List Bytes
  queryVisibleAll : Bool

/-- The defaults of `initDesc`, before `loadOptions`. The secret has none, and no option sets
`tokenDefaultExpire`. -/
instance : Inhabited Config where
  default :=
    { prefixMinLen := 2
      prefixMaxLen := 60
      queryDataMaxSize := 4 * 2 ^ 10
      maxIterations := 10 * 2 ^ 10
      maxMatches := 100
      defaultMatches := 10
      checkSign := true
      manageSecret := []
      signHyphen := ascii "="
      signDelimiter := ascii "&"
      tokenDefaultExpire := 0
      keyMUKey := ascii "key"
      keyMUSign := ascii "sign"
      keyMUPrefixes := ascii "prefixes"
      keyMUItem := ascii "item"
      keyMUUpsert := ascii "upsert"
      keyMUIdenty := ascii "tid"
      keyMUFilters := ascii "filters"
      keyMUExpire := ascii "expire"
      keyMDErrCode := ascii "code"
      keyMDErrDesc := ascii "desc"
      keyId := ascii "id"
      keyQEchoData := ascii "echoData"
      keyQUPayload := ascii "data"
      keyQUPrefix := ascii "prefix"
      keyQUFilters := ascii "filters"
      keyQUExcludes := ascii "excludes"
      keyQUFields := ascii "fields"
      keyQUNum := ascii "num"
      keyQDErrCode := ascii "code"
      keyQDPayload := ascii "data"
      queryVisibleFields := []
      queryInvisibleFields := []
      queryVisibleAll := false }

def star : Bytes := ascii "*"

/-- `loadOptions`, from the names that `series` splits the two options into. The invisible ones are
read only where the visible ones are `*` or none; otherwise their list stays empty. -/
def Config.loadVisibility (config : Config) (visible invisible : List Bytes) : Config :=
  let visibleAll := decide (visible = [star])
  let queryInvisibleFields := if visible = [] ∨ visibleAll then invisible else []
  { config with
    queryVisibleFields := visible
    queryInvisibleFields
    queryVisibleAll := visibleAll && queryInvisibleFields.isEmpty }

namespace Config

/-- `is_any_of(",\n")` -/
def isSeparator (byte : UInt8) : Bool := byte == 44 || byte == 10

/-- `std::isspace` of the classic locale. -/
def isSpace (byte : UInt8) : Bool := byte == 32 || (9 ≤ byte && byte ≤ 13)

/-- `trim_copy` -/
def trim (text : Bytes) : Bytes := (text.dropWhile isSpace).rdropWhile isSpace

/-- `series<std::string>`, whose cast of a segment to a string changes nothing. -/
def series (option : Bytes) : List Bytes := (Segments.pieces isSeparator option).map trim

/-- The visibility options, as they are given. -/
def loadOptions (config : Config) (visible invisible : Bytes) : Config :=
  config.loadVisibility (series visible) (series invisible)

end Config

/-- The query part of `Aside`; sets of strings, so each name occurs once. -/
structure Aside where
  queryVisibleFields : List Bytes
  queryInvisibleFields : List Bytes
  queryVisibleAll : Bool

/-- `Aside::Aside` -/
def Aside.ofConfig (config : Config) : Aside where
  queryVisibleFields :=
    if ¬config.queryVisibleAll ∧ config.queryVisibleFields ≠ [] ∧ config.queryVisibleFields ≠ [star] then
      config.queryVisibleFields.dedup
    else []
  queryInvisibleFields := if ¬config.queryVisibleAll then config.queryInvisibleFields.dedup else []
  queryVisibleAll := config.queryVisibleAll

end Taboo
