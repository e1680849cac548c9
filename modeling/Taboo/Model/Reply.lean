import Taboo.Container.FiniteMap
import Taboo.Model.Config
import Taboo.Model.Item

/-! # Replies and error codes

Replies are JSON texts built by hand. Those of the error codes are built once, when the router
starts, and looked up by code afterwards.
-/

namespace Taboo

open Std

/-- `ec_t` -/
abbrev Ec := ℤ

/-- `ECAlloctor<moduleId, handlerId>::ECC<ecId>` -/
def ecc (moduleId handlerId ecId : ℤ) : Ec := moduleId * 100000 + handlerId * 1000 + ecId

inductive MemMode
  | persist
  | mustFree
  | mustCopy
deriving DecidableEq, Repr

structure Reply where
  content : Bytes
  memMode : MemMode
deriving DecidableEq, Repr

/-- `boost::lexical_cast<std::string>` of an integer. -/
def decimal (value : ℤ) : Bytes :=
  (if value < 0 then ascii "-" else []) ++ (Nat.toDigits 10 value.natAbs).map fun digit => digit.toUInt8

def quotation : UInt8 := 34

def escapedQuotation : Bytes := ascii "\\\""

/-- The loop of `quote`: `segment` is what lies between `consumed` and `pos`. -/
def quoteLoop (segment : Bytes) : Bytes → Bytes
  | [] => segment
  | byte :: rest =>
      if byte = quotation then segment ++ escapedQuotation ++ quoteLoop [] rest
      else quoteLoop (segment ++ [byte]) rest

def quote (str : Bytes) : Bytes := quoteLoop [] str

/-- `Reply(MemMode)` ignores its argument, so every generated reply is to be copied. -/
def genReply (config : Config) (errCode : Ec) (errDesc : Bytes) : Reply where
  content := ascii "\x7b\"" ++ config.keyMDErrCode ++ ascii "\":" ++ decimal errCode ++
    (if errDesc = [] then []
      else ascii ",\"" ++ config.keyMDErrDesc ++ ascii "\":\"" ++
        (if quotation ∈ errDesc then quote errDesc else errDesc) ++ ascii "\"") ++ ascii "\x7d"
  memMode := .mustCopy

/-- `SharedReplyMap` -/
abbrev Replys := ExtTreeMap Ec Reply

/-- Like every `insert`, it keeps the reply that a code already has. -/
def fillReply (config : Config) (replys : Replys) (errCode : Ec) (errDesc : Bytes) : Replys :=
  replys.insertIfNew errCode (genReply config errCode errDesc)

theorem mem_fillReply {config : Config} {replys : Replys} {errCode other : Ec} {errDesc : Bytes} :
    other ∈ fillReply config replys errCode errDesc ↔ other = errCode ∨ other ∈ replys :=
  FiniteMap.mem_insertIfNew ..

end Taboo
