import Taboo.Model.ManageHandler
import Taboo.Text.SeparatedFields

/-! # What a signature covers

The signed text joins its fields without escaping them. It determines the request as long as the
separators cannot be mistaken for parts of the fields.
-/

namespace Taboo.ManageHandler

open BaseHandler Separated

/-- The separators close every field of the request. -/
structure Unambiguous (config : Config) (uri method : Bytes) (params : ParamMap) : Prop where
  uri : Closes config.signDelimiter uri
  method : Closes config.signDelimiter method
  keys : ∀ entry ∈ params.toList, Closes config.signHyphen entry.1
  values : ∀ entry ∈ params.toList, Closes config.signDelimiter entry.2

/-- For separators of one byte, it is enough that no field contains the one behind it. -/
theorem unambiguous_of_single {config : Config} {delimiter hyphen : UInt8} {uri method : Bytes}
    {params : ParamMap} (delimiters : config.signDelimiter = [delimiter]) (hyphens : config.signHyphen = [hyphen])
    (fields : delimiter ∉ uri ∧ delimiter ∉ method)
    (entries : ∀ entry ∈ params.toList, hyphen ∉ entry.1 ∧ delimiter ∉ entry.2) :
    Unambiguous config uri method params := by
  refine ⟨?_, ?_, ?_, ?_⟩ <;> simp only [delimiters, hyphens, closes_singleton_iff]
  · exact fields.1
  · exact fields.2
  · exact fun entry member => (entries entry member).1
  · exact fun entry member => (entries entry member).2

/-- The signed text of unambiguous requests determines them. -/
theorem signedText_inj {config : Config} (delimited : config.signDelimiter ≠ [])
    {uri uri' method method' : Bytes} {params params' : ParamMap}
    (plain : Unambiguous config uri method params) (plain' : Unambiguous config uri' method' params')
    (same : signedText config uri method params = signedText config uri' method' params') :
    uri = uri' ∧ method = method' ∧ params = params' := by
  simp only [signedText, List.append_assoc] at same
  obtain ⟨rfl, behindUri⟩ := plain.uri.append_inj plain'.uri same
  obtain ⟨rfl, behindMethod⟩ := plain.method.append_inj plain'.method behindUri
  refine ⟨rfl, rfl, Std.ExtTreeMap.toList_inj.mp ?_⟩
  -- each entry, read from behind the delimiter in front of it to the one behind it
  have blocks := congrArg (· ++ config.signDelimiter) (List.append_cancel_left behindMethod)
  simp only [flatMap_shift] at blocks
  apply flatMap_inj ?_ ?_ (List.append_cancel_left blocks)
  · intro entry empty
    exact delimited (List.append_eq_nil_iff.mp empty).2
  · rintro ⟨key, value⟩ member ⟨key', value'⟩ member' rest rest' front
    simp only [List.append_assoc] at front
    obtain ⟨rfl, behindKey⟩ := (plain.keys _ member).append_inj (plain'.keys _ member') front
    obtain ⟨rfl, behindValue⟩ := (plain.values _ member).append_inj (plain'.values _ member') behindKey
    exact ⟨rfl, behindValue⟩

theorem checkSign_ok {config : Config} (on : config.checkSign = true) {digest : Bytes → Bytes} {τ : Type}
    {handler : Handler (Manage τ)} (accepted : checkSign config digest handler = errOk) :
    digest (signedText config handler.uri handler.method handler.params) = handler.own.sign := by
  simp only [checkSign, on, Bool.not_true, Bool.false_eq_true, if_false] at accepted
  split_ifs at accepted with agree
  · exact agree
  · exact absurd accepted (by decide)

/-- Two unambiguous requests that are accepted with one signature are one request, if the digest has no
collisions. -/
theorem sign_covers_one {config : Config} (on : config.checkSign = true)
    (delimited : config.signDelimiter ≠ []) {digest : Bytes → Bytes} (collisionFree : Function.Injective digest)
    {τ : Type} {handler handler' : Handler (Manage τ)}
    (plain : Unambiguous config handler.uri handler.method handler.params)
    (plain' : Unambiguous config handler'.uri handler'.method handler'.params)
    (accepted : checkSign config digest handler = errOk) (accepted' : checkSign config digest handler' = errOk)
    (same : handler.own.sign = handler'.own.sign) :
    handler.uri = handler'.uri ∧ handler.method = handler'.method ∧ handler.params = handler'.params := by
  apply signedText_inj delimited plain plain'
  apply collisionFree
  rw [checkSign_ok on accepted, checkSign_ok on accepted', same]

/-! ### Requests with one signature -/

def secretS : Config := { (default : Config) with manageSecret := ascii "s" }

/-- A request with these parameters, signed. -/
def signedRequest (entries : List (String × String)) (sign : Bytes) : Handler (Manage Unit) where
  method := ascii "GET"
  uri := ascii "/manage/attach"
  params := entries.foldl (fun params entry => params.insertIfNew (ascii entry.1) (ascii entry.2)) ∅
  own := ⟨sign, ()⟩

/-- A digest with a given sum of one text. -/
def digestWith (text sum : Bytes) : Bytes → Bytes := fun other => if other = text then sum else 0 :: other

theorem digestWith_injective (text : Bytes) {sum : Bytes} (head : sum.head? ≠ some 0) :
    Function.Injective (digestWith text sum) := by
  intro left right same
  unfold digestWith at same
  split_ifs at same with first second second
  · exact first.trans second.symm
  · exact absurd (congrArg List.head? same) head
  · exact absurd (congrArg List.head? same.symm) head
  · exact (List.cons.inj same).2

def sumTwo : Bytes := ascii "d79b09cb16185e757e0ec55ef62b7bfe"

/-- MD5, as far as the requests below go. -/
def md5Two : Bytes → Bytes := digestWith (ascii "/manage/attach&GET&s&a=1&b=2") sumTwo

theorem md5Two_injective : Function.Injective md5Two := digestWith_injective _ (by decide)

def two : Handler (Manage Unit) := signedRequest [("a", "1"), ("b", "2")] sumTwo

/-- The same parameters, received in another order. -/
def reordered : Handler (Manage Unit) := signedRequest [("b", "2"), ("a", "1")] sumTwo

/-- One parameter whose value spells the second. -/
def spelled : Handler (Manage Unit) := signedRequest [("a", "1&b=2")] sumTwo

theorem sign_covers_one_reordered :
    two.uri = reordered.uri ∧ two.method = reordered.method ∧ two.params = reordered.params := by
  have plain : ∀ handler ∈ [two, reordered], Unambiguous secretS handler.uri handler.method handler.params := by
    intro handler member
    apply unambiguous_of_single rfl rfl <;> revert handler <;> decide
  exact @sign_covers_one secretS rfl (by decide) md5Two md5Two_injective Unit two reordered
    (plain two (by simp)) (plain reordered (by simp)) (by decide) (by decide) rfl

theorem spelled_accepted_as_two : Function.Injective md5Two ∧
    checkSign secretS md5Two two = errOk ∧ checkSign secretS md5Two spelled = errOk ∧
    two.own.sign = spelled.own.sign ∧ secretS.keyMUSign ∉ two.params ∧ secretS.keyMUSign ∉ spelled.params ∧
    two.params ≠ spelled.params :=
  ⟨md5Two_injective, by decide, by decide, rfl, by decide, by decide, by decide⟩

end Taboo.ManageHandler
