import Ost.Param.Security

/-!
# Parsing and negotiating key-value text

`param_text_parse` of `parameters.c`.  The same function reads the text an initiator
sent (incoming) and re-reads the text the target is about to send (outgoing); the
per-key flags decide whether a pair is an offer or an answer, an incoming offer makes
an answer, and an answer in either direction is negotiated and committed.

The C function is one loop whose body jumps between the labels `answer`, `add_answer`,
`negotiate` and `next`.  Each label is a function here.  A body returns `none` to go to
`next`, and `some rc` when the whole function returns `rc`.
-/

namespace Ost.Param

open Ost.Iscsi Ost.Util Ost.Prog

/-! ## Tokens -/

/-- The tokens of a text, with the token read so far: maximal runs without a NUL. -/
def tokensFrom : CStr → Bytes → List CStr
  | [], [] => []
  | c :: cur, [] => [c :: cur]
  | [], 0 :: text => tokensFrom [] text
  | c :: cur, 0 :: text => (c :: cur) :: tokensFrom [] text
  | cur, c :: text => tokensFrom (cur ++ [c]) text
termination_by structural _ text => text

/-- The tokens of a text. -/
def textTokens (text : Bytes) : List CStr := tokensFrom [] text

/-- Split a token at its first `=`. -/
def splitEq : CStr → Option (CStr × CStr)
  | [] => none
  | 61 :: t => some ([], t)
  | c :: t => (splitEq t).map fun kv => (c :: kv.1, kv.2)

/-- What the loop body works on. -/
inductive Item where
  | /-- The variables `key` and `value`; `value` is null until a token has had a `=`. -/
    pair (key : CStr) (value : Option CStr)
  | /-- A key that does not fit its buffer. -/
    tooLong (key : CStr)
deriving DecidableEq, Repr

/-- The items of a list of tokens.  A token without `=` leaves `key` and `value` as the
token before it left them, and they are processed once more. -/
def itemsFrom (key : CStr) (value : Option CStr) : List CStr → List Item
  | [] => []
  | t :: ts =>
    match splitEq t with
    | none => .pair key value :: itemsFrom key value ts
    | some (k, v) =>
      if k.length ≥ iscsiParamKeyLen - 1 then .tooLong k :: itemsFrom key value ts
      else .pair k (some v) :: itemsFrom k (some v) ts

/-- Whether `param_text_print` overruns its 256-byte key buffer. -/
def textPrintOverruns : List CStr → Bool
  | [] => false
  | t :: ts =>
    match splitEq t with
    | none => false
    | some (k, _) => k.length ≥ 256 || textPrintOverruns ts

/-- The pieces of a comma-separated list, with the piece read so far. -/
def commaFrom (cur : CStr) : CStr → List CStr
  | [] => [cur]
  | 44 :: s => cur :: commaFrom [] s
  | c :: s => commaFrom (cur ++ [c]) s

/-- The pieces of a comma-separated list. -/
def splitComma (s : CStr) : List CStr := commaFrom [] s

/-! ## Answers -/

/-- The values a binary key may be offered. -/
def isBinary (s : CStr) : Bool :=
  s = cstr "yes" || s = cstr "no" || s = cstr "Yes" || s = cstr "No"

/-- The answer to a list offer: the first offered value that is valid. -/
def listAnswer (valid offer : CStr) : CStr :=
  if valid = [] then (splitComma offer).headD []
  else ((splitComma offer).find? fun o => (splitComma valid).contains o).getD (cstr "Reject")

/-- The answer to a numerical offer. -/
def numericalAnswer (type : ParamType) (valid offer : CStr) : Int :=
  let offerI := toInt (iscsiAtoi offer)
  let maxI := toInt (iscsiAtoi valid)
  if type = .numericalZ then
    if maxI = 0 then offerI
    else if offerI = 0 then maxI
    else if offerI > maxI then maxI
    else offerI
  else if offerI > maxI then maxI
  else offerI

/-- The answer to an offer, by the type of its key; declarations are not answered. -/
def answerOf (p : IscsiParameter) (value : CStr) : Option CStr :=
  if value = cstr "?" then some (p.valueL.headD [])
  else match p.type with
    | .binaryOr | .binaryAnd =>
      if !isBinary value then some (cstr "Reject")
      else if p.valid.contains 44 then some value
      else some p.valid
    | .list => some (listAnswer p.valid p.offerRx.str)
    | .numerical | .numericalZ => some (decimal (numericalAnswer p.type p.valid p.offerRx.str))
    | .declarative | .declareMulti => none

/-! ## Negotiation -/

/-- How negotiating one key can end. -/
inductive Negotiation where
  | /-- The negotiated value. -/
    value (v : CStr)
  | /-- `PTP_WARN`: the whole parse returns 0. -/
    warn
  | /-- `PTP_ERROR`: the whole parse returns -1. -/
    error
deriving DecidableEq, Repr

/-- Whether a string says yes. -/
def saysYes (s : CStr) : Bool := s = cstr "yes" || s = cstr "Yes"

/-- The outcome of negotiating a binary key. -/
def negotiateBinary (outgoing : Bool) (p : IscsiParameter) : Negotiation :=
  let val₁ := if outgoing then p.offerRx.str else p.answerRx.str
  let val₂ := if outgoing then p.answerTx else p.offerTx
  if !outgoing && !isBinary val₁ && val₁ ≠ cstr "Irrelevant" then .warn
  else
    let yes := if p.type = .binaryOr then saysYes val₁ || saysYes val₂
      else saysYes val₁ && saysYes val₂
    .value (if yes then cstr "Yes" else cstr "No")

/-- The outcome of negotiating a numerical key. -/
def negotiateNumerical (outgoing : Bool) (p : IscsiParameter) : Negotiation :=
  let val₁ := toInt (iscsiAtoi (if outgoing then p.offerRx.str else p.answerRx.str))
  let val₂ := toInt (iscsiAtoi (if outgoing then p.answerTx else p.offerTx))
  .value <| decimal <|
    if p.type = .numericalZ then
      if val₁ = 0 then val₂
      else if val₂ = 0 then val₁
      else if val₁ > val₂ then val₂
      else val₁
    else if val₁ > val₂ then val₂
    else val₁

/-- Whether a list answer is acceptable. -/
def listValueOk (valid v : CStr) : Bool :=
  v = cstr "None" || v = cstr "Reject" || v = cstr "Irrelevant" || v = cstr "NotUnderstood" ||
    (valid ≠ [] && (splitComma valid).contains v)

/-- The outcome of negotiating a list key. -/
def negotiateList (outgoing : Bool) (p : IscsiParameter) : Negotiation :=
  let offered := if outgoing then p.txOffer else p.rxOffer
  let answered := if outgoing then p.txAnswer else p.rxAnswer
  let val₁ := if outgoing then p.answerTx else p.answerRx.str
  if offered then .error
  else if !answered then .error
  else if listValueOk p.valid val₁ then .value val₁
  else .error

/-- The outcome of negotiating a declaration. -/
def negotiateDeclarative (outgoing : Bool) (p : IscsiParameter) : Negotiation :=
  .value (if outgoing then p.offerTx else if p.rxOffer then p.offerRx.str else p.answerRx.str)

/-- The outcome of negotiating a key. -/
def negotiation (outgoing : Bool) (p : IscsiParameter) : Negotiation :=
  match p.type with
  | .declarative | .declareMulti => negotiateDeclarative outgoing p
  | .binaryAnd | .binaryOr => negotiateBinary outgoing p
  | .numerical | .numericalZ => negotiateNumerical outgoing p
  | .list => negotiateList outgoing p

/-- Inquiries are not committed. -/
def isInquiry (p : IscsiParameter) : Bool :=
  let q := cstr "?"
  (p.txOffer && p.offerTx = q) || (p.rxOffer && p.offerRx.str = q) ||
    (p.txAnswer && p.offerRx.str = q) || (p.rxAnswer && p.offerTx = q)

/-- Where a `DECLARE_MULTI` key stores its next value: the first empty item, else the last. -/
def multiIndex (l : List CStr) : Nat :=
  (l.dropLast.findIdx? (· = [])).getD (l.length - 1)

/-- Commit the negotiated value into the value list. -/
def commit (p : IscsiParameter) : IscsiParameter :=
  let valueL := if p.reset then [] else p.valueL
  let valueL := match valueL with
    | [] => [p.negotiated]
    | l => l.set (if p.type = .declareMulti then multiIndex l else 0) p.negotiated
  { p with reset := false, valueL }

variable (env : Env)

/-- The label `negotiate`. -/
def negotiate (outgoing : Bool) (p : IscsiParameter) : Prog Halt Parse (Option Int) := do
  match negotiation outgoing p with
  | .warn => return some 0
  | .error => return some (-1)
  | .value v =>
    setParam p.key fun q => { q with negotiated := v }
    logEvent (.negotiated p.key v)
    guarded (¬isInquiry p) (setParam p.key commit)
    return none

/-- The labels `answer` and `add_answer`. -/
def answer (p : IscsiParameter) (value : CStr) : Prog Halt Parse (Option Int) := do
  match answerOf p value with
  | none => return none
  | some a =>
    setParam p.key fun q => { q with answerTx := a }
    if !(← textAdd p.key a) then return some (-1)
    return none

/-- Store the result of the authentication in the parameter list. -/
def setAuthResult (v : CStr) : Prog Halt Parse PUnit :=
  setParam (cstr "AuthResult") fun q => { q with valueL := q.valueL.set 0 v }

/-- The parameter with a key, which the caller has already found. -/
def theParam (p : IscsiParameter) : Prog Halt Parse IscsiParameter :=
  gets fun s => (paramGet s.params p.key).getD p

/-- An answer arrives for an offer we sent. -/
def receiveAnswer (u : Users) (p : IscsiParameter) (value : CStr) :
    Prog Halt Parse (Option Int) := do
  setParam p.key fun q =>
    { q with rxAnswer := true, txOffer := false, answerRx := q.answerRx.strcpy value }
  if (← paramParseSecurity env u (← theParam p)) < 0 then return some (-2)
  negotiate false (← theParam p)

/-- An offer arrives. -/
def receiveOffer (u : Users) (p : IscsiParameter) (value : CStr) :
    Prog Halt Parse (Option Int) := do
  setParam p.key fun q => { q with rxOffer := true, offerRx := q.offerRx.strcpy value }
  let ret ← paramParseSecurity env u (← theParam p)
  if ret > 1 then return none
  if ret < 0 then
    setAuthResult (cstr "Fail")
    return some (-2)
  guarded (ret = 0) (setAuthResult (cstr "Yes"))
  let p ← theParam p
  if p.offerRx.str ≠ cstr "?" && (p.type = .declarative || p.type = .declareMulti) then
    negotiate false p
  else answer p value

/-- The target's own text goes out: an answer if there was an offer, else an offer. -/
def sendOut (p : IscsiParameter) (value : CStr) : Prog Halt Parse (Option Int) := do
  if p.rxOffer then
    setParam p.key fun q => { q with txAnswer := true, answerTx := value }
    negotiate true (← theParam p)
  else
    setParam p.key fun q => { q with txOffer := true, rxOffer := false, offerTx := value }
    if p.type = .declarative || p.type = .declareMulti then negotiate true (← theParam p)
    else return none

/-- One round of the loop of `param_text_parse`. -/
def parseItem (outgoing : Bool) (u : Users) : Item → Prog Halt Parse (Option Int)
  | .tooLong _ =>
    -- the copy of the key is one byte too short for its terminator
    if outgoing then return none else halt .fault
  | .pair key value => do
    guarded (!outgoing) <|
      modify fun s => { s with received := s.received ++ [(key, value.getD [])] }
    match paramGet (← get).params key with
    | none =>
      if outgoing then return none
      if !(← textAdd key (cstr "NotUnderstood")) then return some (-1)
      return none
    | some p =>
      match value with
      | none => halt .fault
      | some value =>
        if value.length > iscsiParamMaxLen then return some (-1)
        if value.length = iscsiParamMaxLen then halt .fault
        else if outgoing then sendOut p value
        else if p.txOffer then receiveAnswer env u p value
        else receiveOffer env u p value

/-- The loop of `param_text_parse`. -/
def parseItems (outgoing : Bool) (u : Users) : List Item → Prog Halt Parse Int
  | [] => return 0
  | it :: its => do
    match ← parseItem env outgoing u it with
    | some rc => return rc
    | none => parseItems outgoing u its

/-- The items of a text. -/
def textItems (text : Bytes) : List Item := itemsFrom env.staleKey none (textTokens text)

/-- `param_text_parse`. -/
def paramTextParse (text : Bytes) (outgoing : Bool) (u : Users) : Prog Halt Parse Int := do
  if textPrintOverruns (textTokens text) then halt .fault
  else
    guarded (!outgoing) (modify fun s => { s with textOut := [] })
    parseItems env outgoing u (textItems env text)

end Ost.Param
