import Ost.Param.Basic

/-!
# The security keys

`HexTextToData` and `HexDataToText` of `util.c`, and `param_parse_security` of
`parameters.c`, which runs the CHAP exchange as a side effect of parsing the keys
`AuthMethod`, `CHAP_A`, `CHAP_I`, `CHAP_C`, `CHAP_N` and `CHAP_R`.

MD5 and the random generator are parameters: `Env.md5` is any function with 16-byte
results, and every connection has its own arbitrary stream of random bytes.

`ParamState` carries two ghost fields that no program reads: the key-value pairs
received so far, and the authentication events so far.
-/

namespace Ost.Param

open Ost.Iscsi Ost.Util Ost.Prog

/-! ## Hexadecimal text -/

/-- `HexStringIndex` in `"0123456789abcdefABCDEF"`, with the upper case folded. -/
def hexIndex (c : UInt8) : Option UInt8 :=
  if 48 ≤ c ∧ c ≤ 57 then some (c - 48)
  else if 97 ≤ c ∧ c ≤ 102 then some (c - 87)
  else if 65 ≤ c ∧ c ≤ 70 then some (c - 55)
  else none

/-- One of the first sixteen characters of `"0123456789abcdefABCDEF"`. -/
def hexChar (n : UInt8) : UInt8 := if n < 10 then 48 + n else 87 + n

/-- `HexDataToText` into a buffer that is long enough. -/
def hexDataToText (data : Bytes) : CStr :=
  48 :: 120 :: data.flatMap fun (n : UInt8) => [hexChar (n >>> 4), hexChar (n &&& 0xf)]

/-- The main loop of `HexTextToData`: the return value and the bytes written so far. -/
def hexPairs (dataLength : Nat) : CStr → Bytes → Int × Bytes
  | [], acc => (if acc.length = 0 then -1 else acc.length, acc)
  | [_], acc => (-1, acc)
  | c₁ :: c₂ :: text, acc =>
    match hexIndex c₁, hexIndex c₂ with
    | some n₁, some n₂ =>
      if acc.length ≥ dataLength then (-1, acc)
      else hexPairs dataLength text (acc ++ [n₁ <<< 4 ||| n₂])
    | _, _ => (-1, acc)

/-- `HexTextToData` on the string in a buffer: the return value and the bytes it wrote.
A leading `0` takes the next character with it, whatever it is; on the string `0` that
is the terminator, and the text goes on with what is stale behind it. -/
def hexTextToData (text : CBuf) (dataLength : Nat) : Int × Bytes :=
  let body := match text.str with
    | [48] => text.tail.takeWhile (· ≠ 0)
    | 48 :: _ :: s => s
    | s => s
  if text.str.length % 2 = 1 then
    match body with
    | [] => (-1, [])
    | c :: body =>
      match hexIndex c with
      | none => (-1, [])
      | some n => if dataLength < 1 then (-1, []) else hexPairs dataLength body [n]
  else hexPairs dataLength body []

/-! ## State of a text exchange -/

/-- `SECURITY_COOKIE_T`. -/
structure Cookie where
  idData : UInt8
  chapdata : Bytes
  respdata : Bytes
deriving DecidableEq, Repr

/-- `ISCSI_CHAP_C_MAX_DATA_LENGTH`. -/
def chapCMaxDataLength : Nat := 1024

/-- `ISCSI_CHAP_C_DATA_LENGTH_T` and `ISCSI_CHAP_C_DATA_LENGTH_I`. -/
def chapCDataLength : Nat := 16

/-- `ISCSI_CHAP_R_DATA_LENGTH`. -/
def chapRDataLength : Nat := 16

/-- An array after `bs` has been written at its beginning. -/
def overlay (buf bs : Bytes) : Bytes := bs ++ buf.drop bs.length

/-- What happened in the authentication of a session. -/
inductive AuthEvent where
  | /-- The target generated an identifier and a challenge and offered them. -/
    issued (id : UInt8) (challenge : Bytes)
  | /-- `param->negotiated` of a key was set. -/
    negotiated (key value : CStr)
  | /-- An incoming `CHAP_R` with this value passed the comparison. -/
    accepted (value : CStr)
deriving DecidableEq, Repr

/-- The environment of the daemon. -/
structure Env where
  /-- MD5 of a byte string. -/
  md5 : Bytes → Bytes
  /-- A digest has 16 bytes. -/
  md5_length : ∀ x, (md5 x).length = 16
  /-- `g_hostname`. -/
  hostname : CStr
  /-- `g_TargetAddress`. -/
  targetAddress : CStr
  /-- What `iscsi_malloc` returns for the key buffer of `param_text_parse`. -/
  staleKey : CStr

/-- A digest of zeros is long enough. -/
theorem length_zeroDigest (_ : Bytes) : (List.replicate 16 (0 : UInt8)).length = 16 := rfl

/-- The parameters of a session with its security cookie. -/
structure ParamState where
  params : Params
  /-- `g_cookie[sess->id]`. -/
  cookie : Option Cookie
  /-- What `malloc` returns for the cookie. -/
  heapCookie : Cookie
  /-- The bytes `GenRandomData` draws. -/
  rand : Nat → UInt8
  /-- How many it has drawn. -/
  randPos : Nat
  /-- Ghost: the pairs processed as incoming, oldest first. -/
  received : List (CStr × CStr)
  /-- Ghost: the authentication events, oldest first. -/
  log : List AuthEvent

/-- A text exchange: the parameters, and the response text under construction. -/
structure Parse extends ParamState where
  textOut : Bytes

/-- The four credentials a text is parsed with.  Where `initiatorUser` is `none`, the code
passes a pointer to the current value of `CHAP_N`. -/
structure Users where
  initiatorUser : Option CStr
  initiatorPass : CStr
  targetUser : CStr
  targetPass : CStr

variable (env : Env)

/-- Change one parameter in place. -/
def setParam (key : CStr) (f : IscsiParameter → IscsiParameter) : Prog Halt Parse PUnit :=
  modify fun s => { s with params := paramModify s.params key f }

/-- `PARAM_TEXT_ADD_ELSE`: whether the text fitted. -/
def textAdd (key value : CStr) : Prog Halt Parse Bool := do
  match paramTextAdd key value (← get).textOut with
  | none => return false
  | some text =>
    modify fun s => { s with textOut := text }
    return true

/-- The user name the pointer `InitiatorUser` leads to. -/
def initiatorUser (u : Users) : Prog Halt Parse CStr :=
  gets fun s => u.initiatorUser.getD ((paramVal s.params (cstr "CHAP_N")).getD [])

/-- Record an authentication event. -/
def logEvent (e : AuthEvent) : Prog Halt Parse PUnit :=
  modify fun s => { s with log := s.log ++ [e] }

/-- The cookie, allocated on first use. -/
def getCookie : Prog Halt Parse Cookie := do
  let s ← get
  match s.cookie with
  | some c => return c
  | none =>
    modify fun s => { s with cookie := some s.heapCookie }
    return s.heapCookie

/-- Change the cookie. -/
def setCookie (c : Cookie) : Prog Halt Parse PUnit := modify fun s => { s with cookie := some c }

/-- `GenRandomData`. -/
def genRandomData (length : Nat) : Prog Halt Parse Bytes := do
  let s ← get
  modify fun s => { s with randPos := s.randPos + length }
  return (List.range length).map fun i => s.rand (s.randPos + i)

/-- `param_get` where the result is tested against `NULL`: whether the parameter is there. -/
def found (key : CStr) : Prog Halt Parse Bool := gets fun s => (paramGet s.params key).isSome

/-! ## `param_parse_security`, key by key -/

/-- Offer a fresh identifier and a fresh challenge as `CHAP_I` and `CHAP_C`. -/
def offerChallenge : Prog Halt Parse Bool := do
  if !(← found (cstr "CHAP_I")) then return false
  setParam (cstr "CHAP_I") fun p => { p with txOffer := false, rxOffer := false }
  let id ← genRandomData 1
  let idData := byte id 0
  let c ← getCookie
  setCookie { c with idData }
  let chapstring := decimal idData.toNat
  setParam (cstr "CHAP_I") fun p => { p with offerTx := chapstring }
  if !(← textAdd (cstr "CHAP_I") chapstring) then return false
  if !(← found (cstr "CHAP_C")) then return false
  setParam (cstr "CHAP_C") fun p => { p with txOffer := false, rxOffer := false }
  let challenge ← genRandomData chapCDataLength
  let c ← getCookie
  setCookie { c with chapdata := overlay c.chapdata challenge }
  let chapstring := hexDataToText challenge
  setParam (cstr "CHAP_C") fun p => { p with offerTx := chapstring }
  if !(← textAdd (cstr "CHAP_C") chapstring) then return false
  logEvent (.issued idData challenge)
  return true

/-- `param_parse_security` on `AuthMethod`. -/
def securityAuthMethod (p : IscsiParameter) : Prog Halt Parse Int := do
  if p.rxAnswer && p.answerRx.str = cstr "None" then return 0
  if p.rxOffer && p.offerRx.str = cstr "None" then return 0
  if p.rxOffer then return 1
  match paramGet (← get).params (cstr "CHAP_A") with
  | none => return -1
  | some a =>
    setParam (cstr "CHAP_A") fun a =>
      { a with txOffer := true, rxOffer := false, offerTx := a.valid }
    if !(← textAdd a.key a.valid) then return -1
    return 2

/-- `param_parse_security` on `CHAP_A`. -/
def securityChapA (p : IscsiParameter) : Prog Halt Parse Int := do
  if !p.rxOffer then return 1
  if !(← textAdd p.key p.offerRx.str) then return -1
  if !(← offerChallenge) then return -1
  return 2

/-- `param_parse_security` on `CHAP_I`. -/
def securityChapI (p : IscsiParameter) : Prog Halt Parse Int := do
  let c ← getCookie
  setCookie { c with
    idData := driverAtoiByte (if p.rxOffer then p.offerRx.str else p.answerRx.str) }
  return 2

/-- `param_parse_security` on `CHAP_C`. -/
def securityChapC (u : Users) (p : IscsiParameter) : Prog Halt Parse Int := do
  let (len, data) :=
    if p.rxOffer then hexTextToData p.offerRx chapCMaxDataLength
    else hexTextToData p.answerRx chapCDataLength
  let c ← getCookie
  setCookie { c with chapdata := overlay c.chapdata data }
  if len ≤ 0 then return -1
  if !(← found (cstr "CHAP_N")) then return -1
  let iu ← initiatorUser u
  let user := if p.rxOffer then iu else u.targetUser
  let pass := if p.rxOffer then u.initiatorPass else u.targetPass
  setParam (cstr "CHAP_N") fun p => { p with txOffer := true, rxOffer := false, offerTx := user }
  if !(← textAdd (cstr "CHAP_N") user) then return -1
  if !(← found (cstr "CHAP_R")) then return -1
  let c ← getCookie
  let digest := env.md5 (c.idData :: (pass ++ data))
  setCookie { c with chapdata := overlay c.chapdata digest }
  let response := hexDataToText digest
  setParam (cstr "CHAP_R") fun p =>
    { p with txOffer := true, rxOffer := false, offerTx := response }
  if !(← textAdd (cstr "CHAP_R") response) then return -1
  if p.rxOffer && u.targetUser.length ≠ 0 then
    if !(← offerChallenge) then return -1
    return 2
  return 2

/-- `param_parse_security` on `CHAP_N`. -/
def securityChapN (u : Users) (p : IscsiParameter) : Prog Halt Parse Int := do
  if p.rxAnswer then
    if p.answerRx.str ≠ u.targetUser then return -1
    return 2
  if p.offerRx.str ≠ (← initiatorUser u) then return -1
  return 2

/-- `param_parse_security` on `CHAP_R`. -/
def securityChapR (u : Users) (p : IscsiParameter) : Prog Halt Parse Int := do
  let c ← getCookie
  let pass := if p.rxOffer then u.initiatorPass else u.targetPass
  let digest := env.md5 (c.idData :: (pass ++ c.chapdata.take chapCDataLength))
  let value := if p.rxOffer then p.offerRx else p.answerRx
  let (_, data) := hexTextToData value chapRDataLength
  setCookie { c with
    chapdata := overlay c.chapdata digest
    respdata := overlay c.respdata data }
  setParam p.key fun q =>
    { q with offerTx := hexDataToText [c.idData]
             offerRx := q.offerRx.strcpy (hexDataToText digest) }
  if (overlay c.respdata data).take chapRDataLength ≠ digest.take chapRDataLength then return -1
  logEvent (.accepted value.str)
  return 0

/-- `param_parse_security`. -/
def paramParseSecurity (u : Users) (p : IscsiParameter) : Prog Halt Parse Int := do
  let _ ← getCookie
  if p.key = cstr "AuthMethod" then securityAuthMethod p
  else if p.key = cstr "CHAP_A" then securityChapA p
  else if p.key = cstr "CHAP_I" then securityChapI p
  else if p.key = cstr "CHAP_C" then securityChapC env u p
  else if p.key = cstr "CHAP_N" then securityChapN u p
  else if p.key = cstr "CHAP_R" then securityChapR env u p
  else return 1

end Ost.Param
