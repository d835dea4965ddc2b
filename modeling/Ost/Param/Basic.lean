import Ost.Prog.Basic
import Ost.Util.Iov

/-!
# The key-value parameters of a session

The data of `parameters.c`: C strings, the record `ISCSI_PARAMETER_T` with its values,
offers, answers and flags, and the list functions `param_get`, `param_val`,
`param_equiv`, `param_atoi`, `param_text_add`.

A string field of a parameter is a 4096-byte array that `strcpy` overwrites in place.
`CBuf` keeps what an earlier, longer string left behind the terminator, because
`HexTextToData` can read it.
-/

namespace Ost.Param

open Ost.Iscsi Ost.Util

/-- A C string, without its terminator. -/
abbrev CStr := List UInt8

/-- The C string of a literal. -/
def cstr (s : String) : CStr := s.toList.map fun c => UInt8.ofNat c.toNat

/-- `ISCSI_PARAM_KEY_LEN`. -/
def iscsiParamKeyLen : Nat := 64

/-- `ISCSI_PARAM_MAX_LEN`. -/
def iscsiParamMaxLen : Nat := 4096

/-- `ISCSI_PARAM_MAX_TEXT_LEN`. -/
def iscsiParamMaxTextLen : Nat := 4096

/-- An array that holds a C string, with the stale bytes behind its terminator. -/
structure CBuf where
  str : CStr
  tail : Bytes
deriving DecidableEq, Repr

/-- `strcpy`. -/
def CBuf.strcpy (b : CBuf) (s : CStr) : CBuf :=
  { str := s, tail := (b.str ++ 0 :: b.tail).drop (s.length + 1) }

@[simp] theorem CBuf.str_strcpy (b : CBuf) (s : CStr) : (b.strcpy s).str = s := rfl

/-! ## Numbers in strings -/

/-- A decimal digit. -/
def digit? (c : UInt8) : Option Nat :=
  if 48 ≤ c ∧ c ≤ 57 then some (c.toNat - 48) else none

/-- The number that the leading digits of a string denote. -/
def leadingNat : CStr → Nat → Nat
  | [], k => k
  | c :: s, k =>
    match digit? c with
    | some d => leadingNat s (10 * k + d)
    | none => k

/-- `strtol(s, NULL, 10)`: blanks, a sign, digits, saturating at 64 bits. -/
def strtol (s : CStr) : Int :=
  let s := s.dropWhile fun c => c == 32 || (9 ≤ c && c ≤ 13)
  match s with
  | 45 :: s => max (-9223372036854775808) (-(leadingNat s 0 : Int))
  | 43 :: s => min 9223372036854775807 (leadingNat s 0 : Int)
  | s => min 9223372036854775807 (leadingNat s 0 : Int)

/-- `iscsi_atoi`: the low 32 bits of `atoi`. -/
def iscsiAtoi (s : CStr) : UInt32 := UInt32.ofNat (strtol s % 4294967296).toNat

/-- An unsigned assigned to an `int`. -/
def toInt (x : UInt32) : Int := wrapInt x.toNat

/-- `sprintf(buf, "%i", x)`. -/
def decimal (x : Int) : CStr := cstr (toString x)

/-- `driver_atoi` truncated to a byte: leading digits, no blanks and no sign. -/
def driverAtoiByte (s : CStr) : UInt8 := UInt8.ofNat (leadingNat s 0)

/-! ## Parameters -/

/-- The `ISCSI_PARAM_TYPE_*` constants. -/
inductive ParamType where
  | declarative
  | declareMulti
  | numerical
  | numericalZ
  | binaryOr
  | binaryAnd
  | list
deriving DecidableEq, Repr

/-- `ISCSI_PARAMETER_T`.  `valueL` is the value list, empty when the pointer is null. -/
structure IscsiParameter where
  key : CStr
  type : ParamType
  valid : CStr
  dflt : CStr
  valueL : List CStr
  offerRx : CBuf
  offerTx : CStr
  answerTx : CStr
  answerRx : CBuf
  negotiated : CStr
  txOffer : Bool
  rxOffer : Bool
  txAnswer : Bool
  rxAnswer : Bool
  reset : Bool
deriving DecidableEq, Repr

/-- `param_list_add` for one parameter.  The buffers other than the key, the default and
the valid list are not initialised: `heap` is what `malloc` returned. -/
def paramListAdd (heap : Bytes) (type : ParamType) (key dflt valid : CStr) : IscsiParameter :=
  { key, type, valid, dflt, valueL := [dflt]
    offerRx := ⟨[], heap⟩, offerTx := [], answerTx := [], answerRx := ⟨[], heap⟩
    negotiated := [], txOffer := false, rxOffer := false, txAnswer := false
    rxAnswer := false, reset := false }

/-- A parameter list. -/
abbrev Params := List IscsiParameter

/-- `param_get`. -/
def paramGet (head : Params) (key : CStr) : Option IscsiParameter :=
  head.find? fun p => p.key == key

/-- Change the parameter with a key in place. -/
def paramModify (head : Params) (key : CStr) (f : IscsiParameter → IscsiParameter) : Params :=
  head.map fun p => if p.key = key then f p else p

/-- `param_val_which`. -/
def paramValWhich (head : Params) (key : CStr) (which : Nat) : Option CStr :=
  (paramGet head key).bind fun p => p.valueL[which]?

/-- `param_val`. -/
def paramVal (head : Params) (key : CStr) : Option CStr := paramValWhich head key 0

/-- `param_equiv`: 0 when the value is `val`, 1 when it is not, -1 without a value. -/
def paramEquiv (head : Params) (key val : CStr) : Int :=
  match paramVal head key with
  | none => -1
  | some v => if v = val then 0 else 1

/-- `param_atoi`. -/
def paramAtoi (head : Params) (key : CStr) : UInt32 :=
  match paramVal head key with
  | none => 0
  | some v => iscsiAtoi v

/-- `param_val_reset`. -/
def paramValReset (head : Params) (key : CStr) : Int × Params :=
  match paramGet head key with
  | none => (-1, head)
  | some _ => (0, paramModify head key fun p => { p with reset := true })

/-- `param_text_add`: `none` is the return value -1. -/
def paramTextAdd (key value : CStr) (text : Bytes) : Option Bytes :=
  if text.length + key.length + 1 + value.length + 1 > iscsiParamMaxTextLen then none
  else some (text ++ (key ++ 61 :: value ++ [0]))

/-! ## Looking up after a change -/

section Lookup

variable {head : Params} {key key' : CStr} {f : IscsiParameter → IscsiParameter}

/-- A change that keeps keys is seen by a lookup of its key. -/
theorem paramGet_modify_self (hf : ∀ p, (f p).key = p.key) :
    paramGet (paramModify head key f) key = (paramGet head key).map f := by
  induction head with
  | nil => rfl
  | cons p head ih =>
    by_cases hp : p.key = key
    · simp [paramGet, paramModify, hp, hf]
    · have : (p.key == key) = false := by simpa using hp
      simp only [paramGet, paramModify, List.map_cons, if_neg hp, List.find?_cons, this] at ih ⊢
      exact ih

/-- A change is not seen by a lookup of another key. -/
theorem paramGet_modify_of_ne (hf : ∀ p, (f p).key = p.key) (hk : key' ≠ key) :
    paramGet (paramModify head key f) key' = paramGet head key' := by
  induction head with
  | nil => rfl
  | cons p head ih =>
    simp only [paramGet, paramModify, List.map_cons, List.find?_cons] at ih ⊢
    by_cases hp : p.key = key
    · have h₁ : ((f p).key == key') = false := by
        rw [hf, hp]
        simpa using hk.symm
      have h₂ : (p.key == key') = false := by
        rw [hp]
        simpa using hk.symm
      simp only [if_pos hp, h₁, h₂]
      exact ih
    · simp only [if_neg hp]
      split
      · rfl
      · exact ih

/-- The parameter a lookup finds has the key that was looked up. -/
theorem paramGet_key {p : IscsiParameter} (h : paramGet head key = some p) : p.key = key := by
  simpa using List.find?_some h

end Lookup

end Ost.Param
