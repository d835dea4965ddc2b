import Ost.Param.Decimal
import Ost.Param.Steps

/-!
# The strings of a parameter

What is stored in a parameter came in as a value, was there before, or is made up by the code: a
word of the protocol, a numeral, a digest in hexadecimal, a piece of a list.  A property of strings
that these have, and that holds of what comes in, holds of all that is stored.
-/

namespace Ost.Param

open Ost.Iscsi Ost.Util Ost.Prog

/-- A property of strings that the code does not leave. -/
structure Closed (F : CStr → Prop) : Prop where
  empty : F []
  yes : F (cstr "Yes")
  no : F (cstr "No")
  fail : F (cstr "Fail")
  reject : F (cstr "Reject")
  piece : ∀ l, F l → ∀ o ∈ splitComma l, F o
  decimal : ∀ x : Int, -2147483648 ≤ x → x < 2147483648 → F (decimal x)
  hex : ∀ data : Bytes, data.length ≤ chapCDataLength → F (hexDataToText data)

/-- The strings of a parameter have a property. -/
structure IscsiParameter.All (F : CStr → Prop) (p : IscsiParameter) : Prop where
  valid : F p.valid
  valueL : ∀ v ∈ p.valueL, F v
  offerRx : F p.offerRx.str
  offerTx : F p.offerTx
  answerRx : F p.answerRx.str
  answerTx : F p.answerTx
  negotiated : F p.negotiated

variable {F : CStr → Prop} {p : IscsiParameter} {v a : CStr} {outgoing : Bool}

/-! ## What is computed -/

/-- The answer to a list is a piece of the offer. -/
theorem Closed.listAnswer (hF : Closed F) (valid : CStr) (hv : F v) : F (listAnswer valid v) := by
  unfold Param.listAnswer
  split
  · cases h : splitComma v with
    | nil => exact hF.empty
    | cons o l => exact hF.piece v hv o (by rw [h]; exact List.mem_cons_self)
  · cases h : (splitComma v).find? fun o => (splitComma valid).contains o with
    | none => exact hF.reject
    | some o => exact hF.piece v hv o (List.mem_of_find?_eq_some h)

/-- The answer to a number is an `int`. -/
theorem numericalAnswer_bounds (type : ParamType) (valid offer : CStr) :
    -2147483648 ≤ numericalAnswer type valid offer ∧
      numericalAnswer type valid offer < 2147483648 := by
  have hoffer := toInt_bounds (iscsiAtoi offer)
  have hvalid := toInt_bounds (iscsiAtoi valid)
  unfold numericalAnswer
  dsimp only
  generalize toInt (iscsiAtoi offer) = x at *
  generalize toInt (iscsiAtoi valid) = y at *
  repeat' split
  all_goals assumption

/-- What a number is negotiated to. -/
theorem Closed.negotiateNumerical (hF : Closed F) (h : negotiateNumerical outgoing p = .value v) :
    F v := by
  unfold Param.negotiateNumerical at h
  have hrx := toInt_bounds (iscsiAtoi (if outgoing then p.offerRx.str else p.answerRx.str))
  have htx := toInt_bounds (iscsiAtoi (if outgoing then p.answerTx else p.offerTx))
  rw [← Negotiation.value.inj h]
  generalize toInt (iscsiAtoi (if outgoing then p.offerRx.str else p.answerRx.str)) = x at *
  generalize toInt (iscsiAtoi (if outgoing then p.answerTx else p.offerTx)) = y at *
  have hbounds (z : Int) (hz : z = x ∨ z = y) : F (Param.decimal z) := by
    rcases hz with rfl | rfl
    · exact hF.decimal _ hrx.1 hrx.2
    · exact hF.decimal _ htx.1 htx.2
  apply hbounds
  repeat' split
  all_goals simp

/-- What a truth value is negotiated to. -/
theorem Closed.negotiateBinary (hF : Closed F)
    (h : negotiateBinary outgoing p = .value v) : F v := by
  unfold Param.negotiateBinary at h
  dsimp only at h
  generalize (if outgoing then p.offerRx.str else p.answerRx.str) = x at h
  generalize (if outgoing then p.answerTx else p.offerTx) = y at h
  split at h
  · exact absurd h (by simp)
  · rw [← Negotiation.value.inj h]
    generalize (if p.type = .binaryOr then saysYes x || saysYes y else saysYes x && saysYes y) = yes
    cases yes with
    | true => exact hF.yes
    | false => exact hF.no

namespace IscsiParameter.All

theorem headD_valueL (hF : Closed F) (hp : p.All F) : F (p.valueL.headD []) := by
  cases h : p.valueL with
  | nil => exact hF.empty
  | cons v l => exact hp.valueL v (h ▸ List.mem_cons_self)

/-- What is answered. -/
theorem answerOf (hF : Closed F) (hp : p.All F) (hv : F v) (h : Param.answerOf p v = some a) :
    F a := by
  have hbinary (h : (if !isBinary v then some (cstr "Reject")
      else if p.valid.contains 44 then some v else some p.valid) = some a) : F a := by
    split at h
    · exact Option.some.inj h ▸ hF.reject
    split at h
    · exact Option.some.inj h ▸ hv
    · exact Option.some.inj h ▸ hp.valid
  have hnumerical
      (h : some (Param.decimal (numericalAnswer p.type p.valid p.offerRx.str)) = some a) : F a := by
    obtain ⟨hlo, hhi⟩ := numericalAnswer_bounds p.type p.valid p.offerRx.str
    exact Option.some.inj h ▸ hF.decimal _ hlo hhi
  unfold Param.answerOf at h
  split at h
  · exact Option.some.inj h ▸ hp.headD_valueL hF
  split at h
  · exact hbinary h
  · exact hbinary h
  · exact Option.some.inj h ▸ hF.listAnswer _ hp.offerRx
  · exact hnumerical h
  · exact hnumerical h
  · exact absurd h (by simp)
  · exact absurd h (by simp)

/-- What is negotiated. -/
theorem negotiation (hF : Closed F) (hp : p.All F) (h : Param.negotiation outgoing p = .value v) :
    F v := by
  have hdeclarative (h : negotiateDeclarative outgoing p = .value v) : F v := by
    rw [← Negotiation.value.inj h]
    split
    · exact hp.offerTx
    split
    · exact hp.offerRx
    · exact hp.answerRx
  have hlist (h : negotiateList outgoing p = .value v) : F v := by
    unfold negotiateList at h
    dsimp only at h
    have hval : F (if outgoing then p.answerTx else p.answerRx.str) := by
      split
      · exact hp.answerTx
      · exact hp.answerRx
    generalize (if outgoing then p.answerTx else p.answerRx.str) = x at h hval
    generalize (if outgoing then p.txOffer else p.rxOffer) = offered at h
    generalize (if outgoing then p.txAnswer else p.rxAnswer) = answered at h
    split at h
    · exact absurd h (by simp)
    split at h
    · exact absurd h (by simp)
    split at h
    · exact Negotiation.value.inj h ▸ hval
    · exact absurd h (by simp)
  unfold Param.negotiation at h
  split at h
  · exact hdeclarative h
  · exact hdeclarative h
  · exact hF.negotiateBinary h
  · exact hF.negotiateBinary h
  · exact hF.negotiateNumerical h
  · exact hF.negotiateNumerical h
  · exact hlist h

/-! ## What is stored -/

theorem offered (hp : p.All F) (hv : F v) : (p.offered v).All F := { hp with offerRx := hv }

theorem answered (hp : p.All F) (hv : F v) : (p.answered v).All F := { hp with answerRx := hv }

theorem offering (hp : p.All F) (hv : F v) : (p.offering v).All F := { hp with offerTx := hv }

theorem answering (hp : p.All F) (hv : F v) : (p.answering v).All F := { hp with answerTx := hv }

theorem commit (hp : p.All F) : (Param.commit p).All F := by
  refine { hp with valueL := fun v hv => ?_ }
  unfold Param.commit at hv
  dsimp only at hv
  split at hv
  · exact List.mem_singleton.mp hv ▸ hp.negotiated
  · rcases List.mem_or_eq_of_mem_set hv with hv | rfl
    · split at hv
      · exact absurd hv List.not_mem_nil
      · exact hp.valueL v hv
    · exact hp.negotiated

theorem settled (hp : p.All F) (hv : F v) : (p.settled v).All F := by
  have hset : ({ p with negotiated := v } : IscsiParameter).All F := { hp with negotiated := hv }
  unfold IscsiParameter.settled
  split
  · exact hset
  · exact hset.commit

/-- A parameter that is negotiated. -/
theorem negotiateStep (hF : Closed F) (hp : p.All F) : (p.negotiateStep outgoing).1.All F := by
  unfold IscsiParameter.negotiateStep
  cases h : Param.negotiation outgoing p with
  | warn => exact hp
  | error => exact hp
  | value v => exact hp.settled (hp.negotiation hF h)

/-- The parameter of a pair that goes out. -/
theorem sendStep (hF : Closed F) (hp : p.All F) (hv : F v) : (p.sendStep v).1.All F := by
  unfold IscsiParameter.sendStep
  split
  · exact (hp.answering hv).negotiateStep hF
  split
  · exact (hp.offering hv).negotiateStep hF
  · exact hp.offering hv

/-- The parameter of a pair that comes in. -/
theorem receiveStep (hF : Closed F) (hp : p.All F) (hv : F v) : (p.receiveStep v).1.All F := by
  unfold IscsiParameter.receiveStep
  split
  · exact (hp.answered hv).negotiateStep hF
  split
  · exact (hp.offered hv).negotiateStep hF
  cases h : Param.answerOf (p.offered v) v with
  | none => exact hp.offered hv
  | some a => exact { hp.offered hv with answerTx := (hp.offered hv).answerOf hF hv h }

/-- The answer to a pair that comes in. -/
theorem reply (hF : Closed F) (hp : p.All F) (hv : F v) (h : p.reply v = some a) : F a := by
  unfold IscsiParameter.reply at h
  split at h
  · exact absurd h (by simp)
  split at h
  · exact absurd h (by simp)
  · exact (hp.offered hv).answerOf hF hv h

end IscsiParameter.All

end Ost.Param
