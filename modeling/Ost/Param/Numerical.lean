import Ost.Param.Response
import Ost.Param.Decimal

/-!
# Numerical keys and their maximum

The answer to an offer for a numerical key is the lower one of the offer and the maximum, and it is
also what is committed when the answer goes out.  `atoi` reads the offer, and the comparison is one
of signed numbers.  So a maximum is a bound from above only, and an offer below zero passes; the
data path takes the number for an unsigned one.
-/

namespace Ost.Param

open Ost.Iscsi Ost.Util Ost.Prog

/-! ## The answer -/

/-- A key with a number, and a maximum of our own. -/
structure NumericalKey (p : IscsiParameter) : Prop where
  type : p.type = .numerical ∨ p.type = .numericalZ
  max : 0 < toInt (iscsiAtoi p.valid)
  plain : p.key ∉ authKeys
  key : KeyOk p.key

/-- A string that denotes a number in the range of a key: up to the maximum, and not below zero, or
not below one. -/
def InRange (p : IscsiParameter) (v : CStr) : Prop :=
  (if p.type = .numericalZ then 1 else 0) ≤ strtol v ∧ strtol v ≤ toInt (iscsiAtoi p.valid)

section Answer

variable {env : Env} {u u' : Users} {s : Parse} {p : IscsiParameter} {v : CStr}

theorem numericalAnswer_cases (h : NumericalKey p) (v : CStr) :
    numericalAnswer p.type p.valid v ≤ toInt (iscsiAtoi p.valid) ∧
      (0 ≤ toInt (iscsiAtoi v) →
        (if p.type = .numericalZ then 1 else 0) ≤ numericalAnswer p.type p.valid v) ∧
      (toInt (iscsiAtoi v) < 0 → numericalAnswer p.type p.valid v < 0) ∧
      -2147483648 ≤ numericalAnswer p.type p.valid v := by
  have hmax := h.max
  have hv := toInt_bounds (iscsiAtoi v)
  unfold numericalAnswer
  dsimp only
  split_ifs <;> omega

/-- The answer is the number that is negotiated when it goes out. -/
theorem negotiation_numerical (h : NumericalKey p) {q : IscsiParameter} (htype : q.type = p.type)
    (hoffer : q.offerRx.str = v)
    (hanswer : q.answerTx = decimal (numericalAnswer p.type p.valid v)) :
    negotiation true q = .value (decimal (numericalAnswer p.type p.valid v)) := by
  obtain ⟨hle, -, -, hlo⟩ := numericalAnswer_cases h v
  have hhi := (toInt_bounds (iscsiAtoi p.valid)).2
  have hmax := h.max
  have hread := @toInt_iscsiAtoi_decimal (numericalAnswer p.type p.valid v) hlo (by omega)
  have hnum : negotiation true q = negotiateNumerical true q := by
    rw [negotiation, htype]
    rcases h.type with ht | ht <;> rw [ht]
  rw [hnum, negotiateNumerical, if_pos rfl, if_pos rfl, htype, hoffer, hanswer, hread]
  refine congrArg (fun x => Negotiation.value (decimal x)) ?_
  unfold numericalAnswer at hle ⊢
  dsimp only at hle ⊢
  split_ifs at hle ⊢ <;> omega

/-- In range are the printed numbers that are not below zero. -/
theorem inRange_answer_iff (h : NumericalKey p) (v : CStr) :
    InRange p (decimal (numericalAnswer p.type p.valid v)) ↔ 0 ≤ toInt (iscsiAtoi v) := by
  obtain ⟨hle, hpos, hneg, hlo⟩ := numericalAnswer_cases h v
  have hhi := (toInt_bounds (iscsiAtoi p.valid)).2
  rw [InRange, strtol_decimal hlo (by omega)]
  refine ⟨fun hrange => ?_, fun h0 => ⟨hpos h0, hle⟩⟩
  by_contra h0
  have := hneg (by omega)
  have := hrange.1
  split at this <;> omega

theorem reply_numerical (h : NumericalKey p) (htx : p.txOffer = false) (hv : v ≠ inquiry) :
    p.reply v = some (decimal (numericalAnswer p.type p.valid v)) ∧
      p.receiveStep v = (p.replied v (decimal (numericalAnswer p.type p.valid v)), none) := by
  have hnot : ¬(v ≠ inquiry ∧ p.type.declared = true) := by
    rintro ⟨-, hd⟩
    rcases h.type with ht | ht <;> rw [ht] at hd <;> exact absurd hd (by decide)
  have hanswer : answerOf (p.offered v) v = some (decimal (numericalAnswer p.type p.valid v)) := by
    unfold answerOf
    refine (if_neg hv).trans ?_
    rw [show (p.offered v).type = p.type from rfl]
    rcases h.type with ht | ht <;> rw [ht] <;> rfl
  rw [IscsiParameter.reply, IscsiParameter.receiveStep, htx, if_neg Bool.false_ne_true,
    if_neg Bool.false_ne_true, if_neg hnot, if_neg hnot, hanswer]
  exact ⟨rfl, rfl⟩

end Answer

/-! ## An exchange -/

section Exchange

variable (env : Env) (u u' : Users) (p : IscsiParameter) (v : CStr) (s : Parse)

/-- An offer that fits its field is answered, and for every offer that is answered, the answer, and
the value that is committed when the answer goes out, are in the range of the key; so is the
unsigned number that the data path makes of the value. -/
def Bounded : Prop :=
  (v.length < iscsiParamMaxLen →
    ∃ s₁, paramTextParse env (pairsText [(p.key, v)]) false u s = .ret 0 s₁) ∧
  ∀ s₁, paramTextParse env (pairsText [(p.key, v)]) false u s = .ret 0 s₁ →
    ∃ a s₂, s₁.textOut = pairsText [(p.key, a)] ∧ InRange p a ∧
      paramTextParse env s₁.textOut true u' s₁ = .ret 0 s₂ ∧
      (paramVal s₂.params p.key = paramVal s₁.params p.key ∨
        ∃ w, paramVal s₂.params p.key = some w ∧ InRange p w ∧
          ((iscsiAtoi w).toNat : Int) ≤ toInt (iscsiAtoi p.valid))

variable {env u u' p v s}

/-- The answer to an offer fits the text. -/
theorem paramTextAdd_numerical (h : NumericalKey p) (v : CStr) :
    paramTextAdd p.key (decimal (numericalAnswer p.type p.valid v)) [] =
      some (pairsText [(p.key, decimal (numericalAnswer p.type p.valid v))]) := by
  obtain ⟨hle, -, -, hlo⟩ := numericalAnswer_cases h v
  have hhi := (toInt_bounds (iscsiAtoi p.valid)).2
  have hlen := @length_decimal_le (numericalAnswer p.type p.valid v) hlo (by omega)
  have hkey := h.key.short
  rw [paramTextAdd, if_neg ?_]
  · simp only [pairsText, List.nil_append, List.append_nil]
  · rw [List.length_nil]
    simp only [iscsiParamKeyLen, iscsiParamMaxTextLen] at *
    omega

theorem numerical_offered (h : NumericalKey p) (hp : s.par p.key = some p)
    (htx : p.txOffer = false) (hv : 0 ∉ v) (hq : v ≠ inquiry)
    (hshort : v.length < iscsiParamMaxLen) :
    ∃ s₁, paramTextParse env (pairsText [(p.key, v)]) false u s = .ret 0 s₁ ∧
      s₁.textOut = pairsText [(p.key, decimal (numericalAnswer p.type p.valid v))] ∧
      s₁.par p.key = some (p.replied v (decimal (numericalAnswer p.type p.valid v))) := by
  obtain ⟨hreply, hstep⟩ := reply_numerical h htx hq
  obtain ⟨rc, s₁, hrun, o, hO, rfl⟩ := (wp_paramTextParse env ⟨h.key, hv⟩
    (completes_parseItem_in env (u := u) (s := { s with textOut := [] }) h.plain hp hshort)).returns
  rw [Received, hreply, textWith, paramTextAdd_numerical h, hstep] at hO
  obtain ⟨hpar, rfl, htext⟩ := hO
  exact ⟨s₁, hrun, htext, hpar⟩

/-- Settling a value that is not one of many stores it, or leaves the values as they are. -/
theorem settled_value (p : IscsiParameter) (v : CStr) (ht : p.type ≠ .declareMulti) :
    (p.settled v).valueL[0]? = p.valueL[0]? ∨ (p.settled v).valueL[0]? = some v := by
  unfold IscsiParameter.settled
  split
  · exact .inl rfl
  · refine .inr ?_
    unfold commit
    dsimp only
    generalize (if p.reset then [] else p.valueL) = l
    cases l with
    | nil => rfl
    | cons w l =>
      dsimp only
      rw [if_neg ht]
      rfl

/-- The answer goes out. -/
theorem numerical_answered (h : NumericalKey p) {s₁ : Parse}
    (hpar : s₁.par p.key = some (p.replied v (decimal (numericalAnswer p.type p.valid v)))) :
    ∃ s₂, paramTextParse env
        (pairsText [(p.key, decimal (numericalAnswer p.type p.valid v))]) true u' s₁ = .ret 0 s₂ ∧
      (paramVal s₂.params p.key = paramVal s₁.params p.key ∨
        paramVal s₂.params p.key = some (decimal (numericalAnswer p.type p.valid v))) := by
  obtain ⟨hle, -, -, hlo⟩ := numericalAnswer_cases h v
  have hhi := (toInt_bounds (iscsiAtoi p.valid)).2
  have hlen := @length_decimal_le (numericalAnswer p.type p.valid v) hlo (by omega)
  generalize ha : decimal (numericalAnswer p.type p.valid v) = a at *
  obtain ⟨rc, s₂, hrun, o, ⟨ho, hpar₂, -⟩, rfl⟩ := (wp_paramTextParse env (s := s₁)
    ⟨h.key, ha ▸ noNul_decimal _⟩ (completes_parseItem_out env (u := u') hpar
      (lt_of_le_of_lt hlen (by decide)))).returns
  have hstep : (p.replied v a).sendStep a = (((p.replied v a).answering a).settled a, none) := by
    have hvalue : negotiation true ((p.replied v a).answering a) = .value a := by
      rw [← ha]
      exact negotiation_numerical h rfl rfl rfl
    rw [IscsiParameter.sendStep, if_pos (show (p.replied v a).rxOffer = true from rfl),
      IscsiParameter.negotiateStep, hvalue]
  rw [hstep] at ho hpar₂
  refine ⟨s₂, ?_, ?_⟩
  · rw [hrun, ho]
    rfl
  · change ((s₂.par p.key).bind fun q => q.valueL[0]?) =
      ((s₁.par p.key).bind fun q => q.valueL[0]?) ∨
      ((s₂.par p.key).bind fun q => q.valueL[0]?) = some a
    rw [hpar, hpar₂]
    exact settled_value _ _
      (by rcases h.type with ht | ht <;> exact fun hd => absurd (ht.symm.trans hd) (by decide))

theorem pairsText_single_inj {key a b : CStr} (h : pairsText [(key, a)] = pairsText [(key, b)]) :
    a = b := by
  simpa [pairsText] using h

/-- An offer that does not fit its field is not answered. -/
theorem numerical_refused (h : NumericalKey p) (hp : s.par p.key = some p) (hv : 0 ∉ v)
    (hlong : iscsiParamMaxLen ≤ v.length) (s₁ : Parse) :
    paramTextParse env (pairsText [(p.key, v)]) false u s ≠ .ret 0 s₁ := by
  intro hrun
  obtain ⟨o, rfl, hrc⟩ := (@wp_paramTextParse env u s v p.key false _ _ ⟨h.key, hv⟩
    (parseItem_long env false hp hlong)).of_ret hrun
  exact absurd hrc (by decide)

/-- An offer that fits its field is answered in range just when it is not negative. -/
theorem bounded_iff (h : NumericalKey p) (hp : s.par p.key = some p) (htx : p.txOffer = false)
    (hv : 0 ∉ v) (hq : v ≠ inquiry) (hshort : v.length < iscsiParamMaxLen) :
    Bounded env u u' p v s ↔ 0 ≤ toInt (iscsiAtoi v) := by
  rw [← inRange_answer_iff h v]
  obtain ⟨s₁, hrun, htext, hpar⟩ := @numerical_offered env u p v s h hp htx hv hq hshort
  constructor
  · intro hb
    obtain ⟨a, s₂, ha, hrange, -⟩ := hb.2 s₁ hrun
    rwa [← pairsText_single_inj (htext.symm.trans ha)] at hrange
  · intro hrange
    refine ⟨fun _ => ⟨s₁, hrun⟩, fun s₁' hrun' => ?_⟩
    obtain rfl := (Outcome.ret.inj (hrun.symm.trans hrun')).2
    obtain ⟨s₂, hrun₂, hval⟩ := @numerical_answered env u' p v h s₁ hpar
    refine ⟨_, s₂, htext, hrange, htext ▸ hrun₂, hval.imp id fun hw => ⟨_, hw, hrange, ?_⟩⟩
    have hlo := hrange.1
    have hle := hrange.2
    have hmax := toInt_bounds (iscsiAtoi p.valid)
    rw [iscsiAtoi, UInt32.toNat_ofNat_of_lt' (show _ < 4294967296 by omega)]
    split at hlo <;> omega

/-- The offers for a numerical key are answered within its range, and so is what is committed,
exactly when `atoi` does not make a negative number of the offer. -/
theorem numerical_bounded (h : NumericalKey p) (hp : s.par p.key = some p)
    (htx : p.txOffer = false) (hv : 0 ∉ v) (hq : v ≠ inquiry) :
    Bounded env u u' p v s ↔ iscsiParamMaxLen ≤ v.length ∨ 0 ≤ toInt (iscsiAtoi v) := by
  rcases Nat.lt_or_ge v.length iscsiParamMaxLen with hshort | hlong
  · rw [or_iff_right (Nat.not_le.mpr hshort)]
    exact bounded_iff h hp htx hv hq hshort
  · exact iff_of_true ⟨fun hshort => absurd hlong (Nat.not_le.mpr hshort), fun s₁ hrun =>
      absurd hrun (numerical_refused h hp hv hlong s₁)⟩ (.inl hlong)

end Exchange

/-! ## A session of the target -/

/-- `MaxRecvDataSegmentLength` as the target registers it. -/
def segmentLengthKey : IscsiParameter :=
  paramListAdd [] .numericalZ (cstr "MaxRecvDataSegmentLength") (cstr "8192") (cstr "1048576")

theorem segmentLengthKey_numerical : NumericalKey segmentLengthKey where
  type := .inr rfl
  max := by decide
  plain := by decide
  key := by decide

/-- An exchange with the parameters of a new connection. -/
def newConnection : Parse :=
  { ParamState.init [] ⟨0, List.replicate 1024 0, List.replicate 16 0⟩ fun _ => 0 with
    textOut := [] }

/-- What the data path needs, after an offer for `MaxRecvDataSegmentLength` and the answer to it. -/
def sessionAfter (offer : CStr) : Option SessParams :=
  match paramTextParse zeroEnv (pairsText [(segmentLengthKey.key, offer)]) false initiatorOnly
    newConnection with
  | .halt _ _ => none
  | .ret _ s₁ =>
    match paramTextParse zeroEnv s₁.textOut true initiatorOnly s₁ with
    | .halt _ _ => none
    | .ret _ s₂ => some (setSessionParameters s₂.params)

/-- An offer of all that an `int` can hold is cut down to the maximum. -/
theorem numerical_bounded_large :
    Bounded zeroEnv initiatorOnly initiatorOnly segmentLengthKey (cstr "2147483647")
      newConnection :=
  (numerical_bounded segmentLengthKey_numerical (by decide) rfl (by decide) (by decide)).mpr
    (.inr (by decide))

/-- An offer of -1 is not, and the data path takes it for the largest of all lengths. -/
theorem numerical_unbounded :
    ¬Bounded zeroEnv initiatorOnly initiatorOnly segmentLengthKey (cstr "-1") newConnection ∧
      (sessionAfter (cstr "-1")).map SessParams.maxDataSegLength = some 4294967295 := by
  refine ⟨fun hb => ?_, by decide +kernel⟩
  have hpos := (bounded_iff segmentLengthKey_numerical (by decide) rfl (by decide) (by decide)
    (by decide)).mp hb
  exact absurd hpos (by decide)

end Ost.Param
