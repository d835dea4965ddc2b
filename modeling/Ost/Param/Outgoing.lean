import Ost.Param.Incoming

/-!
# What goes out

The text that answers a text is parsed once more before it is sent.  Its pairs answer offers or
declare, so the parameters stay those of the target, and the last answer to an offered `AuthResult`
is committed.
-/

namespace Ost.Param

open Ost.Iscsi Ost.Util Ost.Prog

variable (env : Env) {v w : CStr} {x : Verdict} {c : Option CStr} {s : Parse} {p : IscsiParameter}
  {u : Users} {K : CStr}

/-! ## The answer goes out -/

section Outgoing

/-- Settling a value leaves the flags and the offer alone. -/
theorem settled_flags (w : CStr) (p : IscsiParameter) :
    (p.settled w).txOffer = p.txOffer ∧ (p.settled w).rxOffer = p.rxOffer ∧
      (p.settled w).rxAnswer = p.rxAnswer ∧ (p.settled w).offerRx = p.offerRx := by
  unfold IscsiParameter.settled
  split <;> exact ⟨rfl, rfl, rfl, rfl⟩

theorem negotiateStep_flags (outgoing : Bool) (p : IscsiParameter) :
    (p.negotiateStep outgoing).1.txOffer = p.txOffer ∧
      (p.negotiateStep outgoing).1.rxOffer = p.rxOffer ∧
      (p.negotiateStep outgoing).1.rxAnswer = p.rxAnswer ∧
      (p.negotiateStep outgoing).1.offerRx = p.offerRx := by
  unfold IscsiParameter.negotiateStep
  split
  · exact ⟨rfl, rfl, rfl, rfl⟩
  · exact ⟨rfl, rfl, rfl, rfl⟩
  · exact settled_flags _ p

/-- What goes out is negotiated without a warning. -/
theorem negotiateStep_true_ne (p : IscsiParameter) : (p.negotiateStep true).2 ≠ some 0 := by
  have hneg : Param.negotiation true p ≠ .warn := by
    unfold negotiation
    split
    · simp [negotiateDeclarative]
    · simp [negotiateDeclarative]
    · simp [negotiateBinary]
    · simp [negotiateBinary]
    · simp [negotiateNumerical]
    · simp [negotiateNumerical]
    · unfold negotiateList
      simp only [↓reduceIte]
      split
      · simp
      split
      · simp
      split <;> simp
  unfold IscsiParameter.negotiateStep
  split
  · exact absurd ‹_› hneg
  · change some (-1 : Int) ≠ some 0
    decide
  · simp

theorem sendStep_ne (w : CStr) (p : IscsiParameter) : (p.sendStep w).2 ≠ some 0 := by
  unfold IscsiParameter.sendStep
  split
  · exact negotiateStep_true_ne _
  split
  · exact negotiateStep_true_ne _
  · simp

/-- A parameter of the target stays one when a pair goes out that answers, or declares. -/
theorem IscsiParameter.Proper.sendStep (hp : p.Proper) (hw : NoNul w)
    (hrx : p.type.declared = false → p.rxOffer = true) : (p.sendStep w).1.Proper := by
  have hsig := sig_sendStep w p
  refine ⟨?_, hp.strings.sendStep closed_noNul hw, ?_, fun hd => ?_⟩
  · rw [show (p.sendStep w).1.key = p.key from congrArg Sig.key hsig, hsig]
    exact hp.registered
  · unfold IscsiParameter.sendStep
    split
    · exact negotiateStep_valued true hp.valued
    split
    · exact negotiateStep_valued true hp.valued
    · exact hp.valued
  · rw [show (p.sendStep w).1.type = p.type from congrArg Sig.type hsig] at hd
    obtain ⟨htx, -, hanswer, -⟩ := negotiateStep_flags true (p.answering w)
    rw [IscsiParameter.sendStep, if_pos (hrx hd), htx, hanswer]
    exact hp.passive hd

/-- What is committed comes first. -/
theorem commit_head (h : p.type ≠ .declareMulti) : (commit p).valueL.head? = some p.negotiated := by
  unfold commit
  dsimp only
  cases (if p.reset then [] else p.valueL) with
  | nil => rfl
  | cons b l =>
    dsimp only
    rw [if_neg h]
    rfl

/-- The answer to an offer is committed, unless it was an inquiry. -/
theorem sendStep_answer (hp : p.Proper) (hkey : p.key = cstr "AuthResult") (hrx : p.rxOffer = true)
    (hnext : (p.sendStep w).2 = none) : (p.sendStep w).1.valueL.head? =
      if p.offerRx.str = inquiry then p.valueL.head? else some w := by
  have htype : p.type = .list := hp.type_eq hkey sigOf_authResult
  obtain ⟨htx, hanswer⟩ := hp.passive (by rw [htype]; rfl)
  have hinquiry : isInquiry (p.answering w) = decide (p.offerRx.str = inquiry) := by
    simp only [isInquiry, IscsiParameter.answering, htx, hanswer, hrx, Bool.false_and,
      Bool.true_and, Bool.false_or, Bool.or_false, Bool.or_self]
    exact decide_eq_decide.mpr Iff.rfl
  rw [IscsiParameter.sendStep, if_pos hrx] at hnext ⊢
  unfold IscsiParameter.negotiateStep at hnext ⊢
  cases hneg : Param.negotiation true (p.answering w) with
  | warn =>
    rw [hneg] at hnext
    exact absurd hnext (by simp)
  | error =>
    rw [hneg] at hnext
    exact absurd hnext (by simp)
  | value a =>
    have ha : a = w := by
      unfold negotiation at hneg
      rw [show (p.answering w).type = .list from htype] at hneg
      simp only [negotiateList, IscsiParameter.answering, htx, if_true,
        Bool.false_eq_true, if_false, Bool.not_true] at hneg
      split at hneg
      · exact (Negotiation.value.inj hneg).symm
      · exact absurd hneg (by simp)
    dsimp only
    rw [ha, IscsiParameter.settled, hinquiry]
    by_cases hq : p.offerRx.str = inquiry
    · rw [if_pos hq, decide_eq_true hq, if_pos rfl]
      rfl
    · rw [if_neg hq, decide_eq_false hq, if_neg Bool.false_ne_true]
      exact commit_head fun h => absurd (htype.symm.trans h) (by decide)

/-- A pair that goes out sets its own parameter only. -/
theorem parseItem_out_ne {key : CStr} (hne : K ≠ key) (value : Option CStr) (s : Parse) :
    ensures (parseItem env true u (.pair key value)) (fun _ s' => s'.par K = s.par K) s := by
  refine ensures.bind (P := fun _ s' => s'.par K = s.par K)
    ((wp_guarded _ _).mpr ⟨fun _ => rfl, fun _ => rfl⟩) fun _ s₁ hs₁ => ?_
  rw [← hs₁, ensures, wp_bind, wp_get]
  cases hp : paramGet s₁.params key with
  | none => exact rfl
  | some p =>
    cases value with
    | none => trivial
    | some w =>
      refine (wp_ite _ _ _).mpr ⟨fun _ => rfl, fun _ => (wp_ite _ _ _).mpr ⟨fun _ => trivial,
        fun _ => ?_⟩⟩
      rw [if_pos rfl]
      exact ((allows_par K).sendOut (by rw [paramGet_key hp]; exact hne.symm) w).run s₁

/-- What a pair that goes out does, when the loop goes on. -/
structure Sent (key w : CStr) (s s' : Parse) : Prop where
  others : ∀ K, K ≠ key → s'.par K = s.par K
  self : s.par key = none ∧ s'.par key = none ∨ ∃ p, s.par key = some p ∧
    (p.sendStep w).2 = none ∧ s'.par key = some (p.sendStep w).1

/-- A pair goes out, or the parse fails. -/
theorem parseItem_sent (key w : CStr) (s : Parse) :
    ensures (parseItem env true u (.pair key (some w)))
      (fun o s' => o ≠ some 0 ∧ (o = none → Sent key w s s')) s := by
  have hothers : ensures (parseItem env true u (.pair key (some w)))
      (fun _ s' => ∀ K, K ≠ key → s'.par K = s.par K) s :=
    ensures_forall fun K => ensures_forall fun hne => parseItem_out_ne env hne (some w) s
  have hself : ensures (parseItem env true u (.pair key (some w))) (fun o s' => o ≠ some 0 ∧
      (o = none → s.par key = none ∧ s'.par key = none ∨ ∃ p, s.par key = some p ∧
        (p.sendStep w).2 = none ∧ s'.par key = some (p.sendStep w).1)) s := by
    cases hp : s.par key with
    | none =>
      refine ensures.bind (P := fun _ s₁ => s₁ = s)
        ((wp_guarded _ _).mpr ⟨fun h => absurd h (by decide), fun _ => rfl⟩) fun _ s₁ hs₁ => ?_
      rw [hs₁, ensures, wp_bind, wp_get, show paramGet s.params key = none from hp]
      exact ⟨by simp, fun _ => .inl ⟨rfl, hp⟩⟩
    | some p =>
      by_cases hshort : w.length < iscsiParamMaxLen
      · refine wp_mono (completes_parseItem_out env (u := u) hp hshort) ?_ fun _ _ _ => trivial
        rintro o s' ⟨rfl, hpar, -⟩
        exact ⟨sendStep_ne w p, fun hnext => .inr ⟨p, rfl, hnext, hpar⟩⟩
      · refine (parseItem_long env true hp (Nat.not_lt.mp hshort)).mono ?_
        rintro o s' rfl
        exact ⟨by decide, fun h => absurd h (by simp)⟩
  refine wp_mono (wp_and hothers hself) ?_ fun _ _ _ => trivial
  rintro o s' ⟨h₁, h₂, h₃⟩
  exact ⟨h₂, fun ho => ⟨h₁, h₃ ho⟩⟩

/-- The state of a parse in the middle of a text that goes out.  `r` is the value of `AuthResult`,
and `T` is what is left of the text. -/
structure Leaves (x : Verdict) (r : CStr) (s : Parse) (T : List (CStr × CStr)) : Prop where
  proper : Proper s.params
  ok : ∀ kv ∈ T, PairOk kv
  answers : ∀ kv ∈ T, ∀ p, s.par kv.1 = some p → p.type.declared = false → p.rxOffer = true
  value : paramVal s.params (cstr "AuthResult") = some r
  offer : ∀ p, s.par (cstr "AuthResult") = some p → ∀ o ∈ x.offered, p.offerRx.str = o
  asked : x.offered = none → ∀ kv ∈ T, kv.1 ≠ cstr "AuthResult"

variable {T : List (CStr × CStr)} {r : CStr}

/-- The value of `AuthResult` when the rest of the text has gone out. -/
def Leaves.final (x : Verdict) (r : CStr) (T : List (CStr × CStr)) : CStr :=
  if x.offered = some inquiry then r else (lastResult T).getD r

/-- The value of a parameter that is found. -/
theorem head_of_paramVal {params : Params} (hp : paramGet params K = some p) :
    paramVal params K = p.valueL.head? := by
  rw [paramVal, paramValWhich, hp, List.head?_eq_getElem?]
  rfl

/-- A pair has gone out. -/
theorem Leaves.sent {key : CStr} {s' : Parse} (h : Leaves x r s ((key, w) :: T))
    (hs : Sent key w s s') :
    Leaves x (if key = cstr "AuthResult" ∧ x.offered ≠ some inquiry then w else r) s' T := by
  obtain ⟨-, hw⟩ := h.ok _ List.mem_cons_self
  have hpar (K : CStr) : s'.par K = s.par K ∨ ∃ p, s.par K = some p ∧ K = key ∧
      (p.sendStep w).2 = none ∧ s'.par K = some (p.sendStep w).1 := by
    by_cases hK : K = key
    · subst hK
      rcases hs.self with ⟨hnone, hnone'⟩ | ⟨p, hp, hnext, hp'⟩
      · exact .inl (hnone'.trans hnone.symm)
      · exact .inr ⟨p, hp, rfl, hnext, hp'⟩
    · exact .inl (hs.others K hK)
  have hrx (p : IscsiParameter) (hp : s.par key = some p) (hd : p.type.declared = false) :
      p.rxOffer = true := h.answers _ List.mem_cons_self p hp hd
  have hproper : Proper s'.params := by
    refine ⟨fun K => ?_, fun K q hq => ?_⟩
    · rw [← h.proper.known K]
      rcases hpar K with hsame | ⟨p, hp, -, -, hp'⟩
      · exact congrArg Option.isSome hsame
      · rw [show paramGet s'.params K = _ from hp', show paramGet s.params K = _ from hp]
        rfl
    · rcases hpar K with hsame | ⟨p, hp, rfl, -, hp'⟩
      · exact h.proper.each K q (hsame.symm.trans hq)
      · rw [← Option.some.inj (hp'.symm.trans hq)]
        exact (h.proper.each _ p hp).sendStep hw (hrx p hp)
  have hflags (p : IscsiParameter) (hp : s.par key = some p) (hd : p.type.declared = false) :
      (p.sendStep w).1.rxOffer = true ∧ (p.sendStep w).1.offerRx = p.offerRx := by
    obtain ⟨-, hrxOffer, -, hoffer⟩ := negotiateStep_flags true (p.answering w)
    rw [IscsiParameter.sendStep, if_pos (hrx p hp hd)]
    exact ⟨hrxOffer.trans (hrx p hp hd), hoffer⟩
  refine ⟨hproper, fun kv hkv => h.ok kv (List.mem_cons_of_mem _ hkv), fun kv hkv q hq hd => ?_, ?_,
    fun q hq o ho => ?_, fun hnone kv hkv => h.asked hnone kv (List.mem_cons_of_mem _ hkv)⟩
  · rcases hpar kv.1 with hsame | ⟨p, hp, hkey, -, hp'⟩
    · exact h.answers kv (List.mem_cons_of_mem _ hkv) q (hsame.symm.trans hq) hd
    · obtain rfl := Option.some.inj (hp'.symm.trans hq)
      rw [show (p.sendStep w).1.type = p.type from congrArg Sig.type (sig_sendStep w p)] at hd
      exact (hflags p (hkey ▸ hp) hd).1
  · by_cases hkey : key = cstr "AuthResult"
    · subst hkey
      rcases hs.self with ⟨hnone, -⟩ | ⟨p, hp, hnext, hp'⟩
      · have hv := h.value
        rw [paramVal, paramValWhich, show paramGet s.params _ = none from hnone] at hv
        exact absurd hv (by simp)
      have hd := (h.proper.each _ p hp).type_eq (paramGet_key hp) sigOf_authResult
      have hp_rx := hrx p hp (by rw [hd]; rfl)
      rw [head_of_paramVal hp', sendStep_answer (h.proper.each _ p hp)
        (paramGet_key hp) hp_rx hnext]
      cases ho : x.offered with
      | none => exact absurd rfl (h.asked ho _ List.mem_cons_self)
      | some o =>
        rw [h.offer p hp o ho]
        by_cases hq : o = inquiry
        · rw [if_pos hq, if_neg fun hc => hc.2 (congrArg some hq), ← head_of_paramVal hp]
          exact h.value
        · rw [if_neg hq, if_pos ⟨rfl, fun hc => hq (Option.some.inj hc)⟩]
    · rw [if_neg fun hc => hkey hc.1]
      have hsame := hs.others _ (Ne.symm hkey)
      rw [paramVal, paramValWhich, show paramGet s'.params _ = _ from hsame]
      exact h.value
  · rcases hpar (cstr "AuthResult") with hsame | ⟨p, hp, hkey, -, hp'⟩
    · exact h.offer q (hsame.symm.trans hq) o ho
    · obtain rfl := Option.some.inj (hp'.symm.trans hq)
      have hd := (h.proper.each _ p hp).type_eq (paramGet_key hp) sigOf_authResult
      rw [(hflags p (hkey ▸ hp) (by rw [hd]; rfl)).2]
      exact h.offer p hp o ho

/-- A pair goes out. -/
theorem Leaves.step {key : CStr} (h : Leaves x r s ((key, w) :: T)) :
    ensures (parseItem env true u (.pair key (some w))) (fun o s' => o ≠ some 0 ∧ (o = none →
      Leaves x (if key = cstr "AuthResult" ∧ x.offered ≠ some inquiry then w else r) s' T)) s := by
  refine (parseItem_sent env key w s).mono ?_
  rintro o s' ⟨ho, hsent⟩
  exact ⟨ho, fun hnext => h.sent (hsent hnext)⟩

/-- The rest of a text goes out. -/
theorem Leaves.rest (h : Leaves x r s T) :
    ensures (parseItems env true u (T.map fun kv => .pair kv.1 (some kv.2)))
      (fun rc s' => rc = 0 → Leaves x (Leaves.final x r T) s' []) s := by
  induction T generalizing s r with
  | nil =>
    intro _
    rw [Leaves.final, lastResult, List.foldl_nil, Option.getD_none, ite_self]
    exact h
  | cons kv T ih =>
    refine ensures.bind (h.step env) fun o s₁ h₁ => ?_
    cases o with
    | some rc => exact fun h0 => absurd (congrArg some h0) h₁.1
    | none =>
      refine (ih (h₁.2 rfl)).mono fun rc s' h' h0 => ?_
      have hfinal : Leaves.final x (if kv.1 = cstr "AuthResult" ∧ x.offered ≠ some inquiry then kv.2
          else r) T = Leaves.final x r (kv :: T) := by
        unfold Leaves.final
        by_cases hq : x.offered = some inquiry
        · rw [if_pos hq, if_pos hq, if_neg fun hc => hc.2 hq]
        · rw [if_neg hq, if_neg hq, lastResult_cons]
          by_cases hkey : kv.1 = cstr "AuthResult"
          · rw [if_pos ⟨hkey, hq⟩, if_pos hkey]
          · rw [if_neg fun hc => hkey hc.1, if_neg hkey]
      exact hfinal ▸ h' h0

/-- The parameters in the middle of a text are those of the target. -/
theorem Stands.proper (h : Stands v x c s) : Proper s.params :=
  ⟨h.known, fun K p hp => (h.fair K p hp).toProper⟩

/-- The value of `AuthResult` when a text has been read. -/
theorem Stands.value (h : Stands v x c s) :
    paramVal s.params (cstr "AuthResult") = some (if x.passed then cstr "Yes" else v) := by
  have hknown := h.known (cstr "AuthResult")
  rw [sigOf_authResult] at hknown
  obtain ⟨p, hp⟩ := Option.isSome_iff_exists.mp hknown
  rw [head_of_paramVal hp]
  exact ((h.fair _ p hp).result (paramGet_key hp)).1

/-- The last answer that is told decides. -/
theorem Told.final (h : Told x s T) (v : CStr) :
    Leaves.final x (if x.passed then cstr "Yes" else v) T = x.result v := by
  unfold Leaves.final Verdict.result
  cases ho : x.offered with
  | none =>
    rw [h.silent ho]
    rfl
  | some o =>
    by_cases hq : o = inquiry
    · rw [hq, if_pos rfl]
      rfl
    · rw [if_neg fun hc => hq (Option.some.inj hc), h.result o ho hq, Option.filter_some]
      simp [hq]

/-- A text that needs no answer. -/
theorem Stands.unanswered (h : Stands v x c s) (htext : s.textOut = []) :
    Proper s.params ∧ paramVal s.params (cstr "AuthResult") = some (x.result v) := by
  refine ⟨h.proper, ?_⟩
  obtain ⟨T, hT, htold⟩ := h.text
  cases T with
  | nil =>
    have hfinal := htold.final v
    rw [Leaves.final, lastResult, List.foldl_nil, Option.getD_none, ite_self] at hfinal
    rw [← hfinal]
    exact h.value
  | cons kv T =>
    rw [htext] at hT
    simp [pairsText] at hT

/-- What a text says has become of the parameters when its answer has gone out. -/
theorem Stands.answered (h : Stands v x none s) :
    ensures (paramTextParse env s.textOut true u) (fun rc s' => rc = 0 →
      Proper s'.params ∧ paramVal s'.params (cstr "AuthResult") = some (x.result v)) s := by
  obtain ⟨T, hT, htold⟩ := h.text
  rw [hT]
  have hleaves : Leaves x (if x.passed then cstr "Yes" else v) s T := by
    refine ⟨h.proper, htold.ok, htold.answers, h.value, fun p hp o ho => ?_, fun hnone kv hkv => ?_⟩
    · exact (((h.fair _ p hp).result (paramGet_key hp)).2 o ho).2
    · exact key_ne_of_lastResult (htold.silent hnone) hkv
  unfold paramTextParse
  rw [textPrintOverruns_pairsText htold.ok, if_neg Bool.false_ne_true,
    textItems_pairsText env htold.ok, ensures, wp_bind, wp_guarded]
  refine ⟨fun hf => absurd hf (by simp), fun _ => (hleaves.rest env).mono fun rc s' h' h0 => ?_⟩
  have hend := h' h0
  rw [htold.final] at hend
  exact ⟨hend.proper, hend.value⟩

end Outgoing

end Ost.Param
