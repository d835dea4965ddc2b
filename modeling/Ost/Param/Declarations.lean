import Ost.Param.Response

/-!
# Keys with several values

`SendTargets` is answered by a declaration of `TargetName` and one of `TargetAddress` for every
target. Before they are parsed the list of values is marked for deletion, and the first declaration
that is committed replaces it.  The others should extend it, but the loop that looks for the end of
the list never walks past the last item, so each of them overwrites the one before.
-/

namespace Ost.Param

open Ost.Iscsi Ost.Util Ost.Prog

/-! ## Reading a text -/

section Reading

variable (env : Env) (u : Users)

/-- The pairs of a text are taken one after another, and none of them ends the parse. -/
inductive Reads : List (CStr × CStr) → Parse → Parse → Prop
  | /-- The text is over. -/
    nil (s : Parse) : Reads [] s s
  | /-- A pair is taken. -/
    cons {k v : CStr} {T : List (CStr × CStr)} {s s₁ s₂ : Parse}
      (hitem : parseItem env false u (.pair k (some v)) s = .ret none s₁) (h : Reads T s₁ s₂) :
      Reads ((k, v) :: T) s s₂

variable {env u} {T : List (CStr × CStr)} {s s' : Parse}

/-- A text whose pairs are all taken is parsed. -/
theorem Reads.run (hT : ∀ kv ∈ T, PairOk kv) (h : Reads env u T { s with textOut := [] } s') :
    paramTextParse env (pairsText T) false u s = .ret 0 s' := by
  have hitems : ∀ {T s s'}, Reads env u T s s' →
      parseItems env false u (T.map fun kv => .pair kv.1 (some kv.2)) s = .ret 0 s' := by
    intro T s s' h
    induction h with
    | nil s => rfl
    | cons hitem _ ih =>
      rw [List.map_cons, parseItems, bind_apply, hitem]
      exact ih
  unfold paramTextParse
  rw [textPrintOverruns_pairsText hT, if_neg Bool.false_ne_true, textItems_pairsText env hT]
  exact hitems h

/-- The values of a key in a text. -/
def declaredIn (K : CStr) (T : List (CStr × CStr)) : List CStr :=
  (T.filter fun kv => kv.1 == K).map Prod.snd

/-- A key that only its own pairs set is moved by its pairs in order. -/
theorem Reads.par {K : CStr} (hK : Aside K) {p : IscsiParameter} (h : Reads env u T s s')
    (hp : s.par K = some p) (hdecl : p.type.declared = true)
    (hq : ∀ v ∈ declaredIn K T, v ≠ inquiry) :
    s'.par K = some ((declaredIn K T).foldl (fun q v => (q.receiveStep v).1) p) := by
  induction h generalizing p with
  | nil s => exact hp
  | @cons k v T s s₁ s₂ hitem _ ih =>
    by_cases hk : k = K
    · subst hk
      have hhead : declaredIn k ((k, v) :: T) = v :: declaredIn k T := by simp [declaredIn]
      rw [hhead] at hq ⊢
      have hshort : v.length < iscsiParamMaxLen := by
        by_contra hlong
        have hend := (parseItem_long env (u := u) false hp (Nat.not_lt.mp hlong)).of_ret hitem
        exact absurd hend (by simp)
      have hrec := (completes_parseItem_in env (u := u) hK.auth hp hshort).of_ret hitem
      have hreply : p.reply v = none := by
        unfold IscsiParameter.reply
        split
        · rfl
        · exact if_pos ⟨hq v List.mem_cons_self, hdecl⟩
      rw [Received, hreply, paramGet_key hp] at hrec
      have htype : (p.receiveStep v).1.type.declared = true := by
        rw [show (p.receiveStep v).1.type = p.type from congrArg Sig.type (sig_receiveStep v p)]
        exact hdecl
      exact ih hrec.1 htype fun w hw => hq w (List.mem_cons_of_mem _ hw)
    · have hskip : declaredIn K ((k, v) :: T) = declaredIn K T := by simp [declaredIn, hk]
      rw [hskip] at hq ⊢
      have hsame := (hK.parseItem env (u := u) hk false (some v) s).of_ret hitem
      exact ih (hsame.trans hp) hdecl hq

end Reading

/-! ## Declaring one value after another -/

namespace IscsiParameter

/-- A declaration is not committed while the last answer we received was one to an inquiry. -/
def Inquired (p : IscsiParameter) : Prop := p.rxAnswer = true ∧ p.offerTx = inquiry

/-- The first declaration is committed, as the value that was declared. -/
def Takes (p : IscsiParameter) (v : CStr) : Prop :=
  if p.txOffer then p.offerTx ≠ inquiry ∧
    ¬((p.rxOffer = true ∨ p.txAnswer = true) ∧ p.offerRx.str = inquiry) ∧
    (p.rxOffer = true → p.offerRx.str = v)
  else ¬p.Inquired

/-- No declaration is committed. -/
def Ignores (p : IscsiParameter) (vs : List CStr) : Prop :=
  if p.txOffer then p.offerTx = inquiry ∨
    vs.length = 1 ∧ (p.rxOffer = true ∨ p.txAnswer = true) ∧ p.offerRx.str = inquiry
  else p.Inquired

variable {p : IscsiParameter} {v : CStr} {vs : List CStr}

theorem isInquiry_offered (htx : p.txOffer = false) (hv : v ≠ inquiry) :
    isInquiry (p.offered v) = true ↔ p.Inquired := by
  have hv' : v ≠ cstr "?" := hv
  simp [isInquiry, offered, htx, hv', Inquired, inquiry]

theorem isInquiry_answered : isInquiry (p.answered v) = true ↔
    p.offerTx = inquiry ∨ (p.rxOffer = true ∨ p.txAnswer = true) ∧ p.offerRx.str = inquiry := by
  have hsplit : isInquiry (p.answered v) = ((p.rxOffer || p.txAnswer) &&
      decide (p.offerRx.str = inquiry) || decide (p.offerTx = inquiry)) := by
    rw [Bool.and_or_distrib_right]
    rfl
  rw [hsplit, Bool.or_eq_true, Bool.and_eq_true, Bool.or_eq_true, decide_eq_true_iff,
    decide_eq_true_iff, or_comm]

/-- The list has no more than one item, or is marked for deletion. -/
def Short (p : IscsiParameter) : Prop := p.reset = true ∨ p.valueL.length ≤ 1

theorem commit_short (h : p.Short) (htype : p.type = .declareMulti) :
    (commit p).valueL = [p.negotiated] ∧ (commit p).reset = false := by
  refine ⟨?_, rfl⟩
  unfold commit
  dsimp only
  have hlist : (if p.reset then [] else p.valueL).length ≤ 1 := by
    rcases h with h | h
    · rw [if_pos h]
      exact Nat.zero_le _
    · split
      · exact Nat.zero_le _
      · exact h
  generalize (if p.reset then [] else p.valueL) = l at *
  rcases l with _ | ⟨w, _ | ⟨w', l⟩⟩
  · rfl
  · dsimp only
    rw [if_pos htype]
    rfl
  · rw [List.length_cons, List.length_cons] at hlist
    omega

theorem foldl_ignored (htype : p.type.declared = true) (htx : p.txOffer = false)
    (hinq : p.Inquired) (hq : ∀ v ∈ vs, v ≠ inquiry) :
    (vs.foldl (fun q v => (q.receiveStep v).1) p).valueL = p.valueL := by
  induction vs generalizing p with
  | nil => rfl
  | cons v vs ih =>
    have hv := hq v List.mem_cons_self
    have hstep : (p.receiveStep v).1 = { p.offered v with negotiated := v } := by
      rw [receiveStep_declaration htype htx hv, settled,
        if_pos ((isInquiry_offered htx hv).mpr hinq)]
    rw [List.foldl_cons, hstep]
    exact ih (p := { p.offered v with negotiated := v }) htype htx hinq
      fun w hw => hq w (List.mem_cons_of_mem _ hw)

/-- Declarations that are not ignored leave the last value alone behind. -/
theorem foldl_taken (htype : p.type = .declareMulti) (htx : p.txOffer = false)
    (hinq : ¬p.Inquired) (hshort : p.Short) (hq : ∀ v ∈ vs, v ≠ inquiry) (hne : vs ≠ []) :
    (vs.foldl (fun q v => (q.receiveStep v).1) p).valueL = [vs.getLast hne] := by
  induction vs generalizing p with
  | nil => exact absurd rfl hne
  | cons v vs ih =>
    have hv := hq v List.mem_cons_self
    have hstep : (p.receiveStep v).1 = commit { p.offered v with negotiated := v } := by
      rw [receiveStep_declaration (by rw [htype]; rfl) htx hv, settled,
        if_neg fun h => hinq ((isInquiry_offered htx hv).mp h)]
    obtain ⟨hlist, -⟩ := commit_short (p := { p.offered v with negotiated := v }) hshort htype
    rw [List.foldl_cons, hstep]
    cases vs with
    | nil => exact hlist
    | cons w vs =>
      rw [ih (p := commit { p.offered v with negotiated := v }) htype htx hinq
        (.inr (by rw [hlist]; exact Nat.le_refl _)) (fun w hw => hq w (List.mem_cons_of_mem _ hw))
        (List.cons_ne_nil _ _), List.getLast_cons (List.cons_ne_nil _ _)]

/-- The values of a list that has been marked for deletion, after some declarations. -/
theorem foldl_declared_iff (htype : p.type = .declareMulti) (hreset : p.reset = true)
    (hq : ∀ v ∈ vs, v ≠ inquiry) (hne : vs ≠ []) :
    (vs.foldl (fun q v => (q.receiveStep v).1) p).valueL = vs ↔
      (∃ v, vs = [v] ∧ p.Takes v) ∨ p.Ignores vs ∧ p.valueL = vs := by
  have hsingle {l : List CStr} (hl : l ≠ []) : [l.getLast hl] = l ↔ ∃ v, l = [v] := by
    refine ⟨fun h => ⟨_, h.symm⟩, ?_⟩
    rintro ⟨v, rfl⟩
    rfl
  cases htx : p.txOffer with
  | false =>
    simp only [Takes, Ignores, htx, Bool.false_eq_true, if_false]
    by_cases hinq : p.Inquired
    · rw [foldl_ignored (by rw [htype]; rfl) htx hinq hq]
      simp [hinq]
    · rw [foldl_taken htype htx hinq (.inl hreset) hq hne, hsingle]
      simp [hinq]
  | true =>
    obtain ⟨v, vs, rfl⟩ := List.exists_cons_of_ne_nil hne
    obtain ⟨w, hw, hneg⟩ : ∃ w, (if p.rxOffer then p.offerRx.str else v) = w ∧
        negotiation false (p.answered v) = .value w := by
      refine ⟨_, rfl, ?_⟩
      rw [negotiation, show (p.answered v).type = p.type from rfl, htype]
      rfl
    have hstep : (p.receiveStep v).1 = (p.answered v).settled w := by
      rw [receiveStep, htx, if_pos rfl, negotiateStep, hneg]
    have hanswer := @isInquiry_answered p v
    have hrest : ∀ v ∈ vs, v ≠ inquiry := fun x hx => hq x (List.mem_cons_of_mem _ hx)
    simp only [Takes, Ignores, htx, if_true]
    rw [List.foldl_cons, hstep, settled]
    by_cases hoffer : p.offerTx = inquiry
    · -- the answer to an inquiry is not committed, and neither is what follows
      rw [if_pos (hanswer.mpr (.inl hoffer)),
        foldl_ignored (p := { p.answered v with negotiated := w })
        (show p.type.declared = true by rw [htype]; rfl) rfl ⟨rfl, hoffer⟩ hrest]
      simp [hoffer, answered]
    · have hnot : ¬({ p.answered v with negotiated := w } : IscsiParameter).Inquired :=
        fun h => hoffer h.2
      cases vs with
      | nil =>
        by_cases hstale : (p.rxOffer = true ∨ p.txAnswer = true) ∧ p.offerRx.str = inquiry
        · rw [if_pos (hanswer.mpr (.inr hstale))]
          simp [hoffer, hstale, answered]
        · rw [if_neg fun h => (hanswer.mp h).elim hoffer hstale]
          have hlist := (commit_short (p := { p.answered v with negotiated := w }) (.inl hreset)
            htype).1
          have hsame : w = v ↔ (p.rxOffer = true → p.offerRx.str = v) := by
            rw [← hw]
            cases p.rxOffer <;> simp
          rw [List.foldl_nil, hlist, List.cons.injEq]
          simp [hoffer, hstale, hsame]
      | cons x vs =>
        -- two declarations leave one value
        have hlist : ((x :: vs).foldl (fun q v => (q.receiveStep v).1)
            (if isInquiry (p.answered v) then { p.answered v with negotiated := w }
              else commit { p.answered v with negotiated := w })).valueL.length = 1 := by
          split
          · rw [foldl_taken (p := { p.answered v with negotiated := w }) htype rfl hnot
              (.inl hreset) hrest (List.cons_ne_nil _ _)]
            rfl
          · have hone := (commit_short (p := { p.answered v with negotiated := w }) (.inl hreset)
              htype).1
            rw [foldl_taken (p := commit { p.answered v with negotiated := w }) htype rfl hnot
              (.inr (by rw [hone]; exact Nat.le_refl _)) hrest (List.cons_ne_nil _ _)]
            rfl
        refine iff_of_false (fun h => ?_) (by simp [hoffer])
        rw [h] at hlist
        simp at hlist

end IscsiParameter

/-! ## A text of declarations -/

/-- The exchange after `param_val_reset` of a key. -/
def Parse.valReset (K : CStr) (s : Parse) : Parse :=
  { s with params := (paramValReset s.params K).2 }

/-- A text is parsed after `param_val_reset`, and the values of the key are then those that the text
declares, in order, and no others. -/
def Kept (env : Env) (u : Users) (K : CStr) (T : List (CStr × CStr)) (s : Parse) : Prop :=
  ∃ s', paramTextParse env (pairsText T) false u (s.valReset K) = .ret 0 s' ∧
    ∀ i, paramValWhich s'.params K i = (declaredIn K T)[i]?

section Declarations

variable {env : Env} {u : Users} {K : CStr} {T : List (CStr × CStr)} {s s' : Parse}
  {p : IscsiParameter}

theorem Parse.par_valReset (hp : s.par K = some p) :
    (s.valReset K).par K = some { p with reset := true } := by
  have hparams : (s.valReset K).params = paramModify s.params K
    fun p => { p with reset := true } := by
    rw [Parse.valReset, paramValReset, show paramGet s.params K = some p from hp]
  rw [Parse.par, hparams]
  exact Parse.par_set (f := fun p => { p with reset := true }) (fun _ => rfl) hp

/-- The values of a key with several values are those that a text declares exactly when it declares
one and that is committed, or when none is committed and the values were there before. -/
theorem declarations_kept (hK : Aside K) (hp : s.par K = some p) (htype : p.type = .declareMulti)
    (hT : ∀ kv ∈ T, PairOk kv) (hne : declaredIn K T ≠ [])
    (hq : ∀ v ∈ declaredIn K T, v ≠ inquiry)
    (hreads : Reads env u T { s.valReset K with textOut := [] } s') :
    Kept env u K T s ↔ (∃ v, declaredIn K T = [v] ∧ p.Takes v) ∨
      p.Ignores (declaredIn K T) ∧ p.valueL = declaredIn K T := by
  have hrun := Reads.run hT hreads
  have hpar := Reads.par hK hreads (Parse.par_valReset hp)
    (show p.type.declared = true by rw [htype]; rfl) hq
  refine Iff.trans ?_ (IscsiParameter.foldl_declared_iff (p := { p with reset := true }) htype rfl
    hq hne)
  have hwhich (i : Nat) : paramValWhich s'.params K i =
      ((declaredIn K T).foldl (fun (q : IscsiParameter) v => (q.receiveStep v).1)
        { p with reset := true }).valueL[i]? := by
    rw [paramValWhich, show paramGet s'.params K = _ from hpar]
    rfl
  constructor
  · rintro ⟨s'', hrun', hall⟩
    obtain rfl := (Outcome.ret.inj (hrun.symm.trans hrun')).2
    exact List.ext_getElem? fun i => (hwhich i).symm.trans (hall i)
  · intro hlist
    exact ⟨s', hrun, fun i => (hwhich i).trans (by rw [hlist])⟩

end Declarations

/-! ## A discovery session -/

/-- The key of the names of targets. -/
def targetName : CStr := cstr "TargetName"

/-- An exchange of an initiator that looks for targets. -/
def discovery : Parse :=
  { ParamState.init [] ⟨0, List.replicate 1024 0, List.replicate 16 0⟩ fun _ => 0 with
    params := initiatorParams [] (cstr "h"), textOut := [] }

/-- The parameter of the names. -/
def targetNames : IscsiParameter := paramListAdd [] .declareMulti targetName [] []

/-- One target is found. -/
theorem declarations_kept_one :
    Kept zeroEnv initiatorOnly targetName [(targetName, cstr "disk")] discovery := by
  have hp : discovery.par targetName = some targetNames := by decide
  have hp' : ({ discovery.valReset targetName with textOut := [] } : Parse).par targetName =
      some { targetNames with reset := true } := Parse.par_valReset hp
  obtain ⟨o, s', hitem, hO⟩ := (completes_parseItem_in zeroEnv (u := initiatorOnly)
    (v := cstr "disk") (by decide) hp' (by decide)).returns
  obtain rfl : o = none := hO.2.1
  have hfree : ¬targetNames.Inquired := fun h => absurd h.1 (by decide)
  refine (declarations_kept (by decide) hp rfl (fun kv hkv => List.mem_singleton.mp hkv ▸ ?_)
    (by decide) (by decide) (.cons hitem (.nil s'))).mpr (.inl ⟨cstr "disk", rfl, ?_⟩)
  · exact ⟨by decide, by decide⟩
  · rw [IscsiParameter.Takes, if_neg (by decide)]
    exact hfree

/-- The names after a text, if it has been parsed. -/
def namesAfter (T : List (CStr × CStr)) : Option (List CStr) :=
  match paramTextParse zeroEnv (pairsText T) false initiatorOnly
  (discovery.valReset targetName) with
  | .halt _ _ => none
  | .ret _ s' => (s'.par targetName).map IscsiParameter.valueL

/-- Of two targets the first is lost. -/
theorem declarations_lost :
    ¬Kept zeroEnv initiatorOnly targetName
      [(targetName, cstr "disk0"), (targetName, cstr "disk1")] discovery := by
  rintro ⟨s', hrun, hall⟩
  have hnames : namesAfter [(targetName, cstr "disk0"), (targetName, cstr "disk1")] =
      some [cstr "disk1"] := by decide +kernel
  rw [namesAfter, hrun] at hnames
  change (s'.par targetName).map IscsiParameter.valueL = _ at hnames
  have hfirst := hall 0
  rw [paramValWhich, show paramGet s'.params targetName = s'.par targetName from rfl] at hfirst
  cases hp : s'.par targetName with
  | none =>
    rw [hp] at hnames
    exact absurd hnames (by simp)
  | some p =>
    rw [hp] at hnames hfirst
    change some p.valueL = some [cstr "disk1"] at hnames
    change p.valueL[0]? = _ at hfirst
    rw [Option.some.inj hnames] at hfirst
    exact absurd hfirst (by decide)

end Ost.Param
