import Ost.Param.Verdict

/-!
# What comes in

The loop of `param_text_parse` over a text of the initiator, with the parameters of the target:
after each pair the state is as the pairs so far have it (`Stands`).  Most programs of the
authentication leave what has been said alone (`Steady`); a `CHAP_C` and a `CHAP_R`, the
authentication method and an offered result do not.
-/

namespace Ost.Param

open Ost.Iscsi Ost.Util Ost.Prog

variable (env : Env) {v w : CStr} {x : Verdict} {c : Option CStr} {s : Parse} {p : IscsiParameter}
  {u : Users} {K : CStr}

/-! ## The authentication -/

section Security

theorem steady_offerChallenge : Steady v x c (fun _ => True) offerChallenge := by
  have hreset (key : CStr) (hd : declares key = true) (hne : key ≠ cstr "CHAP_R") :
      Steady v x c (fun _ => True)
        (setParam key fun p => { p with txOffer := false, rxOffer := false }) :=
    steady_setDeclared hd (fun _ => rfl) (fun _ hp => { hp with }) (fun _ => id)
      fun h => absurd h hne
  have hoffer (key w : CStr) (hw : NoNul w) :
      Steady v x c (fun _ => True) (setParam key fun p => { p with offerTx := w }) :=
    steady_setAside (fun _ => rfl) (fun _ hp => { hp with offerTx := hw })
      fun _ => ⟨rfl, rfl, rfl, rfl, rfl⟩
  refine .bind (steady_found _) fun ok _ => .ite (fun _ => .pure trivial) fun _ => ?_
  refine .bind (hreset _ (by decide) (by decide)) fun _ _ => ?_
  refine .bind (steady_genRandomData _) fun id _ => .bind steady_getCookie fun k _ => ?_
  refine .bind (steady_setCookie _) fun _ _ => .bind (hoffer _ _ (noNul_decimal _)) fun _ _ => ?_
  refine .bind (steady_textAdd (by decide) (noNul_decimal _) (by decide) (.inl (by decide)))
    fun ok _ => .ite (fun _ => .pure trivial) fun _ => ?_
  refine .bind (steady_found _) fun ok _ => .ite (fun _ => .pure trivial) fun _ => ?_
  refine .bind (hreset _ (by decide) (by decide)) fun _ _ => ?_
  refine .bind (steady_genRandomData _) fun challenge _ => .bind steady_getCookie fun k _ => ?_
  refine .bind (steady_setCookie _) fun _ _ => ?_
  refine .bind (hoffer _ _ (noNul_hexDataToText _)) fun _ _ => ?_
  refine .bind (steady_textAdd (by decide) (noNul_hexDataToText _) (by decide) (.inl (by decide)))
    fun ok _ => .ite (fun _ => .pure trivial) fun _ => ?_
  exact .bind (steady_logEvent _) fun _ _ => .pure trivial

/-- An algorithm that is offered is answered with a challenge. -/
theorem steady_securityChapA (hkey : p.key = cstr "CHAP_A") (hp : p.All NoNul) :
    Steady v x (some (cstr "CHAP_A")) (· ≠ 0) (securityChapA p) := by
  have hneg : (-1 : Int) ≠ 0 := by decide
  refine .ite (fun _ => .pure (by decide)) fun _ => ?_
  refine .bind (steady_textAdd ?_ hp.offerRx ?_ (.inr ?_)) fun ok _ =>
    .ite (fun _ => .pure hneg) fun _ => ?_
  · rw [hkey]
    decide
  · rw [hkey]
    decide
  · rw [hkey]
    rfl
  · exact .bind steady_offerChallenge fun ok _ => .ite (fun _ => .pure hneg) fun _ =>
      .pure (by decide)

theorem steady_securityChapI (p : IscsiParameter) : Steady v x c (· ≠ 0) (securityChapI p) :=
  .bind steady_getCookie fun _ _ => .bind (steady_setCookie _) fun _ _ => .pure (by decide)

theorem steady_securityChapN (hu : u.NoNul) (p : IscsiParameter) :
    Steady v x c (· ≠ 0) (securityChapN u p) := by
  have hneg : (-1 : Int) ≠ 0 := by decide
  have htwo : (2 : Int) ≠ 0 := by decide
  refine .ite (fun _ => .ite (fun _ => .pure hneg) fun _ => .pure htwo) fun _ => ?_
  refine .bind (steady_initiatorUser hu) fun iu _ => ?_
  exact .ite (fun _ => .pure hneg) fun _ => .pure htwo

/-- A response passes the comparison, or the parse fails. -/
theorem steady_securityChapR (hkey : p.key = cstr "CHAP_R") :
    Steady v x c (· ≤ 0) (securityChapR env u p) := by
  have hneg : (-1 : Int) ≤ 0 := by decide
  refine .bind steady_getCookie fun k _ => .bind (steady_setCookie _) fun _ _ => ?_
  refine .bind (steady_setDeclared ?_ (fun _ => rfl) (fun _ hp => { hp with
    offerTx := noNul_hexDataToText _, offerRx := noNul_hexDataToText _ }) (fun _ => id)
    fun _ _ => rfl) fun _ _ => ?_
  · rw [hkey]
    decide
  · exact .ite (fun _ => .pure hneg) fun _ => .bind (steady_logEvent _) fun _ _ => .pure (by decide)

/-- A challenge that is responded to makes the next `CHAP_R` an answer. -/
theorem Stands.securityChapC (hu : u.NoNul) (h : Stands v x c s) (p : IscsiParameter) :
    Completes (securityChapC env u p) (fun ret s' => 0 ≤ ret →
      ret ≠ 0 ∧ Stands v { x with owed := true } c s') s := by
  unfold Param.securityChapC
  dsimp only
  generalize (if p.rxOffer then hexTextToData p.offerRx chapCMaxDataLength
    else hexTextToData p.answerRx chapCDataLength) = r
  have hneg {P : Prop} (h : (0 : Int) ≤ -1) : P := absurd h (by decide)
  refine steady_getCookie.before h fun k s₁ _ h₁ => (steady_setCookie _).before h₁
    fun _ s₂ _ h₂ => ?_
  refine (wp_ite _ _ _).mpr ⟨fun _ => hneg, fun _ => ?_⟩
  refine (steady_found _).before h₂ fun ok s₃ _ h₃ => (wp_ite _ _ _).mpr
    ⟨fun _ => hneg, fun _ => ?_⟩
  refine (steady_initiatorUser hu).before h₃ fun iu s₄ hiu h₄ => ?_
  have huser : NoNul (if p.rxOffer then iu else u.targetUser) := by
    split
    · exact hiu
    · exact hu.targetUser
  refine Safe.before (steady_setDeclared (by decide) (fun _ => rfl)
    (fun _ hp => { hp with offerTx := huser }) (fun _ => id) fun h => absurd h (by decide)) h₄
    fun _ s₅ _ h₅ => ?_
  refine (steady_textAdd (by decide) huser (by decide) (.inl (by decide))).before h₅
    fun ok s₆ _ h₆ => (wp_ite _ _ _).mpr ⟨fun _ => hneg, fun _ => ?_⟩
  refine (steady_found _).before h₆ fun ok s₇ _ h₇ => (wp_ite _ _ _).mpr
    ⟨fun _ => hneg, fun _ => ?_⟩
  refine steady_getCookie.before h₇ fun k s₈ _ h₈ => (steady_setCookie _).before h₈
    fun _ s₉ _ h₉ => ?_
  have hset : Stands v { x with owed := true } c (s₉.set (cstr "CHAP_R") fun q => { q with
      txOffer := true, rxOffer := false, offerTx := hexDataToText
        (env.md5
          (k.idData :: ((if p.rxOffer then u.initiatorPass else u.targetPass) ++ r.2))) }) := by
    refine h₉.set (fun _ => rfl) (fun q hkey hq => ?_) (fun q hkey hq => ?_) rfl
    · have hd : q.type.declared = true := by
        rw [hq.declared_eq, hkey]
        decide
      refine ⟨hq.of_declared hd rfl { hq.strings with offerTx := noNul_hexDataToText _ } hq.valued
        fun _ => rfl, fun h => ?_⟩
      rw [hd] at h
      exact absurd h (by decide)
    · exact { hq with response := fun h => absurd h hkey }
  refine (wp_bind _ _).mpr ((wp_setParam _ _).mpr ?_)
  refine (steady_textAdd (by decide) (noNul_hexDataToText _) (by decide)
    (.inl (by decide))).before hset fun ok s₁₀ _ h₁₀ => (wp_ite _ _ _).mpr
    ⟨fun _ => hneg, fun _ => ?_⟩
  refine (wp_ite _ _ _).mpr ⟨fun _ => ?_, fun _ => fun _ => ⟨by decide, h₁₀⟩⟩
  exact steady_offerChallenge.before h₁₀ fun ok s₁₁ _ h₁₁ =>
    (wp_ite _ _ _).mpr ⟨fun _ => hneg, fun _ => fun _ => ⟨by decide, h₁₁⟩⟩

/-- What a key of the authentication says before it is known whether it is accepted. -/
def Verdict.heard (x : Verdict) (key : CStr) : Verdict :=
  if key = cstr "CHAP_C" then { x with owed := true } else x

/-- The keys of the challenge and the response. -/
def chapKeys : List CStr :=
  [cstr "CHAP_A", cstr "CHAP_I", cstr "CHAP_C", cstr "CHAP_N", cstr "CHAP_R"]

/-- Of the keys of the exchange, only a `CHAP_R` decides. -/
theorem Stands.paramParseSecurity (hu : u.NoNul) (h : Stands v x c s) (hkey : p.key ∈ chapKeys)
    (hp : p.All NoNul) (hc : p.key = cstr "CHAP_A" → c = some (cstr "CHAP_A")) :
    Completes (paramParseSecurity env u p) (fun ret s' => 0 ≤ ret →
      (ret = 0 ↔ p.key = cstr "CHAP_R") ∧ Stands v (x.heard p.key) c s') s := by
  have hspec {y : Prog Halt Parse Int} (hne : p.key ≠ cstr "CHAP_R") (hC : p.key ≠ cstr "CHAP_C")
      (hy : Steady v x c (· ≠ 0) y) {s₁ : Parse} (h₁ : Stands v x c s₁) :
      Completes y (fun ret s' => 0 ≤ ret →
        (ret = 0 ↔ p.key = cstr "CHAP_R") ∧ Stands v (x.heard p.key) c s') s₁ := by
    refine wp_mono (hy.run s₁ h₁) (fun ret s' ⟨hret, h'⟩ _ => ⟨?_, ?_⟩) fun _ _ => id
    · exact iff_of_false hret hne
    · rw [Verdict.heard, if_neg hC]
      exact h'
  refine steady_getCookie.before h fun k s₁ _ h₁ => ?_
  simp only [chapKeys, List.mem_cons, List.not_mem_nil, or_false] at hkey
  rcases hkey with hkey | hkey | hkey | hkey | hkey
  · rw [if_neg (by rw [hkey]; decide), if_pos hkey]
    obtain rfl := hc hkey
    exact hspec (by rw [hkey]; decide) (by rw [hkey]; decide) (steady_securityChapA hkey hp) h₁
  · rw [if_neg (by rw [hkey]; decide), if_neg (by rw [hkey]; decide), if_pos hkey]
    exact hspec (by rw [hkey]; decide) (by rw [hkey]; decide) (steady_securityChapI p) h₁
  · rw [if_neg (by rw [hkey]; decide), if_neg (by rw [hkey]; decide), if_neg (by rw [hkey]; decide),
      if_pos hkey]
    refine wp_mono (h₁.securityChapC env hu p) (fun ret s' h' hret => ⟨?_, ?_⟩) fun _ _ => id
    · exact iff_of_false (h' hret).1 (by rw [hkey]; decide)
    · rw [Verdict.heard, if_pos hkey]
      exact (h' hret).2
  · rw [if_neg (by rw [hkey]; decide), if_neg (by rw [hkey]; decide), if_neg (by rw [hkey]; decide),
      if_neg (by rw [hkey]; decide), if_pos hkey]
    exact hspec (by rw [hkey]; decide) (by rw [hkey]; decide) (steady_securityChapN hu p) h₁
  · rw [if_neg (by rw [hkey]; decide), if_neg (by rw [hkey]; decide), if_neg (by rw [hkey]; decide),
      if_neg (by rw [hkey]; decide), if_neg (by rw [hkey]; decide), if_pos hkey]
    refine wp_mono ((steady_securityChapR env hkey).run s₁ h₁)
      (fun ret s' ⟨hle, h'⟩ hret => ⟨?_, ?_⟩) fun _ _ => id
    · exact iff_of_true (Int.le_antisymm hle hret) hkey
    · rw [Verdict.heard, if_neg (by rw [hkey]; decide)]
      exact h'

end Security

/-! ## Negotiating and answering -/

section Labels

/-- A declaration is negotiated to some value. -/
theorem negotiation_declared (outgoing : Bool) (hd : p.type.declared = true) :
    ∃ w, negotiation outgoing p = .value w := by
  unfold negotiation
  cases hp : p.type with
  | declarative | declareMulti => exact ⟨_, rfl⟩
  | _ =>
    rw [hp] at hd
    exact absurd hd (by decide)

/-- Something is committed. -/
theorem commit_valued (p : IscsiParameter) : (commit p).valueL ≠ [] := by
  unfold commit
  dsimp only
  split
  · exact List.cons_ne_nil _ _
  · rw [ne_eq, List.set_eq_nil_iff]
    assumption

theorem steady_negotiate (outgoing : Bool) (hp : p.All NoNul) (hd : declares p.key = true)
    (htype : p.type.declared = true) :
    Steady v x c (· = none) (negotiate outgoing p) := by
  obtain ⟨w, hw⟩ := negotiation_declared outgoing htype
  unfold negotiate
  rw [hw]
  refine .bind (steady_setAside (fun _ => rfl)
    (fun q hq => { hq with negotiated := hp.negotiation closed_noNul hw })
    fun _ => ⟨rfl, rfl, rfl, rfl, rfl⟩) fun _ _ => ?_
  refine .bind (steady_logEvent _) fun _ _ => .bind (.guarded ?_) fun _ _ => .pure rfl
  exact steady_setDeclared hd (fun _ => rfl) (fun q hq => hq.commit) (fun q _ => commit_valued q)
    fun _ _ => rfl

theorem steady_answer (hp : p.All NoNul) (hw : NoNul w) (hkey : KeyOk p.key)
    (hne : p.key ≠ cstr "AuthResult") (hcur : declares p.key = true ∨ p.key ∈ c) :
    Steady v x c (· ≠ some 0) (answer p w) := by
  have hnone : (none : Option Int) ≠ some 0 := by decide
  unfold answer
  cases h : answerOf p w with
  | none => exact .pure hnone
  | some a =>
    have ha := hp.answerOf closed_noNul hw h
    refine .bind (steady_setAside (fun _ => rfl) (fun q hq => { hq with answerTx := ha })
      fun _ => ⟨rfl, rfl, rfl, rfl, rfl⟩) fun _ _ => ?_
    refine .bind (steady_textAdd hkey ha hne hcur) fun ok _ => ?_
    exact .ite (fun _ => .pure (by decide)) fun _ => .pure hnone

/-- The result is set when the authentication is passed. -/
theorem Stands.pass (h : Stands v x c s) :
    Completes (setAuthResult (cstr "Yes"))
      (fun _ s' => Stands v { x with passed := true } c s') s := by
  refine h.set (fun _ => rfl) (fun p hkey hp => ⟨⟨⟨hp.registered, ?_, ?_, hp.passive⟩, hp.current,
    fun h => ⟨?_, (hp.result h).2⟩, hp.response⟩, fun _ => id⟩) (fun p hkey hp => ?_) rfl
  · refine { hp.strings with valueL := fun w hw => ?_ }
    rcases List.mem_or_eq_of_mem_set hw with hw | rfl
    · exact hp.strings.valueL w hw
    · decide
  · rw [ne_eq, List.set_eq_nil_iff]
    exact hp.valued
  · cases hvalue : p.valueL with
    | nil => exact absurd hvalue hp.valued
    | cons a l => rfl
  · exact { hp with result := fun h => absurd h hkey }

end Labels

/-! ## One item -/

/-- How the loop goes on after an item: it fails, or what the text says has been extended. -/
def Goes (v : CStr) (x : Verdict) (o : Option Int) (s' : Parse) : Prop :=
  match o with
  | some rc => rc ≠ 0
  | none => Stands v x none s'

section Items

/-- The key that was being offered does not matter any more. -/
theorem Stands.settle (h : Stands v x c s) : Stands v x none s :=
  { h with fair := fun K p hp => { h.fair K p hp with current := fun _ hc => absurd hc (by simp) } }

/-- A parameter that is read again is one of the target's. -/
theorem steady_theParam (hp : p.Proper) :
    Steady v x c (fun q => q.key = p.key ∧ q.Proper) (theParam p) := by
  refine .gets fun s hs => ?_
  cases hq : paramGet s.params p.key with
  | none => exact ⟨rfl, hp⟩
  | some q => exact ⟨paramGet_key hq, (hs.fair _ q hq).toProper⟩

theorem keyOk_of_mem_authKeys {key : CStr} (h : key ∈ authKeys) : KeyOk key := by
  have hall : ∀ k ∈ authKeys, KeyOk k := by decide
  exact hall key h

/-- An answer to a declaration of ours comes in. -/
theorem Stands.receiveAnswer (hu : u.NoNul) (h : Stands v x none s) (hp : s.par p.key = some p)
    (hkey : p.key ∈ chapKeys) (htx : p.txOffer = true) (hw : NoNul w) :
    Completes (receiveAnswer env u p w) (Goes v (x.read (.pair p.key (some w)))) s := by
  have hfair := h.fair _ p hp
  have hd : p.type.declared = true := by
    by_contra hlist
    rw [(hfair.passive (by simpa using hlist)).1] at htx
    exact absurd htx (by decide)
  have hdk : declares p.key = true := by rw [← hfair.declared_eq, hd]
  obtain ⟨x₁, hx₁⟩ : ∃ x₁ : Verdict, x₁ =
    if p.key = cstr "CHAP_R" then { x with owed := false } else x := ⟨_, rfl⟩
  have hread : x₁.heard p.key = x.read (.pair p.key (some w)) := by
    rw [hx₁, Verdict.heard, Verdict.read]
    simp only [chapKeys, List.mem_cons, List.not_mem_nil, or_false] at hkey
    rcases hkey with hkey | hkey | hkey | hkey | hkey
    · exact absurd hkey (fun h => by rw [h] at hdk; exact absurd hdk (by decide))
    · rw [hkey]; rfl
    · rw [hkey]; rfl
    · rw [hkey]; rfl
    · rw [hkey, if_pos rfl, if_neg (by decide), if_neg (by decide), if_neg (by decide), if_pos rfl,
        ← hfair.response hkey, htx, if_pos rfl]
  have hset : Stands v x₁ none (s.set p.key (·.answered w)) := by
    refine h.set (fun _ => rfl) (fun q hq hf => ?_) (fun q hq hf => ?_) (by rw [hx₁]; split <;> rfl)
    · have hqd : q.type.declared = true := by rw [hf.declared_eq, hq, hdk]
      refine ⟨hf.of_declared hqd rfl (hf.strings.answered hw) hf.valued fun h => ?_, fun h => ?_⟩
      · rw [hx₁, if_pos (hq.symm.trans h)]
        rfl
      · rw [hqd] at h
        exact absurd h (by decide)
    · rw [hx₁]
      split
      · exact { hf with response := fun h => absurd (h.trans (Eq.symm ‹_›)) hq }
      · exact hf
  refine (wp_bind _ _).mpr ((wp_setParam _ _).mpr ?_)
  refine (steady_theParam hfair.toProper).before hset fun q s₁ ⟨hqkey, hq⟩ h₁ => ?_
  refine (wp_bind _ _).mpr (wp_mono (h₁.paramParseSecurity env hu (hqkey ▸ hkey) hq.strings ?_) ?_
    fun _ _ => id)
  · intro hA
    rw [← hqkey, hA] at hdk
    exact absurd hdk (by decide)
  · intro ret s₂ hret
    refine (wp_ite _ _ _).mpr ⟨fun _ => (by decide : (-2 : Int) ≠ 0), fun hpos => ?_⟩
    obtain ⟨-, h₂⟩ := hret (Int.not_lt.mp hpos)
    rw [hqkey, hread] at h₂
    refine (steady_theParam hfair.toProper).before h₂ fun q' s₃ ⟨hq'key, hq'⟩ h₃ => ?_
    have hq'd : declares q'.key = true := hq'key ▸ hdk
    refine wp_mono ((steady_negotiate false hq'.strings hq'd
      (by rw [hq'.declared_eq, hq'd])).run s₃ h₃) (fun o s' ⟨ho, h'⟩ => ?_) fun _ _ => id
    rw [ho]
    exact h'

/-- A key is being offered. -/
theorem Stands.offered (h : Stands v x none s) (hne : K ≠ cstr "AuthResult") (hw : NoNul w) :
    Stands v x (some K) (s.set K (·.offered w)) := by
  refine h.set (fun _ => rfl) (fun q hq hf => ⟨?_, fun _ _ => rfl⟩) (fun q hq hf => ?_) rfl
  · refine ⟨⟨hf.registered, hf.strings.offered hw, hf.valued, hf.passive⟩, fun _ _ => rfl, ?_,
      hf.response⟩
    exact fun h => absurd (hq.symm.trans h) hne
  · exact { hf with current := fun _ h => absurd (Option.some.inj h).symm hq }

/-- The rest of an offer that has been looked at: it is negotiated or answered. -/
theorem Stands.answerOffer {q : IscsiParameter} (h : Stands v x (some p.key) s)
    (hkey : p.key ∈ authKeys) (hw : NoNul w) (hq : q.key = p.key) (hq' : q.Proper) :
    Completes (if q.offerRx.str ≠ cstr "?" && (q.type = .declarative || q.type = .declareMulti) then
      negotiate false q else answer q w) (Goes v x) s := by
  have hne : p.key ≠ cstr "AuthResult" := by
    have hall : ∀ k ∈ authKeys, k ≠ cstr "AuthResult" := by decide
    exact hall _ hkey
  refine (wp_ite _ _ _).mpr ⟨fun hd => ?_, fun _ => ?_⟩
  · rw [declared_eq, Bool.and_eq_true] at hd
    have hdk : declares q.key = true := by rw [← hq'.declared_eq, hd.2]
    refine wp_mono ((steady_negotiate false hq'.strings hdk hd.2).run s h) ?_ fun _ _ => id
    rintro o s' ⟨rfl, h'⟩
    exact h'.settle
  · refine wp_mono ((steady_answer hq'.strings hw (hq ▸ keyOk_of_mem_authKeys hkey) (hq ▸ hne)
      (.inr (by rw [hq]; rfl))).run s h) ?_ fun _ _ => id
    rintro (_ | rc) s' ⟨ho, h'⟩
    · exact h'.settle
    · exact fun h0 => ho (congrArg some h0)

/-- An offer of the exchange comes in. -/
theorem Stands.receiveOffer (hu : u.NoNul) (h : Stands v x none s) (hp : s.par p.key = some p)
    (hkey : p.key ∈ chapKeys) (htx : p.txOffer = false) (hw : NoNul w) :
    Completes (receiveOffer env u p w) (Goes v (x.read (.pair p.key (some w)))) s := by
  have hfair := h.fair _ p hp
  have hauth : p.key ∈ authKeys := List.mem_cons_of_mem _ hkey
  have hne : p.key ≠ cstr "AuthResult" := by
    have hall : ∀ k ∈ authKeys, k ≠ cstr "AuthResult" := by decide
    exact hall _ hauth
  have hplain (hR : p.key ≠ cstr "CHAP_R") : x.heard p.key = x.read (.pair p.key (some w)) := by
    rw [Verdict.heard, Verdict.read]
    simp only [chapKeys, List.mem_cons, List.not_mem_nil, or_false] at hkey
    rcases hkey with hkey | hkey | hkey | hkey | hkey
    · rw [hkey]; rfl
    · rw [hkey]; rfl
    · rw [hkey]; rfl
    · rw [hkey]; rfl
    · exact absurd hkey hR
  have hresponse (hR : p.key = cstr "CHAP_R") :
      { x.heard p.key with passed := true } = x.read (.pair p.key (some w)) := by
    have howed : x.owed = false := (hfair.response hR).symm.trans htx
    rw [Verdict.heard, Verdict.read, hR, if_neg (by decide), if_neg (by decide), if_neg (by decide),
      if_pos rfl, if_neg (by rw [howed]; decide)]
  refine (wp_bind _ _).mpr ((wp_setParam _ _).mpr ?_)
  refine (steady_theParam hfair.toProper).before (h.offered hne hw) fun q s₁ hq h₁ => ?_
  obtain ⟨hqkey, hq⟩ := hq
  refine (wp_bind _ _).mpr (wp_mono (h₁.paramParseSecurity env hu (hqkey ▸ hkey) hq.strings ?_) ?_
    fun _ _ => id)
  · intro hA
    rw [← hqkey, hA]
  intro ret s₂ hret
  rw [hqkey] at hret
  refine (wp_ite _ _ _).mpr
    ⟨fun hbig => ?_, fun _ => (wp_ite _ _ _).mpr ⟨fun _ => ?_, fun hpos => ?_⟩⟩
  · obtain ⟨hR, h₂⟩ := hret (by omega)
    rw [hplain fun hk => absurd (hR.mpr hk) (by omega)] at h₂
    exact h₂.settle
  · exact (wp_bind _ _).mpr ((wp_setParam _ _).mpr (by decide : (-2 : Int) ≠ 0))
  obtain ⟨hR, h₂⟩ := hret (Int.not_lt.mp hpos)
  rw [wp_bind, wp_guarded]
  refine ⟨fun h0 => wp_mono h₂.pass ?_ fun _ _ => id, fun hne0 => ?_⟩
  · rintro _ s₃ h₃
    rw [hresponse (hR.mp h0)] at h₃
    refine (steady_theParam hfair.toProper).before h₃ fun q' s₄ hq' h₄ => ?_
    exact h₄.answerOffer hauth hw hq'.1 hq'.2
  · rw [hplain fun hk => hne0 (hR.mpr hk)] at h₂
    refine (steady_theParam hfair.toProper).before h₂ fun q' s₄ hq' h₄ => ?_
    exact h₄.answerOffer hauth hw hq'.1 hq'.2

/-- An authentication method is offered. -/
theorem Stands.receiveMethod (h : Stands v x none s) (hp : s.par p.key = some p)
    (hkey : p.key = cstr "AuthMethod") (hw : NoNul w) :
    Completes (Param.receiveOffer env u p w) (Goes v (x.read (.pair p.key (some w)))) s := by
  have hfair := h.fair _ p hp
  have hauth : p.key ∈ authKeys := by
    rw [hkey]
    decide
  have hpassive := hfair.passive (by rw [hfair.declared_eq, hkey]; decide)
  have hset := h.offered (K := p.key) (by rw [hkey]; decide) hw
  refine (wp_bind _ _).mpr ((wp_setParam _ _).mpr ?_)
  refine completes_theParam (Parse.par_set (f := (·.offered w)) (fun _ => rfl) hp) ?_
  refine (wp_bind _ _).mpr (wp_mono (Q := fun ret s' => ret = (if w = cstr "None" then 0 else 1) ∧
    Stands v x (some p.key) s') ?_ ?_ fun _ _ => id)
  · refine steady_getCookie.before hset fun k s₁ _ h₁ => ?_
    rw [if_pos (show (p.offered w).key = _ from hkey)]
    unfold securityAuthMethod
    rw [show (p.offered w).rxAnswer = false from hpassive.2]
    refine (wp_ite _ _ _).mpr ⟨fun hf => absurd hf (by simp), fun _ => ?_⟩
    refine (wp_ite _ _ _).mpr ⟨fun hnone => ?_, fun hnone => ?_⟩
    · exact ⟨(if_pos (of_decide_eq_true hnone)).symm, h₁⟩
    · exact ⟨(if_neg fun heq => hnone (decide_eq_true heq)).symm, h₁⟩
  rintro ret s₁ ⟨rfl, h₁⟩
  have hsmall : ¬(if w = cstr "None" then (0 : Int) else 1) > 1 ∧
      ¬(if w = cstr "None" then (0 : Int) else 1) < 0 := by
    split <;> decide
  rw [if_neg hsmall.1, if_neg hsmall.2, wp_bind, wp_guarded]
  have hread :
      x.read (.pair p.key (some w)) = { x with passed := x.passed || w = cstr "None" } := by
    rw [Verdict.read, if_pos hkey]
  rw [hread]
  refine ⟨fun h0 => wp_mono h₁.pass ?_ fun _ _ => id, fun hne0 => ?_⟩
  · rintro _ s₂ h₂
    have hnone : w = cstr "None" := by
      by_contra hne
      rw [if_neg hne] at h0
      exact absurd h0 (by decide)
    refine (steady_theParam hfair.toProper).before h₂ fun q s₃ hq h₃ => ?_
    rw [decide_eq_true hnone, Bool.or_true]
    exact h₃.answerOffer hauth hw hq.1 hq.2
  · have hnone : w ≠ cstr "None" := fun heq => hne0 (if_pos heq)
    refine (steady_theParam hfair.toProper).before h₁ fun q s₃ hq h₃ => ?_
    rw [decide_eq_false hnone, Bool.or_false]
    exact h₃.answerOffer hauth hw hq.1 hq.2

/-- The keys that a text says nothing about the authentication with. -/
theorem Verdict.read_plain {key : CStr} (hplain : key ∉ authKeys) (hne : key ≠ cstr "AuthResult")
    (x : Verdict) (w : CStr) : x.read (.pair key (some w)) = x := by
  have hall (k : CStr) (hk : k ∈ authKeys) : key ≠ k := fun heq => hplain (heq ▸ hk)
  rw [Verdict.read, if_neg (hall _ (by decide)), if_neg (hall _ (by decide)),
    if_neg (hall _ (by decide)), if_neg hne]

theorem Verdict.read_authResult (x : Verdict) (w : CStr) :
    x.read (.pair (cstr "AuthResult") (some w)) = { x with offered := some w } := by
  rw [Verdict.read, if_neg (by decide), if_neg (by decide), if_neg (by decide), if_pos rfl]

/-- A key that is not known is reported. -/
theorem Stands.receiveUnknown {key : CStr} (h : Stands v x none s) (hp : s.par key = none)
    (hkey : KeyOk key) (w : CStr) :
    ensures (Param.parseItem env false u (.pair key (some w)))
      (Goes v (x.read (.pair key (some w)))) s := by
  have hsig : sigOf key = none := by
    have hknown := h.known key
    rw [hp] at hknown
    exact Option.isNone_iff_eq_none.mp (by simpa using hknown.symm)
  have hne (K : CStr) (hK : (sigOf K).isSome = true) : key ≠ K := by
    rintro rfl
    rw [hsig] at hK
    exact absurd hK (by decide)
  have hplain : key ∉ authKeys := fun hmem => by
    have hall : ∀ k ∈ authKeys, (sigOf k).isSome = true := by decide
    exact hne key (hall key hmem) rfl
  rw [Verdict.read_plain hplain (hne _ (by decide))]
  refine (parseItem_unknown env hp).mono ?_
  rintro o s' ⟨hpar, hout⟩
  obtain ⟨T, hT, htold⟩ := h.text
  cases hadd : paramTextAdd key (cstr "NotUnderstood") s.textOut with
  | none =>
    rw [hadd] at hout
    obtain ⟨rfl, -⟩ := hout
    exact (by decide : (-1 : Int) ≠ 0)
  | some text =>
    rw [hadd] at hout
    obtain ⟨rfl, htext⟩ := hout
    rw [hT] at hadd
    refine ⟨fun K => (hpar K).symm ▸ h.known K, fun K p hp => h.fair K p (hpar K ▸ hp),
      T ++ [(key, cstr "NotUnderstood")], htext.trans (paramTextAdd_pairsText hadd), ?_⟩
    have hcat := htold.concat (w := cstr "NotUnderstood") hkey (by decide) (hne _ (by decide))
      fun p hp' => absurd (hp.symm.trans hp') (by simp)
    exact { hcat with answers := fun kv hkv p hp => hcat.answers kv hkv p (hpar kv.1 ▸ hp) }

/-! ### A parameter that comes in -/

theorem settled_valued (hp : p.valueL ≠ []) : (p.settled w).valueL ≠ [] := by
  unfold IscsiParameter.settled
  split
  · exact hp
  · exact commit_valued _

theorem negotiateStep_valued (outgoing : Bool) (hp : p.valueL ≠ []) :
    (p.negotiateStep outgoing).1.valueL ≠ [] := by
  unfold IscsiParameter.negotiateStep
  split
  · exact hp
  · exact hp
  · exact settled_valued hp

theorem receiveStep_valued (hp : p.valueL ≠ []) : (p.receiveStep w).1.valueL ≠ [] := by
  unfold IscsiParameter.receiveStep
  split
  · exact negotiateStep_valued false hp
  split
  · exact negotiateStep_valued false hp
  · split <;> exact hp

/-- The loop goes on when a declaration has been negotiated. -/
theorem negotiateStep_declared (outgoing : Bool) (hd : p.type.declared = true) :
    (p.negotiateStep outgoing).2 = none := by
  obtain ⟨w, hw⟩ := negotiation_declared outgoing hd
  unfold IscsiParameter.negotiateStep
  rw [hw]

/-- The loop goes on when only declarations are answered. -/
theorem receiveStep_continues (hp : p.type.declared = false → p.txOffer = false) (w : CStr) :
    (p.receiveStep w).2 = none := by
  have hd (htx : p.txOffer = true) : p.type.declared = true := by
    by_contra hd
    rw [hp (by simpa using hd)] at htx
    exact absurd htx (by decide)
  unfold IscsiParameter.receiveStep
  split
  · exact negotiateStep_declared false (p := p.answered w) (hd ‹_›)
  split
  · exact negotiateStep_declared false (p := p.offered w) (And.right ‹_›)
  · split <;> rfl

/-- An offer of a value that is negotiated is answered. -/
theorem answerOf_listed (hd : p.type.declared = false) (w : CStr) : ∃ a, answerOf p w = some a := by
  unfold answerOf
  split
  · exact ⟨_, rfl⟩
  cases hp : p.type with
  | binaryOr | binaryAnd =>
    dsimp only
    split
    · exact ⟨_, rfl⟩
    · split <;> exact ⟨_, rfl⟩
  | list | numerical | numericalZ => exact ⟨_, rfl⟩
  | declarative | declareMulti =>
    rw [hp] at hd
    exact absurd hd (by decide)

/-- The answer to an offer of a list that is no inquiry. -/
theorem answerOf_list (htype : p.type = .list) (hne : w ≠ inquiry) :
    answerOf p w = some (listAnswer p.valid p.offerRx.str) := by
  rw [answerOf, if_neg (show ¬w = cstr "?" from hne), htype]

/-- The parameter of an offer that is answered. -/
theorem receiveStep_listed (hd : p.type.declared = false) (htx : p.txOffer = false) (w : CStr) :
    ∃ a, answerOf (p.offered w) w = some a ∧ p.reply w = some a ∧
      (p.receiveStep w).1 = p.replied w a := by
  have hcond : ¬(w ≠ inquiry ∧ p.type.declared = true) := fun h => by
    rw [hd] at h
    exact absurd h.2 (by decide)
  obtain ⟨a, ha⟩ := answerOf_listed (p := p.offered w) hd w
  refine ⟨a, ha, ?_, ?_⟩
  · unfold IscsiParameter.reply
    rw [htx, if_neg Bool.false_ne_true, if_neg hcond]
    exact ha
  · unfold IscsiParameter.receiveStep
    rw [htx, if_neg Bool.false_ne_true, if_neg hcond, ha]

/-- The parameters and the text so far, when one parameter has moved. -/
structure Moved (v : CStr) (x : Verdict) (key : CStr) (s s' : Parse) : Prop where
  known : ∀ K, (s'.par K).isSome = (sigOf K).isSome
  others : ∀ K p, K ≠ key → s'.par K = some p → Fair v x none p
  proper : ∀ p, s'.par key = some p → p.Proper
  answered : ∀ p, s'.par key = some p → p.type.declared = false → p.rxOffer = true
  text : ∃ T, s.textOut = pairsText T ∧ Told x s' T

/-- One parameter has moved. -/
theorem Stands.moved {key : CStr} {q : IscsiParameter} {s' : Parse} (h : Stands v x none s)
    (hp : s.par key = some p) (hq : s'.par key = some q)
    (hothers : ∀ K, K ≠ key → s'.par K = s.par K)
    (hproper : q.Proper) (hsig : q.sig = p.sig)
    (hrx : p.type.declared = false → q.rxOffer = true) : Moved v x key s s' := by
  have htype : q.type = p.type := congrArg Sig.type hsig
  have hself (q' : IscsiParameter) (hq' : s'.par key = some q') : q' = q :=
    Option.some.inj (hq'.symm.trans hq)
  obtain ⟨T, hT, htold⟩ := h.text
  refine ⟨fun K => ?_, fun K q' hK hq' => h.fair K q' (hothers K hK ▸ hq'),
    fun q' hq' => hself q' hq' ▸ hproper, fun q' hq' hd => ?_, T, hT,
    { htold with answers := fun kv hkv q' hq' hd => ?_ }⟩
  · by_cases hK : K = key
    · rw [hK, ← h.known key, hq, hp]
      rfl
    · rw [hothers K hK]
      exact h.known K
  · rw [hself q' hq'] at hd ⊢
    exact hrx (htype ▸ hd)
  · by_cases hK : kv.1 = key
    · rw [hK] at hq'
      rw [hself q' hq'] at hd ⊢
      exact hrx (htype ▸ hd)
    · rw [hothers _ hK] at hq'
      exact htold.answers kv hkv q' hq' hd

/-- A parameter has moved that has no part in the authentication. -/
theorem Moved.aside {key : CStr} {s' : Parse} {text : Bytes} (h : Moved v x key s s')
    (hfair : Fair v x none p) (hplain : key ∉ authKeys) (hne : key ≠ cstr "AuthResult")
    (hkey : KeyOk key) (hw : NoNul w) (hadd : textWith key (p.reply w) s.textOut = some text)
    (htext : s'.textOut = text) : Stands v x none s' := by
  obtain ⟨T, hT, htold⟩ := h.text
  refine ⟨h.known, fun K q hq => ?_, ?_⟩
  · by_cases hK : K = key
    · have hqkey : q.key = key := paramGet_key (hK ▸ hq)
      have hresponse : q.key ≠ cstr "CHAP_R" := fun heq => hplain (hqkey ▸ heq ▸ by decide)
      exact ⟨h.proper q (hK ▸ hq), fun _ hc => absurd hc (by simp),
        fun heq => absurd (hqkey.symm.trans heq) hne, fun heq => absurd heq hresponse⟩
    · exact h.others K q hK hq
  · cases hreply : p.reply w with
    | none =>
      rw [hreply] at hadd
      exact ⟨T, htext.trans ((Option.some.inj hadd).symm.trans hT), htold⟩
    | some a =>
      rw [hreply, hT] at hadd
      exact ⟨T ++ [(key, a)], htext.trans (paramTextAdd_pairsText hadd),
        htold.concat hkey (hfair.strings.reply closed_noNul hw hreply) hne h.answered⟩

/-- `AuthResult` was offered. -/
theorem Moved.result {s' : Parse} {text : Bytes} (h : Moved v x (cstr "AuthResult") s s')
    (hfair : Fair v x none p) (hp : s.par (cstr "AuthResult") = some p)
    (hq : s'.par (cstr "AuthResult") = some (p.receiveStep w).1) (hw : NoNul w)
    (hadd : textWith (cstr "AuthResult") (p.reply w) s.textOut = some text)
    (htext : s'.textOut = text) : Stands v { x with offered := some w } none s' := by
  have hpkey := paramGet_key hp
  have htype : p.type = .list := hfair.type_eq hpkey sigOf_authResult
  have hd : p.type.declared = false := by
    rw [htype]
    rfl
  obtain ⟨a, ha, hreply, hstep⟩ := receiveStep_listed hd (hfair.passive hd).1 w
  obtain ⟨T, hT, htold⟩ := h.text
  rw [hreply, hT] at hadd
  have hlast : lastResult (T ++ [(cstr "AuthResult", a)]) = some a :=
    (lastResult_concat T _).trans (if_pos rfl)
  refine ⟨h.known, fun K q' hq' => ?_, T ++ [(cstr "AuthResult", a)],
    htext.trans (paramTextAdd_pairsText hadd), ⟨fun kv hkv => ?_, fun kv hkv => ?_,
      fun hnone => absurd hnone (by simp), ?_⟩⟩
  · by_cases hK : K = cstr "AuthResult"
    · subst hK
      rw [hq] at hq'
      obtain rfl := Option.some.inj hq'
      refine ⟨h.proper _ hq, fun _ hc => absurd hc (by simp), fun _ => ⟨?_, fun o ho => ?_⟩,
        fun heq => ?_⟩
      · rw [hstep]
        exact (hfair.result hpkey).1
      · rw [hstep, ← Option.some.inj ho]
        exact ⟨rfl, rfl⟩
      · rw [hstep] at heq
        exact absurd (hpkey.symm.trans heq) (by decide)
    · have hold := h.others K q' hK hq'
      have hq'key := paramGet_key hq'
      exact { hold with result := fun heq => absurd (hq'key.symm.trans heq) hK }
  · rcases List.mem_append.mp hkv with hkv | hkv
    · exact htold.ok kv hkv
    · rw [List.mem_singleton.mp hkv]
      exact ⟨(by decide : KeyOk (cstr "AuthResult")), hfair.strings.reply closed_noNul hw hreply⟩
  · rcases List.mem_append.mp hkv with hkv | hkv
    · exact htold.answers kv hkv
    · rw [List.mem_singleton.mp hkv]
      exact h.answered
  · intro o ho hne
    obtain rfl := Option.some.inj ho
    have hvalid : (p.offered w).valid = Verdict.results := hfair.valid_eq hpkey sigOf_authResult
    rw [hlast, ← ha, answerOf_list (p := p.offered w) htype hne, hvalid]
    rfl

/-- A pair that the authentication takes no part in comes in. -/
theorem Stands.receivePlain {key : CStr} (h : Stands v x none s) (hp : s.par key = some p)
    (hplain : key ∉ authKeys) (hkey : KeyOk key) (hw : NoNul w)
    (hshort : w.length < iscsiParamMaxLen) :
    ensures (Param.parseItem env false u (.pair key (some w)))
      (Goes v (x.read (.pair key (some w)))) s := by
  have hpkey := paramGet_key hp
  have hfair := h.fair key p hp
  have hpassive (hd : p.type.declared = false) : p.txOffer = false := (hfair.passive hd).1
  refine wp_mono (wp_and (completes_parseItem_in env (u := u) hplain hp hshort)
    (ensures_forall fun K => ensures_forall fun (hne : K ≠ key) =>
      parseItem_plain_ne env (u := u) hplain hne (some w) s)) ?_ fun _ _ _ => trivial
  rintro o s' ⟨⟨hpar, hout⟩, hothers⟩
  rw [hpkey] at hpar hout
  rw [receiveStep_continues hpassive] at hout
  cases hadd : textWith key (p.reply w) s.textOut with
  | none =>
    rw [hadd] at hout
    obtain ⟨rfl, -⟩ := hout
    exact (by decide : (-1 : Int) ≠ 0)
  | some text =>
    rw [hadd] at hout
    obtain ⟨rfl, htext⟩ := hout
    have hsig := sig_receiveStep w p
    have hproper : (p.receiveStep w).1.Proper := by
      refine ⟨?_, hfair.strings.receiveStep closed_noNul hw, receiveStep_valued hfair.valued, ?_⟩
      · rw [show (p.receiveStep w).1.key = p.key from congrArg Sig.key hsig, hsig]
        exact hfair.registered
      · intro hd
        rw [show (p.receiveStep w).1.type = p.type from congrArg Sig.type hsig] at hd
        obtain ⟨a, -, -, hstep⟩ := receiveStep_listed hd (hpassive hd) w
        rw [hstep]
        exact hfair.passive hd
    have hmoved := h.moved hp hpar hothers hproper hsig fun hd => by
      obtain ⟨a, -, -, hstep⟩ := receiveStep_listed hd (hpassive hd) w
      rw [hstep]
      rfl
    by_cases hresult : key = cstr "AuthResult"
    · subst hresult
      rw [Verdict.read_authResult]
      exact hmoved.result hfair hp hpar hw hadd htext
    · rw [Verdict.read_plain hplain hresult]
      exact hmoved.aside hfair hplain hresult hkey hw hadd htext

/-- A pair comes in. -/
theorem Stands.parseItem {key : CStr} (hu : u.NoNul) (h : Stands v x none s) (hkey : KeyOk key)
    (hw : NoNul w) : ensures (Param.parseItem env false u (.pair key (some w)))
      (Goes v (x.read (.pair key (some w)))) s := by
  cases hp : s.par key with
  | none => exact h.receiveUnknown env hp hkey w
  | some p =>
    by_cases hshort : w.length < iscsiParamMaxLen
    · by_cases hplain : key ∈ authKeys
      · obtain rfl := paramGet_key hp
        refine ensures.bind (P := fun _ s₁ => Stands v x none s₁ ∧ s₁.par p.key = some p)
          ((wp_guarded _ _).mpr ⟨fun _ => ⟨h.congr rfl rfl, hp⟩, fun _ => ⟨h, hp⟩⟩) ?_
        rintro _ s₁ ⟨h₁, hp₁⟩
        rw [ensures, wp_bind, wp_get, show paramGet s₁.params p.key = some p from hp₁]
        dsimp only
        rw [if_neg (Nat.not_lt.mpr (Nat.le_of_lt hshort)), if_neg (Nat.ne_of_lt hshort),
          if_neg Bool.false_ne_true]
        rcases List.mem_cons.mp hplain with hmethod | hchap
        · have htx := (h₁.fair _ p hp₁).passive
            (by rw [(h₁.fair _ p hp₁).declared_eq, hmethod]; decide)
          rw [htx.1, if_neg Bool.false_ne_true]
          exact wp_mono (h₁.receiveMethod env hp₁ hmethod hw) (fun _ _ => id) fun _ _ => False.elim
        · refine (wp_ite _ _ _).mpr ⟨fun htx => ?_, fun htx => ?_⟩
          · exact wp_mono (h₁.receiveAnswer env hu hp₁ hchap htx hw) (fun _ _ => id)
              fun _ _ => False.elim
          · exact wp_mono (h₁.receiveOffer env hu hp₁ hchap (by simpa using htx) hw) (fun _ _ => id)
              fun _ _ => False.elim
      · exact h.receivePlain env hp hplain hkey hw hshort
    · refine (parseItem_long env false hp (Nat.not_lt.mp hshort)).mono ?_
      rintro o s' rfl
      exact (by decide : (-1 : Int) ≠ 0)

end Items

/-! ## A text -/

section Texts

/-- Items that the loop can read: pairs of keys and values, up to a key that does not fit. -/
def Sane : List Item → Prop
  | [] => True
  | .pair key (some w) :: its => KeyOk key ∧ NoNul w ∧ Sane its
  | .pair _ none :: _ => False
  | .tooLong _ :: _ => True

/-- A text that begins with a pair.  Without one, the loop works on a key that has not been set. -/
def Begins (text : Bytes) : Prop := ∀ t ∈ (textTokens text).head?, splitEq t ≠ none

instance (text : Bytes) : Decidable (Begins text) :=
  inferInstanceAs (Decidable (∀ t ∈ (textTokens text).head?, splitEq t ≠ none))

/-- A split token is put together again. -/
theorem splitEq_eq {t k w : CStr} (h : splitEq t = some (k, w)) : t = k ++ 61 :: w ∧ 61 ∉ k := by
  induction t generalizing k with
  | nil => exact absurd h (by simp [splitEq])
  | cons b t ih =>
    by_cases hb : b = 61
    · subst hb
      rw [splitEq] at h
      obtain ⟨rfl, rfl⟩ := Prod.mk.inj (Option.some.inj h)
      exact ⟨rfl, List.not_mem_nil⟩
    · rw [splitEq.eq_3 _ _ hb] at h
      obtain ⟨kv, hkv, heq⟩ := Option.map_eq_some_iff.mp h
      obtain ⟨rfl, rfl⟩ := Prod.mk.inj heq
      obtain ⟨ht, hnot⟩ := ih hkv
      refine ⟨congrArg _ ht, fun hmem => ?_⟩
      rcases List.mem_cons.mp hmem with h61 | hmem
      · exact hb h61.symm
      · exact hnot hmem

/-- The loop can read the items of tokens, when a pair has been read before. -/
theorem sane_itemsFrom {key : CStr} {ts : List CStr} (hts : ∀ t ∈ ts, NoNul t) (hkey : KeyOk key)
    (hw : NoNul w) : Sane (itemsFrom key (some w) ts) := by
  induction ts generalizing key w with
  | nil => trivial
  | cons t ts ih =>
    have hrest := fun t ht => hts t (List.mem_cons_of_mem _ ht)
    rw [itemsFrom]
    cases h : splitEq t with
    | none => exact ⟨hkey, hw, ih hrest hkey hw⟩
    | some kv =>
      obtain ⟨ht, hnot⟩ := splitEq_eq h
      have htok := hts t List.mem_cons_self
      rw [ht] at htok
      simp only [NoNul, List.mem_append, List.mem_cons, not_or] at htok
      dsimp only
      split
      · trivial
      · have hkv : KeyOk kv.1 := ⟨htok.1, hnot, by omega⟩
        exact ⟨hkv, htok.2.2, ih hrest hkv htok.2.2⟩

/-- Tokens have no terminator inside. -/
theorem noNul_tokensFrom {text : Bytes} {cur t : CStr} (hcur : NoNul cur)
    (ht : t ∈ tokensFrom cur text) : NoNul t := by
  induction text generalizing cur with
  | nil =>
    cases cur with
    | nil => exact absurd ht List.not_mem_nil
    | cons a cur => exact List.mem_singleton.mp ht ▸ hcur
  | cons b text ih =>
    by_cases hb : b = 0
    · subst hb
      cases cur with
      | nil => exact ih List.not_mem_nil ht
      | cons a cur =>
        rw [tokensFrom_nul (List.cons_ne_nil _ _)] at ht
        rcases List.mem_cons.mp ht with rfl | ht
        · exact hcur
        · exact ih List.not_mem_nil ht
    · rw [tokensFrom.eq_5 _ _ _ (fun _ h => hb h) fun _ _ _ h => hb h] at ht
      refine ih (fun h => ?_) ht
      rcases List.mem_append.mp h with h | h
      · exact hcur h
      · exact hb (List.mem_singleton.mp h).symm

/-- The loop can read a text that begins with a pair. -/
theorem sane_textItems {text : Bytes} (h : Begins text) : Sane (textItems env text) := by
  have htok : ∀ t ∈ textTokens text, NoNul t := fun t => noNul_tokensFrom List.not_mem_nil
  unfold Begins at h
  unfold textItems
  cases hts : textTokens text with
  | nil => trivial
  | cons t ts =>
    rw [hts] at h htok
    rw [itemsFrom]
    cases hsplit : splitEq t with
    | none => exact absurd hsplit (h t rfl)
    | some kv =>
      obtain ⟨ht, hnot⟩ := splitEq_eq hsplit
      have hfirst := htok t List.mem_cons_self
      rw [ht] at hfirst
      simp only [NoNul, List.mem_append, List.mem_cons, not_or] at hfirst
      dsimp only
      split
      · trivial
      · have hkv : KeyOk kv.1 := ⟨hfirst.1, hnot, by omega⟩
        exact ⟨hkv, hfirst.2.2,
          sane_itemsFrom (fun t ht => htok t (List.mem_cons_of_mem _ ht)) hkv hfirst.2.2⟩

/-- The loop reads what the items say. -/
theorem Stands.parseItems {its : List Item} (hu : u.NoNul) (h : Stands v x none s)
    (hits : Sane its) : ensures (parseItems env false u its)
      (fun rc s' => rc = 0 → Stands v (its.foldl Verdict.read x) none s') s := by
  induction its generalizing x s with
  | nil => exact fun _ => h
  | cons it its ih =>
    cases it with
    | tooLong key => trivial
    | pair key value =>
      cases value with
      | none => exact hits.elim
      | some w =>
        obtain ⟨hkey, hw, hits⟩ := hits
        refine ensures.bind (h.parseItem env hu hkey hw) fun o s₁ h₁ => ?_
        cases o with
        | some rc => exact fun h0 => absurd h0 h₁
        | none => exact ih h₁ hits

/-- Whether a `CHAP_R` would be taken as an answer, and nothing else yet. -/
def Verdict.start (params : Params) : Verdict :=
  { owed := (paramGet params (cstr "CHAP_R")).any (·.txOffer), passed := false, offered := none }

/-- What a text says. -/
def Verdict.ofText (env : Env) (params : Params) (text : Bytes) : Verdict :=
  (textItems env text).foldl Verdict.read (Verdict.start params)

/-- Before a text. -/
theorem Proper.stands {ps : ParamState} (h : Proper ps.params)
    (hv : paramVal ps.params (cstr "AuthResult") = some v) :
    Stands v (Verdict.start ps.params) none ⟨ps, []⟩ := by
  refine ⟨h.known, fun K p hp => ⟨h.each K p hp, fun _ hc => absurd hc (by simp), fun hkey => ?_,
    fun hkey => ?_⟩, [], rfl, fun _ hkv => absurd hkv List.not_mem_nil,
    fun _ hkv => absurd hkv List.not_mem_nil, fun _ => rfl,
      fun _ ho => absurd ho (by simp [Verdict.start])⟩
  · have hK : K = cstr "AuthResult" := (paramGet_key hp).symm.trans hkey
    subst hK
    refine ⟨?_, fun _ ho => absurd ho (by simp [Verdict.start])⟩
    rw [paramVal, paramValWhich, show paramGet ps.params (cstr "AuthResult") = some p from hp] at hv
    rw [List.head?_eq_getElem?]
    exact hv
  · have hK : K = cstr "CHAP_R" := (paramGet_key hp).symm.trans hkey
    subst hK
    rw [Verdict.start, show paramGet ps.params (cstr "CHAP_R") = some p from hp]
    rfl

/-- A text that is parsed leaves the parameters as it says. -/
theorem Proper.parse {ps : ParamState} {text : Bytes} (hu : u.NoNul) (h : Proper ps.params)
    (hv : paramVal ps.params (cstr "AuthResult") = some v) (htext : Begins text) (out : Bytes) :
    ensures (paramTextParse env text false u)
      (fun rc s' => rc = 0 → Stands v (.ofText env ps.params text) none s') ⟨ps, out⟩ := by
  unfold paramTextParse
  refine (wp_ite _ _ _).mpr ⟨fun _ => trivial, fun _ => ?_⟩
  rw [wp_bind, wp_guarded]
  exact ⟨fun _ => (h.stands hv).parseItems env hu (sane_textItems env htext),
    fun hf => absurd rfl hf⟩

end Texts

end Ost.Param
