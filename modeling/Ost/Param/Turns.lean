import Ost.Param.Side

/-!
# What a pair does to a side

A pair of the exchange goes out as an offer or an answer, or comes in as one.  Which it is the flags
of its key decide, so there is one lemma for each key and each way it goes in the exchange, under
hypotheses on the flags, and with the flags it leaves behind.
-/

namespace Ost.Param

open Ost.Iscsi Ost.Util Ost.Prog

/-! ## The moves of a side -/

namespace Side

/-- A pair went out.  Without an offer to answer it is an offer. -/
def sent (x : Side) (k : ChapKey) : Side :=
  if (x.facts k).rx then x else x.put k { x.facts k with tx := true, rx := false }

/-- An offer came in. -/
def offered (x : Side) (k : ChapKey) (v : CStr) : Side :=
  x.put k { x.facts k with rx := true, offer := v }

/-- An answer came in. -/
def answered (x : Side) (k : ChapKey) (v : CStr) : Side :=
  x.put k { x.facts k with tx := false, answered := true, answer := v }

end Side

variable (env : Env) {rand : Nat → UInt8} {s : Parse} {x : Side} {k : ChapKey} {u : Users}

/-! ## Negotiating -/

theorem Shows.setParam (h : Shows rand s x) {f : IscsiParameter → IscsiParameter} {φ : Facts}
    (hsig : ∀ p, (f p).sig = p.sig) (hf : ∀ p, p.facts = x.facts k → (f p).facts = φ) :
    Completes (setParam k.key f) (fun _ s' => Shows rand s' (x.put k φ)) s := h.set hsig hf

/-- A change of a parameter that the side does not see. -/
theorem Shows.setSame (h : Shows rand s x) {f : IscsiParameter → IscsiParameter}
    (hsig : ∀ p, (f p).sig = p.sig) (hf : ∀ p, (f p).facts = p.facts) :
    Completes (Param.setParam k.key f) (fun _ s' => Shows rand s' x) s := by
  have hset := h.set (k := k) hsig fun p hp => (hf p).trans hp
  have hput : x.put k (x.facts k) = x := by
    rw [Side.put, Function.update_eq_self]
  rwa [hput] at hset

theorem negotiation_declarative {p : IscsiParameter} (hp : IsKey k p) (hk : k.type = .declarative)
    (outgoing : Bool) : ∃ v, negotiation outgoing p = .value v := by
  rw [negotiation, hp.type, hk]
  exact ⟨_, rfl⟩

theorem negotiation_answered {p : IscsiParameter} (hp : IsKey k p) (hk : k.type = .list)
    (hrx : p.rxOffer = false) (hanswered : p.rxAnswer = true)
    (hok : listValueOk p.valid p.answerRx.str = true) : ∃ v, negotiation false p = .value v := by
  rw [negotiation, hp.type, hk]
  refine ⟨p.answerRx.str, ?_⟩
  simp only [negotiateList, Bool.false_eq_true, if_false, hrx, hanswered, hok,
    Bool.not_true, if_true]

theorem negotiation_answering {p : IscsiParameter} (hp : IsKey k p) (hk : k.type = .list)
    (htx : p.txOffer = false) (hanswer : p.txAnswer = true)
    (hok : listValueOk p.valid p.answerTx = true) : ∃ v, negotiation true p = .value v := by
  rw [negotiation, hp.type, hk]
  refine ⟨p.answerTx, ?_⟩
  simp only [negotiateList, htx, hanswer, hok, Bool.false_eq_true, Bool.not_true, if_false, if_true]

/-- Negotiating a parameter changes nothing that the side sees. -/
theorem Shows.negotiate (h : Shows rand s x) {p : IscsiParameter} (hp : IsKey k p) {outgoing : Bool}
    (hv : ∃ v, negotiation outgoing p = .value v) :
    Completes (negotiate outgoing p) (fun o s' => o = none ∧ Shows rand s' x) s := by
  obtain ⟨v, hv⟩ := hv
  unfold Param.negotiate
  rw [hv, hp.key]
  refine .bind (h.setSame (fun _ => rfl) fun _ => rfl) fun _ s₁ h₁ => ?_
  refine .bind (h₁.logEvent _) fun _ s₂ h₂ => ?_
  refine .bind ((wp_guarded _ _).mpr ⟨fun _ => ?_, fun _ => h₂⟩) fun _ s₃ h₃ => ⟨rfl, h₃⟩
  exact h₂.setSame (fun _ => rfl) fun _ => rfl

/-! ## A pair goes out -/

/-- What a pair needs to go out: its value is a short string, and an answer to a list is a valid
one. -/
structure Sendable (x : Side) (k : ChapKey) (v : CStr) : Prop where
  noNul : 0 ∉ v
  short : v.length < iscsiParamMaxLen
  answers : (x.facts k).rx = true → k.type = .list → (x.facts k).tx = false ∧
    ∀ valid, k.Admits valid → listValueOk valid v = true

theorem Shows.parseItem (h : Shows rand s x) (k : ChapKey) {v : CStr}
    (hshort : v.length < iscsiParamMaxLen) (outgoing : Bool) {Q : Option Int → Parse → Prop}
    (hnext : ∀ s p, Shows rand s x → s.par k.key = some p → IsKey k p → p.facts = x.facts k →
      Completes (if outgoing then sendOut p v else if p.txOffer then receiveAnswer env u p v
        else receiveOffer env u p v) Q s) :
    Completes (parseItem env outgoing u (.pair k.key (some v))) Q s := by
  refine .bind (P := fun _ s' => Shows rand s' x) ((wp_guarded _ _).mpr ⟨fun _ => ?_, fun _ => h⟩)
    fun _ s₁ h₁ => ?_
  · exact h.congr rfl rfl rfl rfl rfl
  · obtain ⟨p, hp, hkey, hfacts⟩ := h₁.params k
    refine (wp_bind _ _).mpr (wp_get.mpr ?_)
    rw [show paramGet s₁.params k.key = some p from hp]
    dsimp only
    rw [if_neg (Nat.not_lt.mpr (Nat.le_of_lt hshort)), if_neg (Nat.ne_of_lt hshort)]
    exact hnext s₁ p h₁ hp hkey hfacts

theorem Shows.send (h : Shows rand s x) {v : CStr} (hv : Sendable x k v) :
    Completes (Param.parseItem env true u (.pair k.key (some v)))
      (fun o s' => o = none ∧ Shows rand s' (x.sent k)) s := by
  refine h.parseItem env k hv.short true fun s₁ p h₁ hp hkey hfacts => ?_
  have hrx : p.rxOffer = (x.facts k).rx := congrArg Facts.rx hfacts
  have htx : p.txOffer = (x.facts k).tx := congrArg Facts.tx hfacts
  rw [if_pos rfl, sendOut, Side.sent, hrx, hkey.key, hkey.type]
  cases hx : (x.facts k).rx with
  | true =>
    rw [if_pos rfl, if_pos rfl]
    have hset := h₁.setSame (k := k) (f := (·.answering v)) (fun _ => rfl) fun _ => rfl
    have hset_par := Parse.par_set (f := (·.answering v)) (fun _ => rfl) hp
    have hkey' : IsKey k (p.answering v) := ⟨hkey.key, hkey.type, hkey.admits⟩
    refine (wp_bind _ _).mpr ?_
    change Completes (Param.theParam p >>= Param.negotiate true) _ (s₁.set k.key (·.answering v))
    rw [Completes, wp_bind, wp_theParam, hkey.key, hset_par]
    refine hset.negotiate hkey' ?_
    cases hk : k.type with
    | list =>
      obtain ⟨hsent, hok⟩ := hv.answers hx hk
      exact negotiation_answering hkey' hk (htx.trans hsent) rfl (hok _ hkey.admits)
    | declarative => exact negotiation_declarative hkey' hk true
    | _ => cases k <;> cases hk
  | false =>
    rw [if_neg Bool.false_ne_true, if_neg Bool.false_ne_true]
    have hoffering : ∀ q : IscsiParameter, q.facts = x.facts k →
        (q.offering v).facts = { x.facts k with tx := true, rx := false } := by
      intro q hq
      rw [← hq]
      rfl
    refine .bind (h₁.setParam (fun _ => rfl) hoffering) fun _ s₂ h₂ => ?_
    refine (wp_ite _ _ _).mpr ⟨fun hdecl => ?_, fun _ => ⟨rfl, h₂⟩⟩
    refine (wp_bind _ _).mpr (h₂.theParam hkey.key fun q _ hq _ => ?_)
    refine h₂.negotiate hq (negotiation_declarative hq ?_ true)
    cases k <;> first | rfl | exact absurd hdecl (by decide)

/-! ## A pair comes in -/

/-- What the authentication does with a key. -/
def ChapKey.security (u : Users) (p : IscsiParameter) : ChapKey → Prog Halt Parse Int
  | method => securityAuthMethod p
  | algorithm => securityChapA p
  | ident => securityChapI p
  | challenge => securityChapC env u p
  | name => securityChapN u p
  | response => securityChapR env u p

/-- The authentication of a key of the exchange. -/
theorem Shows.paramParseSecurity (h : Shows rand s x) {p : IscsiParameter} (hp : IsKey k p)
    {Q : Int → Parse → Prop}
    (hQ : ∀ s, Shows rand s x → Completes (k.security env u p) Q s) :
    Completes (paramParseSecurity env u p) Q s := by
  refine .bind h.getCookie fun _ s₁ ⟨_, h₁⟩ => ?_
  rw [hp.key]
  cases k with
  | method => exact hQ s₁ h₁
  | algorithm => exact hQ s₁ h₁
  | ident => exact hQ s₁ h₁
  | challenge => exact hQ s₁ h₁
  | name => exact hQ s₁ h₁
  | response => exact hQ s₁ h₁

/-- The part of `receiveOffer` that follows the authentication. -/
def afterSecurity (p : IscsiParameter) (value : CStr) (ret : Int) :
    Prog Halt Parse (Option Int) := do
  if ret > 1 then return none
  if ret < 0 then
    setAuthResult (cstr "Fail")
    return some (-2)
  guarded (ret = 0) (setAuthResult (cstr "Yes"))
  let p ← theParam p
  if p.offerRx.str ≠ cstr "?" && (p.type = .declarative || p.type = .declareMulti) then
    negotiate false p
  else answer p value

/-- An answer comes in. -/
theorem Shows.receiveAnswer (h : Shows rand s x) {v : CStr} (hshort : v.length < iscsiParamMaxLen)
    (htx : (x.facts k).tx = true) {P : Int → Parse → Prop} {Q : Option Int → Parse → Prop}
    (hsecurity : ∀ s q, Shows rand s (x.answered k v) → IsKey k q →
      q.facts = (x.answered k v).facts k → Completes (k.security env u q) P s)
    (hnext : ∀ ret s p, IsKey k p → P ret s → Completes (if ret < 0 then return some (-2)
      else do Param.negotiate false (← Param.theParam p)) Q s) :
    Completes (Param.parseItem env false u (.pair k.key (some v))) Q s := by
  refine h.parseItem env k hshort false fun s₁ p h₁ hp hkey hfacts => ?_
  have htx' : p.txOffer = true := (congrArg Facts.tx hfacts).trans htx
  rw [if_neg Bool.false_ne_true, if_pos htx', Param.receiveAnswer, hkey.key]
  have hanswered : ∀ q : IscsiParameter, q.facts = x.facts k →
      (q.answered v).facts = { x.facts k with tx := false, answered := true, answer := v } := by
    intro q hq
    rw [← hq]
    rfl
  refine .bind (h₁.setParam (fun _ => rfl) hanswered) fun _ s₂ h₂ => ?_
  refine (wp_bind _ _).mpr (h₂.theParam hkey.key fun q _ hq hqfacts => ?_)
  refine Completes.bind (h₂.paramParseSecurity env hq fun s₃ h₃ => hsecurity s₃ q h₃ hq hqfacts) ?_
  intro ret s₄ h₄
  exact hnext ret s₄ p hkey h₄

/-- An answer comes in, and the authentication goes on. -/
theorem Shows.acceptAnswer (h : Shows rand s x) {v : CStr} (hshort : v.length < iscsiParamMaxLen)
    (htx : (x.facts k).tx = true) {y : Side}
    (hsecurity : ∀ s q, Shows rand s (x.answered k v) → IsKey k q →
      q.facts = (x.answered k v).facts k →
      Completes (k.security env u q) (fun ret s' => 0 ≤ ret ∧ Shows rand s' y) s)
    (hlist : k.type = .list → (y.facts k).rx = false ∧ (y.facts k).answered = true ∧
      ∀ valid, k.Admits valid → listValueOk valid (y.facts k).answer = true) :
    Completes (Param.parseItem env false u (.pair k.key (some v)))
      (fun o s' => o = none ∧ Shows rand s' y) s := by
  refine h.receiveAnswer env hshort htx hsecurity fun ret s₄ p hkey ⟨hret, h₄⟩ => ?_
  rw [if_neg (Int.not_lt.mpr hret)]
  refine (wp_bind _ _).mpr (h₄.theParam hkey.key fun r _ hr hrfacts => h₄.negotiate hr ?_)
  cases hk : k.type with
  | list =>
    obtain ⟨hrx, hanswer, hok⟩ := hlist hk
    refine negotiation_answered hr hk ((congrArg Facts.rx hrfacts).trans hrx)
      ((congrArg Facts.answered hrfacts).trans hanswer) ?_
    have hstr : r.answerRx.str = (y.facts k).answer := congrArg Facts.answer hrfacts
    rw [hstr]
    exact hok _ hr.admits
  | declarative => exact negotiation_declarative hr hk false
  | _ => cases k <;> cases hk

/-- An answer comes in, and the authentication fails. -/
theorem Shows.refuseAnswer (h : Shows rand s x) {v : CStr} (hshort : v.length < iscsiParamMaxLen)
    (htx : (x.facts k).tx = true) {y : Side}
    (hsecurity : ∀ s q, Shows rand s (x.answered k v) → IsKey k q →
      q.facts = (x.answered k v).facts k →
      Completes (k.security env u q) (fun ret s' => ret = -1 ∧ Shows rand s' y) s) :
    Completes (Param.parseItem env false u (.pair k.key (some v)))
      (fun o s' => o = some (-2) ∧ Shows rand s' y) s := by
  refine h.receiveAnswer env hshort htx hsecurity fun ret s₄ p hkey ⟨hret, h₄⟩ => ?_
  rw [hret]
  exact ⟨rfl, h₄⟩

theorem Shows.receiveOffer (h : Shows rand s x) {v : CStr} (hshort : v.length < iscsiParamMaxLen)
    (htx : (x.facts k).tx = false) {P : Int → Parse → Prop} {Q : Option Int → Parse → Prop}
    (hsecurity : ∀ s q, Shows rand s (x.offered k v) → IsKey k q →
      q.facts = (x.offered k v).facts k → Completes (k.security env u q) P s)
    (hnext : ∀ ret s p, IsKey k p → P ret s → Completes (afterSecurity p v ret) Q s) :
    Completes (Param.parseItem env false u (.pair k.key (some v))) Q s := by
  refine h.parseItem env k hshort false fun s₁ p h₁ hp hkey hfacts => ?_
  have htx' : ¬p.txOffer = true := by
    rw [show p.txOffer = (x.facts k).tx from congrArg Facts.tx hfacts, htx]
    exact Bool.false_ne_true
  rw [if_neg Bool.false_ne_true, if_neg htx', Param.receiveOffer, hkey.key]
  have hoffered : ∀ q : IscsiParameter, q.facts = x.facts k →
      (q.offered v).facts = { x.facts k with rx := true, offer := v } := by
    intro q hq
    rw [← hq]
    rfl
  refine .bind (h₁.setParam (fun _ => rfl) hoffered) fun _ s₂ h₂ => ?_
  refine (wp_bind _ _).mpr (h₂.theParam hkey.key fun q _ hq hqfacts => ?_)
  refine Completes.bind (h₂.paramParseSecurity env hq fun s₃ h₃ => hsecurity s₃ q h₃ hq hqfacts) ?_
  intro ret s₄ h₄
  exact hnext ret s₄ p hkey h₄

/-- An offer comes in, and the authentication has nothing to say about the answer. -/
theorem Shows.acceptOffer (h : Shows rand s x) {v : CStr} (hshort : v.length < iscsiParamMaxLen)
    (htx : (x.facts k).tx = false) {y : Side}
    (hsecurity : ∀ s q, Shows rand s (x.offered k v) → IsKey k q →
      q.facts = (x.offered k v).facts k →
      Completes (k.security env u q) (fun ret s' => ret = 2 ∧ Shows rand s' y) s) :
    Completes (Param.parseItem env false u (.pair k.key (some v)))
      (fun o s' => o = none ∧ Shows rand s' y) s := by
  refine h.receiveOffer env hshort htx hsecurity fun ret s₁ p hkey ⟨hret, h₁⟩ => ?_
  rw [hret]
  exact ⟨rfl, h₁⟩

/-- An offer comes in, and the authentication fails. -/
theorem Shows.refuseOffer (h : Shows rand s x) {v : CStr} (hshort : v.length < iscsiParamMaxLen)
    (htx : (x.facts k).tx = false) {y : Side} (hresult : y.result ≠ none)
    (hsecurity : ∀ s q, Shows rand s (x.offered k v) → IsKey k q →
      q.facts = (x.offered k v).facts k →
      Completes (k.security env u q) (fun ret s' => ret = -1 ∧ Shows rand s' y) s) :
    Completes (Param.parseItem env false u (.pair k.key (some v))) (fun o s' => o = some (-2) ∧
      Shows rand s' { y with result := some (cstr "Fail") }) s := by
  refine h.receiveOffer env hshort htx hsecurity fun ret s₁ p hkey ⟨hret, h₁⟩ => ?_
  rw [hret]
  exact .bind (h₁.setAuthResult hresult _) fun _ s₂ h₂ => ⟨rfl, h₂⟩

/-- An offer comes in, and the authentication has succeeded. -/
theorem Shows.authOffer (h : Shows rand s x) {v : CStr} (hshort : v.length < iscsiParamMaxLen)
    (htx : (x.facts k).tx = false) (hk : k.type = .declarative) {y : Side}
    (hresult : y.result ≠ none)
    (hoffer : (y.facts k).offer ≠ cstr "?")
    (hsecurity : ∀ s q, Shows rand s (x.offered k v) → IsKey k q →
      q.facts = (x.offered k v).facts k →
      Completes (k.security env u q) (fun ret s' => ret = 0 ∧ Shows rand s' y) s) :
    Completes (Param.parseItem env false u (.pair k.key (some v))) (fun o s' => o = none ∧
      Shows rand s' { y with result := some (cstr "Yes") }) s := by
  refine h.receiveOffer env hshort htx hsecurity fun ret s₁ p hkey ⟨hret, h₁⟩ => ?_
  rw [hret]
  refine .bind (h₁.setAuthResult hresult _) fun _ s₂ h₂ => ?_
  refine (wp_bind _ _).mpr (h₂.theParam hkey.key fun q _ hq hfacts => ?_)
  have hstr : q.offerRx.str = (y.facts k).offer := congrArg Facts.offer hfacts
  have hdecl : (q.offerRx.str ≠ cstr "?" && (q.type = .declarative || q.type = .declareMulti)) =
      true := by
    rw [hstr, hq.type, hk, decide_eq_true hoffer]
    rfl
  rw [if_pos hdecl]
  exact h₂.negotiate hq (negotiation_declarative hq hk false)

/-- The offer of a list comes in, and is answered. -/
theorem Shows.answerOffer (h : Shows rand s x) {v a : CStr} (hshort : v.length < iscsiParamMaxLen)
    (htx : (x.facts k).tx = false) (hk : k.type = .list) {y : Side} (hv : v ≠ cstr "?")
    (hfits : (chapText y.text).length + a.length + 12 ≤ iscsiParamMaxTextLen)
    (hanswer : ∀ valid, k.Admits valid → listAnswer valid (y.facts k).offer = a)
    (hsecurity : ∀ s q, Shows rand s (x.offered k v) → IsKey k q →
      q.facts = (x.offered k v).facts k →
      Completes (k.security env u q) (fun ret s' => ret = 1 ∧ Shows rand s' y) s) :
    Completes (Param.parseItem env false u (.pair k.key (some v))) (fun o s' => o = none ∧
      Shows rand s' (y.add k a)) s := by
  refine h.receiveOffer env hshort htx hsecurity fun ret s₁ p hkey ⟨hret, h₁⟩ => ?_
  rw [hret]
  refine .bind (P := fun _ s' => Shows rand s' y) h₁ fun _ s₂ h₂ => ?_
  refine (wp_bind _ _).mpr (h₂.theParam hkey.key fun q _ hq hfacts => ?_)
  have hstr : q.offerRx.str = (y.facts k).offer := congrArg Facts.offer hfacts
  have hdecl : ¬(q.offerRx.str ≠ cstr "?" && (q.type = .declarative || q.type = .declareMulti)) =
      true := by
    rw [hq.type, hk, Bool.and_eq_true]
    exact fun hdecl => absurd hdecl.2 (by decide)
  have hanswerOf : answerOf q v = some a := by
    rw [answerOf, if_neg hv, hq.type, hk]
    exact congrArg some (by rw [hstr]; exact hanswer _ hq.admits)
  rw [if_neg hdecl, answer, hanswerOf, hq.key]
  refine Completes.bind (h₂.setSame (fun _ => rfl) fun _ => rfl) fun _ s₃ h₃ => ?_
  refine .bind (h₃.textAdd k hfits) fun ok s₄ ⟨hok, h₄⟩ => ?_
  rw [hok]
  exact ⟨rfl, h₄⟩

end Ost.Param
