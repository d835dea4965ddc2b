import Ost.Param.Frame

/-!
# What a pair does to its parameter

A pair of a key that has no part in the authentication moves its own parameter and no other.  It
goes out as an offer or as an answer, or it comes in as one, and the flags of the parameter decide
which. `sendStep` and `receiveStep` are these moves, with the way the loop of `param_text_parse`
goes on, and `reply` is the answer that a pair gets.
-/

namespace Ost.Param

open Ost.Iscsi Ost.Util Ost.Prog

/-- The keys that `param_parse_security` looks at. -/
def authKeys : List CStr :=
  [cstr "AuthMethod", cstr "CHAP_A", cstr "CHAP_I", cstr "CHAP_C", cstr "CHAP_N", cstr "CHAP_R"]

/-- Keys that are declared, not negotiated. -/
def ParamType.declared : ParamType → Bool
  | .declarative | .declareMulti => true
  | _ => false

/-- The value of an inquiry. -/
def inquiry : CStr := cstr "?"

/-- The cookie that `param_parse_security` works on, which is allocated on its first use. -/
def Parse.theCookie (s : Parse) : Cookie := s.cookie.getD s.heapCookie

/-! ## The moves -/

namespace IscsiParameter

/-- The label `negotiate`: the parameter afterwards, and what the parse returns if it ends. -/
def negotiateStep (outgoing : Bool) (p : IscsiParameter) : IscsiParameter × Option Int :=
  match negotiation outgoing p with
  | .warn => (p, some 0)
  | .error => (p, some (-1))
  | .value v => (p.settled v, none)

/-- A pair goes out. -/
def sendStep (v : CStr) (p : IscsiParameter) : IscsiParameter × Option Int :=
  if p.rxOffer then (p.answering v).negotiateStep true
  else if p.type.declared then (p.offering v).negotiateStep true
  else (p.offering v, none)

/-- We were offered a value, and have an answer to it. -/
def replied (v a : CStr) (p : IscsiParameter) : IscsiParameter :=
  { p.offered v with answerTx := a }

/-- The answer that a pair gets. -/
def reply (v : CStr) (p : IscsiParameter) : Option CStr :=
  if p.txOffer then none
  else if v ≠ inquiry ∧ p.type.declared = true then none
  else answerOf (p.offered v) v

/-- A pair comes in. -/
def receiveStep (v : CStr) (p : IscsiParameter) : IscsiParameter × Option Int :=
  if p.txOffer then (p.answered v).negotiateStep false
  else if v ≠ inquiry ∧ p.type.declared = true then (p.offered v).negotiateStep false
  else
    match answerOf (p.offered v) v with
    | none => (p.offered v, none)
    | some a => (p.replied v a, none)

end IscsiParameter

/-- The text with the answer to a pair, unless it is full. -/
def textWith (key : CStr) (answer : Option CStr) (text : Bytes) : Option Bytes :=
  match answer with
  | none => some text
  | some a => paramTextAdd key a text

/-- A program returns, and satisfies a postcondition. -/
abbrev Completes {α : Type} (x : Prog Halt Parse α) (Q : α → Parse → Prop) (s : Parse) : Prop :=
  wp x Q (fun _ _ => False) s

theorem Completes.bind {α β : Type} {x : Prog Halt Parse β} {k : β → Prog Halt Parse α}
    {P : β → Parse → Prop} {Q : α → Parse → Prop} {s : Parse} (h : Completes x P s)
    (hk : ∀ b s', P b s' → Completes (k b) Q s') : Completes (x >>= k) Q s :=
  (wp_bind x k).mpr (wp_mono h hk fun _ _ => id)

variable (env : Env) {u : Users} {s : Parse} {p : IscsiParameter} {v : CStr}

/-! ## Signatures -/

theorem sig_settled (v : CStr) (p : IscsiParameter) : (p.settled v).sig = p.sig := by
  unfold IscsiParameter.settled
  split <;> rfl

theorem sig_negotiateStep (outgoing : Bool) (p : IscsiParameter) :
    (p.negotiateStep outgoing).1.sig = p.sig := by
  unfold IscsiParameter.negotiateStep
  split
  · rfl
  · rfl
  · exact sig_settled _ _

theorem sig_sendStep (v : CStr) (p : IscsiParameter) : (p.sendStep v).1.sig = p.sig := by
  unfold IscsiParameter.sendStep
  split
  · exact sig_negotiateStep _ _
  · split
    · exact sig_negotiateStep _ _
    · rfl

theorem sig_receiveStep (v : CStr) (p : IscsiParameter) : (p.receiveStep v).1.sig = p.sig := by
  unfold IscsiParameter.receiveStep
  split
  · exact sig_negotiateStep _ _
  · split
    · exact sig_negotiateStep _ _
    · split <;> rfl

/-! ## Declarations -/

/-- A declaration that is no answer is settled. -/
theorem IscsiParameter.receiveStep_declaration (htype : p.type.declared = true)
    (htx : p.txOffer = false) (hv : v ≠ inquiry) :
    (p.receiveStep v).1 = (p.offered v).settled v := by
  have hneg : Param.negotiation false (p.offered v) = .value v := by
    unfold negotiation
    rw [show (p.offered v).type = p.type from rfl]
    cases hp : p.type with
    | declarative | declareMulti => rfl
    | binaryOr | binaryAnd | numerical | numericalZ | list =>
      rw [hp] at htype
      exact absurd htype (by decide)
  rw [receiveStep, htx, if_neg Bool.false_ne_true, if_pos ⟨hv, htype⟩, negotiateStep, hneg]

/-! ## The programs -/

theorem declared_eq (t : ParamType) : (t = .declarative || t = .declareMulti) = t.declared := by
  cases t <;> rfl

/-- The cookie is there after its first use. -/
theorem getCookie_eq (s : Parse) :
    getCookie s = .ret s.theCookie { s with cookie := some s.theCookie } := by
  rw [getCookie, bind_apply]
  obtain ⟨⟨params, cookie, heap, rand, pos, received, log⟩, out⟩ := s
  cases cookie <;> rfl

/-- The authentication takes no part in other keys. -/
theorem paramParseSecurity_plain (hplain : p.key ∉ authKeys) (s : Parse) :
    paramParseSecurity env u p s = .ret 1 { s with cookie := some s.theCookie } := by
  simp only [authKeys, List.mem_cons, List.not_mem_nil, or_false, not_or] at hplain
  obtain ⟨h₁, h₂, h₃, h₄, h₅, h₆⟩ := hplain
  rw [paramParseSecurity, bind_apply, getCookie_eq]
  dsimp only
  rw [if_neg h₁, if_neg h₂, if_neg h₃, if_neg h₄, if_neg h₅, if_neg h₆]
  rfl

section Frame

variable {keys : CStr → Prop} {R : Parse → Parse → Prop} [IsPreorder Parse R]

/-- What follows the authentication of another key. -/
theorem Allows.plainSecurity {β : Type} (h : Allows keys R) (hplain : p.key ∉ authKeys)
    {k : Int → Prog Halt Parse β} (hk : Within R (k 1)) :
    Within R (theParam p >>= fun q => Param.paramParseSecurity env u q >>= k) := by
  refine within_theParam fun q hq => ⟨fun s => ?_⟩
  have hrun := paramParseSecurity_plain env (u := u) (p := q) (hq ▸ hplain) s
  rw [ensures, wp_bind, wp, hrun]
  refine (hk.run _).mono fun _ s' => Trans.trans (h.rest _ _ ?_)
  rfl

/-- The frame of an answer to another key. -/
theorem Allows.plainAnswer (h : Allows keys R) (hplain : p.key ∉ authKeys) (hk : keys p.key)
    (v : CStr) : Within R (Param.receiveAnswer env u p v) := by
  refine .bind (h.setParam hk fun _ => rfl) fun _ => h.plainSecurity env hplain ?_
  rw [if_neg (by decide)]
  exact within_theParam fun q hq => h.negotiate false (hq ▸ hk)

/-- The frame of an offer for another key. -/
theorem Allows.plainOffer (h : Allows keys R) (hplain : p.key ∉ authKeys) (hk : keys p.key)
    (v : CStr) : Within R (Param.receiveOffer env u p v) := by
  refine .bind (h.setParam hk fun _ => rfl) fun _ => h.plainSecurity env hplain ?_
  rw [if_neg (by decide), if_neg (by decide),
    show guarded ((1 : Int) = 0) _ = _ from if_neg (by decide)]
  refine .bind inferInstance fun _ => within_theParam fun q hq => ?_
  have := h.negotiate false (p := q) (hq ▸ hk)
  have := h.answer (p := q) (hq ▸ hk) v
  infer_instance

end Frame

/-- What is returned by `negotiate` for a parameter, and what has become of it. -/
def Negotiated (p : IscsiParameter) (outgoing : Bool) (s : Parse) (o : Option Int) (s' : Parse) :
    Prop :=
  o = (p.negotiateStep outgoing).2 ∧ s'.par p.key = some (p.negotiateStep outgoing).1 ∧
    s'.textOut = s.textOut

/-- A parameter is negotiated. -/
theorem completes_negotiate (outgoing : Bool) (hp : s.par p.key = some p) :
    Completes (negotiate outgoing p) (Negotiated p outgoing s) s := by
  unfold negotiate Negotiated IscsiParameter.negotiateStep
  cases negotiation outgoing p with
  | warn => exact ⟨rfl, hp, rfl⟩
  | error => exact ⟨rfl, hp, rfl⟩
  | value v =>
    have hset := Parse.par_set (f := fun q => { q with negotiated := v }) (fun _ => rfl) hp
    simp only [wp_bind, wp_setParam, logEvent, wp_modify, wp_guarded, wp_pure]
    refine ⟨fun hi => ⟨trivial, ?_, rfl⟩, fun hi => ⟨trivial, ?_, rfl⟩⟩
    · rw [IscsiParameter.settled, if_neg hi]
      exact Parse.par_set (f := commit) (fun _ => rfl) hset
    · rw [IscsiParameter.settled, if_pos (not_not.mp hi)]
      exact hset

theorem completes_theParam {α : Type} {k : IscsiParameter → Prog Halt Parse α}
    {Q : α → Parse → Prop} {q : IscsiParameter} (hq : s.par p.key = some q)
    (h : Completes (k q) Q s) : Completes (theParam p >>= k) Q s := by
  rw [Completes, wp_bind, wp_theParam, hq]
  exact h

/-- A parameter is set, and then negotiated. -/
theorem completes_setParam_negotiate (outgoing : Bool) {f : IscsiParameter → IscsiParameter}
    (hf : ∀ p, (f p).key = p.key) (hp : s.par p.key = some p) :
    Completes (setParam p.key f >>= fun _ => theParam p >>= negotiate outgoing)
      (Negotiated (f p) outgoing s) s := by
  have hset := Parse.par_set hf hp
  refine .bind (P := fun _ s' => s'.par p.key = some (f p) ∧ s'.textOut = s.textOut)
    ⟨hset, rfl⟩ fun _ s₁ ⟨hp₁, htext⟩ => ?_
  refine completes_theParam hp₁ ?_
  rw [← hf p] at hp₁
  refine wp_mono (completes_negotiate outgoing hp₁) (fun o s' h => ?_) fun _ _ => id
  exact ⟨h.1, h.2.1, h.2.2.trans htext⟩

theorem completes_sendOut (v : CStr) (hp : s.par p.key = some p) :
    Completes (sendOut p v) (fun o s' => o = (p.sendStep v).2 ∧
      s'.par p.key = some (p.sendStep v).1 ∧ s'.textOut = s.textOut) s := by
  unfold sendOut IscsiParameter.sendStep
  split
  · exact completes_setParam_negotiate (f := (·.answering v)) true (fun _ => rfl) hp
  · rw [declared_eq]
    split
    · exact completes_setParam_negotiate (f := (·.offering v)) true (fun _ => rfl) hp
    · exact ⟨rfl, Parse.par_set (f := (·.offering v)) (fun _ => rfl) hp, rfl⟩

theorem completes_receiveAnswer (v : CStr) (hplain : p.key ∉ authKeys)
    (hp : s.par p.key = some p) :
    Completes (receiveAnswer env u p v) (Negotiated (p.answered v) false s) s := by
  have hset := Parse.par_set (f := (·.answered v)) (fun _ => rfl) hp
  refine .bind (P := fun _ s' => s'.par p.key = some (p.answered v) ∧ s'.textOut = s.textOut)
    ⟨hset, rfl⟩ fun _ s₁ ⟨hp₁, htext₁⟩ => ?_
  refine completes_theParam hp₁ ?_
  refine .bind (P := fun r s' => r = 1 ∧ s'.par p.key = some (p.answered v) ∧
    s'.textOut = s.textOut) ?_ fun r s₂ ⟨hr, hp₂, htext₂⟩ => ?_
  · rw [Completes, wp, paramParseSecurity_plain env (p := p.answered v) hplain]
    exact ⟨rfl, hp₁, htext₁⟩
  · rw [hr, if_neg (by decide)]
    refine completes_theParam hp₂ ?_
    refine wp_mono (completes_negotiate (p := p.answered v) false hp₂) (fun o s' h => ?_)
      fun _ _ => id
    exact ⟨h.1, h.2.1, h.2.2.trans htext₂⟩

/-- What a pair that comes in does to its parameter and to the text. -/
def Received (p : IscsiParameter) (v : CStr) (s : Parse) (o : Option Int) (s' : Parse) : Prop :=
  s'.par p.key = some (p.receiveStep v).1 ∧
    match textWith p.key (p.reply v) s.textOut with
    | some text => o = (p.receiveStep v).2 ∧ s'.textOut = text
    | none => o = some (-1) ∧ s'.textOut = s.textOut

/-- An answer is added to the text. -/
theorem completes_answer {a : CStr} (ha : answerOf p v = some a) (hp : s.par p.key = some p) :
    Completes (answer p v) (fun o s' => s'.par p.key = some { p with answerTx := a } ∧
      match paramTextAdd p.key a s.textOut with
      | some text => o = none ∧ s'.textOut = text
      | none => o = some (-1) ∧ s'.textOut = s.textOut) s := by
  have hset := Parse.par_set (f := fun q => { q with answerTx := a }) (fun _ => rfl) hp
  unfold answer
  rw [ha]
  refine .bind (P := fun _ s' => s'.par p.key = some { p with answerTx := a } ∧
    s'.textOut = s.textOut) ⟨hset, rfl⟩ fun _ s₁ ⟨hp₁, htext₁⟩ => ?_
  rw [← htext₁, Completes, wp_bind, textAdd, wp_bind, wp_get]
  cases paramTextAdd p.key a s₁.textOut with
  | none => exact ⟨hp₁, rfl, rfl⟩
  | some text => exact ⟨hp₁, rfl, rfl⟩

theorem completes_receiveOffer (v : CStr) (hplain : p.key ∉ authKeys) (hp : s.par p.key = some p)
    (htx : p.txOffer = false) : Completes (receiveOffer env u p v) (Received p v s) s := by
  have hset := Parse.par_set (f := (·.offered v)) (fun _ => rfl) hp
  refine .bind (P := fun _ s' => s'.par p.key = some (p.offered v) ∧ s'.textOut = s.textOut)
    ⟨hset, rfl⟩ fun _ s₁ ⟨hp₁, htext₁⟩ => ?_
  refine completes_theParam hp₁ ?_
  refine .bind (P := fun r s' => r = 1 ∧ s'.par p.key = some (p.offered v) ∧
    s'.textOut = s.textOut) ?_ fun r s₂ ⟨hr, hp₂, htext₂⟩ => ?_
  · rw [Completes, wp, paramParseSecurity_plain env (p := p.offered v) hplain]
    exact ⟨rfl, hp₁, htext₁⟩
  rw [hr, if_neg (by decide), if_neg (by decide), Completes, wp_bind, wp_guarded]
  refine ⟨fun h => absurd h (by decide), fun _ => completes_theParam hp₂ ?_⟩
  rw [declared_eq]
  unfold Received IscsiParameter.reply IscsiParameter.receiveStep
  rw [htx, if_neg Bool.false_ne_true, if_neg Bool.false_ne_true]
  have hcond :
      (decide ((p.offered v).offerRx.str ≠ cstr "?") && (p.offered v).type.declared) = true ↔
      v ≠ inquiry ∧ p.type.declared = true := by
    rw [Bool.and_eq_true, decide_eq_true_iff]
    rfl
  by_cases hd : v ≠ inquiry ∧ p.type.declared = true
  · rw [if_pos hd, if_pos hd, if_pos (hcond.mpr hd)]
    refine wp_mono (completes_negotiate (p := p.offered v) false hp₂) (fun o s' h => ?_)
      fun _ _ => id
    exact ⟨h.2.1, h.1, h.2.2.trans htext₂⟩
  · rw [if_neg hd, if_neg hd, if_neg fun h => hd (hcond.mp h)]
    cases ha : answerOf (p.offered v) v with
    | none =>
      unfold answer
      rw [ha]
      exact ⟨hp₂, rfl, htext₂⟩
    | some a =>
      rw [← htext₂]
      exact completes_answer (p := p.offered v) ha hp₂

/-! ## One pair of a text -/

/-- The parameter of a pair is found, and the pair is taken. -/
theorem completes_parseItem {key : CStr} (outgoing : Bool) {Q : Option Int → Parse → Prop}
    (hp : s.par key = some p) (hshort : v.length < iscsiParamMaxLen)
    (hnext : ∀ s', s'.par p.key = some p → s'.textOut = s.textOut →
      Completes (if outgoing then sendOut p v else if p.txOffer then receiveAnswer env u p v
        else receiveOffer env u p v) Q s') :
    Completes (parseItem env outgoing u (.pair key (some v))) Q s := by
  refine .bind (P := fun _ s' => s'.par key = some p ∧ s'.textOut = s.textOut)
    ((wp_guarded _ _).mpr ⟨fun _ => ⟨hp, rfl⟩, fun _ => ⟨hp, rfl⟩⟩) fun _ s₁ hkept => ?_
  obtain ⟨hp₁, htext⟩ := hkept
  refine (wp_bind _ _).mpr (wp_get.mpr ?_)
  rw [show paramGet s₁.params key = some p from hp₁]
  dsimp only
  rw [if_neg (Nat.not_lt.mpr (Nat.le_of_lt hshort)), if_neg (Nat.ne_of_lt hshort)]
  exact hnext s₁ (paramGet_key hp₁ ▸ hp₁) htext

theorem completes_parseItem_out {key : CStr} (hp : s.par key = some p)
    (hshort : v.length < iscsiParamMaxLen) :
    Completes (parseItem env true u (.pair key (some v))) (fun o s' => o = (p.sendStep v).2 ∧
      s'.par key = some (p.sendStep v).1 ∧ s'.textOut = s.textOut) s := by
  obtain rfl := paramGet_key hp
  refine completes_parseItem env true hp hshort fun s₁ hp₁ htext => ?_
  rw [if_pos rfl, ← htext]
  exact completes_sendOut v hp₁

theorem completes_parseItem_in {key : CStr} (hplain : key ∉ authKeys) (hp : s.par key = some p)
    (hshort : v.length < iscsiParamMaxLen) :
    Completes (parseItem env false u (.pair key (some v))) (Received p v s) s := by
  obtain rfl := paramGet_key hp
  refine completes_parseItem env false hp hshort fun s₁ hp₁ htext => ?_
  have hsame : Received p v s = Received p v s₁ := by
    unfold Received
    rw [htext]
  rw [if_neg Bool.false_ne_true, hsame]
  cases htx : p.txOffer with
  | true =>
    rw [if_pos rfl]
    refine wp_mono (completes_receiveAnswer env v hplain hp₁) (fun o s' h => ?_) fun _ _ => id
    simp only [Received, IscsiParameter.reply, IscsiParameter.receiveStep, htx, if_true, textWith]
    exact ⟨h.2.1, h.1, h.2.2⟩
  | false =>
    rw [if_neg Bool.false_ne_true]
    exact completes_receiveOffer env v hplain hp₁ htx

theorem wp_paramTextParse {key : CStr} {outgoing : Bool} {Q : Option Int → Parse → Prop}
    {E : Halt → Parse → Prop} (hpair : PairOk (key, v))
    (h : wp (parseItem env outgoing u (.pair key (some v))) Q E
      (if outgoing then s else { s with textOut := [] })) :
    wp (paramTextParse env (pairsText [(key, v)]) outgoing u)
      (fun rc s' => ∃ o, Q o s' ∧ rc = o.getD 0) E s := by
  have hok : ∀ kv ∈ [(key, v)], PairOk kv := fun kv hkv => List.mem_singleton.mp hkv ▸ hpair
  unfold paramTextParse
  rw [textPrintOverruns_pairsText hok, if_neg Bool.false_ne_true, textItems_pairsText env hok]
  rw [wp_bind]
  refine wp_mono (Q := fun _ s' => s' = if outgoing then s else { s with textOut := [] })
    ((wp_guarded _ _).mpr ?_) (fun _ s₁ hs₁ => ?_) fun _ _ => id
  · cases outgoing <;> simp
  · rw [List.map_singleton, parseItems, wp_bind]
    refine wp_mono (hs₁ ▸ h) (fun o s₂ hQ => ?_) fun _ _ => id
    cases o with
    | some rc => exact ⟨_, hQ, rfl⟩
    | none => exact ⟨_, hQ, rfl⟩

/-! ## The other keys -/

/-- A key that only its own pairs set. -/
structure Aside (K : CStr) : Prop where
  auth : K ∉ authKeys
  result : K ≠ cstr "AuthResult"

instance (K : CStr) : Decidable (Aside K) :=
  decidable_of_iff (K ∉ authKeys ∧ K ≠ cstr "AuthResult") ⟨fun h => ⟨h.1, h.2⟩, fun h => ⟨h.1, h.2⟩⟩

theorem Aside.ne_side {K : CStr} (h : Aside K) : ∀ k ∈ sideKeys, k ≠ K := by
  rintro k hk rfl
  simp only [sideKeys, List.mem_cons, List.not_mem_nil, or_false] at hk
  rcases hk with rfl | rfl | rfl | rfl | rfl
  · exact h.auth (by decide)
  · exact h.auth (by decide)
  · exact h.auth (by decide)
  · exact h.auth (by decide)
  · exact h.result rfl

theorem Aside.securityAuthMethod {K : CStr} (h : Aside K) (q : IscsiParameter) :
    Within (Keeps (Parse.par K)) (Param.securityAuthMethod q) := by
  have hne : cstr "CHAP_A" ≠ K := fun heq => h.auth (heq ▸ by decide)
  unfold Param.securityAuthMethod
  refine .ite _ (.ite _ (.ite _ (.bind inferInstance fun s => ?_)))
  cases paramGet s.params (cstr "CHAP_A") with
  | none => infer_instance
  | some a =>
    refine .bind ((allows_par K).setParam hne fun _ => rfl) fun _ => ?_
    exact .bind ((allows_par K).textAdd _ _) fun ok => inferInstance

/-- A pair with another key leaves the parameter alone. -/
theorem Aside.parseItem {K key : CStr} (h : Aside K) (hne : key ≠ K) (outgoing : Bool)
    (value : Option CStr) (s : Parse) :
    ensures (Param.parseItem env outgoing u (.pair key value))
      (fun _ s' => s'.par K = s.par K) s := by
  have hpar := allows_par K
  refine ensures.bind (P := fun _ s' => s'.par K = s.par K)
    ((wp_guarded _ _).mpr ⟨fun _ => rfl, fun _ => rfl⟩) fun _ s₁ hs₁ => ?_
  rw [← hs₁, ensures, wp_bind, wp_get]
  cases hp : paramGet s₁.params key with
  | none =>
    refine (wp_ite _ _ _).mpr ⟨fun _ => rfl, fun _ => ?_⟩
    exact (Within.bind (hpar.textAdd _ _) fun ok => inferInstance :
      Within (Keeps (Parse.par K)) _).run s₁
  | some p =>
    have hkey : p.key ≠ K := paramGet_key hp ▸ hne
    cases value with
    | none => trivial
    | some v =>
      refine (wp_ite _ _ _).mpr ⟨fun _ => rfl, fun _ => (wp_ite _ _ _).mpr ⟨fun _ => trivial,
        fun _ => ?_⟩⟩
      refine (wp_ite _ _ _).mpr ⟨fun _ => (hpar.sendOut hkey v).run s₁, fun _ => ?_⟩
      refine (wp_ite _ _ _).mpr ⟨fun _ => ?_, fun _ => ?_⟩
      · exact (hpar.receiveAnswer env h.ne_side u hkey
          (fun _ q _ => h.securityAuthMethod q) v).run s₁
      · have hp' : s₁.par p.key = some p := by rw [paramGet_key hp]; exact hp
        exact hpar.receiveOffer env h.ne_side u hkey v hp'

/-- A pair that the authentication takes no part in sets its own parameter only. -/
theorem parseItem_plain_ne {K key : CStr} (hplain : key ∉ authKeys) (hne : K ≠ key)
    (value : Option CStr) (s : Parse) :
    ensures (parseItem env false u (.pair key value)) (fun _ s' => s'.par K = s.par K) s := by
  have hpar := allows_par K
  refine ensures.bind (P := fun _ s' => s'.par K = s.par K)
    ((wp_guarded _ _).mpr ⟨fun _ => rfl, fun _ => rfl⟩) fun _ s₁ hs₁ => ?_
  rw [← hs₁, ensures, wp_bind, wp_get]
  cases hp : paramGet s₁.params key with
  | none =>
    refine (wp_ite _ _ _).mpr ⟨fun _ => rfl, fun _ => ?_⟩
    exact (Within.bind (hpar.textAdd _ _) fun ok => inferInstance :
      Within (Keeps (Parse.par K)) _).run s₁
  | some p =>
    obtain rfl := paramGet_key hp
    cases value with
    | none => trivial
    | some v =>
      refine (wp_ite _ _ _).mpr ⟨fun _ => rfl, fun _ => (wp_ite _ _ _).mpr ⟨fun _ => trivial,
        fun _ => ?_⟩⟩
      rw [if_neg Bool.false_ne_true]
      have := hpar.plainAnswer env (u := u) hplain hne.symm v
      exact (Within.ite _ (hpar.plainOffer env hplain hne.symm v) :
        Within (Keeps (Parse.par K)) _).run s₁

theorem parseItem_unknown {key : CStr} {value : Option CStr} (hkey : s.par key = none) :
    ensures (parseItem env false u (.pair key value)) (fun o s' => (∀ K, s'.par K = s.par K) ∧
      match paramTextAdd key (cstr "NotUnderstood") s.textOut with
      | some text => o = none ∧ s'.textOut = text
      | none => o = some (-1) ∧ s'.textOut = s.textOut) s := by
  refine ensures.bind (P := fun _ s' => (∀ K, s'.par K = s.par K) ∧ s'.textOut = s.textOut)
    ⟨fun _ => rfl, rfl⟩ fun _ s₁ ⟨hpar, htext⟩ => ?_
  rw [← htext, ensures, wp_bind, wp_get, show paramGet s₁.params key = none from
    (hpar key).trans hkey]
  dsimp only
  rw [if_neg Bool.false_ne_true, wp_bind, textAdd, wp_bind, wp_get]
  cases paramTextAdd key (cstr "NotUnderstood") s₁.textOut with
  | none => exact ⟨hpar, rfl, rfl⟩
  | some text => exact ⟨hpar, rfl, rfl⟩

/-- A value that does not fit its field ends the parse. -/
theorem parseItem_long {key : CStr} (outgoing : Bool) (hp : s.par key = some p)
    (hlong : iscsiParamMaxLen ≤ v.length) :
    ensures (parseItem env outgoing u (.pair key (some v))) (fun o _ => o = some (-1)) s := by
  refine ensures.bind (P := fun _ s' => s'.par key = some p)
    ((wp_guarded _ _).mpr ⟨fun _ => hp, fun _ => hp⟩) fun _ s₁ hp₁ => ?_
  rw [ensures, wp_bind, wp_get, show paramGet s₁.params key = some p from hp₁]
  refine (wp_ite _ _ _).mpr ⟨fun _ => rfl, fun hle => ?_⟩
  rw [if_pos (Nat.le_antisymm (Nat.not_lt.mp hle) hlong)]
  trivial

end Ost.Param
