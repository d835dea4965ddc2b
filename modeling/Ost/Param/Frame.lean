import Ost.Param.Offers

/-!
# What parsing a pair leaves alone

Every program of the negotiation changes the parameters through `setParam`, and never the
signature of one.  `Allows keys R` says that `R` lets the parameters with these keys change
otherwise; such an `R` contains every run that only sets parameters with these keys.  The
instances in use are `Keeps Parse.sigs`, which allows all keys, `Keeps (Parse.par k)`, which
allows all keys but `k`, and `Reoffered k`, for what the authentication does to `CHAP_A`.
-/

namespace Ost.Param

open Ost.Iscsi Ost.Util Ost.Prog

/-- The parameter with a key. -/
def Parse.par (k : CStr) (s : Parse) : Option IscsiParameter := paramGet s.params k

/-- The state after one parameter was set. -/
def Parse.set (key : CStr) (f : IscsiParameter → IscsiParameter) (s : Parse) : Parse :=
  { s with params := paramModify s.params key f }

theorem Parse.par_set {f : IscsiParameter → IscsiParameter} (hf : ∀ p, (f p).key = p.key)
    {key : CStr} {s : Parse} {p : IscsiParameter} (hp : s.par key = some p) :
    (s.set key f).par key = some (f p) :=
  (paramGet_modify_self hf).trans (congrArg (Option.map f) hp)

section Rules

variable {E : Halt → Parse → Prop} {s : Parse}

@[simp] theorem wp_setParam (key : CStr) (f : IscsiParameter → IscsiParameter)
    {Q : PUnit → Parse → Prop} : wp (setParam key f) Q E s ↔ Q ⟨⟩ (s.set key f) := Iff.rfl

@[simp] theorem wp_theParam (p : IscsiParameter) {Q : IscsiParameter → Parse → Prop} :
    wp (theParam p) Q E s ↔ Q ((s.par p.key).getD p) s := Iff.rfl

end Rules

/-! ## The moves of a parameter -/

namespace IscsiParameter

/-- We offered a value. -/
def offering (v : CStr) (p : IscsiParameter) : IscsiParameter :=
  { p with txOffer := true, rxOffer := false, offerTx := v }

/-- We were offered a value. -/
def offered (v : CStr) (p : IscsiParameter) : IscsiParameter :=
  { p with rxOffer := true, offerRx := p.offerRx.strcpy v }

/-- We answered. -/
def answering (v : CStr) (p : IscsiParameter) : IscsiParameter :=
  { p with txAnswer := true, answerTx := v }

/-- We were answered. -/
def answered (v : CStr) (p : IscsiParameter) : IscsiParameter :=
  { p with rxAnswer := true, txOffer := false, answerRx := p.answerRx.strcpy v }

/-- The parameter was negotiated. -/
def settled (v : CStr) (p : IscsiParameter) : IscsiParameter :=
  if isInquiry p then { p with negotiated := v } else commit { p with negotiated := v }

end IscsiParameter

/-! ## The frame -/

/-- The keys other than its own that parsing a pair can set. -/
def sideKeys : List CStr :=
  [cstr "CHAP_I", cstr "CHAP_C", cstr "CHAP_N", cstr "CHAP_R", cstr "AuthResult"]

/-- `R` contains the changes that touch, of the parameters, only those with keys in `keys`, and
not their signatures. -/
structure Allows (keys : CStr → Prop) (R : Parse → Parse → Prop) : Prop where
  rest : ∀ s s', s'.params = s.params → R s s'
  set : ∀ key, keys key → ∀ f : IscsiParameter → IscsiParameter, (∀ p, (f p).sig = p.sig) →
    ∀ s : Parse, R s (s.set key f)

/-- A change that keeps the signature keeps the key. -/
theorem key_of_sig {f : IscsiParameter → IscsiParameter} (hf : ∀ p, (f p).sig = p.sig)
    (p : IscsiParameter) : (f p).key = p.key := congrArg Sig.key (hf p)

/-- A parameter stays when only others are set. -/
theorem allows_par (k : CStr) : Allows (fun key => key ≠ k) (Keeps (Parse.par k)) where
  rest _ _ h := congrArg (paramGet · k) h
  set _ hk _ hf _ := paramGet_modify_of_ne (key_of_sig hf) hk.symm

/-! ### The programs -/

section Within

variable (env : Env) {keys : CStr → Prop} {R : Parse → Parse → Prop} [IsPreorder Parse R]

omit [IsPreorder Parse R] in
/-- An update outside the parameters. -/
theorem Allows.modify (h : Allows keys R) {f : Parse → Parse} (hf : ∀ s, (f s).params = s.params) :
    Within R (Prog.modify f : Prog Halt Parse PUnit) := within_modify fun s => h.rest _ _ (hf s)

omit [IsPreorder Parse R] in
/-- An update of a parameter. -/
theorem Allows.setParam (h : Allows keys R) {key : CStr} (hk : keys key)
    {f : IscsiParameter → IscsiParameter} (hf : ∀ p, (f p).sig = p.sig) :
    Within R (Param.setParam key f) := within_modify (h.set key hk f hf)

theorem Allows.textAdd (h : Allows keys R) (key value : CStr) :
    Within R (Param.textAdd key value) := by
  refine .bind inferInstance fun s => ?_
  cases paramTextAdd key value s.textOut with
  | none => infer_instance
  | some text => exact .bind (h.modify fun _ => rfl) fun _ => inferInstance

theorem Allows.getCookie (h : Allows keys R) : Within R Param.getCookie := by
  refine .bind inferInstance fun s => ?_
  cases s.cookie with
  | none => exact .bind (h.modify fun _ => rfl) fun _ => inferInstance
  | some c => infer_instance

omit [IsPreorder Parse R] in
theorem Allows.setCookie (h : Allows keys R) (c : Cookie) : Within R (Param.setCookie c) :=
  h.modify fun _ => rfl

theorem Allows.genRandomData (h : Allows keys R) (length : Nat) :
    Within R (Param.genRandomData length) :=
  .bind inferInstance fun _ => .bind (h.modify fun _ => rfl) fun _ => inferInstance

omit [IsPreorder Parse R] in
theorem Allows.logEvent (h : Allows keys R) (e : AuthEvent) : Within R (Param.logEvent e) :=
  h.modify fun _ => rfl

/-- A lookup changes nothing. -/
theorem within_found (key : CStr) : Within R (Param.found key) := within_gets _

/-- The frame of `offerChallenge`. -/
theorem Allows.offerChallenge (h : Allows keys R) (hk : ∀ k ∈ sideKeys, keys k) :
    Within R Param.offerChallenge := by
  have set (key : CStr) (hkey : key ∈ sideKeys) {f : IscsiParameter → IscsiParameter}
      (hf : ∀ p, (f p).sig = p.sig) : Within R (Param.setParam key f) := h.setParam (hk _ hkey) hf
  refine .bind (within_found _) fun ok => .ite _ ?_
  refine .bind (set _ (by decide) fun _ => rfl) fun _ => .bind (h.genRandomData _) fun id => ?_
  refine .bind h.getCookie fun c => .bind (h.setCookie _) fun _ => ?_
  refine .bind (set _ (by decide) fun _ => rfl) fun _ => .bind (h.textAdd _ _) fun ok => .ite _ ?_
  refine .bind (within_found _) fun ok => .ite _ ?_
  refine .bind (set _ (by decide) fun _ => rfl) fun _ => .bind (h.genRandomData _) fun ch => ?_
  refine .bind h.getCookie fun c => .bind (h.setCookie _) fun _ => ?_
  refine .bind (set _ (by decide) fun _ => rfl) fun _ => .bind (h.textAdd _ _) fun ok => .ite _ ?_
  exact .bind (h.logEvent _) fun _ => inferInstance

theorem Allows.securityChapA (h : Allows keys R) (hk : ∀ k ∈ sideKeys, keys k)
    (p : IscsiParameter) : Within R (Param.securityChapA p) := by
  refine .ite _ (.bind (h.textAdd _ _) fun ok => .ite _ ?_)
  exact .bind (h.offerChallenge hk) fun ok => inferInstance

theorem Allows.securityChapI (h : Allows keys R) (p : IscsiParameter) :
    Within R (Param.securityChapI p) :=
  .bind h.getCookie fun _ => .bind (h.setCookie _) fun _ => inferInstance

theorem Allows.securityChapC (h : Allows keys R) (hk : ∀ k ∈ sideKeys, keys k) (u : Users)
    (p : IscsiParameter) : Within R (Param.securityChapC env u p) := by
  have set (key : CStr) (hkey : key ∈ sideKeys) {f : IscsiParameter → IscsiParameter}
      (hf : ∀ p, (f p).sig = p.sig) : Within R (Param.setParam key f) := h.setParam (hk _ hkey) hf
  unfold Param.securityChapC
  dsimp only
  generalize (if p.rxOffer then hexTextToData p.offerRx chapCMaxDataLength
    else hexTextToData p.answerRx chapCDataLength) = r
  refine .bind h.getCookie fun c => .bind (h.setCookie _) fun _ => .ite _ ?_
  refine .bind (within_found _) fun ok => .ite _ ?_
  refine .bind (within_gets _) fun iu => .bind (set _ (by decide) fun _ => rfl) fun _ => ?_
  refine .bind (h.textAdd _ _) fun ok => .ite _ ?_
  refine .bind (within_found _) fun ok => .ite _ (.bind h.getCookie fun c => ?_)
  refine .bind (h.setCookie _) fun _ => .bind (set _ (by decide) fun _ => rfl) fun _ => ?_
  refine .bind (h.textAdd _ _) fun ok => .ite _ ?_
  have := Within.bind (h.offerChallenge hk) (k := fun ok =>
    if !ok then (return -1) else (return (2 : Int))) fun ok => inferInstance
  infer_instance

theorem Allows.securityChapN (u : Users) (p : IscsiParameter) :
    Within R (Param.securityChapN u p) := by
  have : Within R (initiatorUser u) := within_gets _
  unfold Param.securityChapN
  infer_instance

theorem Allows.securityChapR (h : Allows keys R) (u : Users) {p : IscsiParameter}
    (hk : keys p.key) : Within R (Param.securityChapR env u p) := by
  refine .bind h.getCookie fun c => .bind (h.setCookie _) fun _ => ?_
  refine .bind (h.setParam hk fun _ => rfl) fun _ => .ite _ ?_
  exact .bind (h.logEvent _) fun _ => inferInstance

/-- The frame of `param_parse_security`, given that of its branch for `AuthMethod`, which is the
one that sets `CHAP_A`. -/
theorem Allows.paramParseSecurity (h : Allows keys R) (hk : ∀ k ∈ sideKeys, keys k) (u : Users)
    {p : IscsiParameter} (hA : p.key = cstr "AuthMethod" → Within R (securityAuthMethod p)) :
    Within R (Param.paramParseSecurity env u p) := by
  refine .bind h.getCookie fun _ => ?_
  split
  · exact hA ‹_›
  have := h.securityChapA hk p
  have := h.securityChapI p
  have := h.securityChapC env hk u p
  have := Allows.securityChapN (R := R) u p
  refine .ite _ (.ite _ (.ite _ (.ite _ ?_)))
  split
  · exact h.securityChapR env u (hk _ (by rw [‹p.key = _›]; decide))
  · infer_instance

/-- The frame of the label `negotiate`. -/
theorem Allows.negotiate (h : Allows keys R) (outgoing : Bool) {p : IscsiParameter}
    (hk : keys p.key) : Within R (Param.negotiate outgoing p) := by
  unfold Param.negotiate
  cases negotiation outgoing p with
  | warn => infer_instance
  | error => infer_instance
  | value v =>
    refine .bind (h.setParam hk fun _ => rfl) fun _ => .bind (h.logEvent _) fun _ => ?_
    exact .bind (.guarded _ (h.setParam hk fun _ => rfl)) fun _ => inferInstance

/-- The frame of the labels `answer` and `add_answer`. -/
theorem Allows.answer (h : Allows keys R) {p : IscsiParameter} (hk : keys p.key) (value : CStr) :
    Within R (Param.answer p value) := by
  unfold Param.answer
  cases answerOf p value with
  | none => infer_instance
  | some a =>
    refine .bind (h.setParam hk fun _ => rfl) fun _ => .bind (h.textAdd _ _) fun ok => ?_
    infer_instance

omit [IsPreorder Parse R] in
/-- Reading a parameter again. -/
theorem within_theParam {β : Type} {p : IscsiParameter} {k : IscsiParameter → Prog Halt Parse β}
    (hk : ∀ q, q.key = p.key → Within R (k q)) : Within R (theParam p >>= k) where
  run s := by
    have hkey : ((paramGet s.params p.key).getD p).key = p.key := by
      cases hp : paramGet s.params p.key with
      | none => rfl
      | some q => exact paramGet_key hp
    exact (wp_bind _ _).mpr ((hk _ hkey).run s)

/-- The frame of an answer that arrives. -/
theorem Allows.receiveAnswer (h : Allows keys R) (hside : ∀ k ∈ sideKeys, keys k) (u : Users)
    {p : IscsiParameter} (hk : keys p.key)
    (hA : p.key = cstr "AuthMethod" → ∀ q : IscsiParameter, q.key = p.key →
      Within R (securityAuthMethod q)) (value : CStr) :
    Within R (Param.receiveAnswer env u p value) := by
  refine .bind (h.setParam hk fun _ => rfl) fun _ => within_theParam fun q hq => ?_
  refine .bind (h.paramParseSecurity env hside u fun hq' => hA (hq ▸ hq') q hq) fun r => .ite _ ?_
  exact within_theParam fun q hq => h.negotiate false (hq ▸ hk)

/-- The frame of the authentication method when it is offered. -/
theorem within_securityAuthMethod_offer {p : IscsiParameter} (hp : p.rxOffer = true) :
    Within R (securityAuthMethod p) := by
  unfold securityAuthMethod
  refine .ite _ (.ite _ ?_)
  rw [if_pos hp]
  infer_instance

/-- The frame of an offer that arrives. -/
theorem Allows.receiveOffer (h : Allows keys R) (hside : ∀ k ∈ sideKeys, keys k) (u : Users)
    {p : IscsiParameter} (hk : keys p.key) (value : CStr) {s : Parse}
    (hp : s.par p.key = some p) :
    ensures (Param.receiveOffer env u p value) (fun _ s' => R s s') s := by
  have auth (v : CStr) : Within R (setAuthResult v) :=
    h.setParam (hside _ (by decide)) fun _ => rfl
  have move := h.set p.key hk (·.offered value) (fun _ => rfl) s
  have offered := Parse.par_set (f := (·.offered value)) (fun _ => rfl) hp
  refine (wp_bind _ _).mpr ?_
  change ensures (theParam p >>= _) _ (s.set p.key (·.offered value))
  rw [ensures, wp_bind, wp_theParam, offered]
  refine ensures.mono ((Within.bind ?_ fun ret => ?_ : Within R _).run _) fun _ _ =>
    Trans.trans move
  · apply h.paramParseSecurity env hside u
    intro _
    exact within_securityAuthMethod_offer rfl
  · refine .ite _ ?_
    split
    · exact .bind (auth _) fun _ => inferInstance
    · refine .bind (.guarded _ (auth _)) fun _ => within_theParam fun q hq => ?_
      have := h.negotiate false (hq ▸ hk)
      have := h.answer (hq ▸ hk) value
      infer_instance

/-- The frame of a pair that goes out. -/
theorem Allows.sendOut (h : Allows keys R) {p : IscsiParameter} (hk : keys p.key) (value : CStr) :
    Within R (Param.sendOut p value) := by
  have next : Within R (theParam p >>= Param.negotiate true) :=
    within_theParam fun q hq => h.negotiate true (hq ▸ hk)
  unfold Param.sendOut
  split
  · exact .bind (h.setParam hk fun _ => rfl) fun _ => next
  · exact .bind (h.setParam hk fun _ => rfl) fun _ => inferInstance

end Within

end Ost.Param
