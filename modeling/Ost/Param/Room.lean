import Ost.Param.Hex
import Ost.Param.Strings
import Ost.Prog.Safe
import Ost.Prog.Returns

/-!
# Room for what is stored

The strings of a parameter stand in arrays of 4096 bytes, its key in one of 64, and the text that
goes out in another of 4096.  The challenge and the response of the authentication have their arrays
in the cookie.  Whatever comes in, nothing longer is stored: the lengths that the parse does not
test are those of strings that it has stored before, or made up itself.
-/

namespace Ost.Param

open Ost.Iscsi Ost.Util Ost.Prog

/-- A string and its terminator fit a field of a parameter. -/
abbrev Fits (v : CStr) : Prop := v.length < iscsiParamMaxLen

/-- The fields of a parameter hold their strings. -/
structure IscsiParameter.Roomy (p : IscsiParameter) : Prop where
  key : p.key.length < iscsiParamKeyLen
  valid : Fits p.valid
  valueL : ∀ v ∈ p.valueL, Fits v
  offerRx : Fits p.offerRx.str
  offerTx : Fits p.offerTx
  answerRx : Fits p.answerRx.str
  answerTx : Fits p.answerTx
  negotiated : Fits p.negotiated

instance (p : IscsiParameter) : Decidable p.Roomy :=
  decidable_of_iff (p.key.length < iscsiParamKeyLen ∧ Fits p.valid ∧ (∀ v ∈ p.valueL, Fits v) ∧
      Fits p.offerRx.str ∧ Fits p.offerTx ∧ Fits p.answerRx.str ∧ Fits p.answerTx ∧
      Fits p.negotiated)
    ⟨fun ⟨h₁, h₂, h₃, h₄, h₅, h₆, h₇, h₈⟩ => ⟨h₁, h₂, h₃, h₄, h₅, h₆, h₇, h₈⟩,
      fun h => ⟨h.1, h.2, h.3, h.4, h.5, h.6, h.7, h.8⟩⟩

/-- The arrays of a cookie have their sizes. -/
structure Cookie.Roomy (c : Cookie) : Prop where
  chapdata : c.chapdata.length = chapCMaxDataLength
  respdata : c.respdata.length = chapRDataLength

/-- Everything that is stored fits. -/
structure Parse.Roomy (s : Parse) : Prop where
  params : ∀ p ∈ s.params, p.Roomy
  textOut : s.textOut.length ≤ iscsiParamMaxTextLen
  cookie : s.theCookie.Roomy

/-- The user names fit. -/
structure Users.Roomy (u : Users) : Prop where
  initiatorUser : ∀ v ∈ u.initiatorUser, Fits v
  targetUser : Fits u.targetUser

variable (env : Env) {s : Parse} {u : Users} {p : IscsiParameter} {v a : CStr}

/-- A parameter that is found. -/
theorem Parse.Roomy.par {K : CStr} (hs : s.Roomy) (hp : s.par K = some p) : p.Roomy :=
  hs.params p (List.mem_of_find?_eq_some hp)

/-! ## Pieces and numerals -/

/-- A piece of a list is not longer than the list. -/
theorem length_commaFrom_le {cur s o : CStr} (h : o ∈ commaFrom cur s) :
    o.length ≤ cur.length + s.length := by
  induction s generalizing cur with
  | nil =>
    rw [List.mem_singleton.mp h]
    exact Nat.le_add_right _ _
  | cons c s ih =>
    rw [List.length_cons]
    unfold commaFrom at h
    split at h
    · exact absurd ‹c :: s = []› (List.cons_ne_nil _ _)
    · obtain ⟨-, rfl⟩ := List.cons.inj ‹c :: s = _›
      rcases List.mem_cons.mp h with rfl | h
      · omega
      · have := ih h
        rw [List.length_nil] at this
        omega
    · obtain ⟨rfl, rfl⟩ := List.cons.inj ‹c :: s = _›
      have := ih h
      rw [List.length_append, List.length_singleton] at this
      omega

/-- A piece of a list that fits. -/
theorem fits_piece {l o : CStr} (hl : Fits l) (h : o ∈ splitComma l) : Fits o := by
  have := length_commaFrom_le h
  rw [List.length_nil] at this
  exact Nat.lt_of_le_of_lt (by omega) hl

/-- The numeral of an `int` fits. -/
theorem fits_decimal {x : Int} (hlo : -2147483648 ≤ x) (hhi : x < 2147483648) : Fits (decimal x) :=
  Nat.lt_of_le_of_lt (length_decimal_le hlo hhi) (by decide)

/-- A digest in hexadecimal fits. -/
theorem fits_hexDataToText {data : Bytes} (h : data.length ≤ chapCDataLength) :
    Fits (hexDataToText data) := by
  rw [Fits, length_hexDataToText]
  change data.length ≤ 16 at h
  change 2 * data.length + 2 < 4096
  omega

/-- Strings that fit are closed under what the code makes of them. -/
theorem closed_fits : Closed Fits where
  empty := by decide
  yes := by decide
  no := by decide
  fail := by decide
  reject := by decide
  piece _ hl _ ho := fits_piece hl ho
  decimal _ hlo hhi := fits_decimal hlo hhi
  hex _ h := fits_hexDataToText h

theorem length_overlay {buf bs : Bytes} (h : bs.length ≤ buf.length) :
    (overlay buf bs).length = buf.length := by
  rw [overlay, List.length_append, List.length_drop]
  omega

/-! ## The moves -/

namespace IscsiParameter.Roomy

/-- The strings of a parameter fit. -/
theorem all (hp : p.Roomy) : p.All Fits := { hp with }

/-- A move that keeps the key. -/
theorem of_all {q : IscsiParameter} (hp : p.Roomy) (hkey : q.key = p.key) (hq : q.All Fits) :
    q.Roomy := { hq with key := hkey ▸ hp.key }

theorem offered (hp : p.Roomy) (hv : Fits v) : (p.offered v).Roomy :=
  hp.of_all rfl (hp.all.offered hv)

theorem answered (hp : p.Roomy) (hv : Fits v) : (p.answered v).Roomy :=
  hp.of_all rfl (hp.all.answered hv)

/-- What is answered fits. -/
theorem answerOf (hp : p.Roomy) (hv : Fits v) (h : Param.answerOf p v = some a) : Fits a :=
  hp.all.answerOf closed_fits hv h

/-- What is negotiated fits. -/
theorem negotiation (hp : p.Roomy) (h : Param.negotiation false p = .value v) : Fits v :=
  hp.all.negotiation closed_fits h

theorem commit (hp : p.Roomy) : (Param.commit p).Roomy := hp.of_all rfl hp.all.commit

end IscsiParameter.Roomy

/-! ## The programs -/

section Programs

/-- A program that keeps within the arrays. -/
abbrev Kempt {α : Type} (P : α → Prop) (x : Prog Halt Parse α) : Prop := Safe Parse.Roomy P x

/-- No more than that it keeps within the arrays is known of a program. -/
abbrev Tidy {α : Type} (x : Prog Halt Parse α) : Prop := Kempt (fun _ => True) x

theorem tidy_setParam {key : CStr} {f : IscsiParameter → IscsiParameter}
    (hf : ∀ p : IscsiParameter, p.Roomy → (f p).Roomy) : Tidy (setParam key f) := by
  refine .modify fun s hs => { hs with params := fun p hp => ?_ }
  obtain ⟨q, hq, rfl⟩ := List.mem_map.mp hp
  split
  · exact hf q (hs.params q hq)
  · exact hs.params q hq

theorem tidy_textAdd (key value : CStr) : Tidy (textAdd key value) := by
  refine .bind .get fun s _ => ?_
  cases h : paramTextAdd key value s.textOut with
  | none => exact .pure trivial
  | some text =>
    refine .bind (.modify fun s' hs' => { hs' with textOut := ?_ }) fun _ _ => .pure trivial
    unfold paramTextAdd at h
    split at h
    · exact absurd h (by simp)
    · obtain rfl := Option.some.inj h
      simp only [List.length_append, List.length_cons, List.length_nil]
      omega

theorem tidy_logEvent (e : AuthEvent) : Tidy (logEvent e) :=
  .modify fun _ hs => { hs with }

theorem kempt_getCookie : Kempt Cookie.Roomy getCookie where
  run s hs := by
    rw [wp, getCookie_eq]
    exact ⟨hs.cookie, { hs with cookie := hs.cookie }⟩

theorem tidy_setCookie {c : Cookie} (hc : c.Roomy) : Tidy (setCookie c) :=
  .modify fun _ hs => { hs with cookie := hc }

theorem kempt_genRandomData (length : Nat) :
    Kempt (fun data => data.length = length) (genRandomData length) := by
  refine .bind .get fun s _ => .bind (.modify fun _ hs => { hs with }) fun _ _ => .pure ?_
  rw [List.length_map, List.length_range]

theorem kempt_initiatorUser (hu : u.Roomy) : Kempt Fits (initiatorUser u) := by
  refine .gets fun s hs => ?_
  cases h : u.initiatorUser with
  | some v => exact hu.initiatorUser v h
  | none =>
    cases hv : paramVal s.params (cstr "CHAP_N") with
    | none => exact (by decide : Fits [])
    | some v =>
      obtain ⟨p, hp, hv⟩ := Option.bind_eq_some_iff.mp hv
      exact (Parse.Roomy.par hs hp).valueL v (List.mem_of_getElem? hv)

theorem kempt_theParam (hp : p.Roomy) : Kempt IscsiParameter.Roomy (theParam p) := by
  refine .gets fun s hs => ?_
  cases h : paramGet s.params p.key with
  | none => exact hp
  | some q => exact Parse.Roomy.par hs h

theorem tidy_setAuthResult (hv : Fits v) : Tidy (setAuthResult v) := by
  refine tidy_setParam fun p hp => { hp with valueL := fun w hw => ?_ }
  rcases List.mem_or_eq_of_mem_set hw with hw | rfl
  · exact hp.valueL w hw
  · exact hv

theorem tidy_found (key : CStr) : Tidy (found key) := .gets fun _ _ => trivial

/-- The challenge is a number below 256 and 16 bytes. -/
theorem tidy_offerChallenge : Tidy offerChallenge := by
  have hreset (key : CStr) :
    Tidy (setParam key fun p => { p with txOffer := false, rxOffer := false }) :=
    tidy_setParam fun p hp => { hp with }
  refine .bind (tidy_found _) fun ok _ => .ite (fun _ => .pure trivial) fun _ => ?_
  refine .bind (hreset _) fun _ _ => .bind (kempt_genRandomData _) fun id _ => ?_
  refine .bind kempt_getCookie fun c hc => .bind (tidy_setCookie { hc with }) fun _ _ => ?_
  refine .bind (tidy_setParam fun p hp => { hp with offerTx := fits_decimal ?_ ?_ }) fun _ _ => ?_
  · omega
  · have := (byte id 0).toNat_lt
    omega
  refine .bind (tidy_textAdd _ _) fun ok _ => .ite (fun _ => .pure trivial) fun _ => ?_
  refine .bind (tidy_found _) fun ok _ => .ite (fun _ => .pure trivial) fun _ => ?_
  refine .bind (hreset _) fun _ _ => .bind (kempt_genRandomData _) fun challenge hlen => ?_
  refine .bind kempt_getCookie fun c hc => .bind (tidy_setCookie ?_) fun _ _ => ?_
  · refine { hc with chapdata := (length_overlay ?_).trans hc.chapdata }
    rw [hlen, hc.chapdata]
    decide
  refine .bind (tidy_setParam fun p hp =>
    { hp with offerTx := fits_hexDataToText (Nat.le_of_eq hlen) }) fun _ _ => ?_
  refine .bind (tidy_textAdd _ _) fun ok _ => .ite (fun _ => .pure trivial) fun _ => ?_
  exact .bind (tidy_logEvent _) fun _ _ => .pure trivial

theorem tidy_securityAuthMethod (p : IscsiParameter) : Tidy (securityAuthMethod p) := by
  refine .ite (fun _ => .pure trivial) fun _ => .ite (fun _ => .pure trivial) fun _ => ?_
  refine .ite (fun _ => .pure trivial) fun _ => .bind .get fun s hs => ?_
  cases ha : paramGet s.params (cstr "CHAP_A") with
  | none => exact .pure trivial
  | some a =>
    refine .bind (tidy_setParam fun a ha => { ha with offerTx := ha.valid }) fun _ _ => ?_
    refine .bind (tidy_textAdd _ _) fun ok _ => .ite (fun _ => .pure trivial) fun _ => ?_
    exact .pure trivial

theorem tidy_securityChapA (p : IscsiParameter) : Tidy (securityChapA p) := by
  refine .ite (fun _ => .pure trivial) fun _ => ?_
  refine .bind (tidy_textAdd _ _) fun ok _ => .ite (fun _ => .pure trivial) fun _ => ?_
  exact .bind tidy_offerChallenge fun ok _ => .ite (fun _ => .pure trivial) fun _ => .pure trivial

theorem tidy_securityChapI (p : IscsiParameter) : Tidy (securityChapI p) :=
  .bind kempt_getCookie fun _ hc => .bind (tidy_setCookie { hc with }) fun _ _ => .pure trivial

/-- The challenge fits the cookie, and so does the digest that takes its place. -/
theorem tidy_securityChapC (hu : u.Roomy) (p : IscsiParameter) : Tidy (securityChapC env u p) := by
  have hdata : (if p.rxOffer then hexTextToData p.offerRx chapCMaxDataLength
      else hexTextToData p.answerRx chapCDataLength).2.length ≤ chapCMaxDataLength := by
    split
    · exact length_hexTextToData_le _ _
    · exact (length_hexTextToData_le _ _).trans (by decide)
  unfold securityChapC
  dsimp only
  generalize (if p.rxOffer then hexTextToData p.offerRx chapCMaxDataLength
    else hexTextToData p.answerRx chapCDataLength) = r at *
  refine .bind kempt_getCookie fun c hc => .bind (tidy_setCookie ?_) fun _ _ => ?_
  · exact { hc with chapdata := (length_overlay (hdata.trans hc.chapdata.ge)).trans hc.chapdata }
  refine .ite (fun _ => .pure trivial) fun _ => ?_
  refine .bind (tidy_found _) fun ok _ => .ite (fun _ => .pure trivial) fun _ => ?_
  refine .bind (kempt_initiatorUser hu) fun iu hiu => ?_
  have huser : Fits (if p.rxOffer then iu else u.targetUser) := by
    split
    · exact hiu
    · exact hu.targetUser
  refine .bind (tidy_setParam fun p hp => { hp with offerTx := huser }) fun _ _ => ?_
  refine .bind (tidy_textAdd _ _) fun ok _ => .ite (fun _ => .pure trivial) fun _ => ?_
  refine .bind (tidy_found _) fun ok _ => .ite (fun _ => .pure trivial) fun _ => ?_
  refine .bind kempt_getCookie fun c hc => ?_
  have hdigest (x : Bytes) : (env.md5 x).length ≤ chapCDataLength := (env.md5_length x).le
  refine .bind (tidy_setCookie { hc with chapdata := ?_ }) fun _ _ => ?_
  · refine (length_overlay ?_).trans hc.chapdata
    exact (hdigest _).trans (hc.chapdata ▸ (by decide))
  refine .bind (tidy_setParam fun p hp =>
    { hp with offerTx := fits_hexDataToText (hdigest _) }) fun _ _ => ?_
  refine .bind (tidy_textAdd _ _) fun ok _ => .ite (fun _ => .pure trivial) fun _ => ?_
  refine .ite (fun _ => ?_) fun _ => .pure trivial
  exact .bind tidy_offerChallenge fun ok _ => .ite (fun _ => .pure trivial) fun _ => .pure trivial

theorem tidy_securityChapN (hu : u.Roomy) (p : IscsiParameter) : Tidy (securityChapN u p) := by
  refine .ite (fun _ => .ite (fun _ => .pure trivial) fun _ => .pure trivial) fun _ => ?_
  refine .bind (kempt_initiatorUser hu) fun iu _ => ?_
  exact .ite (fun _ => .pure trivial) fun _ => .pure trivial

/-- The response fits the cookie, and so does the digest that takes the place of the challenge. -/
theorem tidy_securityChapR (p : IscsiParameter) : Tidy (securityChapR env u p) := by
  have hdigest (x : Bytes) : (env.md5 x).length ≤ chapCDataLength := (env.md5_length x).le
  have hid (c : Cookie) : [c.idData].length ≤ chapCDataLength := by
    change 1 ≤ 16
    decide
  refine .bind kempt_getCookie fun c hc => .bind (tidy_setCookie ⟨?_, ?_⟩) fun _ _ => ?_
  · refine (length_overlay ?_).trans hc.chapdata
    exact (hdigest _).trans (hc.chapdata ▸ (by decide))
  · exact (length_overlay ((length_hexTextToData_le _ _).trans hc.respdata.ge)).trans hc.respdata
  refine .bind (tidy_setParam fun p hp =>
    { hp with
      offerTx := fits_hexDataToText (hid c)
      offerRx := fits_hexDataToText (hdigest _) }) fun _ _ => ?_
  exact .ite (fun _ => .pure trivial) fun _ => .bind (tidy_logEvent _) fun _ _ => .pure trivial

theorem tidy_paramParseSecurity (hu : u.Roomy) (p : IscsiParameter) :
    Tidy (paramParseSecurity env u p) := by
  refine .bind kempt_getCookie fun _ _ => ?_
  refine .ite (fun _ => tidy_securityAuthMethod p) fun _ => ?_
  refine .ite (fun _ => tidy_securityChapA p) fun _ => ?_
  refine .ite (fun _ => tidy_securityChapI p) fun _ => ?_
  refine .ite (fun _ => tidy_securityChapC env hu p) fun _ => ?_
  refine .ite (fun _ => tidy_securityChapN hu p) fun _ => ?_
  exact .ite (fun _ => tidy_securityChapR env p) fun _ => .pure trivial

theorem tidy_negotiate (hp : p.Roomy) : Tidy (negotiate false p) := by
  unfold negotiate
  cases h : negotiation false p with
  | warn => exact .pure trivial
  | error => exact .pure trivial
  | value v =>
    refine .bind (tidy_setParam fun q hq => { hq with negotiated := hp.negotiation h })
      fun _ _ => ?_
    refine .bind (tidy_logEvent _) fun _ _ => ?_
    exact .bind (.guarded (tidy_setParam fun q hq => hq.commit)) fun _ _ => .pure trivial

theorem tidy_answer (hp : p.Roomy) (hv : Fits v) : Tidy (answer p v) := by
  unfold answer
  cases h : answerOf p v with
  | none => exact .pure trivial
  | some a =>
    refine .bind (tidy_setParam fun q hq => { hq with answerTx := hp.answerOf hv h }) fun _ _ => ?_
    exact .bind (tidy_textAdd _ _) fun ok _ => .ite (fun _ => .pure trivial) fun _ => .pure trivial

theorem tidy_receiveAnswer (hu : u.Roomy) (hp : p.Roomy) (hv : Fits v) :
    Tidy (receiveAnswer env u p v) := by
  refine .bind (tidy_setParam fun q hq => hq.answered hv) fun _ _ => ?_
  refine .bind (kempt_theParam hp) fun q hq => ?_
  refine .bind (tidy_paramParseSecurity env hu q) fun r _ => .ite
    (fun _ => .pure trivial) fun _ => ?_
  exact .bind (kempt_theParam hp) fun q hq => tidy_negotiate hq

theorem tidy_receiveOffer (hu : u.Roomy) (hp : p.Roomy) (hv : Fits v) :
    Tidy (receiveOffer env u p v) := by
  have hyes : Fits (cstr "Yes") := by decide
  have hfail : Fits (cstr "Fail") := by decide
  refine .bind (tidy_setParam fun q hq => hq.offered hv) fun _ _ => ?_
  refine .bind (kempt_theParam hp) fun q hq => ?_
  refine .bind (tidy_paramParseSecurity env hu q) fun r _ => .ite
    (fun _ => .pure trivial) fun _ => ?_
  refine .ite (fun _ => .bind (tidy_setAuthResult hfail) fun _ _ => .pure trivial) fun _ => ?_
  refine .bind (.guarded (tidy_setAuthResult hyes)) fun _ _ => ?_
  refine .bind (kempt_theParam hp) fun q hq => ?_
  exact .ite (fun _ => tidy_negotiate hq) fun _ => tidy_answer hq hv

end Programs

/-! ## One pair -/

/-- A pair is parsed unless its value is missing, or fills its field and leaves no room for the
terminator. -/
theorem parseItem_pair_returnsIff (hu : u.Roomy) (hs : s.Roomy) (key : CStr) (value : Option CStr) :
    ReturnsIff (parseItem env false u (.pair key value))
      (s.par key = none ∨ ∃ v, value = some v ∧ v.length ≠ iscsiParamMaxLen)
      (fun _ s' => s'.Roomy) s := by
  refine .bind_of_true (P := fun _ s' => s'.par key = s.par key ∧ s'.Roomy)
    ⟨trivial, rfl, { hs with }⟩ fun _ s₁ ⟨hpar, hs₁⟩ => ?_
  rw [← hpar, ReturnsIff, wp_bind, wp_get]
  cases hp : paramGet s₁.params key with
  | none =>
    have hadd : Tidy (textAdd key (cstr "NotUnderstood") >>= fun ok =>
        if !ok then return some (-1) else return (none : Option Int)) :=
      .bind (tidy_textAdd _ _) fun ok _ => .ite (fun _ => .pure trivial) fun _ => .pure trivial
    exact wp_mono (hadd.run s₁ hs₁) (fun _ s' h => ⟨.inl hp, h.2⟩) fun _ _ => False.elim
  | some p =>
    have hsome : s₁.par key ≠ none := fun h => Option.some_ne_none p (hp.symm.trans h)
    cases value with
    | none => exact fun h => h.elim hsome fun ⟨v, hv, _⟩ => absurd hv (by simp)
    | some v =>
      have hiff : s₁.par key = none ∨ (∃ w, some v = some w ∧ w.length ≠ iscsiParamMaxLen) ↔
          v.length ≠ iscsiParamMaxLen := by simp [hsome]
      refine ReturnsIff.congr_left (C := v.length ≠ iscsiParamMaxLen) ?_ hiff.symm
      dsimp only
      by_cases hlong : v.length > iscsiParamMaxLen
      · rw [if_pos hlong]
        exact ⟨Nat.ne_of_gt hlong, hs₁⟩
      rw [if_neg hlong]
      by_cases hfull : v.length = iscsiParamMaxLen
      · rw [if_pos hfull]
        exact fun h => h hfull
      rw [if_neg hfull, if_neg Bool.false_ne_true]
      have hv : Fits v := by omega
      have htidy : Tidy (if p.txOffer then receiveAnswer env u p v else receiveOffer env u p v) :=
        .ite (fun _ => tidy_receiveAnswer env hu (hs₁.par hp) hv) fun _ =>
          tidy_receiveOffer env hu (hs₁.par hp) hv
      exact wp_mono (htidy.run s₁ hs₁) (fun _ s' h => ⟨hfull, h.2⟩) fun _ _ => False.elim

end Ost.Param
