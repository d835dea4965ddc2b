import Ost.Param.Turns

/-!
# The authentication, key by key

What `param_parse_security` does with each of its six keys in the exchange, as a move of the side
that runs it.
-/

namespace Ost.Param

open Ost.Iscsi Ost.Util Ost.Prog

namespace Side

/-- An offer is about to go out. -/
def offering (x : Side) (k : ChapKey) : Side := x.put k { x.facts k with tx := true, rx := false }

/-- The flags of a key are cleared. -/
def cleared (x : Side) (k : ChapKey) : Side := x.put k { x.facts k with tx := false, rx := false }

/-- A fresh identifier is about to go out. -/
def identifying (x : Side) (rand : Nat → UInt8) : Side :=
  { x.cleared .ident with id := rand x.pos, pos := x.pos + 1 }.add .ident
    (decimal (rand x.pos).toNat)

/-- The challenge that is drawn next. -/
def nextChallenge (x : Side) (rand : Nat → UInt8) : Bytes := x.draw rand chapCDataLength

/-- A fresh challenge is about to go out. -/
def challenging (x : Side) (rand : Nat → UInt8) : Side :=
  { x.cleared .challenge with
    challenge := x.nextChallenge rand, pos := x.pos + chapCDataLength }.add .challenge
      (hexDataToText (x.nextChallenge rand))

/-- A name and a digest are about to go out. -/
def responding (x : Side) (user : CStr) (digest : Bytes) : Side :=
  { ((x.offering .name).add .name user).offering .response with challenge := digest }.add .response
    (hexDataToText digest)

end Side

variable (env : Env) {rand : Nat → UInt8} {s : Parse} {x : Side} {k : ChapKey} {u : Users}
  {q : IscsiParameter} {φ : Facts}

/-- A pair is added to the text, for which there is room. -/
theorem Shows.bindTextAdd {α : Type} (h : Shows rand s x) (k : ChapKey) {v : CStr}
    (hfits : (chapText x.text).length + v.length + 12 ≤ iscsiParamMaxTextLen) {e : α}
    {rest : Prog Halt Parse α} {Q : α → Parse → Prop}
    (hrest : ∀ s', Shows rand s' (x.add k v) → Completes rest Q s') :
    Completes (do if !(← Param.textAdd k.key v) then return e
                  rest) Q s := by
  refine Completes.bind (h.textAdd k hfits) fun ok s₁ ⟨hok, h₁⟩ => ?_
  rw [hok]
  exact hrest s₁ h₁

/-- A key of the exchange is found. -/
theorem Shows.bindFound {α : Type} (h : Shows rand s x) (k : ChapKey) {e : α}
    {rest : Prog Halt Parse α} {Q : α → Parse → Prop} (hrest : Completes rest Q s) :
    Completes (do if !(← Param.found k.key) then return e
                  rest) Q s := by
  obtain ⟨p, hp, -⟩ := h.params k
  refine (wp_bind _ _).mpr ?_
  change Completes (if !(paramGet s.params k.key).isSome then pure e else rest) Q s
  rw [show paramGet s.params k.key = some p from hp]
  exact hrest

/-- The flags of a key are set for an offer. -/
theorem Shows.setOffering (h : Shows rand s x) (k : ChapKey) (v : IscsiParameter → CStr) :
    Completes (Param.setParam k.key fun p => p.offering (v p))
      (fun _ s' => Shows rand s' (x.offering k)) s := by
  refine h.setParam (fun _ => rfl) fun p hp => ?_
  rw [← hp]
  rfl

/-- The flags of a key are cleared. -/
theorem Shows.setCleared (h : Shows rand s x) (k : ChapKey) :
    Completes (Param.setParam k.key fun p => { p with txOffer := false, rxOffer := false })
      (fun _ s' => Shows rand s' (x.cleared k)) s := by
  refine h.setParam (fun _ => rfl) fun p hp => ?_
  rw [← hp]
  rfl

/-! ## The method and the algorithm -/

/-- The target is offered the method. -/
theorem Shows.methodOffered (h : Shows rand s x) (hq : q.facts = φ) (hrx : φ.rx = true)
    (hanswered : φ.answered = false) (hoffer : φ.offer = cstr "CHAP") :
    Completes (securityAuthMethod q) (fun ret s' => ret = 1 ∧ Shows rand s' x) s := by
  have hrx' : q.rxOffer = true := (congrArg Facts.rx hq).trans hrx
  have hanswered' : q.rxAnswer = false := (congrArg Facts.answered hq).trans hanswered
  have hoffer' : q.offerRx.str = cstr "CHAP" := (congrArg Facts.offer hq).trans hoffer
  have hnone : ¬cstr "CHAP" = cstr "None" := by decide
  rw [securityAuthMethod, hrx', hanswered', hoffer', decide_eq_false hnone]
  exact ⟨rfl, h⟩

/-- The initiator is answered the method, and offers the algorithm. -/
theorem Shows.methodAnswered (h : Shows rand s x) (hq : q.facts = φ) (hrx : φ.rx = false)
    (hanswer : φ.answer = cstr "CHAP")
    (hfits : (chapText x.text).length + 13 ≤ iscsiParamMaxTextLen) :
    Completes (securityAuthMethod q) (fun ret s' => 0 ≤ ret ∧
      Shows rand s' ((x.offering .algorithm).add .algorithm (cstr "5"))) s := by
  have hrx' : q.rxOffer = false := (congrArg Facts.rx hq).trans hrx
  have hanswer' : q.answerRx.str = cstr "CHAP" := (congrArg Facts.answer hq).trans hanswer
  have hnone : ¬cstr "CHAP" = cstr "None" := by decide
  obtain ⟨a, ha, hkey, -⟩ := h.params .algorithm
  have hvalid : a.valid = cstr "5" := hkey.admits
  rw [securityAuthMethod, hrx', hanswer', decide_eq_false hnone, Bool.and_false]
  refine (wp_bind _ _).mpr (wp_get.mpr ?_)
  rw [show paramGet s.params (cstr "CHAP_A") = some a from ha]
  dsimp only
  rw [hkey.key, hvalid]
  refine Completes.bind (h.setOffering .algorithm (·.valid)) fun _ s₁ h₁ => ?_
  exact Shows.bindTextAdd h₁ .algorithm (v := cstr "5") hfits fun s₂ h₂ => ⟨by decide, h₂⟩

/-- The initiator is answered the algorithm. -/
theorem Shows.algorithmAnswered (h : Shows rand s x) (hq : q.facts = φ) (hrx : φ.rx = false) :
    Completes (securityChapA q) (fun ret s' => 0 ≤ ret ∧ Shows rand s' x) s := by
  have hrx' : q.rxOffer = false := (congrArg Facts.rx hq).trans hrx
  rw [securityChapA, hrx']
  exact ⟨by decide, h⟩

/-! ## The identifier and the challenge -/

/-- The identifier in the cookie is set. -/
theorem Shows.setId (h : Shows rand s x) {c : Cookie}
    (hc : c.chapdata.take chapCDataLength = x.challenge) (i : UInt8) :
    Completes (Param.setCookie { c with idData := i })
      (fun _ s' => Shows rand s' { x with id := i }) s := by
  have hset := h.setCookie { c with idData := i }
  rwa [hc] at hset

/-- The challenge in the cookie is set. -/
theorem Shows.setChallenge (h : Shows rand s x) {c : Cookie} (hc : c.idData = x.id) {data : Bytes}
    (hdata : data.length = chapCDataLength) :
    Completes (Param.setCookie { c with chapdata := overlay c.chapdata data })
      (fun _ s' => Shows rand s' { x with challenge := data }) s := by
  have hset := h.setCookie { c with chapdata := overlay c.chapdata data }
  have htake : (overlay c.chapdata data).take chapCDataLength = data := by
    rw [overlay, ← hdata]
    exact List.take_left
  rw [htake, hc] at hset
  rw [hc]
  exact hset

/-- A fresh identifier and a fresh challenge are offered. -/
theorem Shows.offerChallenge (h : Shows rand s x)
    (hfits : (chapText x.text).length + 128 ≤ iscsiParamMaxTextLen) :
    Completes offerChallenge (fun ok s' => ok = true ∧
      Shows rand s' ((x.identifying rand).challenging rand)) s := by
  have hdecimal := length_decimal (rand x.pos)
  refine Shows.bindFound h .ident ?_
  refine Completes.bind (h.setCleared .ident) fun _ s₁ h₁ => ?_
  refine Completes.bind (h₁.genRandomData 1) fun id s₂ ⟨hid, h₂⟩ => ?_
  have hbyte : byte id 0 = rand x.pos := by
    rw [hid]
    rfl
  refine Completes.bind h₂.getCookie fun c s₃ ⟨⟨_, hc⟩, h₃⟩ => ?_
  rw [hbyte]
  refine Completes.bind (h₃.setId hc _) fun _ s₄ h₄ => ?_
  refine Completes.bind (h₄.setSame (k := .ident) (fun _ => rfl) fun _ => rfl) fun _ s₅ h₅ => ?_
  refine Shows.bindTextAdd h₅ .ident ?_ fun s₆ h₆ => ?_
  · change (chapText x.text).length + (decimal (rand x.pos).toNat).length + 12 ≤ _
    omega
  refine Shows.bindFound h₆ .challenge ?_
  refine Completes.bind (h₆.setCleared .challenge) fun _ s₇ h₇ => ?_
  refine Completes.bind (h₇.genRandomData _) fun data s₈ ⟨hdata, h₈⟩ => ?_
  rw [hdata]
  have hlen : ((x.identifying rand).nextChallenge rand).length = chapCDataLength :=
    (List.length_map _).trans List.length_range
  refine Completes.bind h₈.getCookie fun c s₉ ⟨⟨hid', _⟩, h₉⟩ => ?_
  refine Completes.bind (h₉.setChallenge hid' hlen) fun _ s₁₀ h₁₀ => ?_
  refine Completes.bind (h₁₀.setSame (k := .challenge) (fun _ => rfl) fun _ => rfl)
    fun _ s₁₁ h₁₁ => ?_
  refine Shows.bindTextAdd h₁₁ .challenge ?_ fun s₁₂ h₁₂ => ?_
  · have hhex := length_hexDataToText ((x.identifying rand).nextChallenge rand)
    have htext := length_chapText_append x.text .ident (decimal (rand x.pos).toNat)
    rw [hlen] at hhex
    change (chapText (x.text ++ [(.ident, decimal (rand x.pos).toNat)])).length +
      (hexDataToText ((x.identifying rand).nextChallenge rand)).length + 12 ≤ _
    simp only [chapCDataLength] at hhex
    omega
  exact Completes.bind (h₁₂.logEvent _) fun _ s₁₃ h₁₃ => ⟨rfl, h₁₃⟩

/-- The target is offered the algorithm, and answers it with a challenge. -/
theorem Shows.algorithmOffered (h : Shows rand s x) (hq : q.facts = φ) (hkey : IsKey .algorithm q)
    (hrx : φ.rx = true) {v : CStr} (hoffer : φ.offer = v)
    (hfits : (chapText x.text).length + v.length + 140 ≤ iscsiParamMaxTextLen) :
    Completes (securityChapA q) (fun ret s' => ret = 2 ∧
      Shows rand s' (((x.add .algorithm v).identifying rand).challenging rand)) s := by
  have hrx' : q.rxOffer = true := (congrArg Facts.rx hq).trans hrx
  have hoffer' : q.offerRx.str = v := (congrArg Facts.offer hq).trans hoffer
  have htext := length_chapText_append x.text .algorithm v
  rw [securityChapA, hrx', hoffer', hkey.key]
  refine Shows.bindTextAdd h .algorithm (by omega) fun s₁ h₁ => ?_
  refine Completes.bind (h₁.offerChallenge ?_) fun ok s₂ ⟨hok, h₂⟩ => ?_
  · change (chapText (x.text ++ [(.algorithm, v)])).length + 128 ≤ _
    omega
  · rw [hok]
    exact ⟨rfl, h₂⟩

/-- The identifier comes in. -/
theorem Shows.identArrives (h : Shows rand s x) (hq : q.facts = φ) {b : UInt8}
    (hvalue : (if φ.rx then φ.offer else φ.answer) = decimal b.toNat) :
    Completes (securityChapI q) (fun ret s' => ret = 2 ∧ Shows rand s' { x with id := b }) s := by
  have hrx : q.rxOffer = φ.rx := congrArg Facts.rx hq
  have hoffer : q.offerRx.str = φ.offer := congrArg Facts.offer hq
  have hanswer : q.answerRx.str = φ.answer := congrArg Facts.answer hq
  rw [securityChapI, hrx, hoffer, hanswer, hvalue, driverAtoiByte_decimal]
  refine Completes.bind h.getCookie fun c s₁ ⟨⟨_, hc⟩, h₁⟩ => ?_
  exact Completes.bind (h₁.setId hc _) fun _ s₂ h₂ => ⟨rfl, h₂⟩

/-- Whose name a side shows when a challenge comes in. -/
def shownUser (u : Users) (user : CStr) (rx : Bool) : CStr := if rx then user else u.targetUser

/-- Whose secret answers a challenge: that of the initiator, when it is the target's. -/
def shownPass (u : Users) (rx : Bool) : CStr := if rx then u.initiatorPass else u.targetPass

/-- The challenge comes in, and is responded to; an initiator that wants to know the target adds its
own. -/
theorem Shows.challengeArrives (h : Shows rand s x) (hq : q.facts = φ) {data digest : Bytes}
    {user name : CStr} (hlen : data.length = chapCDataLength)
    (hvalue : (if φ.rx then φ.offer else φ.answer) = hexDataToText data)
    (huser : u.initiatorUser = some user) (hname : shownUser u user φ.rx = name)
    (hdigest : env.md5 (x.id :: (shownPass u φ.rx ++ data)) = digest)
    (hfits : (chapText x.text).length + name.length + 256 ≤ iscsiParamMaxTextLen) :
    Completes (securityChapC env u q) (fun ret s' => ret = 2 ∧ Shows rand s'
      (if φ.rx && u.targetUser.length ≠ 0 then
        ((x.responding name digest).identifying rand).challenging rand
      else x.responding name digest)) s := by
  have hrx : q.rxOffer = φ.rx := congrArg Facts.rx hq
  have hoffer : q.offerRx.str = φ.offer := congrArg Facts.offer hq
  have hanswer : q.answerRx.str = φ.answer := congrArg Facts.answer hq
  have hread : (if q.rxOffer then hexTextToData q.offerRx chapCMaxDataLength
      else hexTextToData q.answerRx chapCDataLength) = ((data.length : Int), data) := by
    rw [hrx]
    cases hφ : φ.rx with
    | true =>
      rw [hφ, if_pos rfl] at hvalue
      exact hexTextToData_hexDataToText (by rw [hlen]; decide) (by rw [hlen]; decide)
        (hoffer.trans hvalue)
    | false =>
      rw [hφ, if_neg Bool.false_ne_true] at hvalue
      exact hexTextToData_hexDataToText (Nat.le_of_eq hlen) (by rw [hlen]; decide)
        (hanswer.trans hvalue)
  have hpos : ¬((data.length : Int) ≤ 0) := by
    rw [hlen]
    decide
  have hdigest_len : digest.length = chapCDataLength := by
    rw [← hdigest]
    exact env.md5_length _
  unfold securityChapC
  dsimp only
  rw [hread]
  dsimp only
  refine Completes.bind h.getCookie fun c s₁ ⟨⟨hc, _⟩, h₁⟩ => ?_
  refine Completes.bind (h₁.setChallenge hc hlen) fun _ s₂ h₂ => ?_
  rw [if_neg hpos, hrx]
  refine Shows.bindFound h₂ .name ?_
  refine Completes.bind (P := fun iu s' => iu = user ∧ s' = s₂) ?_ fun iu s₃ ⟨hiu, hs₃⟩ => ?_
  · refine ⟨?_, rfl⟩
    rw [huser]
    rfl
  rw [shownUser] at hname
  rw [hiu, hs₃, hname]
  have htext := length_chapText_append x.text .name (name)
  have hhex := length_hexDataToText digest
  have hhex_text := length_chapText_append (x.text ++ [(.name, name)]) .response
    (hexDataToText digest)
  rw [hdigest_len] at hhex
  simp only [chapCDataLength] at hhex
  refine Completes.bind (h₂.setOffering .name fun _ => name) fun _ s₄ h₄ => ?_
  refine Shows.bindTextAdd h₄ .name ?_ fun s₅ h₅ => ?_
  · change (chapText x.text).length + name.length + 12 ≤ _
    omega
  refine Shows.bindFound h₅ .response ?_
  refine Completes.bind h₅.getCookie fun c₂ s₆ ⟨⟨hc₂, _⟩, h₆⟩ => ?_
  have hsame : env.md5 (c₂.idData :: (shownPass u φ.rx ++ data)) = digest := by
    rw [hc₂]
    exact hdigest
  rw [shownPass] at hsame
  rw [hsame]
  refine Completes.bind (h₆.setChallenge hc₂ hdigest_len) fun _ s₇ h₇ => ?_
  refine Completes.bind (h₇.setOffering .response fun _ => hexDataToText digest) fun _ s₈ h₈ => ?_
  refine Shows.bindTextAdd h₈ .response ?_ fun s₉ h₉ => ?_
  · change (chapText (x.text ++ [(.name, name)])).length +
      (hexDataToText digest).length + 12 ≤ _
    omega
  refine (wp_ite _ _ _).mpr ⟨fun hmutual => ?_, fun hsingle => ?_⟩
  · rw [if_pos hmutual]
    refine Completes.bind (h₉.offerChallenge ?_) fun ok s₁₀ ⟨hok, h₁₀⟩ => ?_
    · change (chapText (x.text ++ [(.name, name)] ++
        [(.response, hexDataToText digest)])).length + 128 ≤ _
      omega
    · rw [hok]
      exact ⟨rfl, h₁₀⟩
  · rw [if_neg hsingle]
    exact ⟨rfl, h₉⟩

/-! ## The name and the response -/

/-- The name comes in, and is compared. -/
theorem Shows.nameArrives (h : Shows rand s x) (hq : q.facts = φ) {user : CStr}
    (huser : u.initiatorUser = some user) :
    Completes (securityChapN u q) (fun ret s' => ret =
      (if (if φ.answered then φ.answer = u.targetUser else φ.offer = user) then 2 else -1) ∧
      Shows rand s' x) s := by
  have hanswered : q.rxAnswer = φ.answered := congrArg Facts.answered hq
  have hoffer : q.offerRx.str = φ.offer := congrArg Facts.offer hq
  have hanswer : q.answerRx.str = φ.answer := congrArg Facts.answer hq
  rw [securityChapN, hanswered, hoffer, hanswer]
  cases φ.answered with
  | true =>
    by_cases hname : φ.answer = u.targetUser
    · rw [if_pos rfl, if_neg (not_not.mpr hname)]
      exact ⟨(if_pos hname).symm, h⟩
    · rw [if_pos rfl, if_pos hname]
      exact ⟨(if_neg hname).symm, h⟩
  | false =>
    have hread : (u.initiatorUser.getD ((paramVal s.params (cstr "CHAP_N")).getD [])) = user := by
      rw [huser]
      rfl
    refine (wp_bind _ _).mpr ?_
    change Completes
      (if φ.offer ≠ u.initiatorUser.getD ((paramVal s.params (cstr "CHAP_N")).getD [])
      then return -1 else return 2) _ s
    rw [hread]
    by_cases hname : φ.offer = user
    · rw [if_neg (not_not.mpr hname)]
      exact ⟨(if_pos hname).symm, h⟩
    · rw [if_pos hname]
      exact ⟨(if_neg hname).symm, h⟩

/-- The digest that a side expects. -/
def Side.digest (x : Side) (u : Users) (rx : Bool) : Bytes :=
  env.md5 (x.id :: (shownPass u rx ++ x.challenge))

/-- The digest replaces the challenge. -/
def Side.digested (x : Side) (digest : Bytes) : Side :=
  { x.put .response { x.facts .response with offer := hexDataToText digest } with
    challenge := digest }

/-- The response comes in, and is compared. -/
theorem Shows.responseArrives (h : Shows rand s x) (hkey : IsKey .response q)
    (hq : q.facts = x.facts .response) {data digest : Bytes} (hlen : data.length = chapRDataLength)
    (hvalue : (if (x.facts .response).rx then (x.facts .response).offer
      else (x.facts .response).answer) = hexDataToText data)
    (hdigest : x.digest env u (x.facts .response).rx = digest) :
    Completes (securityChapR env u q) (fun ret s' => ret = (if data = digest then 0 else -1) ∧
      Shows rand s' (x.digested digest)) s := by
  have hrx : q.rxOffer = (x.facts .response).rx := congrArg Facts.rx hq
  have hoffer : q.offerRx.str = (x.facts .response).offer := congrArg Facts.offer hq
  have hanswer : q.answerRx.str = (x.facts .response).answer := congrArg Facts.answer hq
  have hread : hexTextToData (if (x.facts .response).rx then q.offerRx else q.answerRx)
      chapRDataLength = ((data.length : Int), data) := by
    refine hexTextToData_hexDataToText (Nat.le_of_eq hlen) (by rw [hlen]; decide) ?_
    rw [← hvalue, ← hoffer, ← hanswer]
    cases (x.facts .response).rx <;> rfl
  have hdigest_len : digest.length = chapCDataLength := by
    rw [← hdigest]
    exact env.md5_length _
  refine Completes.bind h.getCookie fun c s₁ ⟨⟨hid, hc⟩, h₁⟩ => ?_
  have hsame : env.md5 (c.idData :: ((if (x.facts .response).rx then u.initiatorPass
      else u.targetPass) ++ c.chapdata.take chapCDataLength)) = digest := by
    rw [hid, hc]
    exact hdigest
  have htake : (overlay c.respdata data).take chapRDataLength = data := by
    rw [overlay, ← hlen]
    exact List.take_left
  have htake' : digest.take chapRDataLength = digest := by
    rw [← hlen, hlen]
    exact List.take_of_length_le (Nat.le_of_eq hdigest_len)
  have htake'' : (overlay c.chapdata digest).take chapCDataLength = digest := by
    rw [overlay, ← hdigest_len]
    exact List.take_left
  rw [hrx]
  dsimp only
  rw [hsame, hread, hkey.key, hid]
  dsimp only
  have hcookie := h₁.setCookie { c with
    idData := x.id, chapdata := overlay c.chapdata digest, respdata := overlay c.respdata data }
  rw [htake''] at hcookie
  refine Completes.bind hcookie fun _ s₂ h₂ => ?_
  refine Completes.bind (@Shows.setParam _ _ _ .response h₂ _
    { x.facts .response with offer := hexDataToText digest } (fun _ => rfl) fun p hp => ?_)
    fun _ s₃ h₃ => ?_
  · rw [← show p.facts = x.facts .response from hp]
    rfl
  rw [htake, htake']
  by_cases heq : data = digest
  · rw [if_neg (not_not.mpr heq), if_pos heq]
    exact Completes.bind (h₃.logEvent _) fun _ s₄ h₄ => ⟨rfl, h₄⟩
  · rw [if_pos heq, if_neg heq]
    exact ⟨rfl, h₃⟩

end Ost.Param
