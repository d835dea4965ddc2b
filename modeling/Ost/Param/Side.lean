import Ost.Param.Hex
import Ost.Param.Steps

/-!
# A side of the authentication

What an initiator or a target remembers between two texts of a CHAP exchange: for each of the six
keys which offers and answers have been made and what was last read, and the identifier and the
challenge in the cookie.  `Shows s x` says that the parameters and the cookie in `s` say this.

The keys are set one at a time, so each move of a parameter is a move of the side, and the other
keys stay as they are.
-/

namespace Ost.Param

open Ost.Iscsi Ost.Util Ost.Prog

/-! ## Keys -/

/-- The keys of the authentication. -/
inductive ChapKey where
  | method
  | algorithm
  | ident
  | challenge
  | name
  | response
deriving DecidableEq, Repr

namespace ChapKey

/-- The key in a text. -/
def key : ChapKey → CStr
  | method => cstr "AuthMethod"
  | algorithm => cstr "CHAP_A"
  | ident => cstr "CHAP_I"
  | challenge => cstr "CHAP_C"
  | name => cstr "CHAP_N"
  | response => cstr "CHAP_R"

/-- Two of them are negotiated, the others are declared. -/
def type : ChapKey → ParamType
  | method | algorithm => .list
  | _ => .declarative

/-- The values that the exchange needs are valid. -/
def Admits : ChapKey → CStr → Prop
  | method, valid => listAnswer valid (cstr "CHAP") = cstr "CHAP" ∧
      listValueOk valid (cstr "CHAP") = true
  | algorithm, valid => valid = cstr "5"
  | _, _ => True

theorem key_inj {k k' : ChapKey} (h : k.key = k'.key) : k = k' := by
  revert h
  cases k <;> cases k' <;> decide

theorem key_ne_result (k : ChapKey) : k.key ≠ cstr "AuthResult" := by
  cases k <;> decide

theorem keyOk (k : ChapKey) : KeyOk k.key := by
  cases k <;> decide

theorem length_key (k : ChapKey) : k.key.length ≤ 10 := by
  cases k <;> decide

end ChapKey

/-! ## What a side remembers -/

/-- The flags of a parameter, and the strings that were read last. -/
structure Facts where
  tx : Bool
  rx : Bool
  answered : Bool
  offer : CStr
  answer : CStr
deriving DecidableEq, Repr

/-- The flags of a parameter, and the strings that were read last. -/
def IscsiParameter.facts (p : IscsiParameter) : Facts :=
  ⟨p.txOffer, p.rxOffer, p.rxAnswer, p.offerRx.str, p.answerRx.str⟩

/-- What a side of the exchange remembers.  `pos` counts the random bytes it has drawn, and `text`
is the text it is about to send. -/
structure Side where
  facts : ChapKey → Facts
  id : UInt8
  challenge : Bytes
  pos : Nat
  result : Option CStr
  text : List (ChapKey × CStr)

/-- The text of pairs of these keys. -/
def chapText (T : List (ChapKey × CStr)) : Bytes := pairsText (T.map fun kv => (kv.1.key, kv.2))

/-- The room that a pair takes. -/
theorem length_chapText_append (T : List (ChapKey × CStr)) (k : ChapKey) (v : CStr) :
    (chapText (T ++ [(k, v)])).length ≤ (chapText T).length + v.length + 12 := by
  have hkey := k.length_key
  rw [chapText, List.map_append, pairsText_append, List.length_append]
  change (chapText T).length + (k.key ++ 61 :: v ++ [0] ++ []).length ≤ _
  simp only [List.length_append, List.length_cons, List.length_nil]
  omega

/-- A parameter of a side moves. -/
def Side.put (x : Side) (k : ChapKey) (φ : Facts) : Side :=
  { x with facts := Function.update x.facts k φ }

/-- A pair is added to the text of a side. -/
def Side.add (x : Side) (k : ChapKey) (v : CStr) : Side := { x with text := x.text ++ [(k, v)] }

/-- A parameter is one of the exchange. -/
structure IsKey (k : ChapKey) (p : IscsiParameter) : Prop where
  key : p.key = k.key
  type : p.type = k.type
  admits : k.Admits p.valid

/-- The state of a parse shows what a side remembers. -/
structure Shows (rand : Nat → UInt8) (s : Parse) (x : Side) : Prop where
  params : ∀ k : ChapKey, ∃ p, s.par k.key = some p ∧ IsKey k p ∧ p.facts = x.facts k
  id : (s.cookie.getD s.heapCookie).idData = x.id
  challenge : (s.cookie.getD s.heapCookie).chapdata.take chapCDataLength = x.challenge
  rand : s.rand = rand
  pos : s.randPos = x.pos
  result : paramVal s.params (cstr "AuthResult") = x.result
  text : s.textOut = chapText x.text

/-! ## The primitives -/

section Primitives

variable {rand : Nat → UInt8} {s : Parse} {x : Side} {k : ChapKey}

theorem Shows.set (h : Shows rand s x) {f : IscsiParameter → IscsiParameter} {φ : Facts}
    (hsig : ∀ p, (f p).sig = p.sig) (hf : ∀ p, p.facts = x.facts k → (f p).facts = φ) :
    Shows rand (s.set k.key f) (x.put k φ) where
  params k' := by
    by_cases hk : k' = k
    · subst hk
      obtain ⟨p, hp, hkey, hfacts⟩ := h.params k'
      have hsig' := hsig p
      refine ⟨f p, Parse.par_set (key_of_sig hsig) hp, ⟨?_, ?_, ?_⟩, ?_⟩
      · exact (key_of_sig hsig p).trans hkey.key
      · exact (congrArg Sig.type hsig').trans hkey.type
      · have hvalid : (f p).valid = p.valid := congrArg Sig.valid hsig'
        rw [hvalid]
        exact hkey.admits
      · change (f p).facts = Function.update x.facts k' φ k'
        rw [Function.update_self]
        exact hf p hfacts
    · obtain ⟨p, hp, hkey, hfacts⟩ := h.params k'
      refine ⟨p, ?_, hkey, ?_⟩
      · refine (paramGet_modify_of_ne (key_of_sig hsig) ?_).trans hp
        exact fun heq => hk (ChapKey.key_inj heq)
      · change p.facts = Function.update x.facts k φ k'
        rw [Function.update_of_ne hk]
        exact hfacts
  id := h.id
  challenge := h.challenge
  rand := h.rand
  pos := h.pos
  result := by
    refine Eq.trans ?_ h.result
    rw [paramVal, paramVal, paramValWhich, paramValWhich]
    congr 1
    exact paramGet_modify_of_ne (key_of_sig hsig) (ChapKey.key_ne_result k).symm
  text := h.text

theorem Shows.congr (h : Shows rand s x) {s' : Parse} (hparams : s'.params = s.params)
    (hcookie : s'.cookie.getD s'.heapCookie = s.cookie.getD s.heapCookie)
    (hrand : s'.rand = s.rand) (hpos : s'.randPos = s.randPos) (htext : s'.textOut = s.textOut) :
    Shows rand s' x where
  params k := by
    obtain ⟨p, hp, hfacts⟩ := h.params k
    refine ⟨p, ?_, hfacts⟩
    rw [Parse.par, hparams]
    exact hp
  id := by rw [hcookie, h.id]
  challenge := by rw [hcookie, h.challenge]
  rand := hrand.trans h.rand
  pos := hpos.trans h.pos
  result := by rw [hparams, h.result]
  text := htext.trans h.text

/-- The parameter that is found again. -/
theorem Shows.theParam (h : Shows rand s x) {p : IscsiParameter} (hp : p.key = k.key)
    {Q : IscsiParameter → Parse → Prop}
    (hQ : ∀ q, s.par k.key = some q → IsKey k q → q.facts = x.facts k → Q q s) :
    Completes (theParam p) Q s := by
  obtain ⟨q, hq, hkey, hfacts⟩ := h.params k
  change Q ((s.par p.key).getD p) s
  rw [hp, hq]
  exact hQ q hq hkey hfacts

/-- A pair fits the text. -/
theorem Shows.textAdd (h : Shows rand s x) (k : ChapKey) {v : CStr}
    (hfits : (chapText x.text).length + v.length + 12 ≤ iscsiParamMaxTextLen) :
    Completes (textAdd k.key v) (fun ok s' => ok = true ∧ Shows rand s' (x.add k v)) s := by
  have hlen := k.length_key
  have hadd : paramTextAdd k.key v s.textOut = some (s.textOut ++ (k.key ++ 61 :: v ++ [0])) := by
    refine if_neg ?_
    rw [h.text]
    omega
  refine (wp_bind _ _).mpr (wp_get.mpr ?_)
  rw [hadd]
  refine ⟨rfl, h.params, h.id, h.challenge, h.rand, h.pos, h.result, ?_⟩
  change s.textOut ++ _ = chapText (x.text ++ [(k, v)])
  rw [chapText, List.map_append, pairsText_append, h.text]
  simp only [chapText, List.map_cons, List.map_nil, pairsText, List.append_nil]

theorem Shows.getCookie (h : Shows rand s x) :
    Completes getCookie (fun c s' =>
      (c.idData = x.id ∧ c.chapdata.take chapCDataLength = x.challenge) ∧ Shows rand s' x) s := by
  refine (wp_bind _ _).mpr (wp_get.mpr ?_)
  have hid := h.id
  have hchallenge := h.challenge
  cases hcookie : s.cookie with
  | some c =>
    rw [hcookie] at hid hchallenge
    exact ⟨⟨hid, hchallenge⟩, h⟩
  | none =>
    rw [hcookie] at hid hchallenge
    refine ⟨⟨hid, hchallenge⟩, h.congr rfl ?_ rfl rfl rfl⟩
    rw [hcookie]
    rfl

theorem Shows.setCookie (h : Shows rand s x) (c : Cookie) :
    Completes (setCookie c) (fun _ s' => Shows rand s'
      { x with id := c.idData, challenge := c.chapdata.take chapCDataLength }) s :=
  ⟨h.params, rfl, rfl, h.rand, h.pos, h.result, h.text⟩

/-- The bytes that are drawn next. -/
def Side.draw (x : Side) (rand : Nat → UInt8) (n : Nat) : Bytes :=
  (List.range n).map fun i => rand (x.pos + i)

theorem Shows.genRandomData (h : Shows rand s x) (n : Nat) :
    Completes (genRandomData n) (fun data s' => data = x.draw rand n ∧
      Shows rand s' { x with pos := x.pos + n }) s := by
  refine ⟨?_, h.params, h.id, h.challenge, h.rand, congrArg (· + n) h.pos, h.result, h.text⟩
  change (List.range n).map (fun i => s.rand (s.randPos + i)) = _
  rw [h.rand, h.pos]
  rfl

theorem Shows.logEvent (h : Shows rand s x) (e : AuthEvent) :
    Completes (logEvent e) (fun _ s' => Shows rand s' x) s :=
  h.congr rfl rfl rfl rfl rfl

/-- The result of the authentication. -/
theorem Shows.setAuthResult (h : Shows rand s x) (hresult : x.result ≠ none) (v : CStr) :
    Completes (setAuthResult v) (fun _ s' => Shows rand s' { x with result := some v }) s := by
  have hsig : ∀ p : IscsiParameter, ({ p with valueL := p.valueL.set 0 v } : IscsiParameter).key =
      p.key := fun _ => rfl
  refine ⟨fun k => ?_, h.id, h.challenge, h.rand, h.pos, ?_, h.text⟩
  · obtain ⟨p, hp, hfacts⟩ := h.params k
    exact ⟨p, (paramGet_modify_of_ne hsig (ChapKey.key_ne_result k)).trans hp, hfacts⟩
  · rw [← h.result] at hresult
    rw [paramVal, paramValWhich] at hresult ⊢
    rw [show paramGet _ _ = _ from paramGet_modify_self hsig]
    cases hget : paramGet s.params (cstr "AuthResult") with
    | none =>
      rw [hget] at hresult
      exact absurd rfl hresult
    | some p =>
      rw [hget] at hresult
      change p.valueL[0]? ≠ none at hresult
      change (p.valueL.set 0 v)[0]? = some v
      cases hvalue : p.valueL with
      | nil =>
        rw [hvalue] at hresult
        exact absurd rfl hresult
      | cons w l => rfl

end Primitives

end Ost.Param
