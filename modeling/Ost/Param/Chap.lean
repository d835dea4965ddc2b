import Ost.Md5.Digest
import Ost.Param.Exchange

/-!
# A login with CHAP

The six texts of a login, turn by turn, and what comes of them: with equal credentials both ends are
satisfied, and the end that finds a wrong name or a wrong response fails.
-/

namespace Ost.Param

open Ost.Iscsi Ost.Util Ost.Prog

namespace Setup

variable (e : Setup)

/-! ## The sides, after each turn -/

/-- The method. -/
def chap : CStr := cstr "CHAP"

/-- The algorithm. -/
def five : CStr := cstr "5"

/-- An end before the login. -/
def before (r : Role) : Side :=
  { facts := fun _ => ⟨false, false, false, [], []⟩
    id := (e.heapCookie r).idData
    challenge := (e.heapCookie r).chapdata.take chapCDataLength
    pos := 0
    result := match r with
      | .initiator => none
      | .target => some (cstr "No")
    text := [] }

/-- The initiator has offered the method. -/
def opened : Side := (e.before .initiator).sent .method

/-- The target has answered the method. -/
def methodTaken : Side := ((e.before .target).listening.offered .method chap).add .method chap

/-- The initiator has offered the algorithm. -/
def algorithmOffered : Side :=
  ((e.opened.listening.answered .method chap).offering .algorithm).add .algorithm five

/-- The target has answered the algorithm, with its challenge. -/
def challenged : Side :=
  (((e.methodTaken.flushed.listening.offered .algorithm five).add .algorithm five).identifying
    (e.rand .target)).challenging (e.rand .target)

/-- The initiator has read the identifier. -/
def identified : Side :=
  { (e.algorithmOffered.flushed.listening.answered .algorithm five).offered .ident
      (decimal (e.rand .target 0).toNat) with id := e.rand .target 0 }

/-- The initiator has responded, without a challenge of its own. -/
def responded : Side :=
  (e.identified.offered .challenge (hexDataToText (e.challenge .target))).responding
    (e.creds .initiator).initiatorUser.str (e.response .target (e.creds .initiator).initiatorPass)

/-- The initiator has responded, with a challenge of its own. -/
def respondedMutual : Side :=
  (e.responded.identifying (e.rand .initiator)).challenging (e.rand .initiator)

theorem admits_initiator : ChapKey.method.Admits (cstr "None,CHAP") :=
  have hanswer : listAnswer (cstr "None,CHAP") (cstr "CHAP") = cstr "CHAP" := by decide
  have hok : listValueOk (cstr "None,CHAP") (cstr "CHAP") = true := by decide
  ⟨hanswer, hok⟩

theorem admits_target : ChapKey.method.Admits (cstr "CHAP,None") :=
  have hanswer : listAnswer (cstr "CHAP,None") (cstr "CHAP") = cstr "CHAP" := by decide
  have hok : listValueOk (cstr "CHAP,None") (cstr "CHAP") = true := by decide
  ⟨hanswer, hok⟩

/-- The end before the login. -/
theorem fresh_shows (r : Role) : Shows (e.rand r) (e.fresh r) (e.before r) where
  params k := by
    cases r with
    | initiator =>
      cases k with
      | method => exact ⟨_, rfl, ⟨rfl, rfl, admits_initiator⟩, rfl⟩
      | _ => exact ⟨_, rfl, ⟨rfl, rfl, by first | rfl | trivial⟩, rfl⟩
    | target =>
      cases k with
      | method => exact ⟨_, rfl, ⟨rfl, rfl, admits_target⟩, rfl⟩
      | _ => exact ⟨_, rfl, ⟨rfl, rfl, by first | rfl | trivial⟩, rfl⟩
  id := rfl
  challenge := rfl
  rand := rfl
  pos := rfl
  result := by
    cases r <;> rfl
  text := rfl

/-! ## The first texts -/

theorem sendable_chap {x : Side} (htx : (x.facts .method).tx = false) :
    Sendable x .method chap where
  noNul := by decide
  short := by decide
  answers _ _ := ⟨htx, fun _ hvalid => hvalid.2⟩

theorem five_ok : listValueOk (cstr "5") five = true := by decide

theorem sendable_five {x : Side}
    (htx : (x.facts .algorithm).rx = true → (x.facts .algorithm).tx = false) :
    Sendable x .algorithm five where
  noNul := by decide
  short := by decide
  answers hrx _ := by
    refine ⟨htx hrx, fun valid hvalid => ?_⟩
    rw [show valid = cstr "5" from hvalid]
    decide

/-- The opening is a text of one pair. -/
theorem opening_eq : opening = chapText [(.method, chap)] := by decide

/-- The first text goes out, and the target reads it. -/
theorem login_of_ret {s : Parse}
    (hrun : paramTextParse (e.env .initiator) opening true (e.users .initiator)
      (e.fresh .initiator) = .ret 0 s) (n : Nat) :
    e.login n = e.exchange n .target opening (Function.update e.fresh .initiator s) := by
  unfold login
  rw [hrun]
  exact if_neg (not_not.mpr rfl)

/-- The initiator opens the login. -/
theorem login_opens : ∃ s, Shows (e.rand .initiator) s e.opened ∧
    ∀ n, e.login n = e.exchange n .target opening (Function.update e.fresh .initiator s) := by
  have hsend : (e.before .initiator).CanSend [(.method, chap)] := ⟨sendable_chap rfl, trivial⟩
  obtain ⟨s, hrun, h⟩ := (e.fresh_shows .initiator).parseOut (e.env .initiator)
    (u := e.users .initiator) hsend
  rw [← opening_eq] at hrun
  exact ⟨s, h, e.login_of_ret hrun⟩

theorem ne_list {k : ChapKey} (hk : k.type = .declarative) : ¬k.type = .list := by
  rw [hk]
  decide

theorem sendable_declared {x : Side} {k : ChapKey} {v : CStr} (hk : k.type = .declarative)
    (hv : 0 ∉ v) (hshort : v.length < iscsiParamMaxLen) : Sendable x k v where
  noNul := hv
  short := hshort
  answers _ hlist := absurd hlist (ne_list hk)

theorem sendable_ident {x : Side} (b : UInt8) : Sendable x .ident (decimal b.toNat) := by
  refine sendable_declared rfl (noNul_decimal _) ?_
  exact Nat.lt_of_le_of_lt (length_decimal b) (by decide)

theorem sendable_hex {x : Side} {k : ChapKey} (hk : k.type = .declarative) {data : Bytes}
    (hdata : data.length = chapCDataLength) : Sendable x k (hexDataToText data) := by
  refine sendable_declared hk (noNul_hexDataToText _) ?_
  rw [length_hexDataToText, hdata]
  decide

/-- The target takes the method. -/
theorem turn_method {s : Parse} (h : Shows (e.rand .target) s (e.before .target)) :
    Completes (e.turn .target opening) (fun rc s' => rc = 0 ∧
      Shows (e.rand .target) s' e.methodTaken.flushed) s := by
  have hsend : (e.before .initiator).CanSend [(.method, chap)] := ⟨sendable_chap rfl, trivial⟩
  rw [opening_eq]
  refine e.turn_taken h hsend (fun s₁ h₁ => ?_) ⟨sendable_chap rfl, trivial⟩
  refine Completes.items _ (P := fun s' => Shows (e.rand .target) s' e.methodTaken) ?_
    fun s₂ h₂ => ⟨rfl, h₂⟩
  refine h₁.answerOffer (y := (e.before .target).listening.offered .method chap)
    _ (by decide) rfl rfl (by decide) ?_ (fun _ hvalid => hvalid.1) ?_
  · change (chapText []).length + chap.length + 12 ≤ iscsiParamMaxTextLen
    decide
  · intro s₂ q h₂ _ hfacts
    exact h₂.methodOffered hfacts rfl rfl rfl

theorem algorithmOffered_canSend : e.algorithmOffered.CanSend [(.algorithm, five)] :=
  ⟨sendable_five fun hrx => absurd hrx Bool.false_ne_true, trivial⟩

/-- The initiator takes the answer, and offers the algorithm. -/
theorem turn_algorithm {s : Parse} (h : Shows (e.rand .initiator) s e.opened) :
    Completes (e.turn .initiator (chapText [(.method, chap)])) (fun rc s' => rc = 0 ∧
      Shows (e.rand .initiator) s' e.algorithmOffered.flushed) s := by
  have hsend : (e.before .initiator).CanSend [(.method, chap)] := ⟨sendable_chap rfl, trivial⟩
  refine e.turn_taken h hsend (fun s₁ h₁ => ?_) e.algorithmOffered_canSend
  refine Completes.items _ (P := fun s' => Shows (e.rand .initiator) s' e.algorithmOffered) ?_
    fun s₂ h₂ => ⟨rfl, h₂⟩
  refine h₁.acceptAnswer _ (by decide) rfl (fun s₂ q h₂ _ hfacts => ?_)
    fun _ => ⟨rfl, rfl, fun _ hvalid => hvalid.2⟩
  refine h₂.methodAnswered hfacts rfl rfl ?_
  change (chapText []).length + 13 ≤ iscsiParamMaxTextLen
  decide

theorem length_challenge (r : Role) : (e.challenge r).length = chapCDataLength :=
  (List.length_map _).trans List.length_range

/-- The text with the challenge of the target. -/
def challengeText : List (ChapKey × CStr) :=
  [(.algorithm, five), (.ident, decimal (e.rand .target 0).toNat),
    (.challenge, hexDataToText (e.challenge .target))]

theorem challenged_text : e.challenged.text = e.challengeText := rfl

theorem challenged_canSend : e.challenged.CanSend e.challengeText :=
  ⟨sendable_five fun _ => rfl, sendable_ident _, sendable_hex rfl (e.length_challenge .target),
    trivial⟩

/-- The target takes the algorithm, and sends a challenge. -/
theorem turn_challenge {s : Parse} (h : Shows (e.rand .target) s e.methodTaken.flushed) :
    Completes (e.turn .target (chapText [(.algorithm, five)])) (fun rc s' => rc = 0 ∧
      Shows (e.rand .target) s' e.challenged.flushed) s := by
  have hout : e.challenged.CanSend e.challenged.text := by
    rw [challenged_text]
    exact e.challenged_canSend
  refine e.turn_taken h e.algorithmOffered_canSend (fun s₁ h₁ => ?_) hout
  refine Completes.items _ (P := fun s' => Shows (e.rand .target) s' e.challenged) ?_
    fun s₂ h₂ => ⟨rfl, h₂⟩
  refine h₁.acceptOffer _ (by decide) rfl fun s₂ q h₂ hq hfacts => ?_
  refine h₂.algorithmOffered (v := five) hfacts hq rfl rfl ?_
  change (chapText []).length + five.length + 140 ≤ iscsiParamMaxTextLen
  decide

/-- What the initiator sends: a name, a response, and its challenge if it has one. -/
def responseText : List (ChapKey × CStr) :=
  [(.name, (e.creds .initiator).initiatorUser.str),
    (.response, hexDataToText (e.response .target (e.creds .initiator).initiatorPass))] ++
    if e.Mutual then [(.ident, decimal (e.rand .initiator 0).toNat),
      (.challenge, hexDataToText (e.challenge .initiator))]
    else []

/-- The initiator has responded. -/
def initiatorResponded : Side := if e.Mutual then e.respondedMutual else e.responded

theorem initiatorResponded_text : e.initiatorResponded.text = e.responseText := by
  rw [initiatorResponded, responseText]
  by_cases hmutual : e.Mutual
  · rw [if_pos hmutual, if_pos hmutual]
    rfl
  · rw [if_neg hmutual, if_neg hmutual]
    rfl

theorem digest_initiator (id : UInt8) (x : Bytes) :
    (e.env .initiator).md5 (id :: x) = (e.env .target).md5 (id :: x) := by
  rw [e.md5_same]

theorem length_response (r : Role) (pass : Credential) :
    (e.response r pass).length = chapCDataLength := (e.env .target).md5_length _

theorem sendable_name {x : Side} (c : Credential) : Sendable x .name c.str := by
  refine sendable_declared rfl c.noNul (Nat.lt_trans c.short ?_)
  decide

theorem initiatorResponded_canSend : e.initiatorResponded.CanSend e.responseText := by
  rw [responseText]
  refine ⟨sendable_name _, sendable_hex rfl (e.length_response _ _), ?_⟩
  by_cases hmutual : e.Mutual
  · rw [if_pos hmutual]
    exact ⟨sendable_ident _, sendable_hex rfl (e.length_challenge _), trivial⟩
  · rw [if_neg hmutual]
    trivial

theorem room_name (c : Credential) :
    (chapText []).length + c.str.length + 256 ≤ iscsiParamMaxTextLen := by
  have hshort := c.short
  simp only [maxLen] at hshort
  change 0 + c.str.length + 256 ≤ 4096
  omega

/-- The initiator reads the challenge, and responds. -/
theorem turn_response {s : Parse} (h : Shows (e.rand .initiator) s e.algorithmOffered.flushed) :
    Completes (e.turn .initiator (chapText e.challengeText)) (fun rc s' => rc = 0 ∧
      Shows (e.rand .initiator) s' e.initiatorResponded.flushed) s := by
  have hout : e.initiatorResponded.CanSend e.initiatorResponded.text := by
    rw [initiatorResponded_text]
    exact e.initiatorResponded_canSend
  refine e.turn_taken h e.challenged_canSend (fun s₁ h₁ => ?_) hout
  refine Completes.items _ (P := fun s' => Shows (e.rand .initiator) s'
    (e.algorithmOffered.flushed.listening.answered .algorithm five)) ?_ fun s₂ h₂ => ?_
  · refine h₁.acceptAnswer _ (by decide) rfl (fun s₂ q h₂ _ hfacts => ?_)
      fun _ => ⟨rfl, rfl, fun valid hvalid => ?_⟩
    · exact h₂.algorithmAnswered hfacts rfl
    · rw [show valid = cstr "5" from hvalid]
      exact five_ok
  refine Completes.items _ (P := fun s' => Shows (e.rand .initiator) s' e.identified) ?_
    fun s₃ h₃ => ?_
  · refine h₂.acceptOffer _ ?_ rfl fun s₃ q h₃ hq hfacts => ?_
    · exact Nat.lt_of_le_of_lt (length_decimal _) (by decide)
    · exact h₃.identArrives (b := e.rand .target 0) hfacts rfl
  refine Completes.items _ (P := fun s' => Shows (e.rand .initiator) s' e.initiatorResponded) ?_
    fun s₄ h₄ => ⟨rfl, h₄⟩
  refine h₃.acceptOffer _ ?_ rfl fun s₄ q h₄ _ hfacts => ?_
  · rw [length_hexDataToText, length_challenge]
    decide
  have hname : shownUser (e.users .initiator) (e.creds .initiator).initiatorUser.str true =
      (e.creds .initiator).initiatorUser.str := rfl
  have hdigest : (e.env .initiator).md5 (e.rand .target 0 ::
      (shownPass (e.users .initiator) true ++ e.challenge .target)) =
      e.response .target (e.creds .initiator).initiatorPass := e.digest_initiator _ _
  refine wp_mono (h₄.challengeArrives (e.env .initiator) hfacts (e.length_challenge .target) rfl rfl
    hname hdigest (room_name _)) ?_ fun _ _ hno => hno
  rintro ret s' ⟨hret, h'⟩
  refine ⟨hret, ?_⟩
  rw [initiatorResponded]
  by_cases hmutual : e.Mutual
  · have hlen : (decide ((e.users .initiator).targetUser.length ≠ 0)) = true :=
      decide_eq_true fun hzero => hmutual (List.length_eq_zero_iff.mp hzero)
    rw [if_pos hmutual]
    exact Eq.mp (congrArg (Shows _ s') (if_pos hlen)) h'
  · have hlen : ¬(decide ((e.users .initiator).targetUser.length ≠ 0)) = true := fun hne =>
      of_decide_eq_true hne (List.length_eq_zero_iff.mpr (not_not.mp hmutual))
    rw [if_neg hmutual]
    exact Eq.mp (congrArg (Shows _ s') (if_neg hlen)) h'

/-! ## The target reads the response -/

/-- The target has read the name. -/
def named : Side :=
  e.challenged.flushed.listening.offered .name (e.creds .initiator).initiatorUser.str

/-- The target has read the response. -/
def compared : Side :=
  (e.named.offered .response
    (hexDataToText (e.response .target (e.creds .initiator).initiatorPass))).digested
      (e.response .target (e.creds .target).initiatorPass)

/-- The target has accepted the response. -/
def accepted : Side := { e.compared with result := some (cstr "Yes") }

/-- The target has read the identifier of the initiator. -/
def targetIdentified : Side :=
  { e.accepted.answered .ident (decimal (e.rand .initiator 0).toNat) with
    id := e.rand .initiator 0 }

/-- The target has responded. -/
def targetResponded : Side :=
  (e.targetIdentified.answered .challenge (hexDataToText (e.challenge .initiator))).responding
    (e.creds .target).targetUser.str (e.response .initiator (e.creds .target).targetPass)

/-- The names of the initiator agree. -/
def SameUser : Prop :=
  (e.creds .initiator).initiatorUser.str = (e.creds .target).initiatorUser.str

/-- The responses of the initiator agree. -/
def SameResponse : Prop :=
  e.response .target (e.creds .initiator).initiatorPass =
    e.response .target (e.creds .target).initiatorPass

variable {e}

theorem credential_short (c : Credential) : c.str.length < iscsiParamMaxLen :=
  Nat.lt_trans c.short (by decide)

theorem hex_short {data : Bytes} (hdata : data.length = chapCDataLength) :
    (hexDataToText data).length < iscsiParamMaxLen := by
  rw [length_hexDataToText, hdata]
  decide

/-- A wrong name is refused. -/
theorem refuse_name {s : Parse} (h : Shows (e.rand .target) s e.challenged.flushed)
    (hwrong : ¬e.SameUser) :
    Completes (e.turn .target (chapText e.responseText)) (fun rc s' => rc = -2 ∧
      Shows (e.rand .target) s' { e.named with result := some (cstr "Fail") }) s := by
  refine e.turn_refused h e.initiatorResponded_canSend (by decide) fun s₁ h₁ => ?_
  refine Completes.stop _ (h₁.refuseOffer _ (credential_short _) rfl ?_ fun s₂ q h₂ _ hfacts => ?_)
  · exact Option.some_ne_none _
  · refine wp_mono (h₂.nameArrives (u := e.users .target) hfacts rfl) ?_ fun _ _ hno => hno
    rintro ret s' ⟨hret, h'⟩
    exact ⟨hret.trans (if_neg hwrong), h'⟩

/-- The right name is taken. -/
theorem take_name {s : Parse} (h : Shows (e.rand .target) s e.challenged.flushed.listening)
    (hsame : e.SameUser) :
    Completes (parseItem (e.env .target) false (e.users .target)
      (.pair (ChapKey.key .name) (some (e.creds .initiator).initiatorUser.str)))
      (fun o s' => o = none ∧ Shows (e.rand .target) s' e.named) s := by
  refine h.acceptOffer _ (credential_short _) rfl fun s₁ q h₁ _ hfacts => ?_
  refine wp_mono (h₁.nameArrives (u := e.users .target) hfacts rfl) ?_ fun _ _ hno => hno
  rintro ret s' ⟨hret, h'⟩
  exact ⟨hret.trans (if_pos hsame), h'⟩

/-- The response is compared with the digest. -/
theorem compare_response {s : Parse} {q : IscsiParameter} {x : Side}
    (hx : x = e.named.offered .response
      (hexDataToText (e.response .target (e.creds .initiator).initiatorPass)))
    (h : Shows (e.rand .target) s x) (hkey : IsKey .response q)
    (hfacts : q.facts = x.facts .response) :
    Completes (securityChapR (e.env .target) (e.users .target) q) (fun ret s' =>
      ret = (if e.response .target (e.creds .initiator).initiatorPass =
        e.response .target (e.creds .target).initiatorPass then 0 else -1) ∧
      Shows (e.rand .target) s' e.compared) s := by
  subst hx
  exact h.responseArrives (e.env .target) hkey hfacts (e.length_response _ _) rfl rfl

/-- A wrong response is refused. -/
theorem refuse_response {s : Parse} (h : Shows (e.rand .target) s e.challenged.flushed)
    (hsame : e.SameUser) (hwrong : ¬e.SameResponse) :
    Completes (e.turn .target (chapText e.responseText)) (fun rc s' => rc = -2 ∧
      Shows (e.rand .target) s' { e.compared with result := some (cstr "Fail") }) s := by
  refine e.turn_refused h e.initiatorResponded_canSend (by decide) fun s₁ h₁ => ?_
  refine Completes.items _ (take_name h₁ hsame) fun s₂ h₂ => ?_
  refine Completes.stop _ (h₂.refuseOffer _ (hex_short (e.length_response _ _)) rfl ?_
    fun s₃ q h₃ hkey hfacts => ?_)
  · exact Option.some_ne_none _
  · refine wp_mono (compare_response rfl h₃ hkey hfacts) ?_ fun _ _ hno => hno
    rintro ret s' ⟨hret, h'⟩
    exact ⟨hret.trans (if_neg hwrong), h'⟩

/-- The right response is accepted. -/
theorem accept_response {s : Parse} (h : Shows (e.rand .target) s e.named)
    (hsame : e.SameResponse) :
    Completes (parseItem (e.env .target) false (e.users .target) (.pair (ChapKey.key .response)
      (some (hexDataToText (e.response .target (e.creds .initiator).initiatorPass)))))
      (fun o s' => o = none ∧ Shows (e.rand .target) s' e.accepted) s := by
  refine h.authOffer _ (y := e.compared) (hex_short (e.length_response _ _)) rfl rfl ?_ ?_
    fun s₁ q h₁ hkey hfacts => ?_
  · exact Option.some_ne_none _
  · intro hinquiry
    have hlen := congrArg List.length hinquiry
    change (hexDataToText (e.response .target (e.creds .target).initiatorPass)).length = 1 at hlen
    rw [length_hexDataToText, length_response] at hlen
    cases hlen
  · refine wp_mono (compare_response rfl h₁ hkey hfacts) ?_ fun _ _ hno => hno
    rintro ret s' ⟨hret, h'⟩
    exact ⟨hret.trans (if_pos hsame), h'⟩

/-- The target is satisfied, and has nothing to say. -/
theorem turn_accepted {s : Parse} (h : Shows (e.rand .target) s e.challenged.flushed)
    (huser : e.SameUser) (hresponse : e.SameResponse) (hsingle : ¬e.Mutual) :
    Completes (e.turn .target (chapText e.responseText)) (fun rc s' => rc = 0 ∧
      Shows (e.rand .target) s' e.accepted.flushed) s := by
  refine e.turn_taken h e.initiatorResponded_canSend (fun s₁ h₁ => ?_) trivial
  rw [responseText, if_neg hsingle, List.append_nil]
  refine Completes.items _ (take_name h₁ huser) fun s₂ h₂ => ?_
  exact Completes.items _ (accept_response h₂ hresponse) fun s₃ h₃ => ⟨rfl, h₃⟩

variable (e) in
/-- The text of the target with its response. -/
def targetResponseText : List (ChapKey × CStr) :=
  [(.name, (e.creds .target).targetUser.str),
    (.response, hexDataToText (e.response .initiator (e.creds .target).targetPass))]

theorem targetResponded_text (e : Setup) : e.targetResponded.text = e.targetResponseText := rfl

theorem targetResponded_canSend : e.targetResponded.CanSend e.targetResponseText :=
  ⟨sendable_name _, sendable_hex rfl (e.length_response _ _), trivial⟩

/-- The target is satisfied, and responds to the initiator. -/
theorem turn_targetResponse {s : Parse} (h : Shows (e.rand .target) s e.challenged.flushed)
    (huser : e.SameUser) (hresponse : e.SameResponse) (hmutual : e.Mutual) :
    Completes (e.turn .target (chapText e.responseText)) (fun rc s' => rc = 0 ∧
      Shows (e.rand .target) s' e.targetResponded.flushed) s := by
  refine e.turn_taken h e.initiatorResponded_canSend (fun s₁ h₁ => ?_) targetResponded_canSend
  rw [responseText, if_pos hmutual]
  refine Completes.items _ (take_name h₁ huser) fun s₂ h₂ => ?_
  refine Completes.items _ (accept_response h₂ hresponse) fun s₃ h₃ => ?_
  refine Completes.items _ (P := fun s' => Shows (e.rand .target) s' e.targetIdentified) ?_
    fun s₄ h₄ => ?_
  · refine h₃.acceptAnswer _ ?_ rfl (fun s₄ q h₄ _ hfacts => ?_) fun hlist =>
      absurd hlist (ne_list rfl)
    · exact Nat.lt_of_le_of_lt (length_decimal _) (by decide)
    · refine wp_mono (h₄.identArrives (b := e.rand .initiator 0) hfacts rfl) ?_ fun _ _ hno => hno
      rintro ret s' ⟨hret, h'⟩
      rw [hret]
      exact ⟨by decide, h'⟩
  refine Completes.items _ (P := fun s' => Shows (e.rand .target) s' e.targetResponded) ?_
    fun s₅ h₅ => ⟨rfl, h₅⟩
  refine h₄.acceptAnswer _ (hex_short (e.length_challenge _)) rfl (fun s₅ q h₅ _ hfacts => ?_)
    fun hlist => absurd hlist (ne_list rfl)
  have hname : shownUser (e.users .target) (e.creds .target).initiatorUser.str false =
      (e.creds .target).targetUser.str := rfl
  have hdigest : (e.env .target).md5 (e.rand .initiator 0 ::
      (shownPass (e.users .target) false ++ e.challenge .initiator)) =
      e.response .initiator (e.creds .target).targetPass := rfl
  refine wp_mono (h₅.challengeArrives (e.env .target) hfacts (e.length_challenge .initiator) rfl rfl
    hname hdigest (room_name _)) ?_ fun _ _ hno => hno
  rintro ret s' ⟨hret, h'⟩
  rw [hret]
  exact ⟨by decide, h'⟩

/-! ## The initiator reads the response -/

/-- The names of the target agree. -/
def SameTarget (e : Setup) : Prop :=
  (e.creds .target).targetUser.str = (e.creds .initiator).targetUser.str

/-- The responses of the target agree. -/
def SameTargetResponse (e : Setup) : Prop :=
  e.response .initiator (e.creds .target).targetPass =
    e.response .initiator (e.creds .initiator).targetPass

/-- The initiator has read the name of the target. -/
def targetNamed (e : Setup) : Side :=
  e.respondedMutual.flushed.listening.answered .name (e.creds .target).targetUser.str

/-- The initiator has read the response of the target. -/
def targetCompared (e : Setup) : Side :=
  (e.targetNamed.answered .response
    (hexDataToText (e.response .initiator (e.creds .target).targetPass))).digested
      (e.response .initiator (e.creds .initiator).targetPass)

theorem refuse_targetName {s : Parse} (h : Shows (e.rand .initiator) s e.respondedMutual.flushed)
    (hwrong : ¬e.SameTarget) :
    Completes (e.turn .initiator (chapText e.targetResponseText)) (fun rc s' => rc = -2 ∧
      Shows (e.rand .initiator) s' e.targetNamed) s := by
  refine e.turn_refused h targetResponded_canSend (by decide) fun s₁ h₁ => ?_
  refine Completes.stop _ (h₁.refuseAnswer _ (credential_short _) rfl fun s₂ q h₂ _ hfacts => ?_)
  refine wp_mono (h₂.nameArrives (u := e.users .initiator) hfacts rfl) ?_ fun _ _ hno => hno
  rintro ret s' ⟨hret, h'⟩
  exact ⟨hret.trans (if_neg hwrong), h'⟩

theorem take_targetName {s : Parse}
    (h : Shows (e.rand .initiator) s e.respondedMutual.flushed.listening) (hsame : e.SameTarget) :
    Completes (parseItem (e.env .initiator) false (e.users .initiator)
      (.pair (ChapKey.key .name) (some (e.creds .target).targetUser.str)))
      (fun o s' => o = none ∧ Shows (e.rand .initiator) s' e.targetNamed) s := by
  refine h.acceptAnswer _ (credential_short _) rfl (fun s₁ q h₁ _ hfacts => ?_)
    fun hlist => absurd hlist (ne_list rfl)
  refine wp_mono (h₁.nameArrives (u := e.users .initiator) hfacts rfl) ?_ fun _ _ hno => hno
  rintro ret s' ⟨hret, h'⟩
  rw [hret.trans (if_pos hsame)]
  exact ⟨by decide, h'⟩

/-- The response of the target is compared with the digest. -/
theorem compare_targetResponse {s : Parse} {q : IscsiParameter} {x : Side}
    (hx : x = e.targetNamed.answered .response
      (hexDataToText (e.response .initiator (e.creds .target).targetPass)))
    (h : Shows (e.rand .initiator) s x) (hkey : IsKey .response q)
    (hfacts : q.facts = x.facts .response) :
    Completes (securityChapR (e.env .initiator) (e.users .initiator) q) (fun ret s' =>
      ret = (if e.response .initiator (e.creds .target).targetPass =
        e.response .initiator (e.creds .initiator).targetPass then 0 else -1) ∧
      Shows (e.rand .initiator) s' e.targetCompared) s := by
  subst hx
  have hdigest : (e.targetNamed.answered .response
      (hexDataToText (e.response .initiator (e.creds .target).targetPass))).digest
      (e.env .initiator) (e.users .initiator) false =
        e.response .initiator (e.creds .initiator).targetPass :=
    e.digest_initiator _ _
  exact h.responseArrives (e.env .initiator) hkey hfacts (e.length_response _ _) rfl hdigest

/-- A wrong response of the target is refused. -/
theorem refuse_targetResponse {s : Parse}
    (h : Shows (e.rand .initiator) s e.respondedMutual.flushed) (hsame : e.SameTarget)
    (hwrong : ¬e.SameTargetResponse) :
    Completes (e.turn .initiator (chapText e.targetResponseText)) (fun rc s' => rc = -2 ∧
      Shows (e.rand .initiator) s' e.targetCompared) s := by
  refine e.turn_refused h targetResponded_canSend (by decide) fun s₁ h₁ => ?_
  refine Completes.items _ (take_targetName h₁ hsame) fun s₂ h₂ => ?_
  refine Completes.stop _ (h₂.refuseAnswer _ (hex_short (e.length_response _ _)) rfl
    fun s₃ q h₃ hkey hfacts => ?_)
  refine wp_mono (compare_targetResponse rfl h₃ hkey hfacts) ?_ fun _ _ hno => hno
  rintro ret s' ⟨hret, h'⟩
  exact ⟨hret.trans (if_neg hwrong), h'⟩

/-- The initiator is satisfied, and has nothing to say. -/
theorem turn_satisfied {s : Parse} (h : Shows (e.rand .initiator) s e.respondedMutual.flushed)
    (hsame : e.SameTarget) (hresponse : e.SameTargetResponse) :
    Completes (e.turn .initiator (chapText e.targetResponseText)) (fun rc s' => rc = 0 ∧
      Shows (e.rand .initiator) s' e.targetCompared.flushed) s := by
  refine e.turn_taken h targetResponded_canSend (fun s₁ h₁ => ?_) trivial
  refine Completes.items _ (take_targetName h₁ hsame) fun s₂ h₂ => ?_
  refine Completes.items _ (P := fun s' => Shows (e.rand .initiator) s' e.targetCompared) ?_
    fun s₃ h₃ => ⟨rfl, h₃⟩
  refine h₂.acceptAnswer _ (hex_short (e.length_response _ _)) rfl (fun s₃ q h₃ hkey hfacts => ?_)
    fun hlist => absurd hlist (ne_list rfl)
  refine wp_mono (compare_targetResponse rfl h₃ hkey hfacts) ?_ fun _ _ hno => hno
  rintro ret s' ⟨hret, h'⟩
  rw [hret.trans (if_pos hresponse)]
  exact ⟨by decide, h'⟩

/-! ## The login -/

variable (e)

theorem methodTaken_text : e.methodTaken.text = [(.method, chap)] := rfl

theorem algorithmOffered_text : e.algorithmOffered.text = [(.algorithm, five)] := rfl

/-- Four texts bring the ends to the response of the initiator. -/
theorem login_responds (n : Nat) : ∃ p : Role → Parse,
    Shows (e.rand .initiator) (p .initiator) e.initiatorResponded.flushed ∧
    Shows (e.rand .target) (p .target) e.challenged.flushed ∧
    e.login (n + 4) = e.exchange n .target (chapText e.responseText) p := by
  obtain ⟨s₀, h₀, hlogin⟩ := e.login_opens
  obtain ⟨s₁, h₁, hrun₁⟩ :=
    e.exchange_on (r := .target) (p := Function.update e.fresh .initiator s₀) (n + 3)
    (e.fresh_shows .target) (fun _ h => e.turn_method h) e.methodTaken_text
  obtain ⟨s₂, h₂, hrun₂⟩ := e.exchange_on (r := .initiator)
    (p := Function.update (Function.update e.fresh .initiator s₀) .target s₁)
    (n + 2) h₀ (fun _ h => e.turn_algorithm h) e.algorithmOffered_text
  obtain ⟨s₃, h₃, hrun₃⟩ := e.exchange_on (r := .target)
    (p := Function.update (Function.update (Function.update e.fresh .initiator s₀) .target s₁)
      .initiator s₂)
    (n + 1) h₁ (fun _ h => e.turn_challenge h) e.challenged_text
  obtain ⟨s₄, h₄, hrun₄⟩ := e.exchange_on (r := .initiator)
    (p := Function.update (Function.update (Function.update (Function.update e.fresh .initiator s₀)
      .target s₁) .initiator s₂) .target s₃)
    n h₂ (fun _ h => e.turn_response h) e.initiatorResponded_text
  refine ⟨_, ?_, ?_, (hlogin (n + 4)).trans (hrun₁.trans (hrun₂.trans (hrun₃.trans hrun₄)))⟩
  · rw [Function.update_self]
    exact h₄
  · exact h₃

/-! ### The outcome -/

/-- The target refuses an initiator with another name or another response. -/
theorem login_refused (n : Nat) (hwrong : ¬(e.SameUser ∧ e.SameResponse)) :
    (e.login (n + 5)).1 = .failed .target (-2) ∧
      authResult (e.login (n + 5)).2 = some (cstr "Fail") := by
  obtain ⟨p, -, htarget, hlogin⟩ := e.login_responds (n + 1)
  have hfails : ∀ y : Side, y.result = some (cstr "Fail") →
      (∀ s, Shows (e.rand .target) s e.challenged.flushed →
        Completes (e.turn .target (chapText e.responseText)) (fun rc s' => rc = -2 ∧
          Shows (e.rand .target) s' y) s) →
      (e.login (n + 5)).1 = .failed .target (-2) ∧
        authResult (e.login (n + 5)).2 = some (cstr "Fail") := by
    intro y hy hturn
    obtain ⟨s', h', hrun⟩ := e.exchange_failed n htarget (by decide) hturn
    rw [hlogin, hrun]
    exact ⟨rfl, (authResult_target p s').trans (h'.result.trans hy)⟩
  by_cases huser : e.SameUser
  · exact hfails _ rfl fun s h => refuse_response h huser fun hresponse => hwrong ⟨huser, hresponse⟩
  · exact hfails _ rfl fun s h => refuse_name h huser

/-- The target accepts an initiator with the same name and the same response. -/
theorem login_accepted (n : Nat) (huser : e.SameUser) (hresponse : e.SameResponse)
    (hsingle : ¬e.Mutual) :
    (e.login (n + 5)).1 = .done ∧ authResult (e.login (n + 5)).2 = some (cstr "Yes") := by
  obtain ⟨p, -, htarget, hlogin⟩ := e.login_responds (n + 1)
  obtain ⟨s', h', hrun⟩ := e.exchange_done n htarget
    (fun s h => turn_accepted h huser hresponse hsingle) rfl
  rw [hlogin, hrun]
  exact ⟨rfl, (authResult_target p s').trans h'.result⟩

/-- The response of the target brings the initiator to its last turn. -/
theorem login_answers (n : Nat) (huser : e.SameUser) (hresponse : e.SameResponse)
    (hmutual : e.Mutual) : ∃ p : Role → Parse,
    Shows (e.rand .initiator) (p .initiator) e.respondedMutual.flushed ∧
    authResult p = some (cstr "Yes") ∧
    e.login (n + 5) = e.exchange n .initiator (chapText e.targetResponseText) p := by
  obtain ⟨p, hinitiator, htarget, hlogin⟩ := e.login_responds (n + 1)
  rw [initiatorResponded, if_pos hmutual] at hinitiator
  obtain ⟨s', h', hrun⟩ := e.exchange_on n htarget
    (fun s h => turn_targetResponse h huser hresponse hmutual) e.targetResponded_text
  exact ⟨Function.update p .target s', hinitiator, (authResult_target p s').trans h'.result,
    hlogin.trans hrun⟩

/-- The initiator refuses a target with another name or another response. -/
theorem login_refused_target (n : Nat) (huser : e.SameUser) (hresponse : e.SameResponse)
    (hmutual : e.Mutual) (hwrong : ¬(e.SameTarget ∧ e.SameTargetResponse)) :
    (e.login (n + 6)).1 = .failed .initiator (-2) := by
  obtain ⟨p, hinitiator, -, hlogin⟩ := e.login_answers (n + 1) huser hresponse hmutual
  rw [hlogin]
  by_cases htarget : e.SameTarget
  · obtain ⟨s', -, hrun⟩ := e.exchange_failed n hinitiator (by decide) fun s h =>
      refuse_targetResponse h htarget fun hsame => hwrong ⟨htarget, hsame⟩
    rw [hrun]
  · obtain ⟨s', -, hrun⟩ := e.exchange_failed n hinitiator (by decide) fun s h =>
      refuse_targetName h htarget
    rw [hrun]

/-- Both ends accept each other. -/
theorem login_accepted_target (n : Nat) (huser : e.SameUser) (hresponse : e.SameResponse)
    (hmutual : e.Mutual) (htarget : e.SameTarget) (hsame : e.SameTargetResponse) :
    (e.login (n + 6)).1 = .done ∧ authResult (e.login (n + 6)).2 = some (cstr "Yes") := by
  obtain ⟨p, hinitiator, hyes, hlogin⟩ := e.login_answers (n + 1) huser hresponse hmutual
  obtain ⟨s', -, hrun⟩ := e.exchange_done n hinitiator
    (fun s h => turn_satisfied h htarget hsame) rfl
  rw [hlogin, hrun]
  exact ⟨rfl, (authResult_initiator p s').trans hyes⟩

/-- A login with CHAP.  With the credentials of the initiator equal at both ends, and if the
initiator names a target those of the target too, the exchange ends without an error and
`AuthResult` is `Yes`. If the users or the digests of the initiator differ, the parse of the target
fails with -2, `ISCSI_PARAM_STATUS_AUTH_FAILED`; if those of the target differ, that of the
initiator does. -/
theorem login_authenticates (n : Nat) :
    (e.SameUser → (e.creds .initiator).initiatorPass.str = (e.creds .target).initiatorPass.str →
      (e.Mutual → e.SameTarget ∧
        (e.creds .target).targetPass.str = (e.creds .initiator).targetPass.str) →
      (e.login (n + 6)).1 = .done ∧ authResult (e.login (n + 6)).2 = some (cstr "Yes")) ∧
    (¬e.SameUser ∨ ¬e.SameResponse → (e.login (n + 6)).1 = .failed .target (-2) ∧
      authResult (e.login (n + 6)).2 = some (cstr "Fail")) ∧
    (e.SameUser → e.SameResponse → e.Mutual → ¬e.SameTarget ∨ ¬e.SameTargetResponse →
      (e.login (n + 6)).1 = .failed .initiator (-2)) := by
  refine ⟨fun huser hpass htarget => ?_, fun hwrong => ?_, fun huser hresponse hmutual hwrong => ?_⟩
  · have hresponse : e.SameResponse := by
      rw [SameResponse, response, response, hpass]
    by_cases hmutual : e.Mutual
    · obtain ⟨hname, hsecret⟩ := htarget hmutual
      refine e.login_accepted_target n huser hresponse hmutual hname ?_
      rw [SameTargetResponse, response, response, hsecret]
    · exact e.login_accepted (n + 1) huser hresponse hmutual
  · exact e.login_refused (n + 1) (not_and_or.mpr hwrong)
  · exact e.login_refused_target n huser hresponse hmutual (not_and_or.mpr hwrong)

/-- Two users and their secrets. -/
def known : Credentials where
  initiatorUser := ⟨cstr "alice", by decide, by decide⟩
  initiatorPass := ⟨cstr "secret", by decide, by decide⟩
  targetUser := ⟨cstr "disk", by decide, by decide⟩
  targetPass := ⟨cstr "geheim", by decide, by decide⟩

/-- An initiator that knows these users, and a target that is configured with `c`. -/
def knowing (c : Credentials) : Setup where
  env _ := { md5 := Md5.md5, md5_length := fun _ => rfl, hostname := cstr "h"
             targetAddress := cstr "a", staleKey := [] }
  md5_same := rfl
  creds
    | .initiator => known
    | .target => c
  heap _ := []
  heapCookie _ := { idData := 0, chapdata := List.replicate chapCMaxDataLength 0
                    respdata := List.replicate chapRDataLength 0 }
  rand
    | .initiator, k => UInt8.ofNat (3 * k)
    | .target, k => UInt8.ofNat (7 * k + 1)

/-- A login in which both ends authenticate themselves, one with another user of the initiator, and
one with another user of the target. -/
theorem login_authenticates_mutual :
    ((knowing known).Mutual ∧ ((knowing known).login 6).1 = .done ∧
      authResult ((knowing known).login 6).2 = some (cstr "Yes")) ∧
    (((knowing { known with initiatorUser := known.targetUser }).login 6).1 = .failed .target (-2) ∧
      authResult ((knowing { known with initiatorUser := known.targetUser }).login 6).2 =
        some (cstr "Fail")) ∧
    ((knowing { known with targetUser := known.initiatorUser }).login 6).1 =
      .failed .initiator (-2) := by
  refine ⟨⟨by decide, (login_authenticates _ 0).1 rfl rfl fun _ => ⟨rfl, rfl⟩⟩,
    (login_authenticates _ 0).2.1 (.inl ?_), (login_authenticates _ 0).2.2 rfl rfl
    (by decide) (.inl ?_)⟩
  · rw [SameUser]
    decide
  · rw [SameTarget]
    decide

end Setup

end Ost.Param
