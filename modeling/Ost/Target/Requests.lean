import Ost.Target.Frame

/-!
# The requests that are not SCSI commands

What the handlers of task management, pings, text, login and logout do to a session: what
they leave alone (`aside`), how they number what they send (`Tallied`), and, when they
succeed, what they read and what becomes of the command window.
-/

namespace Ost.Target

open Ost.Iscsi Ost.Util Ost.Param Ost.Prog Ost.Disk

/-! ## Receiving -/

/-- `n` bytes and their padding were read. -/
structure Reads (n : Nat) (s s' : Local) : Prop where
  enough : pad4 n ≤ s.slot.conn.rx.length
  rx : s'.slot.conn.rx = s.slot.conn.rx.drop (pad4 n)

/-- Nothing is read when there is nothing to read. -/
theorem Reads.zero {s s' : Local} (h : s'.slot.conn.rx = s.slot.conn.rx) : Reads 0 s s' :=
  ⟨Nat.zero_le _, by simpa [pad4] using h⟩

/-- Receiving changes what is left to read, and returns the length only of what was all there. -/
theorem sockRecv_spec (n : Nat) (s : Local) :
    wp (sockRecv n) (fun r s' => (∃ rx, s' = s.setConn { s.slot.conn with rx }) ∧
      r.2 = s.slot.conn.rx.take n ∧ (r.1 = n → Reads n s s')) (fun _ _ => False) s := by
  have hpad := le_pad4 n
  simp only [sockRecv, wp_onConn, Conn.recv]
  split
  · rename_i h
    exact ⟨⟨_, rfl⟩, rfl, fun _ => ⟨h, rfl⟩⟩
  · rename_i h
    exact ⟨⟨_, rfl⟩, rfl, fun hrc => absurd hrc (by dsimp only; omega)⟩

/-- Receiving returns the length of what was all there. -/
theorem sockRecv_rc (n : Nat) (s : Local) :
    wp (sockRecv n) (fun r _ => r.1 = n ↔ pad4 n ≤ s.slot.conn.rx.length) (fun _ _ => False) s := by
  have hpad := le_pad4 n
  simp only [sockRecv, wp_onConn, Conn.recv]
  split
  · simp [*]
  · simp only [iff_false, *]
    omega

/-! ## What is left alone -/

/-- The part of a slot and of the device that only SCSI commands change. -/
def aside (s : Local) : Pool × Device × Option (Nat × Bytes × Nat) × Phase × Bytes :=
  (s.slot.pool, s.dev, s.slot.waiting, s.slot.phase, s.slot.conn.input)

/-- What reading and answering a text leaves alone. -/
def wire (s : Local) : SeqNums × List Sent × Bool :=
  (s.slot.seq, s.slot.conn.sent, s.nopFlag)

section Instances

/-- Receiving takes bytes off the connection. -/
instance aside_sockRecv (n : Nat) : Within (Keeps aside) (sockRecv n) where
  run s := wp_mono (sockRecv_spec n s) (fun _ _ ⟨⟨_, h⟩, _⟩ => by rw [h]; rfl) fun _ _ => nofun

/-- A PDU is sent and numbered, and nothing else happens. -/
theorem Sends.aside {p : TargetPdu} {d : Option Bytes} {ok : Bool} {s s' : Local}
    (h : Sends p d ok s s') : Keeps aside s s' := by
  obtain ⟨⟨_, _, _, rfl, _⟩, _⟩ := h
  rfl

instance aside_sockSend (p : TargetPdu) (d : Option Bytes) :
    Within (Keeps aside) (sockSend p d) where
  run s := wp_mono (sockSend_spec p d s) (fun _ _ h => h.aside) fun _ _ => nofun

instance aside_sendLocked (p : TargetPdu) (d : Option Bytes) :
    Within (Keeps aside) (sendLocked p d) where
  run s := wp_mono (sendLocked_spec p d s) (fun _ _ h => h.aside) fun _ _ _ => trivial

instance aside_modifySeq (f : SeqNums → SeqNums) : Within (Keeps aside) (modifySeq f) :=
  ⟨fun _ => rfl⟩

instance aside_modifyLogin (f : Login → Login) : Within (Keeps aside) (modifyLogin f) :=
  ⟨fun _ => rfl⟩

instance aside_nopResync (cmdSN : UInt32) : Within (Keeps aside) (nopResync cmdSN) where
  run s := by
    rw [nopResync, ensures, wp_modify]
    split <;> rfl

variable (env : Env)

/-- A text exchange only changes the login state. -/
theorem parseText_spec (text textOut : Bytes) (outgoing : Bool) (u : Users) (s : Local) :
    ensures (parseText env text textOut outgoing u)
      (fun _ s' => ∃ ps, s' = s.setLogin { s.slot.login with ps }) s := by
  unfold parseText ensures wp
  dsimp only
  split
  · rename_i h
    split at h
    · obtain ⟨_, rfl⟩ := Outcome.ret.inj h
      exact ⟨_, rfl⟩
    · cases h
  · trivial

instance aside_parseText (text textOut : Bytes) (outgoing : Bool) (u : Users) :
    Within (Keeps aside) (parseText env text textOut outgoing u) where
  run s := (parseText_spec env text textOut outgoing u s).mono fun _ _ ⟨_, h⟩ => by rw [h]; rfl

instance wire_parseText (text textOut : Bytes) (outgoing : Bool) (u : Users) :
    Within (Keeps wire) (parseText env text textOut outgoing u) where
  run s := (parseText_spec env text textOut outgoing u s).mono fun _ _ ⟨_, h⟩ => by rw [h]; rfl

instance wire_sockRecv (n : Nat) : Within (Keeps wire) (sockRecv n) where
  run s := wp_mono (sockRecv_spec n s) (fun _ _ ⟨⟨_, h⟩, _⟩ => by rw [h]; rfl) fun _ _ => nofun

instance wire_modifyLogin (f : Login → Login) : Within (Keeps wire) (modifyLogin f) :=
  ⟨fun _ => rfl⟩

/-- What is left to read. -/
def unread (s : Local) : Bytes := s.slot.conn.rx

instance unread_parseText (text textOut : Bytes) (outgoing : Bool) (u : Users) :
    Within (Keeps unread) (parseText env text textOut outgoing u) where
  run s := (parseText_spec env text textOut outgoing u s).mono fun _ _ ⟨_, h⟩ => by rw [h]; rfl

instance unread_modifyLogin (f : Login → Login) : Within (Keeps unread) (modifyLogin f) :=
  ⟨fun _ => rfl⟩

instance aside_addPortalGroup (textOut : Bytes) : Within (Keeps aside) (addPortalGroup textOut) :=
  within_gets _

instance unread_addPortalGroup (textOut : Bytes) : Within (Keeps unread) (addPortalGroup textOut) :=
  within_gets _

instance wire_addPortalGroup (textOut : Bytes) : Within (Keeps wire) (addPortalGroup textOut) :=
  within_gets _

end Instances

/-! ## Walking the handlers -/

section Walk

variable (env : Env) (id : Nat)

/-- Whether a session is in the full feature phase, and how often it has entered it. -/
def Login.phase (l : Login) : Bool × Nat := (l.isFullFeature, l.entered)

/-- The phase of the session. -/
def loginPhase (s : Local) : Bool × Nat := s.slot.login.phase

/-- What one reads off the text of a handler that is built from the primitives above. -/
class Textual (R : Local → Local → Prop) : Prop extends IsPreorder Local R where
  modifyLogin : ∀ f : Login → Login, (∀ l, (f l).phase = l.phase) → Within R (modifyLogin f)
  parseText : ∀ env text textOut outgoing u, Within R (parseText env text textOut outgoing u)

instance : Textual (Keeps aside) where
  modifyLogin _ _ := inferInstance
  parseText := inferInstance

instance : Textual (Keeps wire) where
  modifyLogin _ _ := inferInstance
  parseText := inferInstance

instance : Textual (Keeps unread) where
  modifyLogin _ _ := inferInstance
  parseText := inferInstance

instance : Textual (Keeps loginPhase) where
  modifyLogin _ hf := ⟨fun s => hf s.slot.login⟩
  parseText env text textOut outgoing u :=
    ⟨fun s => (parseText_spec env text textOut outgoing u s).mono fun _ _ ⟨_, h⟩ => by rw [h]; rfl⟩

instance phase_sockRecv (n : Nat) : Within (Keeps loginPhase) (sockRecv n) where
  run s := wp_mono (sockRecv_spec n s) (fun _ _ ⟨⟨_, h⟩, _⟩ => by rw [h]; rfl) fun _ _ => False.elim

variable {R : Local → Local → Prop} [Textual R]

instance within_parseOutgoing (textOut : Bytes) : Within R (parseOutgoing env textOut) := by
  have := Textual.parseText (R := R)
  unfold parseOutgoing
  refine .ite _ (.bind inferInstance fun r => ?_)
  exact within_pure _

instance within_sendTargets (textOut : Bytes) : Within R (sendTargets env textOut) := by
  have := Textual.modifyLogin (R := R) (fun l => { l with ps := { l.ps with
    params := paramModify l.ps.params (cstr "SendTargets") fun p => { p with rxOffer := false } } })
    fun _ => rfl
  unfold sendTargets
  refine .bind inferInstance fun head => ?_
  split
  · exact within_pure _
  · refine .ite _ (?_)
    split
    · exact within_pure _
    · infer_instance

/-- The answer to a text, whatever of the parameters is looked at. -/
instance within_answerText (text : Bytes) : Within R (answerText env text) := by
  have := Textual.parseText (R := R)
  unfold answerText
  refine .bind inferInstance fun r => ?_
  refine .ite _ (.bind inferInstance fun r => ?_)
  split
  · exact within_pure _
  · infer_instance

/-- The answer to the text of a login, which may add the portal group. -/
instance within_answerLoginText [∀ textOut, Within R (addPortalGroup textOut)] (text : Bytes) :
    Within R (answerLoginText env text) := by
  have := Textual.parseText (R := R)
  unfold answerLoginText
  refine .bind inferInstance fun r => ?_
  refine .ite _ (.bind inferInstance fun r => ?_)
  split
  · exact within_pure _
  · infer_instance

/-- The text of a text request is read whole or the request fails. -/
theorem readText_spec (len : Nat) (s : Local) :
    ensures (readText env len) (fun r s' => ((r ≠ none → Reads len s s') ∧ Keeps wire s s') ∧
      Keeps aside s s') s := by
  refine Within.and_wp (by unfold readText; infer_instance) ?_
  refine Within.and_wp (by unfold readText; infer_instance) ?_
  simp only [readText, wp_ite, wp_pure, wp_bind]
  refine ⟨fun h _ => h ▸ .zero rfl, fun _ => ?_⟩
  refine wp_mono (sockRecv_spec len s) ?_ fun _ _ => nofun
  rintro ⟨rc, text⟩ s₁ ⟨_, _, hreads⟩
  refine ⟨by simp, fun hrc => ?_⟩
  have h₁ := hreads (not_not.mp hrc)
  exact ((within_answerText (R := Keeps unread) env text).run s₁).mono
    fun _ _ h _ => ⟨h₁.enough, h.trans h₁.rx⟩

/-- The text of a login request is read whole or the request gets no answer. -/
theorem readLoginText_spec (len : Nat) (s : Local) :
    ensures (readLoginText env len) (fun r s' => ((r ≠ .fail → Reads len s s') ∧ Keeps wire s s') ∧
      Keeps aside s s') s := by
  refine Within.and_wp (by unfold readLoginText; infer_instance) ?_
  refine Within.and_wp (by unfold readLoginText; infer_instance) ?_
  simp only [readLoginText, wp_ite, wp_pure, wp_bind, wp_guarded, wp_halt]
  refine ⟨fun h _ => h ▸ .zero rfl, fun _ => ⟨fun _ => trivial, fun _ => ⟨by simp, fun _ => ?_⟩⟩⟩
  refine wp_mono (sockRecv_spec len s) ?_ fun _ _ => nofun
  rintro ⟨rc, text⟩ s₁ ⟨_, _, hreads⟩
  refine ⟨by simp, fun hrc => ?_⟩
  have h₁ := hreads (not_not.mp hrc)
  exact ((within_answerLoginText (R := Keeps unread) env text).run s₁).mono
    fun _ _ h _ => ⟨h₁.enough, h.trans h₁.rx⟩

end Walk

/-! ## Task management, pings and text -/

section Handlers

variable (hdr : Bytes)

/-- The requests that have no command structure leave the device aside. -/
instance aside_taskCommandT : Within (Keeps aside) (taskCommandT hdr) := by
  unfold taskCommandT
  dsimp only
  infer_instance

instance aside_nopOutT : Within (Keeps aside) (nopOutT hdr) := by
  unfold nopOutT
  dsimp only
  refine .ite _ (.bind inferInstance fun _ => .bind inferInstance fun r => ?_)
  infer_instance

instance aside_rejectT (reason : UInt8) : Within (Keeps aside) (rejectT hdr reason) := by
  unfold rejectT
  infer_instance

instance aside_logoutCommandT : Within (Keeps aside) (logoutCommandT hdr) := by
  unfold logoutCommandT
  dsimp only
  refine .ite _ (.bind inferInstance fun _ => .bind inferInstance fun _ => ?_)
  infer_instance

instance aside_verifyCmdT : Within (Keeps aside) (verifyCmdT hdr) := by
  unfold verifyCmdT
  infer_instance

/-- A reject only advances StatSN. -/
theorem rejectT_spec (reason : UInt8) (s : Local) :
    ensures (rejectT hdr reason) (fun _ s' => Keeps unread s s' ∧
      s'.slot.seq = { s.slot.seq with statSN := s.slot.seq.statSN + 1 } ∧
      s'.slot.login = s.slot.login ∧ s'.nopFlag = s.nopFlag) s := by
  simp only [rejectT, ensures, wp_bind, wp_modifySeq, wp_getSeq]
  refine wp_mono (sendLocked_spec _ _ _) ?_ fun _ _ _ => trivial
  rintro ok _ ⟨⟨_, _, _, rfl, _⟩, _⟩
  exact (wp_ite _ _ _).mpr ⟨fun _ => ⟨rfl, rfl, rfl, rfl⟩, fun _ => ⟨rfl, rfl, rfl, rfl⟩⟩

/-- A task management request that is answered. -/
theorem taskCommandT_spec (s : Local) :
    ensures (taskCommandT hdr) (fun rc s' => rc = 0 → (iscsiTaskCmdDecap hdr).1 = 0 ∧
      Keeps unread s s' ∧ s'.slot.login = s.slot.login) s := by
  simp only [taskCommandT, ensures, wp_bind, wp_ite, wp_pure, wp_modifySeq, wp_getSeq]
  refine ⟨fun _ => by simp, fun hrc => wp_mono (sockSend_spec _ _ _) ?_ fun _ _ => nofun⟩
  rintro ok s₁ ⟨⟨_, _, _, rfl, _⟩, _⟩
  exact ⟨fun _ => by simp, fun _ _ => ⟨not_not.mp hrc, rfl, rfl⟩⟩

/-- A task management request leaves the phase alone. -/
theorem taskCommandT_phase (s : Local) :
    ensures (taskCommandT hdr) (fun _ s' => Keeps loginPhase s s') s := by
  simp only [taskCommandT, ensures, wp_bind, wp_ite, wp_pure, wp_modifySeq, wp_getSeq]
  refine ⟨fun _ => rfl, fun _ => wp_mono (sockSend_spec _ _ _) ?_ fun _ _ => False.elim⟩
  rintro ok s₁ ⟨⟨_, _, _, rfl, _⟩, _⟩
  exact ⟨fun _ => rfl, fun _ => rfl⟩

/-- What a ping does to the window, once it has been read. -/
def nopWindow (cmd : NopOut) (nopFlag : Bool) (q : SeqNums) : UInt32 × UInt32 :=
  let exp := if cmd.cmdSN ≠ q.expCmdSN ∧ nopFlag = false then cmd.cmdSN else q.expCmdSN
  if cmd.tag = 0xffffffff then (exp, q.maxCmdSN) else (exp + 1, q.maxCmdSN + 1)

/-- A ping that is answered, or that asks for no answer. -/
theorem nopOutT_spec (s : Local) :
    ensures (nopOutT hdr) (fun rc s' => Tallied s s' ∧ s'.slot.login = s.slot.login ∧
      (s.nopFlag = true → s'.nopFlag = true) ∧
      (rc = 0 → (iscsiNopOutDecap hdr).1 = 0 ∧ Reads (iscsiNopOutDecap hdr).2.length s s' ∧
        (s'.slot.seq.expCmdSN, s'.slot.seq.maxCmdSN) =
          nopWindow (iscsiNopOutDecap hdr).2 s.nopFlag s.slot.seq)) s := by
  simp only [nopOutT, nopResync, ensures, wp_bind, wp_ite, wp_pure, wp_modify, wp_modifySeq,
    wp_getSeq]
  refine ⟨fun _ => ⟨refl s, trivial, id, by simp⟩, fun hrc => ?_⟩
  have hrc := not_not.mp hrc
  -- the state after the check of the CmdSN
  set s₀ := if (iscsiNopOutDecap hdr).2.cmdSN ≠ s.slot.seq.expCmdSN ∧ s.nopFlag = false then
    { s.setSeq { s.slot.seq with expCmdSN := (iscsiNopOutDecap hdr).2.cmdSN } with
      nopFlag := true } else s with hs₀
  have h₀ : s₀.slot.conn = s.slot.conn ∧ s₀.slot.login = s.slot.login ∧
      s₀.slot.seq.statSN = s.slot.seq.statSN ∧ s₀.slot.seq.maxCmdSN = s.slot.seq.maxCmdSN ∧
      (s.nopFlag = true → s₀.nopFlag = true) ∧
      s₀.slot.seq.expCmdSN = if (iscsiNopOutDecap hdr).2.cmdSN ≠ s.slot.seq.expCmdSN ∧
        s.nopFlag = false then (iscsiNopOutDecap hdr).2.cmdSN else s.slot.seq.expCmdSN := by
    rw [hs₀]
    split
    · exact ⟨rfl, rfl, rfl, rfl, fun _ => rfl, rfl⟩
    · exact ⟨rfl, rfl, rfl, rfl, id, rfl⟩
  obtain ⟨hconn, hlogin, hstat, hmax, hflag, hexp⟩ := h₀
  refine wp_mono (sockRecv_spec _ s₀) ?_ fun _ _ => nofun
  rintro ⟨rc, ping⟩ _ ⟨⟨rx, rfl⟩, _, hreads⟩
  have hreads (h : rc = (iscsiNopOutDecap hdr).2.length) :
      Reads (iscsiNopOutDecap hdr).2.length s (s₀.setConn { s₀.slot.conn with rx }) := by
    obtain ⟨henough, hrx⟩ := hreads h
    rw [hconn] at henough hrx
    exact ⟨henough, hrx⟩
  have htally : Tallied s (s₀.setConn { s₀.slot.conn with rx }) :=
    .of_eq (show s₀.slot.conn.sent = _ by rw [hconn]) hstat
  refine ⟨fun _ => ⟨htally, hlogin, hflag, by simp⟩, fun hlen => ⟨fun htag => ?_, fun htag => ?_⟩⟩
  · refine ⟨htally, hlogin, hflag, fun _ => ⟨hrc, hreads (not_not.mp hlen), ?_⟩⟩
    simp only [nopWindow, if_pos htag]
    exact Prod.ext hexp hmax
  · refine wp_mono (sendLocked_spec _ _ _) ?_ fun _ _ _ => trivial
    intro ok s' h
    have htally' : Tallied s s' := Trans.trans htally
      (h.status rfl rfl (congrArg some (TargetPdu.wireStatSN_nopIn _)) rfl)
    obtain ⟨⟨d, n, b, rfl, _⟩, _⟩ := h
    refine ⟨fun _ => ⟨htally', hlogin, hflag, by simp⟩, fun _ => ⟨htally', hlogin, hflag, fun _ =>
      ⟨hrc, ?_, ?_⟩⟩⟩
    · obtain ⟨henough, hrx⟩ := hreads (not_not.mp hlen)
      exact ⟨henough, hrx⟩
    · simp only [nopWindow, if_neg htag]
      exact Prod.ext (congrArg (· + 1) hexp) (congrArg (· + 1) hmax)

variable (env : Env)

/-- A text request changes the parameters only. -/
instance aside_textCommandT : Within (Keeps aside) (textCommandT env hdr) := by
  have hread (len : Nat) : Within (Keeps aside) (readText env len) :=
    ⟨fun s => (readText_spec env len s).mono fun _ _ h => h.2⟩
  unfold textCommandT
  dsimp only
  refine .ite _ (.ite _ (.bind inferInstance fun q => ?_))
  refine .ite _ (.bind inferInstance fun _ => .bind inferInstance fun r => ?_)
  split
  · infer_instance
  · refine .bind inferInstance fun _ => .bind inferInstance fun q => ?_
    infer_instance

/-- A text request leaves the phase alone. -/
theorem textCommandT_phase (s : Local) :
    ensures (textCommandT env hdr) (fun _ s' => Keeps loginPhase s s') s := by
  simp only [textCommandT, ensures, wp_bind, wp_ite, wp_pure, wp_getSeq, wp_modifySeq]
  refine ⟨fun _ => rfl, fun _ => ⟨fun _ => rfl, fun _ => ⟨fun _ => rfl, fun _ => ?_⟩⟩⟩
  have hread (len : Nat) : Within (Keeps loginPhase) (readText env len) := by
    unfold readText
    infer_instance
  refine ((hread _).run _).mono fun r s₁ h₁ => ?_
  rcases r with _ | textOut
  · exact h₁
  refine ensures.bind (P := fun _ s₂ => Keeps loginPhase s s₂) ?_ fun _ s₂ h₂ => ?_
  · rw [ensures, wp_modifyLogin]
    refine Eq.trans (b := s₁.slot.login.phase) ?_ h₁
    change Login.phase (ite _ _ _) = _
    split <;> rfl
  · simp only [ensures, wp_bind, wp_getSeq, wp_modifySeq]
    refine wp_mono (sockSend_spec _ _ _) ?_ fun _ _ => False.elim
    rintro ok _ ⟨⟨_, _, _, rfl, _⟩, _⟩
    exact (wp_ite _ _ _).mpr ⟨fun _ => h₂, fun _ => h₂⟩

/-- A text request. -/
theorem textCommandT_spec (s : Local) :
    ensures (textCommandT env hdr) (fun rc s' => Tallied s s' ∧ s'.nopFlag = s.nopFlag ∧
      (rc = 0 → (iscsiTextCmdDecap hdr).1 = 0 ∧ Reads (iscsiTextCmdDecap hdr).2.length s s' ∧
        (iscsiTextCmdDecap hdr).2.cmdSN = s.slot.seq.expCmdSN ∧
        s'.slot.seq.expCmdSN = s.slot.seq.expCmdSN + 1 ∧
        s'.slot.seq.maxCmdSN = s.slot.seq.maxCmdSN + 1)) s := by
  simp only [textCommandT, ensures, wp_bind, wp_ite, wp_pure, wp_getSeq, wp_modifySeq]
  refine ⟨fun _ => ⟨refl s, trivial, by simp⟩, fun hrc => ⟨fun _ => ⟨refl s, trivial, by simp⟩,
    fun _ => ⟨fun _ => ⟨refl s, trivial, by simp⟩, fun hsn => ?_⟩⟩⟩
  have h₀ : Tallied s (s.setSeq { s.slot.seq with
      expCmdSN := s.slot.seq.expCmdSN + 1, maxCmdSN := s.slot.seq.maxCmdSN + 1 }) := .of_eq rfl rfl
  refine (readText_spec env _ _).mono ?_
  rintro r s₁ ⟨⟨hreads, hwire⟩, _⟩
  obtain ⟨hseq, hsent, hflag⟩ : s₁.slot.seq = _ ∧ s₁.slot.conn.sent = _ ∧ s₁.nopFlag = _ := by
    simpa [Keeps, wire] using hwire
  have h₁ : Tallied s s₁ := Trans.trans h₀ (Tallied.of_eq hsent (by rw [hseq]))
  rcases r with _ | textOut
  · exact ⟨h₁, hflag, by simp⟩
  obtain ⟨henough, hrx⟩ := hreads (by simp)
  simp only [wp_bind, wp_modifyLogin, wp_getSeq, wp_modifySeq]
  refine wp_mono (sockSend_spec _ _ _) ?_ fun _ _ => nofun
  intro ok s₂ h
  have h₂ : Tallied s s₂ := Trans.trans h₁
    (h.status rfl rfl (congrArg some (TargetPdu.wireStatSN_textRsp _)) rfl)
  obtain ⟨⟨d, n, b, rfl, _⟩, _⟩ := h
  refine (wp_ite _ _ _).mpr ⟨fun _ => ⟨h₂, hflag, by simp⟩, fun _ => ⟨h₂, hflag, fun _ => ?_⟩⟩
  refine ⟨not_not.mp hrc, ⟨henough, hrx⟩, not_not.mp hsn, ?_, ?_⟩
  · exact congrArg SeqNums.expCmdSN hseq
  · exact congrArg SeqNums.maxCmdSN hseq

/-- A logout request sets StatSN to what the initiator expects, and sends no status. -/
theorem logoutCommandT_spec (s : Local) :
    ensures (logoutCommandT hdr) (fun _ s' => s'.nopFlag = s.nopFlag ∧
      ((iscsiLogoutCmdDecap hdr).2.expStatSN = s.slot.seq.statSN → Tallied s s')) s := by
  simp only [logoutCommandT, ensures, wp_bind, wp_ite, wp_pure, wp_getParams, wp_modifySeq,
    wp_getSeq, wp_modifyLogin]
  refine ⟨fun _ => ⟨trivial, fun _ => refl s⟩, fun _ => ?_⟩
  refine wp_mono (sockSend_spec _ _ _) ?_ fun _ _ => nofun
  intro ok s₁ h
  have h₁ (hsn : (iscsiLogoutCmdDecap hdr).2.expStatSN = s.slot.seq.statSN) : Tallied s s₁ :=
    h.noStatus rfl rfl rfl hsn
  obtain ⟨⟨d, n, b, rfl, _⟩, _⟩ := h
  exact ⟨fun _ => ⟨rfl, h₁⟩, fun _ => ⟨rfl, h₁⟩⟩

/-- A logout leaves the phase alone. -/
theorem logoutCommandT_phase (s : Local) :
    ensures (logoutCommandT hdr) (fun _ s' => Keeps loginPhase s s') s := by
  simp only [logoutCommandT, ensures, wp_bind, wp_ite, wp_pure, wp_getParams, wp_modifySeq,
    wp_getSeq, wp_modifyLogin]
  refine ⟨fun _ => rfl, fun _ => wp_mono (sockSend_spec _ _ _) ?_ fun _ _ => False.elim⟩
  rintro ok s₁ ⟨⟨_, _, _, rfl, _⟩, _⟩
  exact ⟨fun _ => rfl, fun _ => rfl⟩

/-- Refusing a PDU out of its phase. -/
theorem verifyCmdT_spec (s : Local) :
    ensures (verifyCmdT hdr) (fun rc s' => Tallied s s' ∧ s'.slot.login = s.slot.login ∧
      s'.slot.seq = s.slot.seq ∧ s'.nopFlag = s.nopFlag ∧
      (rc = 0 → s' = s ∧ (iscsiOpcode hdr = opLoginCmd ∨ iscsiOpcode hdr = opLogoutCmd ∨
        s.slot.login.isFullFeature = true))) s := by
  simp only [verifyCmdT, ensures, wp_bind, wp_getLogin, wp_ite, wp_pure]
  refine ⟨fun _ => ⟨refl s, trivial, trivial, trivial, by simp⟩,
    fun _ => ⟨fun _ => ?_, fun h => ?_⟩⟩
  · refine wp_mono (sendLocked_spec _ _ _) ?_ fun _ _ _ => trivial
    intro ok s₁ h
    have h₁ : Tallied s s₁ := h.noStatus rfl rfl rfl rfl
    obtain ⟨⟨d, n, b, rfl, _⟩, _⟩ := h
    exact ⟨h₁, rfl, rfl, rfl, by simp⟩
  · refine ⟨refl s, trivial, trivial, trivial, fun _ => ⟨trivial, ?_⟩⟩
    by_contra hcon
    push Not at hcon
    simp_all

end Handlers

end Ost.Target
