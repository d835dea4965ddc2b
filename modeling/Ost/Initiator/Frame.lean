import Ost.Initiator.World

/-!
# What the handlers leave alone

`Same c` says what every part of a handler for the command `c` leaves alone up to the
point where it completes the command: the queue and the hash, the other commands, and all
of `c` but its status and what its pointer leads to.  `Done c` is what completing `c` does.

A handler for a PDU that is not an R2T moves along `Ended c`: it leaves all that alone, or
it does and then completes the command, once and last.
-/

namespace Ost.Initiator

open Ost.Iscsi Ost.Util Ost.Param Ost.Prog

/-! ## The frame of a handler -/

/-- The part of a command that the handlers leave alone. -/
structure CmdKey where
  type : CmdType
  tag : UInt32
  txDone : Bool
  r2tRequest : Nat
  r2t : R2t
  aborted : Bool
  callbackOk : Bool

/-- That part of a command. -/
def InitiatorCmd.key (t : InitiatorCmd) : CmdKey :=
  { type := t.body.type, tag := t.tag, txDone := t.txDone, r2tRequest := t.r2tRequest, r2t := t.r2t
    aborted := t.aborted, callbackOk := t.callbackOk }

/-- The key of a command stays when its body is stored. -/
@[simp] theorem key_store (t : InitiatorCmd) (b : Body) : (t.store b).key = t.key := by
  unfold InitiatorCmd.store
  split
  · rename_i h
    simp [InitiatorCmd.key, h]
  · rfl

/-- What a handler for the command `c` leaves alone. -/
structure Same (c : Nat) (s s' : Session) : Prop where
  txQueue : s'.books.txQueue = s.books.txQueue
  cmdHash : s'.books.cmdHash = s.books.cmdHash
  issued : s'.books.issued = s.books.issued
  called : s'.books.called = s.books.called
  tx : s'.tx = s.tx
  rx : s'.rx = s.rx
  stopping : s'.stopping = s.stopping
  started : s'.flags.started = s.flags.started
  accepted : s'.accepted = s.accepted
  answers : s'.answers = s.answers
  other : ∀ d, d ≠ c → s'.books.mem d = s.books.mem d
  key : (s'.books.mem c).key = (s.books.mem c).key

namespace Same

variable {c : Nat} {s s' : Session}

/-- The keys of all commands are kept. -/
theorem key_eq (h : Same c s s') (d : Nat) : (s'.books.mem d).key = (s.books.mem d).key := by
  by_cases hd : d = c
  · rw [hd]
    exact h.key
  · rw [h.other d hd]

/-- The tags of all commands are kept. -/
theorem tag_eq (h : Same c s s') (d : Nat) : (s'.books.mem d).tag = (s.books.mem d).tag :=
  congrArg CmdKey.tag (h.key_eq d)

instance instIsPreorder : IsPreorder Session (Same c) where
  refl s := by constructor <;> intros <;> rfl
  trans s₁ s₂ s₃ h h' := by
    constructor
    · exact h'.txQueue.trans h.txQueue
    · exact h'.cmdHash.trans h.cmdHash
    · exact h'.issued.trans h.issued
    · exact h'.called.trans h.called
    · exact h'.tx.trans h.tx
    · exact h'.rx.trans h.rx
    · exact h'.stopping.trans h.stopping
    · exact h'.started.trans h.started
    · exact h'.accepted.trans h.accepted
    · exact h'.answers.trans h.answers
    · intro d hd
      exact (h'.other d hd).trans (h.other d hd)
    · exact h'.key.trans h.key

/-- Changing the variables of the session keeps all else. -/
theorem setVars (h : Same c s s') (v : Vars) : Same c s (s'.setVars v) :=
  Trans.trans h (by constructor <;> intros <;> rfl : Same c s' (s'.setVars v))

/-- Changing the command in place keeps all else. -/
theorem of_cmd {t : InitiatorCmd} (ht : t.key = (s.books.mem c).key) : Same c s (s.setCmd c t) := by
  constructor <;> try intros
  all_goals try rfl
  · exact Function.update_of_ne ‹_› _ _
  · simpa [Session.setCmd, Session.setBooks] using ht

end Same

/-! ### Instances -/

section Instances

variable (c : Nat)

instance same_getCmd (d : Nat) : Within (Same c) (getCmd d) := within_gets _

instance same_getVars : Within (Same c) getVars := within_gets _

instance same_modifyVars (f : Vars → Vars) : Within (Same c) (modifyVars f) :=
  within_modify fun s => by constructor <;> intros <;> rfl

instance same_getFlags : Within (Same c) getFlags := within_gets _

instance same_setLoggedIn : Within (Same c) setLoggedIn :=
  within_modify fun s => by constructor <;> intros <;> rfl

instance same_setBody (b : Body) : Within (Same c) (setBody c b) :=
  within_modify fun _ => .of_cmd (key_store _ _)

instance same_setStatus (x : Int) : Within (Same c) (setStatus c x) :=
  within_modify fun _ => .of_cmd rfl

instance same_nextNet : Within (Same c) nextNet :=
  ⟨fun s => by constructor <;> intros <;> rfl⟩

instance same_logSent (p : OutPdu) : Within (Same c) (logSent p) :=
  within_modify fun s => by constructor <;> intros <;> rfl

instance same_getScsi (d : Nat) : Within (Same c) (getScsi d) := by
  unfold getScsi
  refine .bind inferInstance fun t => ?_
  split <;> infer_instance

instance same_getNopOut (d : Nat) : Within (Same c) (getNopOut d) := by
  unfold getNopOut
  refine .bind inferInstance fun t => ?_
  split <;> infer_instance

instance same_getLogin (d : Nat) : Within (Same c) (getLogin d) := by
  unfold getLogin
  refine .bind inferInstance fun t => ?_
  split <;> infer_instance

instance same_getText (d : Nat) : Within (Same c) (getText d) := by
  unfold getText
  refine .bind inferInstance fun t => ?_
  split <;> infer_instance

instance same_getLogout (d : Nat) : Within (Same c) (getLogout d) := by
  unfold getLogout
  refine .bind inferInstance fun t => ?_
  split <;> infer_instance

/-! ### Transmitting -/

instance same_sockData (len : Nat) (data : List Iov) : Within (Same c) (sockData len data) := by
  unfold sockData
  infer_instance

instance same_whenever (b : Prop) [Decidable b] (x : Handler Bool) [Within (Same c) x] :
    Within (Same c) (whenever b x) := within_ite b x (pure true)

/-- Sending a PDU, with or without data. -/
instance same_sockSend (p : OutPdu) (len : Nat) (data : List Iov) :
    Within (Same c) (sockSend p len data) := by
  unfold sockSend
  infer_instance

instance same_sockSendPlain (p : OutPdu) (len : Nat) : Within (Same c) (sockSendPlain p len) := by
  unfold sockSendPlain
  infer_instance

instance same_cutSg (sg : List Iov) (offset len : Nat) : Within (Same c) (cutSg sg offset len) := by
  unfold cutSg
  infer_instance

instance same_dataSg (part : Bool) (sg : List Iov) (offset len : Nat) :
    Within (Same c) (dataSg part sg offset len) := by
  unfold dataSg
  infer_instance

instance same_nopOutI (q : NopOut) : Within (Same c) (nopOutI q) := by
  unfold nopOutI
  infer_instance

/-- The unsolicited data PDUs of a write. -/
instance same_sendUnsolicited (sg : List Iov) (n : Nat) (dataSN : UInt32) :
    Within (Same c) (sendUnsolicited c sg n dataSN) := by
  induction n generalizing dataSN with
  | zero => exact within_halt _
  | succ n ih =>
    unfold sendUnsolicited
    refine .bind inferInstance fun q => .bind inferInstance fun v => .ite _ ?_
    refine .bind inferInstance fun cut => ?_
    split
    · infer_instance
    · have := ih (dataSN + 1)
      infer_instance

instance same_sendCommandPdu (q : ScsiCmd) (sg : Option (List Iov)) :
    Within (Same c) (sendCommandPdu q sg) := by
  unfold sendCommandPdu
  split <;> infer_instance

/-- `scsi_command_i` sends, and sets the counts and the status of the command. -/
instance same_scsiCommandI : Within (Same c) (scsiCommandI c) := by
  unfold scsiCommandI
  refine .bind inferInstance fun q => .bind inferInstance fun v => .ite _ (.ite _ (.ite _ ?_))
  refine .bind inferInstance fun _ => .bind inferInstance fun _ => .ite _ ?_
  infer_instance

/-! ### Text -/

variable (env : Env) (cfg : TargetConfig)

instance same_parseText (text textOut : Bytes) (outgoing : Bool) :
    Within (Same c) (parseText env cfg text textOut outgoing) := by
  constructor
  intro s
  rcases h : paramTextParse env text outgoing cfg.users ⟨s.vars.ps, textOut⟩ with ⟨rc, p⟩ | ⟨e, p⟩
  · simp only [ensures, wp, parseText, h]
    constructor <;> intros <;> rfl
  · simp only [ensures, wp, parseText, h]

instance same_paramsOut (text : Bytes) : Within (Same c) (paramsOut env cfg text) := by
  unfold paramsOut
  refine .bind inferInstance fun v => .ite _ ?_
  split <;> infer_instance

instance same_copyText (text : Bytes) : Within (Same c) (copyText text) := by
  unfold copyText
  infer_instance

instance same_valReset (key : CStr) : Within (Same c) (valReset key) := by
  unfold valReset
  refine .bind inferInstance fun v => ?_
  exact .bind inferInstance fun _ => inferInstance

/-- The text of a login response is parsed into the parameters of the session. -/
instance same_readLoginAnswer (p : RxPdu) (len : Nat) :
    Within (Same c) (readLoginAnswer env cfg p len) := by
  unfold readLoginAnswer
  refine .ite _ ?_
  split <;> infer_instance

instance same_redirect : Within (Same c) redirect := by
  unfold redirect
  refine .bind inferInstance fun v => ?_
  split <;> infer_instance

instance same_enterNegotiation (q : LoginReq) (textOut : Bytes) :
    Within (Same c) (enterNegotiation env cfg c q textOut) := by
  unfold enterNegotiation
  refine .bind inferInstance fun _ => .bind inferInstance fun text => ?_
  split <;> infer_instance

instance same_enterFullFeature (q : LoginReq) (rsp : LoginRsp) :
    Within (Same c) (enterFullFeature cfg q rsp) := by
  unfold enterFullFeature
  infer_instance

/-- A login that is not finished sends the next request of the same command. -/
instance same_partialLogin (q : LoginReq) (textOut : Bytes) :
    Within (Same c) (partialLogin env cfg c q textOut) := by
  unfold partialLogin
  infer_instance

instance same_loginProgress (rsp : LoginRsp) (textOut : Bytes) :
    Within (Same c) (loginProgress env cfg c rsp textOut) := by
  unfold loginProgress
  infer_instance

/-- A text response that is not the last is answered with the same command. -/
instance same_answerTextRsp (p : RxPdu) (rsp : TextRsp) :
    Within (Same c) (answerTextRsp env cfg p rsp) := by
  unfold answerTextRsp
  refine .ite _ ?_
  split
  · infer_instance
  · refine .bind inferInstance fun ok => .ite _ (.bind inferInstance fun ok => .ite _ ?_)
    refine .bind inferInstance fun x => .ite _ (.ite _ (.ite _ ?_))
    infer_instance

instance same_recvSg (q : ScsiCmd) (offset length : Nat) :
    Within (Same c) (recvSg q offset length) := by
  unfold recvSg
  split
  · split <;> infer_instance
  · infer_instance

instance same_recvIntoList (q : ScsiCmd) (p : RxPdu) (offset length : Nat) :
    Within (Same c) (recvIntoList q p offset length) := by
  unfold recvIntoList
  infer_instance

instance same_recvIntoBuffer (q : ScsiCmd) (p : RxPdu) (offset length : Nat) :
    Within (Same c) (recvIntoBuffer q p offset length) := by
  unfold recvIntoBuffer
  split <;> infer_instance

/-- Read data go into the memory of the command. -/
instance same_recvReadData (q : ScsiCmd) (p : RxPdu) (offset length : Nat) :
    Within (Same c) (recvReadData q p offset length) := by
  unfold recvReadData
  infer_instance

instance same_pinged (r : NopIn) : Within (Same c) (pinged r) := by
  unfold pinged
  infer_instance

end Instances

/-! ## Completion -/

/-- What completing the command `c` does. -/
structure Completed (c : Nat) (s s' : Session) : Prop where
  txQueue : s'.books.txQueue = s.books.txQueue
  cmdHash : s'.books.cmdHash = s.books.cmdHash.without (s.books.mem c).tag
  issued : s'.books.issued = s.books.issued
  called : s'.books.called = s.books.called ++ [c]
  tx : s'.tx = s.tx
  rx : s'.rx = s.rx
  stopping : s'.stopping = s.stopping
  started : s'.flags.started = s.flags.started
  accepted : s'.accepted = s.accepted
  answers : s'.answers = s.answers
  other : ∀ d, d ≠ c → s'.books.mem d = s.books.mem d
  key : (s'.books.mem c).key = (s.books.mem c).key

/-- How a handler for the command `c` ends: it has left the command outstanding, or completed it. -/
def Ended (c : Nat) (s s' : Session) : Prop := Same c s s' ∨ Completed c s s'

section Ended

variable {c : Nat} {s₁ s₂ s₃ : Session} {α β : Type} {x : Handler β} {k : β → Handler α}

/-- What keeps the books may come before a completion. -/
theorem Completed.same_trans (h : Same c s₁ s₂) (h' : Completed c s₂ s₃) : Completed c s₁ s₃ where
  txQueue := h'.txQueue.trans h.txQueue
  cmdHash := by rw [h'.cmdHash, h.cmdHash, h.tag_eq]
  issued := h'.issued.trans h.issued
  called := by rw [h'.called, h.called]
  tx := h'.tx.trans h.tx
  rx := h'.rx.trans h.rx
  stopping := h'.stopping.trans h.stopping
  started := h'.started.trans h.started
  accepted := h'.accepted.trans h.accepted
  answers := h'.answers.trans h.answers
  other d hd := (h'.other d hd).trans (h.other d hd)
  key := h'.key.trans h.key

/-- And after one. -/
theorem Completed.trans_same (h : Completed c s₁ s₂) (h' : Same c s₂ s₃) : Completed c s₁ s₃ where
  txQueue := h'.txQueue.trans h.txQueue
  cmdHash := h'.cmdHash.trans h.cmdHash
  issued := h'.issued.trans h.issued
  called := h'.called.trans h.called
  tx := h'.tx.trans h.tx
  rx := h'.rx.trans h.rx
  stopping := h'.stopping.trans h.stopping
  started := h'.started.trans h.started
  accepted := h'.accepted.trans h.accepted
  answers := h'.answers.trans h.answers
  other d hd := (h'.other d hd).trans (h.other d hd)
  key := h'.key.trans h.key

/-- A program that does not complete the command. -/
theorem ended_of_same [h : Within (Same c) x] : Within (Ended c) x := h.mono fun _ _ => .inl

/-- A handler may do other things first. -/
theorem ended_bind [hx : Within (Same c) x] (hk : ∀ b, Within (Ended c) (k b)) :
    Within (Ended c) (x >>= k) where
  run s := by
    rw [ensures, wp_bind]
    refine (hx.run s).mono fun b s₁ h => ((hk b).run s₁).mono fun _ s₂ h' => ?_
    rcases h' with h' | h'
    · exact .inl (Trans.trans h h')
    · exact .inr (h'.same_trans h)

/-- After the completion it only looks at its result. -/
theorem ended_last (hx : Within (Ended c) x) [hk : ∀ b, Within (Same c) (k b)] :
    Within (Ended c) (x >>= k) where
  run s := by
    rw [ensures, wp_bind]
    refine (hx.run s).mono fun b s₁ h => ((hk b).run s₁).mono fun _ s₂ h' => ?_
    rcases h with h | h
    · exact .inl (Trans.trans h h')
    · exact .inr (h.trans_same h')

theorem ended_ite (p : Prop) [Decidable p] {x y : Handler α} (hx : Within (Ended c) x)
    (hy : Within (Ended c) y) : Within (Ended c) (if p then x else y) := within_ite p x y

end Ended

/-! ### Handlers -/

variable (c : Nat)

/-- `iscsi_done_i` completes a command that is outstanding or has been aborted. -/
theorem iscsiDoneI_completes {s : Session}
    (h : (s.books.cmdHash.remove (s.books.mem c).tag).isSome ∨ (s.books.mem c).aborted = true) :
    wp (iscsiDoneI c) (fun ok s' => ok = (s.books.mem c).callbackOk ∧
      (s'.books.mem c).body = (s.books.mem c).body ∧ Completed c s s') (fun _ _ => False) s := by
  have called : ∀ s₁ : Session, (s₁.books.mem c).callbackOk = (s.books.mem c).callbackOk ∧
        (s₁.books.mem c).body = (s.books.mem c).body →
      s₁.books.cmdHash = s.books.cmdHash.without (s.books.mem c).tag →
      Same c { s with books := { s.books with cmdHash := s₁.books.cmdHash } } s₁ →
      wp (runCallback c) (fun ok s' => ok = (s.books.mem c).callbackOk ∧
        (s'.books.mem c).body = (s.books.mem c).body ∧ Completed c s s')
        (fun _ _ => False) s₁ := by
    intro s₁ hok hw hs
    refine ⟨hok.1, hok.2, ⟨hs.txQueue, hw, hs.issued, ?_, hs.tx, hs.rx, hs.stopping,
      hs.started, hs.accepted, hs.answers, hs.other, hs.key⟩⟩
    exact congrArg (· ++ [c]) hs.called
  simp only [iscsiDoneI, wp_bind, wp_getCmd]
  rw [wp_hashDelete]
  refine ⟨fun hr => ?_, fun d h' hr => ?_⟩
  · refine (wp_ite _ _ _).mpr ⟨fun hf => by simp_all, fun _ => ?_⟩
    have hw : s.books.cmdHash = s.books.cmdHash.without (s.books.mem c).tag := by
      simp [TagHash.without, hr]
    rw [wp_bind, wp_guarded]
    refine ⟨fun _ => called _ ?_ hw (.of_cmd rfl), fun _ => called _ ⟨rfl, rfl⟩ hw (refl s)⟩
    simp [Session.setCmd, Session.setBooks]
  · have hw : h' = s.books.cmdHash.without (s.books.mem c).tag := by simp [TagHash.without, hr]
    refine (wp_ite _ _ _).mpr ⟨fun hf => by simp at hf, fun _ => ?_⟩
    rw [wp_bind, wp_guarded]
    refine ⟨fun _ => called _ ?_ hw (.of_cmd rfl), fun _ => called _ ⟨rfl, rfl⟩ hw (refl _)⟩
    simp [Session.setCmd, Session.setBooks]

/-- It does nothing for any other command. -/
theorem iscsiDoneI_refuses {s : Session} (h : s.books.cmdHash.remove (s.books.mem c).tag = none)
    (ha : (s.books.mem c).aborted = false) :
    wp (iscsiDoneI c) (fun ok s' => ok = false ∧ s' = s) (fun _ _ => False) s := by
  simp only [iscsiDoneI, wp_bind, wp_getCmd]
  rw [wp_hashDelete]
  refine ⟨fun _ => ?_, fun d h' hr => ?_⟩
  · exact (wp_ite _ _ _).mpr ⟨fun _ => ⟨rfl, rfl⟩, fun hn => by simp [ha] at hn⟩
  · rw [h] at hr
    cases hr

/-- `iscsi_done_i` ends a command once, if it is in the table. -/
theorem ended_iscsiDoneI : Within (Ended c) (iscsiDoneI c) where
  run s := by
    by_cases h : (s.books.cmdHash.remove (s.books.mem c).tag).isSome ∨
        (s.books.mem c).aborted = true
    · exact wp_mono (iscsiDoneI_completes c h) (fun _ _ h => .inr h.2.2) fun _ _ _ => trivial
    · simp only [not_or, Bool.not_eq_true, Option.isSome_eq_false_iff, Option.isNone_iff_eq_none]
        at h
      refine wp_mono (iscsiDoneI_refuses c h.1 h.2) (fun _ s' h => .inl ?_) fun _ _ _ => trivial
      rw [h.2]
      exact refl s

/-- Setting the status and completing, as the error paths of several handlers do. -/
theorem ended_failed : Within (Ended c) (setStatus c (-1) >>= fun _ => iscsiDoneI c) :=
  ended_bind fun _ => ended_iscsiDoneI c

theorem ended_scsiFailed : Within (Ended c) (scsiFailed c) :=
  ended_bind fun _ => ended_last (ended_iscsiDoneI c)

theorem ended_textFailed : Within (Ended c) (textFailed c) :=
  ended_bind fun _ => ended_last (ended_iscsiDoneI c)

section

variable (env : Env) (cfg : TargetConfig) (p : RxPdu)

/-- `login_response_i` ends its command, or goes on with it. -/
theorem ended_loginResponseI : Within (Ended c) (loginResponseI env cfg c p) := by
  unfold loginResponseI
  refine ended_ite _ (ended_failed c) (ended_ite _ ended_of_same (ended_bind fun t => ?_))
  split
  · exact ended_failed c
  · refine ended_ite _ (ended_failed c) (ended_ite _ (ended_bind fun _ => ended_failed c) ?_)
    refine ended_ite _ (ended_failed c) (ended_bind fun ok => ?_)
    exact ended_ite _ (ended_iscsiDoneI c) (ended_failed c)

theorem ended_textResponseI : Within (Ended c) (textResponseI env cfg c p) := by
  unfold textResponseI
  refine ended_ite _ (ended_textFailed c) (ended_bind fun q => ended_bind fun v => ?_)
  refine ended_ite _ (ended_textFailed c) (ended_bind fun _ => ended_bind fun t => ?_)
  split
  · exact ended_textFailed c
  · refine ended_bind fun _ => ended_bind fun t => ?_
    exact ended_last (ended_iscsiDoneI c)

theorem ended_logoutResponseI : Within (Ended c) (logoutResponseI c p) := by
  unfold logoutResponseI
  refine ended_ite _ (ended_failed c) (ended_ite _ (ended_failed c) (ended_bind fun q => ?_))
  refine ended_ite _ (ended_failed c) (ended_bind fun v => ended_ite _ (ended_failed c) ?_)
  refine ended_bind fun _ => ended_bind fun v => ended_ite _ (ended_failed c) ?_
  exact ended_bind fun _ => ended_bind fun _ => ended_iscsiDoneI c

/-- `scsi_response_i`. -/
theorem ended_scsiResponseI : Within (Ended c) (scsiResponseI c p) := by
  unfold scsiResponseI
  refine ended_ite _ ended_of_same (ended_ite _ (ended_scsiFailed c) (ended_bind fun q => ?_))
  refine ended_ite _ (ended_scsiFailed c) (ended_bind fun _ => ended_bind fun v => ?_)
  refine ended_ite _ (ended_scsiFailed c) (ended_ite _ ended_of_same (ended_bind fun _ => ?_))
  refine ended_ite _ (ended_scsiFailed c) (ended_ite _ ended_of_same ?_)
  exact ended_bind fun _ => ended_bind fun _ => ended_last (ended_iscsiDoneI c)

/-- `scsi_read_data_i` ends the command when the PDU carries the status. -/
theorem ended_scsiReadDataI : Within (Ended c) (scsiReadDataI c p) := by
  unfold scsiReadDataI
  refine ended_ite _ (ended_scsiFailed c) (ended_bind fun t => ?_)
  split
  · refine ended_bind fun v => ended_ite _ (ended_scsiFailed c) (ended_bind fun _ => ?_)
    refine ended_bind fun ok => ended_ite _ ended_of_same (ended_bind fun _ => ?_)
    refine ended_ite _ ended_of_same (ended_ite _ ended_of_same (ended_bind fun _ => ?_))
    exact ended_bind fun _ => ended_bind fun _ => ended_iscsiDoneI c
  · exact ended_scsiFailed c

theorem ended_nopInI : Within (Ended c) (nopInI (some c) p) := by
  unfold nopInI
  refine ended_ite _ ended_of_same ?_
  split
  · exact ended_of_same
  · unfold pingAnswered
    refine ended_bind fun q => ?_
    split
    · exact ended_of_same
    · exact ended_of_same
    · refine ended_ite _ ended_of_same (ended_bind fun _ => ended_bind fun _ => ?_)
      exact ended_iscsiDoneI c

theorem ended_rejectI : Within (Ended c) (rejectI (some c) p) := by
  unfold rejectI
  split
  · exact ended_of_same
  · exact ended_failed c

/-- The handler of any PDU but an R2T. -/
theorem ended_handleFor (h : iscsiOpcode p.header ≠ opR2t) :
    Within (Ended c) (handleFor env cfg c p) := by
  unfold handleFor
  refine ended_ite _ (ended_scsiResponseI c p) (ended_ite _ (ended_scsiReadDataI c p) ?_)
  rw [if_neg h]
  refine ended_ite _ (ended_nopInI c p) (ended_ite _ (ended_loginResponseI c env cfg p) ?_)
  refine ended_ite _ (ended_textResponseI c env cfg p) (ended_ite _ (ended_logoutResponseI c p) ?_)
  exact ended_ite _ (ended_rejectI c p) ended_of_same

end

/-! ## Phases -/

section Phases

variable {s : Session}

@[simp] theorem wp_setTx (p : TxPhase) {Q : PUnit → Session → Prop} {E : Halt → Session → Prop} :
    wp (setTx p) Q E s ↔ Q ⟨⟩ { s with tx := p } := Iff.rfl

@[simp] theorem wp_setRx (p : RxPhase) {Q : PUnit → Session → Prop} {E : Halt → Session → Prop} :
    wp (setRx p) Q E s ↔ Q ⟨⟩ { s with rx := p } := Iff.rfl

@[simp] theorem wp_txFailure {Q : PUnit → Session → Prop} {E : Halt → Session → Prop} :
    wp txFailure Q E s ↔
      Q ⟨⟩ { s with flags := { s.flags with error := true }, tx := .exited } := Iff.rfl

@[simp] theorem wp_rxFailure {Q : PUnit → Session → Prop} {E : Halt → Session → Prop} :
    wp rxFailure Q E s ↔
      Q ⟨⟩ { s with flags := { s.flags with error := true }, rx := .exited } := Iff.rfl

end Phases

end Ost.Initiator
