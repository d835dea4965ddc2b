import Ost.Target.World

/-!
# What the device leaves alone

Two preorders on the state of a handler.  `Calm` says what no program of the device and of
the completion callback changes: the input side of the connection, the login state, the
command window.  It also says how such programs number what they send.  `Quiet c` is
stronger: nothing is completed, and only the command `c` is touched, in the fields that are
not its identity.

Every program below the request handlers moves along one of them, and the instances compose
these facts along the text of the programs.
-/

namespace Ost.Target

open Ost.Iscsi Ost.Util Ost.Param Ost.Prog Ost.Disk

/-! ## Status numbers -/

/-- The StatSN of a PDU that carries one of its own once a session is in the full feature
phase. -/
def statusSN : TargetPdu → Option UInt32
  | .scsiRsp r => some (TargetPdu.scsiRsp r).wireStatSN
  | .taskRsp r => some (TargetPdu.taskRsp r).wireStatSN
  | .nopIn r => some (TargetPdu.nopIn r).wireStatSN
  | .textRsp r => some (TargetPdu.textRsp r).wireStatSN
  | .reject r => some (TargetPdu.reject r).wireStatSN
  | .loginRsp _ | .logoutRsp _ | .r2t _ | .readData _ => none

/-- The status numbers of a list of transmissions. -/
def statusSNs (l : List Sent) : List UInt32 := l.filterMap fun x => statusSN x.pdu

@[simp] theorem statusSNs_append (l l' : List Sent) :
    statusSNs (l ++ l') = statusSNs l ++ statusSNs l' := List.filterMap_append

/-- The numbers of `l` are consecutive from `a` on, and `b` is the next one. -/
inductive Numbered : UInt32 → List UInt32 → UInt32 → Prop where
  | nil (a : UInt32) : Numbered a [] a
  | cons {a b : UInt32} {l : List UInt32} (h : Numbered (a + 1) l b) : Numbered a (a :: l) b

namespace Numbered

variable {a b d : UInt32} {l l' : List UInt32}

/-- Consecutive runs compose. -/
theorem append (h : Numbered a l b) (h' : Numbered b l' d) : Numbered a (l ++ l') d := by
  induction h with
  | nil => exact h'
  | cons _ ih => exact .cons (ih h')

/-- One number. -/
theorem one (a : UInt32) : Numbered a [a] (a + 1) := .cons (.nil _)

end Numbered

/-- A login response that grants the full feature phase. -/
def TargetPdu.grants : TargetPdu → Bool
  | .loginRsp r => r.statusClass = 0 && r.transit && r.nsg = 3
  | _ => false

/-- What was sent continues the numbering of the status PDUs, and grants nothing. -/
def Tallied (s s' : Local) : Prop :=
  ∃ l, s'.slot.conn.sent = s.slot.conn.sent ++ l ∧
    (∀ x ∈ l, TargetPdu.grants x.pdu = false) ∧
    Numbered s.slot.seq.statSN (statusSNs l) s'.slot.seq.statSN

namespace Tallied

/-- Nothing was sent. -/
theorem of_eq {s s' : Local} (hsent : s'.slot.conn.sent = s.slot.conn.sent)
    (hseq : s'.slot.seq.statSN = s.slot.seq.statSN) : Tallied s s' :=
  ⟨[], by simpa using hsent, by simp, by rw [hseq]; exact .nil _⟩

instance instIsPreorder : IsPreorder Local Tallied where
  refl _ := .of_eq rfl rfl
  trans := by
    rintro s₁ s₂ s₃ ⟨l, hl, hg, hn⟩ ⟨l', hl', hg', hn'⟩
    refine ⟨l ++ l', ?_, ?_, ?_⟩
    · rw [hl', hl, List.append_assoc]
    · intro x hx
      rcases List.mem_append.mp hx with hx | hx
      · exact hg x hx
      · exact hg' x hx
    · rw [statusSNs_append]
      exact hn.append hn'

/-- A PDU that carries the current StatSN, and StatSN is advanced. -/
theorem status {s s' : Local} {x : Sent}
    (hsent : s'.slot.conn.sent = s.slot.conn.sent ++ [x]) (hg : TargetPdu.grants x.pdu = false)
    (hsn : statusSN x.pdu = some s.slot.seq.statSN)
    (hseq : s'.slot.seq.statSN = s.slot.seq.statSN + 1) : Tallied s s' := by
  refine ⟨[x], hsent, by simpa using hg, ?_⟩
  rw [hseq, show statusSNs [x] = [s.slot.seq.statSN] by simp [statusSNs, hsn]]
  exact .one _

/-- A PDU without a status number of its own, and StatSN stays. -/
theorem interim {s s' : Local} {x : Sent}
    (hsent : s'.slot.conn.sent = s.slot.conn.sent ++ [x]) (hg : TargetPdu.grants x.pdu = false)
    (hsn : statusSN x.pdu = none) (hseq : s'.slot.seq.statSN = s.slot.seq.statSN) :
    Tallied s s' := by
  refine ⟨[x], hsent, by simpa using hg, ?_⟩
  rw [hseq, show statusSNs [x] = [] by simp [statusSNs, hsn]]
  exact .nil _

end Tallied

/-! ## Calm -/

/-- What no program of the device changes. -/
structure Calm (s s' : Local) : Prop where
  phase : s'.slot.phase = s.slot.phase
  waiting : s'.slot.waiting = s.slot.waiting
  login : s'.slot.login = s.slot.login
  nopFlag : s'.nopFlag = s.nopFlag
  input : s'.slot.conn.input = s.slot.conn.input
  rx : s'.slot.conn.rx = s.slot.conn.rx
  isOpen : s'.slot.conn.isOpen = s.slot.conn.isOpen
  cfg : s'.dev.cfg = s.dev.cfg
  expCmdSN : s'.slot.seq.expCmdSN = s.slot.seq.expCmdSN
  maxCmdSN : s'.slot.seq.maxCmdSN = s.slot.seq.maxCmdSN
  tallied : Tallied s s'

namespace Calm

/-- Nothing happened to the sequence numbers and to what was sent. -/
theorem of_eq {s s' : Local} (hphase : s'.slot.phase = s.slot.phase)
    (hwaiting : s'.slot.waiting = s.slot.waiting) (hlogin : s'.slot.login = s.slot.login)
    (hflag : s'.nopFlag = s.nopFlag) (hinput : s'.slot.conn.input = s.slot.conn.input)
    (hrx : s'.slot.conn.rx = s.slot.conn.rx) (hopen : s'.slot.conn.isOpen = s.slot.conn.isOpen)
    (hcfg : s'.dev.cfg = s.dev.cfg) (hseq : s'.slot.seq = s.slot.seq)
    (hsent : s'.slot.conn.sent = s.slot.conn.sent) : Calm s s' :=
  ⟨hphase, hwaiting, hlogin, hflag, hinput, hrx, hopen, hcfg, by rw [hseq], by rw [hseq],
    .of_eq hsent (by rw [hseq])⟩

/-- A command structure changed. -/
theorem setCmd (s : Local) (c : Nat) (t : TargetCmd) : Calm s (s.setCmd c t) :=
  .of_eq rfl rfl rfl rfl rfl rfl rfl rfl rfl rfl

instance instIsPreorder : IsPreorder Local Calm where
  refl _ := .of_eq rfl rfl rfl rfl rfl rfl rfl rfl rfl rfl
  trans _ _ _ h h' :=
    ⟨h'.phase.trans h.phase, h'.waiting.trans h.waiting, h'.login.trans h.login,
      h'.nopFlag.trans h.nopFlag, h'.input.trans h.input, h'.rx.trans h.rx,
      h'.isOpen.trans h.isOpen, h'.cfg.trans h.cfg, h'.expCmdSN.trans h.expCmdSN,
      h'.maxCmdSN.trans h.maxCmdSN, Trans.trans h.tallied h'.tallied⟩

end Calm

/-- What no SCSI command and no write data change but for the command window and the stream. -/
structure Still (s s' : Local) : Prop where
  phase : s'.slot.phase = s.slot.phase
  login : s'.slot.login = s.slot.login
  nopFlag : s'.nopFlag = s.nopFlag
  input : s'.slot.conn.input = s.slot.conn.input
  cfg : s'.dev.cfg = s.dev.cfg
  tallied : Tallied s s'

namespace Still

theorem of_calm {s s' : Local} (h : Calm s s') : Still s s' :=
  ⟨h.phase, h.login, h.nopFlag, h.input, h.cfg, h.tallied⟩

instance instIsPreorder : IsPreorder Local Still where
  refl _ := ⟨rfl, rfl, rfl, rfl, rfl, refl _⟩
  trans _ _ _ h h' :=
    ⟨h'.phase.trans h.phase, h'.login.trans h.login, h'.nopFlag.trans h.nopFlag,
      h'.input.trans h.input, h'.cfg.trans h.cfg, Trans.trans h.tallied h'.tallied⟩

end Still

/-! ## Quiet -/

/-- What the programs below the request handlers seldom touch in the SCSI part of a command. -/
def ScsiCmd.key (a : ScsiCmd) : UInt32 × Bytes × Nat × Bool × Nat × Nat × Bool :=
  (a.tag, a.cdb, a.lun, a.todev, a.transLen, a.bytesTodev, a.sendData)

/-- What they seldom touch in a command. -/
def TargetCmd.key (t : TargetCmd) :
    (UInt32 × Bytes × Nat × Bool × Nat × Nat × Bool) × Nat × Bool × Bool × Bool × Bytes ×
      List (Nat × Bytes) :=
  (t.scsiCmd.key, t.header, t.callback, t.done, t.ready, t.immediate, t.got)

/-- The fields of a command that make up its identity, and those whose changes are controlled. -/
structure TargetCmd.Kept (t t' : TargetCmd) : Prop where
  tag : t'.scsiCmd.tag = t.scsiCmd.tag
  cdb : t'.scsiCmd.cdb = t.scsiCmd.cdb
  lun : t'.scsiCmd.lun = t.scsiCmd.lun
  todev : t'.scsiCmd.todev = t.scsiCmd.todev
  transLen : byte t.scsiCmd.cdb 0 ≠ opReportLuns → t'.scsiCmd.transLen = t.scsiCmd.transLen
  immediate : t'.immediate = t.immediate
  header : t'.header = t.header
  callback : t'.callback = t.callback
  done : t'.done = t.done
  ready : t.ready = true → t'.ready = true

/-- As `Kept`, and no data arrived either. -/
structure TargetCmd.Same (t t' : TargetCmd) : Prop extends t.Kept t' where
  got : t'.got = t.got
  bytesTodev : t'.scsiCmd.bytesTodev = t.scsiCmd.bytesTodev

namespace TargetCmd

theorem Kept.refl (t : TargetCmd) : t.Kept t :=
  ⟨rfl, rfl, rfl, rfl, fun _ => rfl, rfl, rfl, rfl, rfl, id⟩

theorem Kept.trans {t₁ t₂ t₃ : TargetCmd} (h : t₁.Kept t₂) (h' : t₂.Kept t₃) : t₁.Kept t₃ :=
  ⟨h'.tag.trans h.tag, h'.cdb.trans h.cdb, h'.lun.trans h.lun, h'.todev.trans h.todev,
    fun hop => (h'.transLen (by rwa [h.cdb])).trans (h.transLen hop),
    h'.immediate.trans h.immediate, h'.header.trans h.header,
    h'.callback.trans h.callback, h'.done.trans h.done, fun hr => h'.ready (h.ready hr)⟩

theorem Same.refl (t : TargetCmd) : t.Same t := ⟨.refl t, rfl, rfl⟩

theorem Same.trans {t₁ t₂ t₃ : TargetCmd} (h : t₁.Same t₂) (h' : t₂.Same t₃) : t₁.Same t₃ :=
  ⟨h.toKept.trans h'.toKept, h'.got.trans h.got, h'.bytesTodev.trans h.bytesTodev⟩

theorem Same.of_key {t t' : TargetCmd} (h : t'.key = t.key) : t.Same t' := by
  simp only [key, ScsiCmd.key, Prod.mk.injEq] at h
  obtain ⟨⟨htag, hcdb, hlun, htodev, htrans, hbytes, _⟩, hheader, hcb, hdone, hready, himm, hgot⟩ :=
    h
  exact ⟨⟨htag, hcdb, hlun, htodev, fun _ => htrans, himm, hheader, hcb, hdone,
    fun h => hready ▸ h⟩, hgot, hbytes⟩

end TargetCmd

/-- No command changes hands, and at most the command `c` is touched. -/
structure Quiet (c : Nat) (s s' : Local) : Prop where
  calm : Calm s s'
  headerQ : s'.slot.pool.headerQ = s.slot.pool.headerQ
  cmdQ : s'.slot.pool.cmdQ = s.slot.pool.cmdQ
  cmds : s'.slot.pool.cmds = s.slot.pool.cmds
  others : ∀ c', c' ≠ c → s'.slot.pool.cmdMem c' = s.slot.pool.cmdMem c'
  cmd : (s.slot.pool.cmdMem c).Same (s'.slot.pool.cmdMem c)
  sendData : (s'.slot.pool.cmdMem c).scsiCmd.sendData = (s.slot.pool.cmdMem c).scsiCmd.sendData
  cmdQueue : s'.dev.cmdQueue = s.dev.cmdQueue
  log : s'.dev.log = s.dev.log

namespace Quiet

variable {c : Nat} {s s' : Local}

/-- A change that does not reach the pool, the queue and the log of the device. -/
theorem of_calm (h : Calm s s')
    (hp : s'.slot.pool = s.slot.pool) (hq : s'.dev.cmdQueue = s.dev.cmdQueue)
    (hl : s'.dev.log = s.dev.log) : Quiet c s s' :=
  ⟨h, by rw [hp], by rw [hp], by rw [hp], fun _ _ => by rw [hp],
    by rw [hp]; exact .refl _, by rw [hp], hq, hl⟩

instance instIsPreorder : IsPreorder Local (Quiet c) where
  refl s := of_calm (refl s) rfl rfl rfl
  trans _ _ _ h h' :=
    ⟨Trans.trans h.calm h'.calm, h'.headerQ.trans h.headerQ,
      h'.cmdQ.trans h.cmdQ, h'.cmds.trans h.cmds,
      fun c' hc => (h'.others c' hc).trans (h.others c' hc), h.cmd.trans h'.cmd,
      h'.sendData.trans h.sendData, h'.cmdQueue.trans h.cmdQueue, h'.log.trans h.log⟩

end Quiet

/-! ## The primitive programs -/

section Reads

variable {R : Local → Local → Prop} [IsPreorder Local R]

instance within_getSeq : Within R getSeq := within_gets _

instance within_getLogin : Within R getLogin := within_gets _

instance within_getParams : Within R getParams := within_gets _

instance within_getDev : Within R getDev := within_gets _

instance within_getCmd (c : Nat) : Within R (getCmd c) := within_gets _

instance within_gather (iov : List Iov) (len : Nat) : Within R (gather iov len) := within_gets _

end Reads

section Device

variable (c : Nat)

/-- Work on the device that leaves its configuration, its queue and its log alone. -/
theorem quiet_onDev {α : Type} {f : Device → α × Device} (hcfg : ∀ d, (f d).2.cfg = d.cfg)
    (hq : ∀ d, (f d).2.cmdQueue = d.cmdQueue) (hl : ∀ d, (f d).2.log = d.log) :
    Within (Quiet c) (onDev f) :=
  ⟨fun _ => .of_calm (.of_eq rfl rfl rfl rfl rfl rfl rfl (hcfg _) rfl rfl) rfl (hq _) (hl _)⟩

instance quiet_nextIo : Within (Quiet c) nextIo :=
  quiet_onDev c (fun _ => rfl) (fun _ => rfl) (fun _ => rfl)

/-- A change of the device that leaves its configuration, its queue and its log alone. -/
theorem quiet_modifyDev {f : Device → Device} (hcfg : ∀ d, (f d).cfg = d.cfg)
    (hq : ∀ d, (f d).cmdQueue = d.cmdQueue) (hl : ∀ d, (f d).log = d.log) :
    Within (Quiet c) (modifyDev f) := quiet_onDev c hcfg hq hl

instance quiet_onMem (f : Memory → Memory) : Within (Quiet c) (onMem f) :=
  quiet_modifyDev c (fun _ => rfl) (fun _ => rfl) (fun _ => rfl)

instance quiet_poke (r : Region) (off : Nat) (bs : Bytes) : Within (Quiet c) (poke r off bs) :=
  quiet_onMem c _

instance quiet_takeStaging : Within (Quiet c) takeStaging := by
  unfold takeStaging
  refine quiet_onDev c ?_ ?_ ?_ <;> intro d <;> split <;> rfl

instance quiet_putStaging (v : Iov) : Within (Quiet c) (putStaging v) := by
  unfold putStaging
  refine quiet_onDev c ?_ ?_ ?_ <;> intro d <;> split <;> rfl

instance quiet_putStagings (l : List Iov) : Within (Quiet c) (l.forM putStaging) := by
  induction l with
  | nil => exact within_pure _
  | cons v l ih => exact within_bind (putStaging v) fun _ => l.forM putStaging

/-- A change of the command that is not one of its identity and its data. -/
theorem quiet_modifyCmd {f : TargetCmd → TargetCmd} (hf : ∀ t : TargetCmd, t.Same (f t))
    (hs : ∀ t, (f t).scsiCmd.sendData = t.scsiCmd.sendData) :
    Within (Quiet c) (modifyCmd c f) := by
  refine ⟨fun s => ⟨.of_eq rfl rfl rfl rfl rfl rfl rfl rfl rfl rfl, rfl, rfl, rfl, ?_, ?_, ?_,
    rfl, rfl⟩⟩
  · intro c' hc
    exact Function.update_of_ne hc _ _
  · simpa [Local.setPool] using hf _
  · simpa [Local.setPool] using hs _

/-- A command structure with the same key. -/
theorem Quiet.setCmd {c : Nat} {s : Local} {t : TargetCmd}
    (h : t.key = (s.slot.pool.cmdMem c).key) : Quiet c s (s.setCmd c t) := by
  have hself : (s.setCmd c t).slot.pool.cmdMem c = t := Function.update_self ..
  refine ⟨.of_eq rfl rfl rfl rfl rfl rfl rfl rfl rfl rfl, rfl, rfl, rfl,
    fun c' hc => Function.update_of_ne hc _ _, ?_, ?_, rfl, rfl⟩
  · rw [hself]
    exact .of_key h
  · rw [hself]
    exact congrArg (fun k => k.1.2.2.2.2.2.2) h

/-- A change of fields that are not in the key. -/
theorem quiet_modifyCmd_of_key {f : TargetCmd → TargetCmd} (hf : ∀ t, (f t).key = t.key) :
    Within (Quiet c) (modifyCmd c f) :=
  quiet_modifyCmd c (fun t => .of_key (hf t)) fun t => congrArg (fun k => k.1.2.2.2.2.2.2) (hf t)

/-- A change of fields of the SCSI part that are not in the key. -/
theorem quiet_modifyScsi {f : ScsiCmd → ScsiCmd} (hf : ∀ a, (f a).key = a.key) :
    Within (Quiet c) (modifyScsi c f) :=
  quiet_modifyCmd_of_key c fun t => by simp only [TargetCmd.key, hf]

end Device

/-! ### Sending -/

/-- The state after the transmission of a PDU: it is logged, and otherwise only the lock and the
outcomes of transmissions have changed. -/
structure Sends (p : TargetPdu) (data : Option Bytes) (ok : Bool) (s s' : Local) : Prop where
  state : ∃ d n b, s' = s.setConn { s.slot.conn with
    tx := s.slot.conn.tx.drop n, slock := b, sent := s.slot.conn.sent ++ [⟨p, d, ok⟩] } ∧
    (ok = true → data = some d)
  fails : ok = false → data = none ∨ ¬s.slot.conn.Reliable

section Sending

variable (c : Nat)

theorem sockSend_spec (p : TargetPdu) (data : Option Bytes) (s : Local) :
    wp (sockSend p data) (fun ok s' => Sends p data ok s s') (fun _ _ => False) s := by
  obtain ⟨d, n, hc, hok, hfail⟩ := Conn.send_spec p data s.slot.conn
  exact ⟨⟨d, n, s.slot.conn.slock, by rw [hc], hok⟩, hfail⟩

theorem sendLocked_spec (p : TargetPdu) (data : Option Bytes) (s : Local) :
    wp (sendLocked p data) (fun ok s' => Sends p data ok s s')
      (fun e s' => e = .hang ∧ s' = s) s := by
  simp only [sendLocked, lockSession, unlockSession, wp_bind, wp_get, wp_ite, wp_halt, wp_onConn,
    wp_pure]
  refine ⟨by simp, fun _ => wp_mono (sockSend_spec p data _) ?_ fun _ _ => False.elim⟩
  rintro ok s' ⟨⟨d, n, b, rfl, hd⟩, hfail⟩
  exact ⟨⟨d, n, false, rfl, hd⟩, hfail⟩

theorem sendLeaky_spec (p : TargetPdu) (data : Option Bytes) (s : Local) :
    wp (sendLeaky p data) (fun ok s' => Sends p data ok s s')
      (fun e s' => e = .hang ∧ s' = s) s := by
  simp only [sendLeaky, lockSession, unlockSession, wp_bind, wp_get, wp_ite, wp_halt, wp_onConn,
    wp_pure, wp_guarded]
  refine ⟨by simp, fun _ => wp_mono (sockSend_spec p data _) ?_ fun _ _ => False.elim⟩
  rintro ok s' ⟨⟨d, n, b, rfl, hd⟩, hfail⟩
  exact ⟨fun _ => ⟨⟨d, n, false, rfl, hd⟩, hfail⟩, fun _ => ⟨⟨d, n, b, rfl, hd⟩, hfail⟩⟩

section Tally

variable {p : TargetPdu} {data : Option Bytes} {ok : Bool} {s₀ s s' : Local}

/-- The transmission of a PDU that carries the current StatSN, after StatSN has advanced. -/
theorem Sends.status (h : Sends p data ok s s')
    (hsent : s.slot.conn.sent = s₀.slot.conn.sent) (hg : TargetPdu.grants p = false)
    (hsn : statusSN p = some s₀.slot.seq.statSN)
    (hseq : s.slot.seq.statSN = s₀.slot.seq.statSN + 1) : Tallied s₀ s' := by
  obtain ⟨⟨d, n, b, rfl, _⟩, _⟩ := h
  exact .status (x := ⟨p, d, ok⟩) (by rw [← hsent]; rfl) hg hsn hseq

/-- The transmission of a PDU without a status number of its own. -/
theorem Sends.noStatus (h : Sends p data ok s s')
    (hsent : s.slot.conn.sent = s₀.slot.conn.sent) (hg : TargetPdu.grants p = false)
    (hsn : statusSN p = none) (hseq : s.slot.seq.statSN = s₀.slot.seq.statSN) :
    Tallied s₀ s' := by
  obtain ⟨⟨d, n, b, rfl, _⟩, _⟩ := h
  exact .interim (x := ⟨p, d, ok⟩) (by rw [← hsent]; rfl) hg hsn hseq

end Tally

/-- A PDU without a status number of its own. -/
def TargetPdu.interim (p : TargetPdu) : Prop :=
  statusSN p = none ∧ TargetPdu.grants p = false

/-- The transmission of such a PDU is quiet. -/
theorem Sends.quiet {p : TargetPdu} {data : Option Bytes} {ok : Bool} {s s' : Local}
    (h : Sends p data ok s s') (hp : TargetPdu.interim p) : Quiet c s s' := by
  obtain ⟨⟨d, n, b, rfl, _⟩, _⟩ := h
  exact .of_calm ⟨rfl, rfl, rfl, rfl, rfl, rfl, rfl, rfl, rfl, rfl, .interim rfl hp.2 hp.1 rfl⟩
    rfl rfl rfl

theorem quiet_sendLeaky {p : TargetPdu} (hp : TargetPdu.interim p) (d : Option Bytes) :
    Within (Quiet c) (sendLeaky p d) :=
  ⟨fun s => wp_mono (sendLeaky_spec p d s) (fun _ _ h => h.quiet c hp) fun _ _ _ => trivial⟩

instance quiet_sendR2t (r : R2t) (d : Option Bytes) : Within (Quiet c) (sendLeaky (.r2t r) d) :=
  quiet_sendLeaky c ⟨rfl, rfl⟩ d

instance quiet_sendReadDataPdu (r : ReadData) (d : Option Bytes) :
    Within (Quiet c) (sendLeaky (.readData r) d) :=
  quiet_sendLeaky c ⟨rfl, rfl⟩ d

end Sending

end Ost.Target
