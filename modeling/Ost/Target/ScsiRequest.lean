import Ost.Disk.Outcome
import Ost.Target.Requests

/-!
# The SCSI command request

What `scsi_command_t` does to a session.  A command structure is taken from the pool and filled
from the header (`Arrived`); then the command is refused, dropped with the session, or put on
the books and handed to the device (`ScsiEnd`).
-/

namespace Ost.Target

open Ost.Iscsi Ost.Util Ost.Param Ost.Prog Ost.Disk

variable (id c : Nat)

/-! ## Reading what belongs to a command -/

/-- A command but for the AHS and the immediate data. -/
def TargetCmd.core (t : TargetCmd) : TargetCmd :=
  { t with immediate := [], scsiCmd := { t.scsiCmd with
      ahs := [], extCdb := none, bidiTransLen := 0 } }

/-- The AHS or the immediate data of the command `c` were read. -/
def Loads (s s' : Local) : Prop :=
  ∃ rx t, s' = (s.setConn { s.slot.conn with rx }).setCmd c t ∧
    t.core = (s.slot.pool.cmdMem c).core

instance isPreorder_loads : IsPreorder Local (Loads c) where
  refl s := ⟨s.slot.conn.rx, s.slot.pool.cmdMem c, by
    simp [Local.setConn, Local.setCmd, Local.setPool], rfl⟩
  trans := by
    rintro s _ _ ⟨rx, t, rfl, ht⟩ ⟨rx', t', rfl, ht'⟩
    refine ⟨rx', t', by simp [Local.setConn, Local.setCmd, Local.setPool], ht'.trans ?_⟩
    simpa [Local.setCmd, Local.setPool] using ht

instance loads_sockRecv (n : Nat) : Within (Loads c) (sockRecv n) where
  run s := wp_mono (sockRecv_spec n s) (fun _ _ ⟨⟨rx, h⟩, _⟩ =>
    ⟨rx, s.slot.pool.cmdMem c, by rw [h]; simp [Local.setConn, Local.setCmd, Local.setPool], rfl⟩)
    fun _ _ => nofun

theorem loads_modifyCmd {f : TargetCmd → TargetCmd} (hf : ∀ t, (f t).core = t.core) :
    Within (Loads c) (modifyCmd c f) :=
  ⟨fun s => ⟨s.slot.conn.rx, f (s.slot.pool.cmdMem c), rfl, hf _⟩⟩

/-- Whether the segments of an AHS are of types that the target knows. -/
def ahsKnown (mem : Bytes) (len : Nat) : Nat → Nat → Bool
  | 0, _ => false
  | fuel + 1, pos =>
    if len ≤ pos + 1 then true
    else if byte mem (pos + 2) = 1 || byte mem (pos + 2) = 2 then
      ahsKnown mem len fuel (pos + be16 mem pos)
    else false

/-- The array `ahs` with what lies behind it, after `len` bytes have been received into it. -/
def ahsArray (bs : Bytes) (len : Nat) : Bytes :=
  bs ++ List.replicate (configIscsiMaxAhsLen - bs.length) 0 ++ [UInt8.ofNat len]

/-- Whether an AHS of `len` bytes at the front of `rx` is read. -/
def ahsOk (rx : Bytes) (len : Nat) : Bool :=
  len = 0 || pad4 len ≤ rx.length && ahsKnown (ahsArray (rx.take len) len) len (len + 1) 0

section Ahs

instance loads_extCdb (pos : Nat) :
    Within (Loads c) (modifyScsi c fun a => { a with extCdb := some pos }) :=
  loads_modifyCmd c fun _ => rfl

instance loads_bidi (n : Nat) :
    Within (Loads c) (modifyScsi c fun a => { a with bidiTransLen := n }) :=
  loads_modifyCmd c fun _ => rfl

instance loads_ahs (bs : Bytes) : Within (Loads c) (modifyScsi c fun a => { a with ahs := bs }) :=
  loads_modifyCmd c fun _ => rfl

instance loads_immediate (bs : Bytes) :
    Within (Loads c) (modifyCmd c fun t => { t with immediate := bs }) :=
  loads_modifyCmd c fun _ => rfl

instance loads_parseAhs (mem : Bytes) (len fuel pos : Nat) :
    Within (Loads c) (parseAhs c mem len fuel pos) := by
  induction fuel generalizing pos with
  | zero => exact within_halt _
  | succ fuel ih =>
    unfold parseAhs
    infer_instance

/-- The loop over the AHS only looks at the array. -/
theorem parseAhs_spec (mem : Bytes) (len fuel pos : Nat) (s : Local) :
    ensures (parseAhs c mem len fuel pos) (fun ok s' => ok = ahsKnown mem len fuel pos ∧
      s'.slot.conn = s.slot.conn) s := by
  induction fuel generalizing pos s with
  | zero => trivial
  | succ fuel ih =>
    simp only [parseAhs, ensures, wp_ite, wp_pure, wp_bind, wp_modifyScsi, ahsKnown]
    refine ⟨fun h => by simp [h], fun h => ⟨fun h₁ => ?_, fun h₁ => ⟨fun h₂ => ?_, fun h₂ => ?_⟩⟩⟩
    · exact (ih _ _).mono fun _ _ hs => ⟨by simp [h, h₁, hs.1], hs.2⟩
    · exact (ih _ _).mono fun _ _ hs => ⟨by simp [h, h₂, hs.1], hs.2⟩
    · simp [h, h₁, h₂]

/-- The AHS is read when it is all there and its segments are known. -/
theorem readAhs_spec (s : Local) :
    ensures (readAhs c) (fun ok s' =>
      (ok = ahsOk s.slot.conn.rx (s.slot.pool.cmdMem c).scsiCmd.ahsLen ∧
        (pad4 (s.slot.pool.cmdMem c).scsiCmd.ahsLen ≤ s.slot.conn.rx.length →
          Reads (s.slot.pool.cmdMem c).scsiCmd.ahsLen s s')) ∧ Loads c s s') s := by
  refine Within.and_wp (by unfold readAhs; infer_instance) ?_
  simp only [readAhs, wp_bind, wp_getCmd, wp_ite, wp_pure]
  refine ⟨fun h => ⟨by simp [ahsOk, h], fun _ => h ▸ .zero rfl⟩, fun h => ?_⟩
  refine wp_mono (wp_and (sockRecv_spec _ s) (sockRecv_rc _ s)) ?_ fun _ _ h => h.1.elim
  rintro ⟨rc, bs⟩ s₁ ⟨⟨⟨rx, rfl⟩, hbs, hreads⟩, hrc⟩
  dsimp only at hbs hreads hrc
  simp only [wp_guarded, wp_halt, wp_modifyScsi]
  refine ⟨fun _ => trivial, fun _ => ⟨fun hne => ?_, fun he => ?_⟩⟩
  · have hshort := mt hrc.mpr hne
    exact ⟨by simp [ahsOk, h, hshort], fun hp => absurd hp hshort⟩
  · have hrc' := not_not.mp he
    have hp := hrc.mp hrc'
    refine (parseAhs_spec c _ _ _ _ _).mono fun ok s' hahs => ?_
    obtain ⟨hok, hconn⟩ := hahs
    refine ⟨?_, fun _ => ⟨hp, ?_⟩⟩
    · rw [hok, ahsOk, hbs]
      simp [h, hp, ahsArray]
    · rw [hconn]
      exact (hreads hrc').rx

/-- The immediate data are read whole when they are allowed. -/
theorem readImmediate_spec (s : Local) :
    ensures (readImmediate c) (fun ok s' =>
      (ok = true → Reads (s.slot.pool.cmdMem c).scsiCmd.length s s') ∧ Loads c s s') s := by
  refine Within.and_wp ?_ ?_
  · unfold readImmediate
    refine .bind inferInstance fun _ => .bind inferInstance fun _ => ?_
    infer_instance
  simp only [readImmediate, wp_bind, wp_getCmd, wp_getLogin, wp_ite, wp_pure]
  refine ⟨fun h _ => h ▸ .zero rfl, fun _ => ⟨by simp, fun _ => ⟨by simp, fun _ => ?_⟩⟩⟩
  refine wp_mono (sockRecv_spec _ s) ?_ fun _ _ => nofun
  rintro ⟨rc, bs⟩ s₁ ⟨_, _, hreads⟩
  simp only [wp_guarded, wp_halt, wp_modifyCmd]
  refine ⟨fun _ => trivial, fun _ => ⟨fun _ => trivial, fun hrc _ => ?_⟩⟩
  obtain ⟨henough, hrx⟩ := hreads (not_not.mp hrc)
  exact ⟨henough, hrx⟩

end Ahs

/-! ## The books -/

/-- The command is on the books under its tag, or an older one is. -/
inductive Hashed (s s' : Local) : Prop where
  | taken {c' : Nat} (h : s.slot.pool.cmds.get (s.slot.pool.cmdMem c).scsiCmd.tag = some c')
    (hs : s' = s)
  | inserted {t : TagHash Nat}
    (hnone : s.slot.pool.cmds.get (s.slot.pool.cmdMem c).scsiCmd.tag = none)
    (h : s.slot.pool.cmds.insert (s.slot.pool.cmdMem c).scsiCmd.tag c = some t)
    (hs : s' = s.setPool { s.slot.pool with cmds := t })

/-- Putting a command on the books. -/
theorem hashCommand_spec (s : Local) :
    ensures (hashCommand c) (fun ok s' => ok = true ∧ Hashed c s s') s := by
  simp only [hashCommand, ensures, wp_bind, wp_getCmd, wp_getOutstanding]
  refine ⟨fun _ => trivial, fun hn => ?_⟩
  rcases hget : s.slot.pool.cmds.get (s.slot.pool.cmdMem c).scsiCmd.tag with _ | c'
  · rw [wp_insertOutstanding]
    obtain ⟨t, ht⟩ := TagHash.insert_of_none c hget (Nat.pos_of_ne_zero hn)
    refine ⟨fun h => by simp [ht] at h, fun t h => ⟨rfl, .inserted hget h rfl⟩⟩
  · exact ⟨rfl, .taken hget rfl⟩

/-- The command was put in the queue of the device. -/
def Enqueued (s s' : Local) : Prop :=
  ∃ crash q, s.dev.cmdQueue.insert (id, c) = some q ∧
    s' = s.setDev { s.dev with crash, cmdQueue := q }

theorem wp_lunInsert {Q : Bool → Local → Prop} {E : Halt → Local → Prop} {s : Local} :
    wp (lunInsert id c) Q E s ↔
      (s.dev.cmdQueue.insert (id, c) = none → Q false s) ∧
      ∀ q, s.dev.cmdQueue.insert (id, c) = some q →
        Q true (s.setDev { s.dev with cmdQueue := q }) := by
  rw [lunInsert, wp_onDev]
  rcases h : s.dev.cmdQueue.insert (id, c) with _ | q <;> simp [Local.setDev]

/-- The countdown changes nothing else. -/
theorem countDown_spec (s : Local) :
    ensures countDown (fun _ s' => ∃ crash, s' = s.setDev { s.dev with crash }) s := by
  simp only [countDown, ensures, wp_bind, wp_getDev, wp_ite, wp_pure, wp_modifyDev, wp_guarded,
    wp_halt]
  exact ⟨fun _ => ⟨s.dev.crash, rfl⟩, fun _ => ⟨fun _ => trivial, fun _ => ⟨_, rfl⟩⟩⟩

/-- Handing a command to the device. -/
theorem lunEnqueue_spec (s : Local) :
    ensures (lunEnqueue id c) (fun rc s' => rc = 0 ∧ Enqueued id c s s') s := by
  simp only [lunEnqueue, ensures, wp_bind]
  refine (countDown_spec s).mono ?_
  rintro _ _ ⟨crash, rfl⟩
  simp only [wp_lunInsert, wp_guarded, wp_halt, wp_pure]
  exact ⟨fun _ => ⟨by simp, by simp⟩, fun q hq => ⟨by simp, fun _ => ⟨trivial, crash, q, hq, rfl⟩⟩⟩

/-- What becomes of a command that is handed to the device: it waits in the queue, or it is for a
LUN that does not exist and is answered at once. -/
inductive Handed (s s' : Local) : Prop where
  | enqueued (hlun : (s.slot.pool.cmdMem c).scsiCmd.lun < s.dev.cfg.numLuns)
    (h : Enqueued id c s s')
  | answered (hlun : ¬(s.slot.pool.cmdMem c).scsiCmd.lun < s.dev.cfg.numLuns)
    (h : Completed id c TargetCmd.Same s s')

/-- Counting down does not change what becomes of a command. -/
theorem completed_setCrash {M : TargetCmd → TargetCmd → Prop} {s s' : Local} {crash : Int}
    (h : Completed id c M (s.setDev { s.dev with crash }) s') : Completed id c M s s' :=
  have h₀ : Calm s (s.setDev { s.dev with crash }) :=
    .of_eq rfl rfl rfl rfl rfl rfl rfl rfl rfl rfl
  ⟨⟨Trans.trans h₀ h.calm, h.wasOpen, h.closed, h.cmds, h.headerQ, h.cmdQ, h.others, h.cmd,
    h.cmdQueue⟩, h.log⟩

/-- Handing a command to `device_enqueue`. -/
theorem deviceEnqueue_spec (s : Local) :
    ensures (deviceEnqueue id c) (fun rc s' => Handed id c s s' ∧
      ((s.slot.pool.cmdMem c).scsiCmd.lun < s.dev.cfg.numLuns → rc = 0)) s := by
  rw [deviceEnqueue, ensures, wp_bind, wp_getDev, wp_bind, wp_getCmd]
  refine (wp_ite _ _ _).mpr ⟨fun hlun => ?_, fun hlun => ?_⟩
  · exact (lunEnqueue_spec id c s).mono fun _ _ ⟨hrc, h⟩ => ⟨.enqueued hlun h, fun _ => hrc⟩
  · rw [wp_bind]
    refine (countDown_spec s).mono ?_
    rintro _ _ ⟨crash, rfl⟩
    exact (deviceCommand_noLun (s.setDev { s.dev with crash }) hlun).mono fun _ _ h =>
      ⟨.answered hlun (completed_setCrash id c h.2), fun h' => absurd h' hlun⟩

/-! ## Refusing a command -/

/-- A command that is refused is answered with an error, and taken off the books again. -/
theorem scsiError_spec (s : Local) :
    ensures (scsiError c) (fun rc s' =>
      (rc = 0 → Retires c TargetCmd.Same s s' ∧ s'.dev.log = s.dev.log) ∧
      (rc ≠ 0 → Stopped c s s')) s := by
  have hq : Quiet c s (s.setCmd c { s.slot.pool.cmdMem c with
      scsiCmd := { (s.slot.pool.cmdMem c).scsiCmd with status := 2, length := 0 } }) := .setCmd rfl
  rw [scsiError, ensures, wp_bind, wp_modifyScsi]
  refine (deviceCommandDone_spec c _).mono fun rc s' h => ⟨fun hrc => ?_, fun hrc => ?_⟩
  · exact ⟨(Touched.of_quiet hq).retires hq.cmd.trans (h.1 hrc).1, (h.1 hrc).2⟩
  · exact .quiet_trans hq (h.2 hrc)

/-- A command that was completed cannot be refused any more. -/
theorem scsiError_closed {s : Local} (h : (s.slot.pool.cmdMem c).scsiCmd.sendData = true)
    (Q : Int → Local → Prop) : ensures (scsiError c) Q s := by
  simp only [scsiError, deviceCommandDone, ensures, wp_bind, wp_modifyScsi, wp_getCmd]
  refine (wp_ite _ _ _).mpr ⟨fun _ => trivial, fun hopen => absurd ?_ hopen⟩
  simp [Local.setCmd, Local.setPool, h]

/-! ## The request -/

/-- A command structure filled from a header with the index `h`. -/
def arrival (h : Nat) (hdr : Bytes) : TargetCmd :=
  { TargetCmd.zero with header := h, scsiCmd := ScsiCmd.ofPdu (iscsiScsiCmdDecap hdr).2 }

/-- The same once the command goes to the device. -/
def TargetCmd.toDevice (t : TargetCmd) : TargetCmd :=
  { t with scsiCmd := { t.scsiCmd with fromdev := false }, callback := true }

/-- A command structure was taken from the pool and filled.  `t` is what it holds but for the AHS
and the immediate data. -/
structure Arrived (t : TargetCmd) (s s' : Local) : Prop where
  cmdQ : s.slot.pool.cmdQ.remove = some (c, s'.slot.pool.cmdQ)
  headerQ : s'.slot.pool.headerQ = s.slot.pool.headerQ
  cmds : s'.slot.pool.cmds = s.slot.pool.cmds
  others : ∀ c', c' ≠ c → s'.slot.pool.cmdMem c' = s.slot.pool.cmdMem c'
  cmd : (s'.slot.pool.cmdMem c).core = t.core
  dev : s'.dev = s.dev
  login : s'.slot.login = s.slot.login
  phase : s'.slot.phase = s.slot.phase
  waiting : s'.slot.waiting = s.slot.waiting
  nopFlag : s'.nopFlag = s.nopFlag
  input : s'.slot.conn.input = s.slot.conn.input
  sent : s'.slot.conn.sent = s.slot.conn.sent
  statSN : s'.slot.seq.statSN = s.slot.seq.statSN

section Request

variable (h : Nat) (hdr : Bytes)

/-- Why a command was refused, and what was read of it until then. -/
inductive Refusal (s s' : Local) : Prop where
  | header (hrc : (iscsiScsiCmdDecap hdr).1 ≠ 0) (hseq : s'.slot.seq = s.slot.seq)
    (hrx : Keeps unread s s')
  | tooLong (hrc : (iscsiScsiCmdDecap hdr).1 = 0)
    (hseq : s'.slot.seq = { s.slot.seq with expCmdSN := iscsiCmdSN hdr })
    (hlen : SessParams.tooLong s.slot.login.sessParams (iscsiLen hdr) = true)
    (hrx : Keeps unread s s')
  | ahs (hrc : (iscsiScsiCmdDecap hdr).1 = 0)
    (hseq : s'.slot.seq = { s.slot.seq with expCmdSN := iscsiCmdSN hdr })
    (hahs : ahsOk s.slot.conn.rx (byte hdr 4).toNat = false)
    (hrx : pad4 (byte hdr 4).toNat ≤ s.slot.conn.rx.length → Reads (byte hdr 4).toNat s s')

/-- The command was answered with an error, or not even that. -/
inductive Ended (rc : Int) (s s' : Local) : Prop where
  | retired (hrc : rc = 0) (h : Retires c TargetCmd.Same s s') (hlog : s'.dev.log = s.dev.log)
  | stopped (hrc : rc ≠ 0) (h : Stopped c s s')

/-- The command was put on the books and logged. -/
structure Booked (s s' : Local) : Prop where
  hashed : ∃ s₁, Hashed c s s₁ ∧ s' = s₁.setDev { s₁.dev with log := s₁.dev.log ++ [.queued id c] }

/-- How a SCSI command request ends. -/
inductive ScsiEnd (rc : Int) (s s' : Local) : Prop where
  | noCmd (hrc : rc ≠ 0) (hs : s' = s)
  | refused {c : Nat} {s₁ : Local} (ha : Arrived c (arrival h hdr) s s₁) (hwhy : Refusal hdr s s₁)
    (hend : Ended c rc s₁ s')
  | dropped {c : Nat} (hrc : rc ≠ 0) (ha : Arrived c (arrival h hdr).toDevice s s')
  | queued {c : Nat} {s₁ s₂ : Local} (hrc : rc = 0) (hpdu : (iscsiScsiCmdDecap hdr).1 = 0)
    (ha : Arrived c (arrival h hdr).toDevice s s₁)
    (hexp : s₁.slot.seq.expCmdSN = iscsiCmdSN hdr + 1)
    (hmax : s₁.slot.seq.maxCmdSN = s.slot.seq.maxCmdSN + 1)
    (hreads : pad4 (byte hdr 4).toNat + pad4 (iscsiLen hdr) ≤ s.slot.conn.rx.length ∧
      s₁.slot.conn.rx = s.slot.conn.rx.drop (pad4 (byte hdr 4).toNat + pad4 (iscsiLen hdr)))
    (hbooked : Booked id c s₁ s₂) (hend : Handed id c s₂ s')

variable {id c h hdr}

/-- Reading the AHS or the immediate data. -/
theorem Arrived.loads {t : TargetCmd} {s s₁ s₂ : Local} (ha : Arrived c t s s₁)
    (hl : Loads c s₁ s₂) : Arrived c t s s₂ ∧ s₂.slot.seq = s₁.slot.seq := by
  obtain ⟨rx, t', rfl, ht'⟩ := hl
  have hself : ((s₁.setConn { s₁.slot.conn with rx }).setCmd c t').slot.pool.cmdMem c = t' :=
    Function.update_self ..
  refine ⟨⟨ha.cmdQ, ha.headerQ, ha.cmds, fun c' hc => ?_, ?_, ha.dev, ha.login,
    ha.phase, ha.waiting, ha.nopFlag, ha.input, ha.sent, ha.statSN⟩, rfl⟩
  · exact (Function.update_of_ne hc _ _).trans (ha.others c' hc)
  · rw [hself, ht', ha.cmd]

/-- The command goes to the device, and the window moves on. -/
theorem Arrived.toDevice {t : TargetCmd} {s s₁ : Local} {q : SeqNums} (ha : Arrived c t s s₁)
    (hq : q.statSN = s₁.slot.seq.statSN) :
    Arrived c t.toDevice s
      ((s₁.setSeq q).setCmd c (TargetCmd.toDevice ((s₁.setSeq q).slot.pool.cmdMem c))) := by
  refine ⟨ha.cmdQ, ha.headerQ, ha.cmds, fun c' hc => ?_, ?_, ha.dev, ha.login, ha.phase, ha.waiting,
    ha.nopFlag, ha.input, ha.sent, hq.trans ha.statSN⟩
  · exact (Function.update_of_ne hc _ _).trans (ha.others c' hc)
  · have hcmd := ha.cmd
    simp only [Local.setCmd, Local.setPool, Local.setSeq, Function.update_self]
    simp only [TargetCmd.core, TargetCmd.toDevice, TargetCmd.mk.injEq, ScsiCmd.mk.injEq] at hcmd ⊢
    simp [hcmd]

/-- The last part of a SCSI command request. -/
theorem scsiQueue_spec {t : TargetCmd} {s s₁ : Local} (ha : Arrived c t s s₁) :
    ensures (scsiQueue id c) (fun rc s' =>
      rc ≠ 0 ∧ Arrived c t.toDevice s s' ∨
      rc = 0 ∧ ∃ s₂ s₃, Arrived c t.toDevice s s₂ ∧
        s₂.slot.seq.expCmdSN = s₁.slot.seq.expCmdSN + 1 ∧
        s₂.slot.seq.maxCmdSN = s₁.slot.seq.maxCmdSN + 1 ∧ Reads t.scsiCmd.length s₁ s₂ ∧
        Booked id c s₂ s₃ ∧ Handed id c s₃ s') s₁ := by
  rw [scsiQueue, ensures, wp_bind, wp_modifySeq, wp_bind, wp_modifyCmd, wp_bind]
  have h₁ := ha.toDevice (q := { s₁.slot.seq with
    expCmdSN := s₁.slot.seq.expCmdSN + 1, maxCmdSN := s₁.slot.seq.maxCmdSN + 1 }) rfl
  have hlen : t.scsiCmd.length = (s₁.slot.pool.cmdMem c).scsiCmd.length :=
    (congrArg (fun t => t.scsiCmd.length) ha.cmd).symm
  refine (readImmediate_spec c _).mono fun ok s₂ ⟨hreads, hl⟩ => ?_
  obtain ⟨h₂, hseq⟩ := h₁.loads hl
  rcases ok with _ | _
  · exact .inl ⟨by decide, h₂⟩
  have hreads := hreads rfl
  simp only [Local.setCmd, Local.setPool, Local.setSeq, Function.update_self] at hreads hseq
  refine (wp_ite _ _ _).mpr ⟨by simp, fun _ => ?_⟩
  rw [wp_bind]
  refine (hashCommand_spec c s₂).mono ?_
  rintro ok s₃ ⟨rfl, hh⟩
  refine (wp_ite _ _ _).mpr ⟨by simp, fun _ => ?_⟩
  rw [wp_bind, wp_logDev, wp_bind]
  have hb : Booked id c s₂ (s₃.setDev { s₃.dev with log := s₃.dev.log ++ [.queued id c] }) :=
    ⟨s₃, hh, rfl⟩
  refine (deviceEnqueue_spec id c _).mono fun rc s₄ ⟨hhand, hrc⟩ => ?_
  refine (wp_ite _ _ _).mpr ⟨fun hne => ?_, fun _ => ?_⟩
  · cases hhand with
    | enqueued hlun _ => exact absurd (hrc hlun) hne
    | answered _ h => exact scsiError_closed c h.closed _
  · refine .inr ⟨rfl, s₂, _, h₂, by rw [hseq], by rw [hseq], ?_, hb, hhand⟩
    rw [hlen]
    exact ⟨hreads.enough, hreads.rx⟩

/-- What `scsi_command_t` does. -/
theorem scsiCommandT_spec (id h : Nat) (hdr : Bytes) (s : Local) :
    ensures (scsiCommandT id h hdr) (fun rc s' => ScsiEnd id h hdr rc s s') s := by
  rw [scsiCommandT, ensures, wp_bind, wp_takeCmd]
  refine ⟨fun _ => .noCmd (by decide) rfl, fun c q hq => ?_⟩
  dsimp only
  rw [wp_bind, wp_modifyCmd]
  have h₀ : Arrived c (arrival h hdr) s ((s.setPool { s.slot.pool with cmdQ := q }).setCmd c
      { TargetCmd.zero with
        header := h, scsiCmd := ScsiCmd.ofPdu (iscsiScsiCmdDecap hdr).2 }) := by
    refine ⟨hq, rfl, rfl, fun c' hc => Function.update_of_ne hc _ _, ?_, rfl, rfl, rfl, rfl, rfl,
      rfl, rfl, rfl⟩
    simp [Local.setCmd, Local.setPool, arrival]
  have hended {s₁ : Local} (ha : Arrived c (arrival h hdr) s s₁) (hwhy : Refusal hdr s s₁) :
      ensures (scsiError c) (fun rc s' => ScsiEnd id h hdr rc s s') s₁ := by
    refine (scsiError_spec c s₁).mono fun rc s' hend => .refused ha hwhy ?_
    by_cases hrc : rc = 0
    · exact .retired hrc (hend.1 hrc).1 (hend.1 hrc).2
    · exact .stopped hrc (hend.2 hrc)
  refine (wp_ite _ _ _).mpr ⟨fun hrc => hended h₀ (.header hrc rfl rfl), fun hrc => ?_⟩
  have hrc := not_not.mp hrc
  rw [wp_bind, wp_modifySeq, wp_bind, wp_getLogin]
  set s₁ := ((s.setPool { s.slot.pool with cmdQ := q }).setCmd c
      { TargetCmd.zero with
        header := h, scsiCmd := ScsiCmd.ofPdu (iscsiScsiCmdDecap hdr).2 }).setSeq
      { s.slot.seq with expCmdSN := iscsiCmdSN hdr } with hs₁
  have h₁ : Arrived c (arrival h hdr) s s₁ :=
    ⟨h₀.cmdQ, rfl, rfl, h₀.others, h₀.cmd, rfl, rfl, rfl, rfl, rfl, rfl, rfl, rfl⟩
  have hahs : (s₁.slot.pool.cmdMem c).scsiCmd.ahsLen = (byte hdr 4).toNat := by
    simp [hs₁, Local.setCmd, Local.setPool, Local.setSeq, ScsiCmd.ofPdu, iscsiScsiCmdDecap]
  refine (wp_ite _ _ _).mpr ⟨fun hlen => hended h₁ (.tooLong hrc rfl hlen rfl), fun hlen => ?_⟩
  rw [wp_bind]
  refine (readAhs_spec c s₁).mono fun ok s₂ ⟨⟨hok, hreads⟩, hl⟩ => ?_
  rw [hahs] at hok hreads
  obtain ⟨h₂, hseq⟩ := h₁.loads hl
  rcases ok with _ | _
  · exact (wp_ite _ _ _).mpr ⟨fun _ => hended h₂ (.ahs hrc hseq hok.symm fun hp =>
      ⟨hp, (hreads hp).rx⟩), by simp⟩
  refine (wp_ite _ _ _).mpr ⟨by simp, fun _ => ?_⟩
  have hp : pad4 (byte hdr 4).toNat ≤ s.slot.conn.rx.length := by
    by_contra hp
    have h0 : (byte hdr 4).toNat ≠ 0 := by
      intro h0
      rw [h0] at hp
      exact hp (Nat.zero_le _)
    have : ahsOk s₁.slot.conn.rx (byte hdr 4).toNat = false := by
      simp only [ahsOk, h0, decide_false, Bool.false_or, Bool.and_eq_false_iff,
        decide_eq_false_iff_not]
      exact .inl hp
    rw [this] at hok
    exact nomatch hok
  have hread₁ : s₂.slot.conn.rx = s.slot.conn.rx.drop (pad4 (byte hdr 4).toNat) := (hreads hp).rx
  refine (scsiQueue_spec h₂).mono fun rc s' hend => ?_
  rcases hend with ⟨hne, hd⟩ | ⟨hrc', s₃, s₄, h₃, hexp, hmax, hr, hb, hhand⟩
  · exact .dropped hne hd
  · obtain ⟨henough, hrx⟩ := hr
    have hlen' : (arrival h hdr).scsiCmd.length = iscsiLen hdr := rfl
    rw [hlen', hread₁] at henough hrx
    rw [List.length_drop] at henough
    refine .queued hrc' hrc h₃ ?_ ?_ ⟨by omega, ?_⟩ hb hhand
    · exact hexp.trans (congrArg (fun q => q.expCmdSN + 1) hseq)
    · exact hmax.trans (congrArg (fun q => q.maxCmdSN + 1) hseq)
    · rw [hrx, List.drop_drop]

theorem Arrived.still {t : TargetCmd} {s s' : Local} (ha : Arrived c t s s') : Still s s' :=
  ⟨ha.phase, ha.login, ha.nopFlag, ha.input, by rw [ha.dev], .of_eq ha.sent ha.statSN⟩

theorem Ended.calm {rc : Int} {s s' : Local} (he : Ended c rc s s') : Calm s s' := by
  cases he with
  | retired _ h _ => exact h.calm
  | stopped _ h => exact h.calm

theorem Booked.calm {s s' : Local} (hb : Booked id c s s') : Calm s s' := by
  obtain ⟨s₁, hh, rfl⟩ := hb.hashed
  cases hh with
  | taken _ hs => exact hs ▸ .of_eq rfl rfl rfl rfl rfl rfl rfl rfl rfl rfl
  | inserted _ _ hs => exact hs ▸ .of_eq rfl rfl rfl rfl rfl rfl rfl rfl rfl rfl

theorem Enqueued.calm {s s' : Local} (he : Enqueued id c s s') : Calm s s' := by
  obtain ⟨_, _, _, rfl⟩ := he
  exact .of_eq rfl rfl rfl rfl rfl rfl rfl rfl rfl rfl

theorem Handed.calm {s s' : Local} (hh : Handed id c s s') : Calm s s' := by
  cases hh with
  | enqueued _ h => exact h.calm
  | answered _ h => exact h.calm

/-- What a SCSI command request does not change. -/
theorem ScsiEnd.still {rc : Int} {s s' : Local} (he : ScsiEnd id h hdr rc s s') : Still s s' := by
  cases he with
  | noCmd _ hs => exact hs ▸ refl _
  | refused ha _ hend => exact Trans.trans ha.still (Still.of_calm hend.calm)
  | dropped _ ha => exact ha.still
  | queued _ _ ha _ _ _ hb hend =>
    exact Trans.trans ha.still (Still.of_calm (Trans.trans hb.calm hend.calm))

end Request

end Ost.Target
