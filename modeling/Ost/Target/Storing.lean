import Ost.Disk.Storing

/-!
# What the requests do to the medium

The handlers of the requests, along the relations of the device.  A SCSI command request takes a
command structure without data (`scsiCommandT_files`) and leaves the medium alone.  Write data are
stored in the blocks that their command addresses (`writeDataReady_stores`).  No other request
comes near the device.
-/

namespace Ost.Target

open Ost.Iscsi Ost.Util Ost.Param Ost.Prog Ost.Disk

variable {id c : Nat} {s s' : Local}

/-! ## SCSI command requests -/

/-- A command is logged when it goes to the device. -/
instance notes_logQueued : Within (Notes id c) (logDev (.queued id c)) where
  run s := by
    rw [ensures, wp_logDev]
    exact fun _ => ⟨rfl, [_], rfl, fun e he => .inl (List.mem_singleton.mp he)⟩

instance ledger_countDown : Within (Keeps ledger) countDown := by
  have hcrash (n : Int) : Within (Keeps ledger) (modifyDev fun d => { d with crash := n }) :=
    ledger_onDev fun _ => ⟨rfl, rfl, rfl⟩
  have hdown : Within (Keeps ledger) (modifyDev fun d => { d with crash := d.crash - 1 }) :=
    ledger_onDev fun _ => ⟨rfl, rfl, rfl⟩
  unfold countDown
  infer_instance

instance ledger_lunEnqueue : Within (Keeps ledger) (lunEnqueue id c) := by
  have hinsert : Within (Keeps ledger) (lunInsert id c) := by
    unfold lunInsert
    refine ledger_onDev fun d => ?_
    rcases d.cmdQueue.insert (id, c) with _ | q
    · exact ⟨rfl, rfl, rfl⟩
    · exact ⟨rfl, rfl, rfl⟩
  unfold lunEnqueue
  infer_instance

/-- A command for a LUN that does not exist leaves the medium alone. -/
theorem deviceCommand_files (hlun : ¬(s.slot.pool.cmdMem c).scsiCmd.lun < s.dev.cfg.numLuns) :
    ensures (deviceCommand id c) (fun _ s' => Notes id c s s') s := by
  have hnotes {x : Handler Int} (hx : Within (Notes id c) x) :
      ensures x (fun _ s' => Notes id c s s') s := hx.run s
  rw [deviceCommand, ensures, wp_bind, wp_getDev, wp_bind, wp_getCmd]
  refine (wp_ite _ _ _).mpr ⟨fun _ => trivial, fun _ => ?_⟩
  refine (wp_ite _ _ _).mpr ⟨fun h => absurd h hlun, fun _ => ?_⟩
  refine (wp_ite _ _ _).mpr ⟨fun _ => hnotes (notes_finishReply (fun m => ?_) _), fun _ => ?_⟩
  · simp [noDeviceReply]
  · have hfromdev : Within (Notes id c) (modifyScsi c fun a => { a with fromdev := false }) :=
      notes_of_ledger (ledger_modifyScsi c fun _ => rfl)
    exact hnotes inferInstance

instance notes_deviceEnqueue : Within (Notes id c) (deviceEnqueue id c) where
  run s := by
    rw [deviceEnqueue, ensures, wp_bind, wp_getDev, wp_bind, wp_getCmd]
    refine (wp_ite _ _ _).mpr ⟨fun _ => (notes_of_ledger ledger_lunEnqueue).run s, fun hlun => ?_⟩
    have hcount : Within (Notes id c) countDown := notes_of_ledger ledger_countDown
    rw [wp_bind]
    refine ensures.mono (hcount.and_wp (countDown_spec s)) ?_
    rintro _ _ ⟨⟨crash, rfl⟩, h⟩
    exact (deviceCommand_files (s := s.setDev { s.dev with crash }) hlun).mono fun _ _ h' =>
      Trans.trans h h'

instance notes_scsiError : Within (Notes id c) (scsiError c) := by
  have hstatus : Within (Notes id c) (modifyScsi c fun a => { a with status := 2, length := 0 }) :=
    notes_of_ledger (ledger_modifyScsi c fun _ => rfl)
  have hdone : Within (Notes id c) (deviceCommandDone c) :=
    notes_of_ledger (ledger_deviceCommandDone c)
  unfold scsiError
  infer_instance

instance notes_parseAhs (mem : Bytes) (len fuel pos : Nat) :
    Within (Notes id c) (parseAhs c mem len fuel pos) := by
  have hextCdb (n : Nat) :
    Within (Notes id c) (modifyScsi c fun a => { a with extCdb := some n }) :=
    notes_of_ledger (ledger_modifyScsi c fun _ => rfl)
  have hbidi (n : Nat) : Within (Notes id c) (modifyScsi c fun a => { a with bidiTransLen := n }) :=
    notes_of_ledger (ledger_modifyScsi c fun _ => rfl)
  induction fuel generalizing pos with
  | zero => exact within_halt _
  | succ fuel ih =>
    unfold parseAhs
    infer_instance

instance notes_sockRecv (n : Nat) : Within (Notes id c) (sockRecv n) :=
  notes_of_ledger (ledger_onConn _)

instance notes_getLogin : Within (Notes id c) getLogin := within_gets _

instance notes_readAhs : Within (Notes id c) (readAhs c) := by
  have hahs (bs : Bytes) : Within (Notes id c) (modifyScsi c fun a => { a with ahs := bs }) :=
    notes_of_ledger (ledger_modifyScsi c fun _ => rfl)
  unfold readAhs
  infer_instance

instance notes_readImmediate : Within (Notes id c) (readImmediate c) := by
  have himmediate (bs : Bytes) : Within (Notes id c) (modifyCmd c fun t =>
      { t with immediate := bs }) := notes_of_ledger (ledger_modifyCmd c fun _ => rfl)
  unfold readImmediate
  refine .bind inferInstance fun _ => .bind inferInstance fun _ => ?_
  infer_instance

instance notes_hashCommand : Within (Notes id c) (hashCommand c) := by
  have hget (tag : UInt32) : Within (Notes id c) (getOutstanding tag) := by
    unfold getOutstanding
    exact .bind (within_gets _) fun _ => inferInstance
  have hinsert (tag : UInt32) : Within (Notes id c) (insertOutstanding tag c) := by
    unfold insertOutstanding
    refine notes_of_ledger (ledger_onPool fun p => ?_)
    rcases p.cmds.insert tag c with _ | q
    · rfl
    · rfl
  unfold hashCommand
  refine .bind inferInstance fun _ => .bind inferInstance fun r => ?_
  rcases r with _ | _
  · infer_instance
  · infer_instance

instance notes_scsiQueue : Within (Notes id c) (scsiQueue id c) := by
  have hnext : Within (Notes id c) (modifySeq fun q =>
      { q with expCmdSN := q.expCmdSN + 1, maxCmdSN := q.maxCmdSN + 1 }) :=
    notes_of_ledger (ledger_modifySeq _)
  have hstart : Within (Notes id c) (modifyCmd c fun t =>
      { t with scsiCmd := { t.scsiCmd with fromdev := false }, callback := true }) :=
    notes_of_ledger (ledger_modifyCmd c fun _ => rfl)
  unfold scsiQueue
  refine .bind hnext fun _ => .bind hstart fun _ => .bind inferInstance fun _ => ?_
  infer_instance

/-- What a SCSI command request does to the data: it takes a structure, and the structure has no
data then. -/
structure Takes (id c : Nat) (s s' : Local) : Prop where
  cmdQ : ∃ q, s.slot.pool.cmdQ.remove = some (c, q)
  media : s'.dev.mem .media = s.dev.mem .media
  cfg : s'.dev.cfg = s.dev.cfg
  others : ∀ c', c' ≠ c →
    TargetCmd.load (s'.slot.pool.cmdMem c') = TargetCmd.load (s.slot.pool.cmdMem c')
  untouched : Untouched (s'.slot.pool.cmdMem c)
  log : ∃ l, s'.dev.log = s.dev.log ++ l ∧ ∀ e ∈ l, Reports id c (s'.slot.pool.cmdMem c) e

/-- What `scsi_command_t` does to the data. -/
theorem scsiCommandT_takes (h : Nat) (hdr : Bytes) (hst : DiskType.staged s.dev.cfg = false) :
    ensures (scsiCommandT id h hdr) (fun _ s' => s' = s ∨ ∃ c, Takes id c s s') s := by
  rw [scsiCommandT, ensures, wp_bind, wp_takeCmd]
  refine ⟨fun _ => .inl rfl, fun c q hq => ?_⟩
  dsimp only
  rw [wp_bind, wp_modifyCmd]
  set s₁ := (s.setPool { s.slot.pool with cmdQ := q }).setCmd c
    { TargetCmd.zero with header := h, scsiCmd := ScsiCmd.ofPdu (iscsiScsiCmdDecap hdr).2 } with hs₁
  have hself : s₁.slot.pool.cmdMem c = { TargetCmd.zero with
      header := h, scsiCmd := ScsiCmd.ofPdu (iscsiScsiCmdDecap hdr).2 } := Function.update_self ..
  have htakes {s' : Local} (hf : Notes id c s₁ s') : Takes id c s s' := by
    have hf := hf hst
    have hload := load_of_shelf hf.shelf
    obtain ⟨l, hl, hall⟩ := hf.log
    refine ⟨⟨q, hq⟩, congrArg (fun f => f.1) hf.shelf, (cfg_of_shelf hf.shelf).trans rfl,
      fun c' hc => ?_, ?_,
      ⟨l, hl, fun e he => (hall e he).congr (hload c)⟩⟩
    · rw [hload c', hs₁, Local.setCmd]
      exact congrArg TargetCmd.load (Function.update_of_ne hc _ _)
    · have h := hload c
      rw [hself] at h
      simp only [TargetCmd.load, TargetCmd.zero, Prod.mk.injEq] at h
      exact ⟨h.2.2.1, h.2.1, h.2.2.2.1, h.2.2.2.2⟩
  have hrun {x : Handler Int} (hx : Within (Notes id c) x) :
      ensures x (fun _ s' => s' = s ∨ ∃ c, Takes id c s s') s₁ :=
    (hx.run s₁).mono fun _ _ hf => .inr ⟨c, htakes hf⟩
  have hseq (a : ScsiCmd) :
    Within (Notes id c) (modifySeq fun q => { q with expCmdSN := a.cmdSN }) :=
    notes_of_ledger (ledger_modifySeq _)
  exact hrun inferInstance

/-! ## Write data -/

/-- A command that takes data: the device has asked for them, and its LUN exists. -/
structure Receives (c : Nat) (s : Local) : Prop where
  aimed : Aimed s.dev.cfg (s.slot.pool.cmdMem c)
  ready : (s.slot.pool.cmdMem c).ready = true
  lun : (s.slot.pool.cmdMem c).scsiCmd.lun < s.dev.cfg.numLuns

/-- The data of the command `c` were stored, and it takes data as before. -/
structure Received (id c : Nat) (s s' : Local) : Prop where
  stores : Stores id c s s'
  log : s'.dev.log = s.dev.log
  receives : Receives c s'

theorem Received.trans {s₁ : Local} (h : Received id c s s₁)
    (hready : (s.slot.pool.cmdMem c).ready = true) (h' : Received id c s₁ s') :
    Received id c s s' :=
  ⟨h.stores.trans h.log (h.receives.ready.trans hready.symm) h'.stores, h'.log.trans h.log,
    h'.receives⟩

/-- Data are stored and added to those of the command. -/
theorem Receives.store {t : TargetCmd} {m : Memory} {ps : List (Nat × Bytes)} (h : Receives c s)
    (hcdb : t.scsiCmd.cdb = (s.slot.pool.cmdMem c).scsiCmd.cdb)
    (hlun : t.scsiCmd.lun = (s.slot.pool.cmdMem c).scsiCmd.lun)
    (hgot : t.got = (s.slot.pool.cmdMem c).got ++ ps)
    (hin : InSpan s.dev.cfg (s.slot.pool.cmdMem c).scsiCmd.cdb ps)
    (hmedia : m .media =
      storeData s.dev.cfg (s.slot.pool.cmdMem c).scsiCmd.cdb ps (s.dev.mem .media))
    (ha : Aimed s.dev.cfg t) (hready : t.ready = true) :
    Received id c s ((s.setDev { s.dev with mem := m }).setCmd c t) := by
  have hself : ((s.setDev { s.dev with mem := m }).setCmd c t).slot.pool.cmdMem c = t :=
    Function.update_self ..
  refine ⟨.of_setCmd hcdb hgot hin hmedia ha, rfl, ⟨?_, ?_, ?_⟩⟩
  · rw [hself]
    exact ha
  · rw [hself, hready]
  · rw [hself, hlun]
    exact h.lun

/-- Changes of the command that its data do not see. -/
theorem Receives.setCmd {t : TargetCmd} (h : Receives c s)
    (hcdb : t.scsiCmd.cdb = (s.slot.pool.cmdMem c).scsiCmd.cdb)
    (hlun : t.scsiCmd.lun = (s.slot.pool.cmdMem c).scsiCmd.lun)
    (hgot : t.got = (s.slot.pool.cmdMem c).got) (ha : Aimed s.dev.cfg t) (hready : t.ready = true) :
    Received id c s (s.setCmd c t) :=
  @Receives.store id c s t s.dev.mem [] h hcdb hlun (hgot.trans (List.append_nil _).symm)
    inSpan_nil storeData_nil.symm ha hready

/-- All data are there. -/
theorem placeDone_received (h : Receives c s) :
    ensures (placeDone (deviceEnqueue id) c) (fun _ s' => Received id c s s') s := by
  rw [placeDone, ensures, wp_bind, wp_modifyCmd, wp_bind]
  set t := { s.slot.pool.cmdMem c with done := true } with ht
  have h₁ : Received id c s (s.setCmd c t) :=
    h.setCmd rfl rfl rfl ⟨h.aimed.buffer, h.aimed.ready, fun _ => h.ready⟩ h.ready
  refine (deviceEnqueue_spec id c _).mono ?_
  rintro rc s₁ ⟨hend, -⟩
  have h₂ : Received id c s s₁ := by
    cases hend with
    | enqueued _ he =>
      obtain ⟨crash, q, _, rfl⟩ := he
      exact ⟨h₁.stores.ledger rfl, h₁.log, h₁.receives.aimed, h₁.receives.ready, h₁.receives.lun⟩
    | answered hlun => exact absurd h₁.receives.lun hlun
  exact (wp_ite _ _ _).mpr ⟨fun _ => h₂, fun _ => h₂⟩

/-- The data of a PDU. -/
theorem devicePlaceData_received {off len : Nat} (h : Receives c s) :
    ensures (devicePlaceData id c off len) (fun rc s' => rc = len → Received id c s s') s := by
  rw [devicePlaceData]
  refine (wp_ite _ _ _).mpr ⟨fun h0 => ?_, fun h0 => ?_⟩
  · exact (placeDone_received h).mono fun _ _ h _ => h
  rw [wp_bind, wp_getCmd]
  rcases hiov : modifyIov (s.slot.pool.cmdMem c).scatterList off len with _ | iov
  · intro hrc
    omega
  dsimp only
  rw [wp_bind]
  refine wp_mono (sockRecv_spec len s) ?_ fun _ _ h => by cases h
  rintro ⟨rc, bs⟩ _ ⟨⟨rx, rfl⟩, hbs, -⟩
  obtain rfl : bs = s.slot.conn.rx.take len := hbs
  set bs := s.slot.conn.rx.take len with hbs
  set s₁ := s.setConn { s.slot.conn with rx } with hs₁
  have h₁ : Receives c s₁ := ⟨h.aimed, h.ready, h.lun⟩
  obtain ⟨v, hlist, hv⟩ := h.aimed.buffer.resolve_left fun hnil => h.aimed.ready h.ready hnil.1
  rw [hlist, modifyIov_singleton hv.len_lt] at hiov
  split at hiov
  swap
  · exact absurd hiov.symm (Option.some_ne_none _)
  rename_i hfits
  obtain rfl := Option.some.inj hiov
  have hlen : bs.length ≤ len := List.length_take_le _ _
  obtain ⟨hmedia, hin⟩ := @Buffer.write _ _ bs v off hv (by omega) s.dev.mem
  have hreceived := @Receives.store id c s₁
    { s.slot.pool.cmdMem c with got := (s.slot.pool.cmdMem c).got ++ [(off, bs)] }
    _ _ h₁ rfl rfl rfl hin hmedia ⟨.inr ⟨v, hlist, hv⟩, h.aimed.ready, h.aimed.done⟩ h.ready
  simp only [poke, onMem, wp_bind, wp_modifyDev, wp_modifyCmd, wp_guarded, wp_halt, wp_pure]
  exact ⟨fun _ => trivial, fun _ hrc =>
    ⟨@Stores.of_front id c s s₁ _ rfl hreceived.stores, hreceived.log, hreceived.receives⟩⟩

instance ledger_sendBurstR2t : Within (Keeps ledger) (sendBurstR2t c) := by
  have hflag : Within (Keeps ledger) (modifyCmd c fun t => { t with r2tFlag := true }) :=
    ledger_modifyCmd c fun _ => rfl
  unfold sendBurstR2t
  refine .bind inferInstance fun _ => .bind inferInstance fun _ => ?_
  infer_instance

/-- Taking the data of a PDU. -/
theorem placeWriteData_stores {data : WriteData} (h : Receives c s) :
    ensures (placeWriteData id c data)
    (fun _ s' => Stores id c s s' ∧ s'.dev.log = s.dev.log) s := by
  rw [placeWriteData, ensures, wp_bind]
  refine (devicePlaceData_received h).mono fun rc s₁ h₁ => ?_
  rw [wp_bind, wp_guarded]
  refine ⟨fun _ => trivial, fun hrc => ?_⟩
  have h₁ := h₁ (not_not.mp hrc)
  rw [wp_bind, wp_modifyScsi, wp_bind, wp_getCmd]
  set t := { s₁.slot.pool.cmdMem c with scsiCmd := { (s₁.slot.pool.cmdMem c).scsiCmd with
    bytesTodev := w32 ((s₁.slot.pool.cmdMem c).scsiCmd.bytesTodev + data.length) } } with ht
  have ha := h₁.receives.aimed
  have h₂ : Received id c s (s₁.setCmd c t) := h₁.trans h.ready
    (h₁.receives.setCmd rfl rfl rfl ⟨ha.buffer, ha.ready, ha.done⟩ h₁.receives.ready)
  refine (wp_ite _ _ _).mpr ⟨fun _ => ?_, fun _ => ?_⟩
  · rw [wp_bind]
    refine (placeDone_received h₂.receives).mono fun rc s₂ h₃ => ?_
    have h₁₃ := h₂.trans h.ready h₃
    exact (wp_ite _ _ _).mpr ⟨fun _ => ⟨h₁₃.stores, h₁₃.log⟩, fun _ => ⟨h₁₃.stores, h₁₃.log⟩⟩
  · exact (ledger_sendBurstR2t.run _).mono fun _ _ hk =>
      ⟨h₂.stores.ledger hk, (congrArg Prod.snd hk).trans h₂.log⟩

/-- What `execute_t` does to the data with a `WRITE_DATA` PDU for a command that is ready. -/
theorem writeDataReady_stores {hdr : Bytes} (h : Receives c s) :
    ensures (writeDataReady id hdr c)
      (fun _ s' => Stores id c s s' ∧ s'.dev.log = s.dev.log) s := by
  have hkeeps {s₁ : Local} (hk : Keeps ledger s s₁) : Stores id c s s₁ ∧ s₁.dev.log = s.dev.log :=
    ⟨.of_filing (.of_ledger hk) h.aimed, congrArg Prod.snd hk⟩
  have hrefuse : ensures (refuseData c)
      (fun _ s' => Stores id c s s' ∧ s'.dev.log = s.dev.log) s := by
    have hstatus : Within (Keeps ledger) (modifyScsi c fun a => { a with status := 2 }) :=
      ledger_modifyScsi c fun _ => rfl
    have hrefuse : Within (Keeps ledger) (refuseData c) := by
      unfold refuseData
      infer_instance
    exact (hrefuse.run s).mono fun _ _ hk => hkeeps hk
  rw [writeDataReady, ensures]
  dsimp only
  rw [wp_bind, wp_getCmd, wp_bind, wp_getLogin]
  refine (wp_ite _ _ _).mpr ⟨fun _ => hrefuse, fun _ => ?_⟩
  refine (wp_ite _ _ _).mpr ⟨fun _ => hrefuse, fun hfits => ?_⟩
  refine (wp_ite _ _ _).mpr ⟨fun _ => hrefuse, fun _ => ?_⟩
  have hreject (bad : Bool) : Within (Keeps aside) (rejectTag hdr bad) := by
    unfold rejectTag
    infer_instance
  rw [wp_bind]
  refine ((hreject _).run s).mono fun ok s₁ hk => ?_
  have hpool : s₁.slot.pool = s.slot.pool := congrArg (fun a => a.1) hk
  have hdev : s₁.dev = s.dev := congrArg (fun a => a.2.1) hk
  have hk : Keeps ledger s s₁ := by rw [Keeps, ledger, ledger, shelf, shelf, hpool, hdev]
  refine (wp_ite _ _ _).mpr ⟨fun _ => hkeeps hk, fun _ => ?_⟩
  refine (wp_ite _ _ _).mpr ⟨fun _ => hkeeps hk, fun _ => ?_⟩
  have h₁ : Receives c s₁ := by
    refine ⟨?_, ?_, ?_⟩
    · rw [hpool, hdev]
      exact h.aimed
    · rw [hpool]
      exact h.ready
    · rw [hpool, hdev]
      exact h.lun
  exact (placeWriteData_stores h₁).mono fun _ _ h₂ =>
    ⟨.of_front (front_of_ledger hk) h₂.1, h₂.2.trans (congrArg Prod.snd hk)⟩

end Ost.Target
