import Ost.Disk.Completion

/-!
# What becomes of a command

`prepare_write`, `device_command` and the LUN worker, each described by the three ways a
command can come out of it (`DeviceEnd`): completed, waiting for data, or failed without an
answer.  The last happens to writes only, and `WriteFails` says when.
-/

namespace Ost.Disk

open Ost.Iscsi Ost.Util Ost.Param Ost.Prog Ost.Target

variable (id c : Nat)

/-! ## Asking for data -/

/-- The R2T loop fails only when a transmission does. -/
theorem sendR2ts_spec (fuel transferred remaining : Nat) (s : Local) :
    ensures (sendR2ts c fuel transferred remaining)
      (fun ok _ => ok = false → ¬s.slot.conn.Reliable) s := by
  induction fuel generalizing transferred remaining s with
  | zero => trivial
  | succ fuel ih =>
    simp only [sendR2ts, ensures, wp_ite, wp_pure, wp_bind, wp_getCmd, wp_getLogin, wp_getSeq]
    refine ⟨by simp, fun _ => ?_⟩
    refine wp_mono (sendLeaky_spec _ _ s) (fun ok s₁ h₁ => ?_) fun _ _ _ => trivial
    rcases ok with _ | _
    · exact ⟨fun _ _ => (h₁.fails rfl).resolve_left (by simp), by simp⟩
    refine ⟨by simp, fun _ => ?_⟩
    simp only [wp_modifyCmd]
    refine (ih _ _ _).mono fun ok _ hok hfalse hrel => hok hfalse ?_
    obtain ⟨⟨d, n, b, rfl, _⟩, _⟩ := h₁
    exact ⟨hrel.1, fun b hb => hrel.2 b (List.mem_of_mem_drop hb)⟩

/-- Asking for the data fails only when a transmission does. -/
theorem requestData_spec (s : Local) :
    ensures (requestData c) (fun ok s' => (ok = false → ¬s.slot.conn.Reliable) ∧ Quiet c s s')
      s := by
  refine (quiet_requestData c).and_wp ?_
  simp only [requestData, wp_bind, wp_getCmd, wp_getLogin, wp_ite, wp_get, wp_pure]
  exact ⟨fun _ => sendR2ts_spec c _ _ _ s, by simp⟩

instance quiet_ready : Within (Quiet c) (modifyCmd c fun t => { t with ready := true }) :=
  quiet_modifyCmd c
    (fun _ => ⟨⟨rfl, rfl, rfl, rfl, fun _ => rfl, rfl, rfl, rfl, rfl, fun _ => rfl⟩, rfl, rfl⟩)
    fun _ => rfl

/-- `target_transfer_data` when data are missing: the command becomes ready for them, unless a
transmission fails. -/
theorem targetTransferData_spec (enqueue : Nat → Handler Int) (s : Local)
    (h : sub32 (s.slot.pool.cmdMem c).scsiCmd.transLen
      (s.slot.pool.cmdMem c).scsiCmd.bytesTodev ≠ 0) :
    ensures (targetTransferData enqueue c) (fun rc s' =>
      (rc = 0 → (s'.slot.pool.cmdMem c).ready = true) ∧
      (rc ≠ 0 → ¬s.slot.conn.Reliable) ∧ Quiet c s s') s := by
  simp only [targetTransferData, ensures, wp_bind, wp_getCmd, if_neg h]
  refine (requestData_spec c s).mono fun ok s₁ hreq => ?_
  obtain ⟨hok, h₁⟩ := hreq
  rcases ok with _ | _
  · exact ⟨by simp, fun _ => hok rfl, h₁⟩
  · simp only [Bool.not_true, Bool.false_eq_true, if_false, wp_bind, wp_modifyCmd, wp_pure]
    refine ⟨fun _ => ?_, by simp, Trans.trans h₁ ((quiet_ready c).run s₁)⟩
    simp [Local.setCmd, Local.setPool]

/-! ## Preparing a write -/

/-- The copy of the immediate data. -/
theorem copyImmediate_spec (s : Local) (hop : Copies (s.slot.pool.cmdMem c).scsiCmd.cdb) :
    ensures (copyImmediate c) (fun _ s' => Touched c s s' ∧ s'.slot.conn = s.slot.conn ∧
      s'.dev.io = s.dev.io) s := by
  simp only [copyImmediate, poke, onMem, ensures, wp_bind, wp_getCmd, wp_modifyDev, wp_guarded,
    wp_halt, wp_modifyCmd]
  refine ⟨fun _ => trivial,
    fun _ => ⟨⟨.of_eq rfl rfl rfl rfl rfl rfl rfl rfl rfl rfl, rfl, rfl, rfl,
    fun c' hc => Function.update_of_ne hc _ _, ?_, ?_, rfl, rfl⟩, rfl, rfl⟩⟩
  · simp only [Local.setCmd, Local.setDev, Local.setPool, Function.update_self]
    exact ⟨⟨rfl, rfl, rfl, rfl, fun _ => rfl, rfl, rfl, rfl, rfl, id⟩, .inr ⟨hop, rfl, rfl⟩⟩
  · simp [Local.setCmd, Local.setDev, Local.setPool]

/-- What `prepare_write` does from the label `transfer` on. -/
theorem prepareTransfer_spec (s : Local) (hop : Copies (s.slot.pool.cmdMem c).scsiCmd.cdb) :
    ensures (prepareTransfer id c) (fun rc s' =>
      Completed id c Moved s s' ∨
      rc = 0 ∧ Touched c s s' ∧ (s'.slot.pool.cmdMem c).ready = true ∨
      rc ≠ 0 ∧ Touched c s s' ∧ (¬s.slot.conn.Reliable ∨
        byte (s.slot.pool.cmdMem c).scsiCmd.cdb 0 = opTracingSet ∧ s.dev.io.head? = some false))
      s := by
  simp only [prepareTransfer, ensures, wp_bind]
  refine (copyImmediate_spec c s hop).mono fun _ s₁ hcopy => ?_
  obtain ⟨h₁, hconn, hio⟩ := hcopy
  simp only [wp_bind, wp_getCmd, wp_ite, wp_pure]
  refine ⟨fun hmore => ?_, fun _ => ?_⟩
  · refine (targetTransferData_spec c (lunEnqueue id) s₁ ?_).mono ?_
    · simpa using (Bool.and_eq_true_iff.mp hmore).2
    rintro rc s₂ ⟨hready, hfail, h₂⟩
    have h₁₂ := h₁.trans_quiet h₂
    refine ⟨fun hrc => .inr (.inr ⟨by decide, h₁₂, .inl ?_⟩), fun hrc => .inr (.inl ?_)⟩
    · exact hconn ▸ hfail hrc
    · exact ⟨trivial, h₁₂, hready (not_not.mp hrc)⟩
  · refine (commandDone_spec id c s₁).mono fun rc s₂ h₂ => ?_
    rcases h₂ with h₂ | ⟨hrc, h₂, hset, _, hhead⟩
    · exact ⟨fun _ => .inl (h₁.completed h₂), fun _ => .inl (h₁.completed h₂)⟩
    · refine ⟨fun _ => .inr (.inr ⟨by decide, h₁.trans_quiet h₂, .inr ⟨?_, ?_⟩⟩),
        fun h => absurd hrc h⟩
      · rw [← h₁.cmd.cdb]
        exact hset
      · rw [← hio]
        exact hhead

/-- There is no staging buffer for a write, or none that is large enough. -/
def NoSpace (d : Device) (len : Nat) : Prop :=
  DiskType.staged d.cfg = true ∧
    (d.stagingQ.remove = none ∨ len * d.cfg.blockLen > configDiskMaxBurst)

/-- What `write_allocate_space` leaves alone besides. -/
def connAndLength (s : Local) : Conn × Nat := (s.slot.conn, (s.slot.pool.cmdMem c).scsiCmd.length)

theorem keeps_modifyCmd {f : TargetCmd → TargetCmd}
    (hf : ∀ t, (f t).scsiCmd.length = t.scsiCmd.length) :
    Within (Keeps (connAndLength c)) (modifyCmd c f) :=
  ⟨fun s => by simp [Keeps, connAndLength, Local.setCmd, Local.setPool, hf]⟩

theorem keeps_onDev {α : Type} (f : Device → α × Device) :
    Within (Keeps (connAndLength c)) (onDev f) := ⟨fun _ => rfl⟩

instance keeps_writeAllocateSpace (lba len : Nat) :
    Within (Keeps (connAndLength c)) (writeAllocateSpace c lba len) := by
  have hprivate : Within (Keeps (connAndLength c))
      (modifyScsi c fun a => { a with lba, len }) := keeps_modifyCmd c fun _ => rfl
  have htype (type : MemType) : Within (Keeps (connAndLength c))
      (modifyCmd c fun t => { t with scatterType := type }) := keeps_modifyCmd c fun _ => rfl
  have hio : Within (Keeps (connAndLength c)) nextIo := keeps_onDev c _
  have hstaging : Within (Keeps (connAndLength c)) takeStaging := keeps_onDev c _
  unfold writeAllocateSpace
  dsimp only
  refine .bind inferInstance fun d => ?_
  split
  · infer_instance
  · split
    · refine .bind inferInstance fun i => ?_
      split <;> infer_instance
    · infer_instance

/-- `write_allocate_space` fails only for want of a staging buffer. -/
theorem writeAllocateSpace_spec (lba len : Nat) (s : Local) :
    ensures (writeAllocateSpace c lba len) (fun r s' => ((r = none → NoSpace s.dev len) ∧
      Quiet c s s') ∧ connAndLength c s' = connAndLength c s) s := by
  refine (keeps_writeAllocateSpace c lba len).and_wp ?_
  refine (quiet_writeAllocateSpace c lba len).and_wp ?_
  simp only [writeAllocateSpace, wp_bind, wp_getDev, wp_ite, wp_modifyScsi, wp_pure, nextIo,
    takeStaging, wp_onDev, wp_halt, wp_modifyCmd]
  refine ⟨by simp, fun _ => ⟨fun hst => ?_, by simp⟩⟩
  split
  · rename_i h
    refine fun _ => ⟨hst, .inl ?_⟩
    cases hr : s.dev.stagingQ.remove <;> simp_all
  · simp only [wp_bind, wp_modifyCmd, wp_ite, wp_modifyScsi, wp_pure]
    exact ⟨fun hlen _ => ⟨hst, .inr hlen⟩, by simp⟩

/-- What `prepare_write` does. -/
theorem prepareWrite_spec (lba len : Nat) (s : Local)
    (hop : Copies (s.slot.pool.cmdMem c).scsiCmd.cdb) :
    ensures (prepareWrite id c lba len) (fun rc s' =>
      Completed id c Moved s s' ∨
      rc = 0 ∧ Touched c s s' ∧ (s'.slot.pool.cmdMem c).ready = true ∨
      rc ≠ 0 ∧ Touched c s s' ∧ (byte (s.slot.pool.cmdMem c).scsiCmd.cdb 0 ≠ opTracingSet →
        ¬s.slot.conn.Reliable ∨ pastEnd s.dev.cfg lba len = true ∨ NoSpace s.dev len)) s := by
  -- the buffer list is set, and the rest is `prepareTransfer`
  have htransfer (s₁ : Local) (l : List Iov) (h₁ : Quiet c s s₁)
      (hk : connAndLength c s₁ = connAndLength c s) :
      ensures (prepareTransfer id c) (fun rc s' =>
        Completed id c Moved s s' ∨
        rc = 0 ∧ Touched c s s' ∧ (s'.slot.pool.cmdMem c).ready = true ∨
        rc ≠ 0 ∧ Touched c s s' ∧ (byte (s.slot.pool.cmdMem c).scsiCmd.cdb 0 ≠ opTracingSet →
          ¬s.slot.conn.Reliable ∨ pastEnd s.dev.cfg lba len = true ∨ NoSpace s.dev len))
        (s₁.setCmd c { s₁.slot.pool.cmdMem c with scatterList := l }) := by
    have h₂ : Quiet c s (s₁.setCmd c { s₁.slot.pool.cmdMem c with scatterList := l }) :=
      Trans.trans h₁ (Quiet.setCmd rfl)
    have hlen : ((s₁.setCmd c { s₁.slot.pool.cmdMem c with
        scatterList := l }).slot.pool.cmdMem c).scsiCmd.length =
        (s.slot.pool.cmdMem c).scsiCmd.length := by
      rw [← (Prod.mk.inj hk).2]
      simp [Local.setCmd, Local.setPool]
    have hconn : s₁.slot.conn = s.slot.conn := (Prod.mk.inj hk).1
    refine (prepareTransfer_spec id c _ (by rwa [h₂.cmd.cdb])).mono ?_
    rintro rc s₃ (h₃ | ⟨hrc, h₃, hready⟩ | ⟨hrc, h₃, hwhy⟩)
    · exact .inl ((Touched.of_quiet h₂).completed_of (fun ht => ht.same_trans h₂.cmd hlen) h₃)
    · exact .inr (.inl ⟨hrc, h₃.quiet_trans h₂ hlen, hready⟩)
    · refine .inr (.inr ⟨hrc, h₃.quiet_trans h₂ hlen, fun hset => .inl ?_⟩)
      rw [← hconn]
      refine hwhy.resolve_right fun h => hset ?_
      rw [← h₂.cmd.cdb]
      exact h.1
  simp only [prepareWrite, ensures, wp_bind, wp_getDev, wp_getCmd, wp_ite, wp_pure, wp_modifyCmd]
  refine ⟨fun _ => htransfer s _ (refl s) rfl, fun _ => ⟨fun hpast => ?_, fun _ => ?_⟩⟩
  · exact .inr (.inr ⟨by decide, .of_quiet (refl s), fun _ => .inr (.inl hpast)⟩)
  refine (writeAllocateSpace_spec c lba len s).mono fun r s₁ halloc => ?_
  obtain ⟨⟨hnone, h₁⟩, hk⟩ := halloc
  rcases r with _ | v
  · exact .inr (.inr ⟨by decide, .of_quiet h₁, fun _ => .inr (.inr (hnone rfl))⟩)
  · exact htransfer s₁ _ h₁ hk

/-! ## Interpreting a command -/

/-- The blocks a write addresses: first block and number of blocks. -/
def writeRange (cdb : Bytes) : Option (Nat × Nat) :=
  if byte cdb 0 = opWrite6 then some (lba6 cdb, len6 cdb)
  else if byte cdb 0 = opWrite10 then some (lba10 cdb, len10 cdb)
  else none

/-- The blocks a read addresses: first block and number of blocks. -/
def readRange (cdb : Bytes) : Option (Nat × Nat) :=
  if byte cdb 0 = opRead6 then some (lba6 cdb, len6 cdb)
  else if byte cdb 0 = opRead10 then some (lba10 cdb, len10 cdb)
  else none

/-- When a write is not answered: it runs past the end of the medium, there is no space for its
data, or a request for its data cannot be sent. -/
def WriteFails (s : Local) : Prop :=
  ∃ lba len, writeRange (s.slot.pool.cmdMem c).scsiCmd.cdb = some (lba, len) ∧
    (¬s.slot.conn.Reliable ∨ pastEnd s.dev.cfg lba len = true ∨ NoSpace s.dev len)

/-- What can become of a command that the device interprets. -/
inductive DeviceEnd (s s' : Local) : Prop where
  | completed (h : Completed id c Moved s s')
  | pending (h : Touched c s s') (hop : Copies (s.slot.pool.cmdMem c).scsiCmd.cdb)
    (hready : (s'.slot.pool.cmdMem c).ready = true)
  | failed (h : Touched c s s') (why : WriteFails c s)

variable {id c}

/-- A reply completes the command, but where a new trace file is opened. -/
theorem finish_spec {s : Local} (h : byte (s.slot.pool.cmdMem c).scsiCmd.cdb 0 ≠ opTracingSet ∨
      (s.slot.pool.cmdMem c).scsiCmd.status ≠ 0) :
    ensures (finish id c) (fun _ s' => Completed id c TargetCmd.Same s s') s := by
  have hdone (s₁ : Local) (h₁ : Quiet c s s₁)
      (hst : (s₁.slot.pool.cmdMem c).scsiCmd.status = (s.slot.pool.cmdMem c).scsiCmd.status) :
      ensures (commandDone id c) (fun _ s' => Completed id c TargetCmd.Same s s') s₁ := by
    refine (commandDone_spec id c s₁).mono ?_
    rintro _ s₂ (h₂ | ⟨_, _, hset, hst₀, _⟩)
    · exact .quiet_trans h₁ h₂
    · rw [h₁.cmd.cdb] at hset
      rw [hst] at hst₀
      exact (h.elim (· hset) (· hst₀)).elim
  simp only [finish, ensures, wp_bind, wp_getCmd, wp_guarded, wp_modifyCmd]
  refine ⟨fun _ => hdone _ (.setCmd rfl) ?_,
    fun _ => hdone s (refl s) rfl⟩
  simp [Local.setCmd, Local.setPool]

/-- An answer without data completes the command, but where a new trace file is opened. -/
theorem finishWith_spec {s : Local} {status : UInt8}
    (h : byte (s.slot.pool.cmdMem c).scsiCmd.cdb 0 ≠ opTracingSet ∨ status ≠ 0) :
    ensures (finishWith id c status) (fun _ s' => Completed id c TargetCmd.Same s s') s := by
  have hq : Quiet c s (s.setCmd c { s.slot.pool.cmdMem c with
      scsiCmd := { (s.slot.pool.cmdMem c).scsiCmd with status, length := 0 } }) := .setCmd rfl
  simp only [finishWith, ensures, wp_bind, wp_modifyScsi]
  refine (finish_spec ?_).mono fun _ _ => .quiet_trans hq
  simpa [Local.setCmd, Local.setPool] using h

/-- A quiet program before a reply. -/
theorem finish_of_quiet {s s₁ : Local} (h₁ : Quiet c s s₁)
    (h : byte (s.slot.pool.cmdMem c).scsiCmd.cdb 0 ≠ opTracingSet) :
    ensures (finish id c) (fun _ s' => Completed id c TargetCmd.Same s s') s₁ :=
  (finish_spec (.inl (by rwa [h₁.cmd.cdb]))).mono fun _ _ => .quiet_trans h₁

/-- A reply from the array `data` completes the command. -/
theorem finishReply_spec {s : Local} {reply : Memory → Memory} {length : Nat}
    (h : byte (s.slot.pool.cmdMem c).scsiCmd.cdb 0 ≠ opTracingSet) :
    ensures (finishReply id c reply length) (fun _ s' => Completed id c TargetCmd.Same s s') s := by
  have hq : Within (Quiet c) (do
      onMem reply
      modifyScsi c fun a => { a with fromdev := true, status := 0, length }) :=
    .bind inferInstance fun _ => quiet_modifyScsi c fun _ => rfl
  exact finish_of_quiet (hq.run s) h

/-- A read that succeeds completes the command. -/
theorem commandDone_of_quiet {s s₁ : Local} (h₁ : Quiet c s s₁)
    (h : byte (s.slot.pool.cmdMem c).scsiCmd.cdb 0 ≠ opTracingSet) :
    ensures (commandDone id c) (fun _ s' => Completed id c TargetCmd.Same s s') s₁ := by
  refine (commandDone_spec id c s₁).mono ?_
  rintro _ s₂ (h₂ | ⟨_, _, hset, _⟩)
  · exact .quiet_trans h₁ h₂
  · rw [h₁.cmd.cdb] at hset
    exact absurd hset h

theorem DeviceEnd.trans_quiet {s s' s'' : Local} (h : DeviceEnd id c s s') (h' : Quiet c s' s'') :
    DeviceEnd id c s s'' := by
  cases h with
  | completed h => exact .completed (h.trans_quiet h' fun h => h.trans_same)
  | pending h hop hready => exact .pending (h.trans_quiet h') hop (h'.cmd.ready hready)
  | failed h why => exact .failed (h.trans_quiet h') why

/-- Before the copy of the immediate data, fields that are neither in the key nor the length of
the data may change. -/
theorem DeviceEnd.setCmd_trans {s s' : Local} {t : TargetCmd}
    (hk : t.key = (s.slot.pool.cmdMem c).key)
    (hl : t.scsiCmd.length = (s.slot.pool.cmdMem c).scsiCmd.length)
    (h : DeviceEnd id c (s.setCmd c t) s') : DeviceEnd id c s s' := by
  have hq : Quiet c s (s.setCmd c t) := .setCmd hk
  have hself : (s.setCmd c t).slot.pool.cmdMem c = t := Function.update_self ..
  have hl' : ((s.setCmd c t).slot.pool.cmdMem c).scsiCmd.length =
      (s.slot.pool.cmdMem c).scsiCmd.length := by rw [hself, hl]
  cases h with
  | completed h => exact .completed ((Touched.of_quiet hq).completed_of (.same_trans hq.cmd hl') h)
  | pending h hop hready => exact .pending (h.quiet_trans hq hl') (by rwa [← hq.cmd.cdb]) hready
  | failed h why =>
    obtain ⟨lba, len, hr, hwhy⟩ := why
    exact .failed (h.quiet_trans hq hl') ⟨lba, len, by rwa [← hq.cmd.cdb], hwhy⟩

theorem copies_of_writeRange {cdb : Bytes} {lba len : Nat} (h : writeRange cdb = some (lba, len)) :
    Copies cdb ∧ byte cdb 0 ≠ opTracingSet := by
  unfold writeRange at h
  split at h
  · rename_i hop
    exact ⟨.inl hop, by rw [hop]; decide⟩
  · split at h
    · rename_i hop
      exact ⟨.inr (.inl hop), by rw [hop]; decide⟩
    · exact nomatch h

/-- A write. -/
theorem deviceWrite_spec {s : Local} {lba len : Nat} {status : UInt8}
    (hr : writeRange (s.slot.pool.cmdMem c).scsiCmd.cdb = some (lba, len)) :
    ensures (deviceWrite id c lba len status) (fun _ s' => DeviceEnd id c s s') s := by
  obtain ⟨hop, hset⟩ := copies_of_writeRange hr
  have hstatus : Within (Quiet c) (modifyScsi c fun a => { a with status }) :=
    quiet_modifyScsi c fun _ => rfl
  have hlength : Within (Quiet c) (modifyScsi c fun a => { a with length := 0 }) :=
    quiet_modifyScsi c fun _ => rfl
  simp only [deviceWrite, ensures, wp_bind]
  refine (prepareWrite_spec id c lba len s hop).mono fun rc s₁ h₁ => ?_
  have hend : DeviceEnd id c s s₁ := by
    rcases h₁ with h₁ | ⟨_, h₁, hready⟩ | ⟨_, h₁, hwhy⟩
    · exact .completed h₁
    · exact .pending h₁ hop hready
    · exact .failed h₁ ⟨lba, len, hr, hwhy hset⟩
  refine ((Within.guarded (rc ≠ 0) hstatus).run s₁).mono fun _ s₂ h₂ => ?_
  exact (hlength.run s₂).mono fun _ s₃ h₃ => hend.trans_quiet (Trans.trans h₂ h₃)

/-- The reply of `REPORT_LUNS`, which changes the transfer length. -/
theorem reportLuns_quiet (cfg : DiskConfig) (a : ScsiCmd) (n : Nat) (s : Local)
    (h : byte (s.slot.pool.cmdMem c).scsiCmd.cdb 0 = opReportLuns) :
    Quiet c s ((s.setDev { s.dev with mem := reportLunsReply cfg a.transLen s.dev.mem }).setCmd c
      { s.slot.pool.cmdMem c with scsiCmd := { (s.slot.pool.cmdMem c).scsiCmd with
        status := 0, transLen := n, length := n, fromdev := true } }) := by
  refine ⟨.of_eq rfl rfl rfl rfl rfl rfl rfl rfl rfl rfl, rfl, rfl, rfl,
    fun c' hc => Function.update_of_ne hc _ _, ?_, ?_, rfl, rfl⟩
  · simp only [Local.setCmd, Local.setDev, Local.setPool, Function.update_self]
    exact ⟨⟨rfl, rfl, rfl, rfl, fun hne => absurd h hne, rfl, rfl, rfl, rfl, id⟩, rfl, rfl⟩
  · simp [Local.setCmd, Local.setDev, Local.setPool]

/-- Setting the name of the trace file: the command is answered or waits for the name. -/
theorem tracingSet_spec {s : Local}
    (h : byte (s.slot.pool.cmdMem c).scsiCmd.cdb 0 = opTracingSet) :
    ensures (do
      modifyDev fun d => { d with tracing := true }
      if (← prepareWrite id c 0 0) ≠ 0 then finishWith id c 2
      else do
        modifyScsi c fun a => { a with length := 0 }
        return 0) (fun _ s' => DeviceEnd id c s s') s := by
  have hop : Copies (s.slot.pool.cmdMem c).scsiCmd.cdb := .inr (.inr h)
  have h₁ : Quiet c s (s.setDev { s.dev with tracing := true }) :=
    (quiet_modifyDev c (f := fun d => { d with tracing := true }) (fun _ => rfl) (fun _ => rfl)
      fun _ => rfl).run s
  rw [ensures, wp_bind, wp_modifyDev, wp_bind]
  refine (prepareWrite_spec id c 0 0 (s.setDev { s.dev with tracing := true }) hop).mono
    fun rc s₂ h₂ => ?_
  refine (wp_ite _ _ _).mpr ⟨fun hrc => ?_, fun hrc => ?_⟩
  · refine (finishWith_spec (.inr (by decide))).mono fun _ s₃ h₃ => .completed ?_
    rcases h₂ with h₂ | ⟨h0, _⟩ | ⟨_, h₂, _⟩
    · -- the command was completed, and the second answer does not get past its assertion
      exact absurd (h₂.closed.symm.trans h₃.wasOpen) (by decide)
    · exact absurd h0 hrc
    · exact (h₂.quiet_trans h₁ rfl).completed h₃
  · have hlength : Quiet c s₂ (s₂.setCmd c { s₂.slot.pool.cmdMem c with
        scsiCmd := { (s₂.slot.pool.cmdMem c).scsiCmd with length := 0 } }) := .setCmd rfl
    refine DeviceEnd.trans_quiet ?_ hlength
    rcases h₂ with h₂ | ⟨_, h₂, hready⟩ | ⟨hne, _⟩
    · exact .completed ((Touched.of_quiet h₁).completed_of (.same_trans h₁.cmd rfl) h₂)
    · exact .pending (h₂.quiet_trans h₁ rfl) hop hready
    · exact absurd hne hrc

/-- What `device_command` does to a command for a LUN that exists. -/
theorem deviceOp_spec (s : Local) {cfg : DiskConfig} {a : ScsiCmd} {op : UInt8}
    (hcdb : (s.slot.pool.cmdMem c).scsiCmd.cdb = a.cdb) (hop : op = byte a.cdb 0) :
    ensures (deviceOp id c cfg a op) (fun _ s' => DeviceEnd id c s s') s := by
  have hreply {x : Handler Int}
      (h : ensures x (fun _ s' => Completed id c TargetCmd.Same s s') s) :
      ensures x (fun _ s' => DeviceEnd id c s s') s :=
    h.mono fun _ _ h => .completed h.moved
  have hne {op' : UInt8} (h : op = op') (hop' : op' ≠ opTracingSet) :
      byte (s.slot.pool.cmdMem c).scsiCmd.cdb 0 ≠ opTracingSet := by
    rw [hcdb, ← hop, h]
    exact hop'
  have hread (n : Nat) : Within (Quiet c)
      (modifyScsi c fun a => { a with status := 0, fromdev := true, length := n }) :=
    quiet_modifyScsi c fun _ => rfl
  unfold deviceOp
  -- one case for each opcode, in the order of the switch
  refine (wp_ite _ _ _).mpr ⟨fun h => hreply (finishWith_spec (.inl (hne h (by decide)))),
    fun _ => ?_⟩
  refine (wp_ite _ _ _).mpr ⟨fun h => hreply (finishReply_spec (hne h (by decide))), fun _ => ?_⟩
  refine (wp_ite _ _ _).mpr ⟨fun h => hreply (finishReply_spec (hne h (by decide))), fun _ => ?_⟩
  refine (wp_ite _ _ _).mpr ⟨fun h => ?_, fun _ => ?_⟩
  · have hr : writeRange (s.slot.pool.cmdMem c).scsiCmd.cdb = some (lba6 a.cdb, len6 a.cdb) := by
      rw [hcdb]
      exact if_pos (hop ▸ h)
    rw [wp_bind]
    exact (deviceWrite_spec hr).mono fun _ s₁ h₁ => h₁.trans_quiet (.setCmd rfl)
  refine (wp_ite _ _ _).mpr ⟨fun h => ?_, fun _ => ?_⟩
  · rw [wp_bind]
    refine ((quiet_diskRead c _ _).run s).mono fun r s₁ h₁ => ?_
    rcases r with _ | n
    · refine (finishWith_spec (.inr (by decide))).mono fun _ s₂ h₂ => ?_
      exact .completed (Completed.quiet_trans h₁ h₂).moved
    · rw [wp_bind]
      refine ((hread n).run s₁).mono fun _ s₂ h₂ => ?_
      exact (commandDone_of_quiet (Trans.trans h₁ h₂) (hne h (by decide))).mono
        fun _ _ h => .completed h.moved
  refine (wp_ite _ _ _).mpr ⟨fun h => ?_, fun _ => ?_⟩
  · have hr : writeRange (s.slot.pool.cmdMem c).scsiCmd.cdb = some (lba10 a.cdb, len10 a.cdb) := by
      rw [hcdb, writeRange, if_neg (by rw [← hop, h]; decide), if_pos (hop ▸ h)]
    rw [wp_bind, wp_modifyCmd, wp_bind]
    refine (deviceWrite_spec (by simpa [Local.setCmd, Local.setPool] using hr)).mono
      fun _ s₁ h₁ => ?_
    exact DeviceEnd.setCmd_trans (by rfl) (by rfl) h₁
  refine (wp_ite _ _ _).mpr ⟨fun h => ?_, fun _ => ?_⟩
  · rw [wp_bind]
    refine ((quiet_diskRead c _ _).run s).mono fun r s₁ h₁ => ?_
    rcases r with _ | n
    · trivial
    · rw [wp_bind]
      refine ((hread n).run s₁).mono fun _ s₂ h₂ => ?_
      exact (commandDone_of_quiet (Trans.trans h₁ h₂) (hne h (by decide))).mono
        fun _ _ h => .completed h.moved
  refine (wp_ite _ _ _).mpr
    ⟨fun h => hreply (finish_of_quiet (.setCmd rfl) (hne h (by decide))), fun _ => ?_⟩
  refine (wp_ite _ _ _).mpr ⟨fun h => hreply (finishReply_spec (hne h (by decide))), fun _ => ?_⟩
  refine (wp_ite _ _ _).mpr ⟨fun h => ?_, fun _ => ?_⟩
  · have hluns := reportLuns_quiet cfg a (8 + 8 * cfg.numLuns) s
      (by rw [hcdb, ← hop, h])
    rw [wp_bind, wp_guarded]
    refine ⟨fun _ => trivial, fun _ => ?_⟩
    exact hreply (finish_of_quiet hluns (hne h (by decide)))
  refine (wp_ite _ _ _).mpr ⟨fun h => hreply (finishWith_spec (.inl (hne h (by decide)))),
    fun _ => ?_⟩
  have htracing (b : Bool) : Quiet c s (s.setDev { s.dev with tracing := b }) :=
    (quiet_modifyDev c (f := fun d => { d with tracing := b }) (fun _ => rfl) (fun _ => rfl)
      fun _ => rfl).run s
  refine (wp_ite _ _ _).mpr ⟨fun h => ?_, fun _ => ?_⟩
  · rw [wp_bind, wp_modifyDev]
    refine (finishWith_spec (.inl ?_)).mono fun _ s₁ h₁ => ?_
    · exact hne h (by decide)
    · exact DeviceEnd.completed (Completed.quiet_trans (htracing _) h₁).moved
  refine (wp_ite _ _ _).mpr ⟨fun h => ?_, fun _ => ?_⟩
  · rw [wp_bind, wp_modifyDev]
    refine (finishWith_spec (.inl ?_)).mono fun _ s₁ h₁ => ?_
    · exact hne h (by decide)
    · exact DeviceEnd.completed (Completed.quiet_trans (htracing _) h₁).moved
  refine (wp_ite _ _ _).mpr ⟨fun h => ?_, fun _ => hreply (finishWith_spec (.inr (by decide)))⟩
  exact tracingSet_spec (by rw [hcdb, ← hop, h])

/-- What `device_command` does to a command for a LUN that does not exist. -/
theorem deviceCommand_noLun (s : Local)
    (hlun : ¬(s.slot.pool.cmdMem c).scsiCmd.lun < s.dev.cfg.numLuns) :
    ensures (deviceCommand id c) (fun _ s' =>
      (s.slot.pool.cmdMem c).scsiCmd.sendData = false ∧ Completed id c TargetCmd.Same s s') s := by
  have hopen {x : Handler Int}
      (h : ensures x (fun _ s' => Completed id c TargetCmd.Same s s') s) :
      ensures x (fun _ s' => (s.slot.pool.cmdMem c).scsiCmd.sendData = false ∧
        Completed id c TargetCmd.Same s s') s :=
    h.mono fun _ _ h => ⟨h.wasOpen, h⟩
  rw [deviceCommand, ensures, wp_bind, wp_getDev, wp_bind, wp_getCmd]
  refine (wp_ite _ _ _).mpr ⟨fun _ => trivial, fun _ => ?_⟩
  refine (wp_ite _ _ _).mpr ⟨fun h => absurd h hlun, fun _ => ?_⟩
  refine (wp_ite _ _ _).mpr ⟨fun h => ?_, fun _ => ?_⟩
  · exact hopen (finishReply_spec (by rw [h]; decide))
  · have hq : Quiet c s (s.setCmd c { s.slot.pool.cmdMem c with
        scsiCmd := { (s.slot.pool.cmdMem c).scsiCmd with fromdev := false } }) := .setCmd rfl
    refine hopen ?_
    rw [ensures, wp_bind, wp_modifyScsi]
    exact (finishWith_spec (.inr (by decide))).mono fun _ s₁ h₁ => Completed.quiet_trans hq h₁

/-- What `device_command` does. -/
theorem deviceCommand_spec (s : Local) :
    ensures (deviceCommand id c) (fun _ s' => (s.slot.pool.cmdMem c).scsiCmd.sendData = false ∧
      (Completed id c Moved s s' ∨
        (s.slot.pool.cmdMem c).scsiCmd.lun < s.dev.cfg.numLuns ∧ DeviceEnd id c s s')) s := by
  by_cases hlun : (s.slot.pool.cmdMem c).scsiCmd.lun < s.dev.cfg.numLuns
  · rw [deviceCommand, ensures, wp_bind, wp_getDev, wp_bind, wp_getCmd]
    refine (wp_ite _ _ _).mpr ⟨fun _ => trivial, fun hopen => ?_⟩
    simp only [Bool.or_eq_true, not_or] at hopen
    rw [if_pos hlun]
    exact (deviceOp_spec s rfl rfl).mono fun _ _ h =>
      ⟨by simpa using hopen.1.2, .inr ⟨hlun, h⟩⟩
  · exact (deviceCommand_noLun s hlun).mono fun _ _ h => ⟨h.1, .inl h.2.moved⟩

/-- What can become of a command that the LUN worker takes from the queue. -/
inductive LunEnd (id c : Nat) (s s' : Local) : Prop where
  | answered (hd : (s.slot.pool.cmdMem c).done = false) (h : Completed id c Moved s s')
  | device (hd : (s.slot.pool.cmdMem c).done = false)
    (hopen : (s.slot.pool.cmdMem c).scsiCmd.sendData = false)
    (hlun : (s.slot.pool.cmdMem c).scsiCmd.lun < s.dev.cfg.numLuns) (h : DeviceEnd id c s s')
  | done (hd : (s.slot.pool.cmdMem c).done = true) (h : Completed id c TargetCmd.Same s s')
  | noTrace (hd : (s.slot.pool.cmdMem c).done = true) (h : Quiet c s s')
    (hop : byte (s.slot.pool.cmdMem c).scsiCmd.cdb 0 = opTracingSet)
    (hio : s.dev.io.head? = some false)

/-- What the LUN worker does to a command. -/
theorem lunWorker_spec (s : Local) :
    ensures (lunWorker id c) (fun _ s' => LunEnd id c s s') s := by
  rw [lunWorker, ensures, wp_bind, wp_getCmd]
  refine (wp_ite _ _ _).mpr ⟨fun hd => ?_, fun hd => ?_⟩
  · rw [wp_bind]
    refine (commandDone_spec id c s).mono fun _ s₁ h₁ => ?_
    rcases h₁ with h₁ | ⟨_, h₁, hset, _, hhead⟩
    · exact .done hd h₁
    · exact .noTrace hd h₁ hset hhead
  · rw [wp_bind]
    refine (deviceCommand_spec s).mono fun _ s₁ ⟨hopen, h₁⟩ => ?_
    rcases h₁ with h₁ | ⟨hlun, h₁⟩
    · exact .answered (by simpa using hd) h₁
    · exact .device (by simpa using hd) hopen hlun h₁

/-- What the LUN worker does to a slot is calm. -/
theorem LunEnd.calm {id c : Nat} {s s' : Local} (hl : LunEnd id c s s') : Calm s s' := by
  cases hl with
  | answered _ h => exact h.calm
  | device _ _ _ h =>
    cases h with
    | completed h => exact h.calm
    | pending h => exact h.calm
    | failed h => exact h.calm
  | done _ h => exact h.calm
  | noTrace _ h => exact h.calm

end Ost.Disk
