import Ost.Disk.Frame

/-!
# How a command ends

What `device_command_done`, `command_done` and `device_command` can do to a session, stated
once: a command is completed (`Completed`), waits for data, or has failed without a
completion (`DeviceEnd`).  Every invariant of the daemon that a round of the LUN worker must
keep is derived from these descriptions.
-/

namespace Ost.Disk

open Ost.Iscsi Ost.Util Ost.Param Ost.Prog Ost.Target

variable (id c : Nat)

/-- The commands that `prepare_write` copies immediate data for. -/
def Copies (cdb : Bytes) : Prop :=
  byte cdb 0 = opWrite6 ∨ byte cdb 0 = opWrite10 ∨ byte cdb 0 = opTracingSet

/-- The identity of a command stays; its data are those it had, or the immediate data. -/
structure Moved (t t' : TargetCmd) : Prop extends t.Kept t' where
  data : t'.got = t.got ∧ t'.scsiCmd.bytesTodev = t.scsiCmd.bytesTodev ∨
    Copies t.scsiCmd.cdb ∧ t'.got = [(0, immediateData t t.scsiCmd.length)] ∧
      t'.scsiCmd.bytesTodev = t.scsiCmd.length

/-- As `Quiet`, but the immediate data may have been copied. -/
structure Touched (s s' : Local) : Prop where
  calm : Calm s s'
  headerQ : s'.slot.pool.headerQ = s.slot.pool.headerQ
  cmdQ : s'.slot.pool.cmdQ = s.slot.pool.cmdQ
  cmds : s'.slot.pool.cmds = s.slot.pool.cmds
  others : ∀ c', c' ≠ c → s'.slot.pool.cmdMem c' = s.slot.pool.cmdMem c'
  cmd : Moved (s.slot.pool.cmdMem c) (s'.slot.pool.cmdMem c)
  sendData : (s'.slot.pool.cmdMem c).scsiCmd.sendData = (s.slot.pool.cmdMem c).scsiCmd.sendData
  cmdQueue : s'.dev.cmdQueue = s.dev.cmdQueue
  log : s'.dev.log = s.dev.log

/-- The command `c` was taken out of the books, and its header and structure are free.  `M` says
what became of the command otherwise. -/
structure Retires (M : TargetCmd → TargetCmd → Prop) (s s' : Local) : Prop where
  calm : Calm s s'
  wasOpen : (s.slot.pool.cmdMem c).scsiCmd.sendData = false
  closed : (s'.slot.pool.cmdMem c).scsiCmd.sendData = true
  cmds : ∃ a, s.slot.pool.cmds.remove (s.slot.pool.cmdMem c).scsiCmd.tag =
    some (a, s'.slot.pool.cmds)
  headerQ : s.slot.pool.headerQ.insert (s.slot.pool.cmdMem c).header = some s'.slot.pool.headerQ
  cmdQ : s.slot.pool.cmdQ.insert c = some s'.slot.pool.cmdQ
  others : ∀ c', c' ≠ c → s'.slot.pool.cmdMem c' = s.slot.pool.cmdMem c'
  cmd : M (s.slot.pool.cmdMem c) (s'.slot.pool.cmdMem c)
  cmdQueue : s'.dev.cmdQueue = s.dev.cmdQueue

/-- The callback of the command `c` was called, and it succeeded. -/
structure Completed (M : TargetCmd → TargetCmd → Prop) (s s' : Local) : Prop
    extends Retires c M s s' where
  log : ∃ t, M (s.slot.pool.cmdMem c) t ∧ s'.dev.log = s.dev.log ++ [.callback id c t]

/-! ## Composition -/

section Composition

variable {id c} {t t' t'' : TargetCmd} {s s' s'' : Local}

theorem Moved.of_same (h : t.Same t') : Moved t t' :=
  ⟨h.toKept, .inl ⟨h.got, h.bytesTodev⟩⟩

theorem Moved.trans_same (h : Moved t t') (h' : t'.Same t'') : Moved t t'' := by
  refine ⟨h.toKept.trans h'.toKept, ?_⟩
  rw [h'.got, h'.bytesTodev]
  exact h.data

/-- Before the copy, the length of the immediate data has to stay. -/
theorem Moved.same_trans (h : t.Same t') (hl : t'.scsiCmd.length = t.scsiCmd.length)
    (h' : Moved t' t'') : Moved t t'' := by
  refine ⟨h.toKept.trans h'.toKept, ?_⟩
  have hdata := h'.data
  simp only [h.got, h.bytesTodev, h.cdb, hl, immediateData, h.immediate] at hdata
  exact hdata

theorem Touched.of_quiet (h : Quiet c s s') : Touched c s s' :=
  ⟨h.calm, h.headerQ, h.cmdQ, h.cmds, h.others, .of_same h.cmd, h.sendData, h.cmdQueue, h.log⟩

theorem Touched.trans_quiet (h : Touched c s s') (h' : Quiet c s' s'') : Touched c s s'' :=
  ⟨Trans.trans h.calm h'.calm, h'.headerQ.trans h.headerQ, h'.cmdQ.trans h.cmdQ,
    h'.cmds.trans h.cmds, fun c' hc => (h'.others c' hc).trans (h.others c' hc),
    h.cmd.trans_same h'.cmd, h'.sendData.trans h.sendData, h'.cmdQueue.trans h.cmdQueue,
    h'.log.trans h.log⟩

theorem Touched.quiet_trans (h : Quiet c s s')
    (hl : (s'.slot.pool.cmdMem c).scsiCmd.length = (s.slot.pool.cmdMem c).scsiCmd.length)
    (h' : Touched c s' s'') : Touched c s s'' :=
  ⟨Trans.trans h.calm h'.calm, h'.headerQ.trans h.headerQ, h'.cmdQ.trans h.cmdQ,
    h'.cmds.trans h.cmds, fun c' hc => (h'.others c' hc).trans (h.others c' hc),
    h'.cmd.same_trans h.cmd hl, h'.sendData.trans h.sendData, h'.cmdQueue.trans h.cmdQueue,
    h'.log.trans h.log⟩

section Relations

variable {M M' : TargetCmd → TargetCmd → Prop}

theorem Retires.trans_quiet (h : Retires c M s s') (h' : Quiet c s' s'')
    (hM : ∀ {t t' t''}, M t t' → t'.Same t'' → M t t'') : Retires c M s s'' :=
  ⟨Trans.trans h.calm h'.calm, h.wasOpen, h'.sendData.trans h.closed,
    h.cmds.imp fun _ h => by rw [h, h'.cmds], by rw [h.headerQ, h'.headerQ],
    by rw [h.cmdQ, h'.cmdQ], fun c' hc => (h'.others c' hc).trans (h.others c' hc),
    hM h.cmd h'.cmd, h'.cmdQueue.trans h.cmdQueue⟩

theorem Completed.trans_quiet (h : Completed id c M s s') (h' : Quiet c s' s'')
    (hM : ∀ {t t' t''}, M t t' → t'.Same t'' → M t t'') : Completed id c M s s'' :=
  ⟨h.toRetires.trans_quiet h' hM, h.log.imp fun _ h => ⟨h.1, h'.log.trans h.2⟩⟩

theorem Touched.retires (h : Touched c s s')
    (hM : ∀ {t}, M (s'.slot.pool.cmdMem c) t → M' (s.slot.pool.cmdMem c) t)
    (h' : Retires c M s' s'') : Retires c M' s s'' :=
  ⟨Trans.trans h.calm h'.calm, h.sendData ▸ h'.wasOpen, h'.closed, by
      rw [← h.cmds, ← h.cmd.tag]
      exact h'.cmds, by rw [← h.headerQ, ← h.cmd.header]; exact h'.headerQ,
    by rw [← h.cmdQ]; exact h'.cmdQ, fun c' hc => (h'.others c' hc).trans (h.others c' hc),
    hM h'.cmd, h'.cmdQueue.trans h.cmdQueue⟩

theorem Touched.completed_of (h : Touched c s s')
    (hM : ∀ {t}, M (s'.slot.pool.cmdMem c) t → M' (s.slot.pool.cmdMem c) t)
    (h' : Completed id c M s' s'') : Completed id c M' s s'' :=
  ⟨h.retires hM h'.toRetires, h'.log.imp fun _ hl => ⟨hM hl.1, by rw [hl.2, h.log]⟩⟩

end Relations

/-- A completion after the data were copied. -/
theorem Touched.completed (h : Touched c s s') (h' : Completed id c TargetCmd.Same s' s'') :
    Completed id c Moved s s'' :=
  h.completed_of (fun ht => h.cmd.trans_same ht) h'

/-- A completion after a quiet program. -/
theorem Completed.quiet_trans (h : Quiet c s s') (h' : Completed id c TargetCmd.Same s' s'') :
    Completed id c TargetCmd.Same s s'' :=
  (Touched.of_quiet h).completed_of h.cmd.trans h'

/-- A completion of a command that was never copied. -/
theorem Completed.moved (h : Completed id c TargetCmd.Same s s') : Completed id c Moved s s' :=
  (Touched.of_quiet (refl s)).completed h

end Composition

/-! ## The callback -/

/-- `device_command_done` has failed: the structure did not go back, though the tag may be gone. -/
structure Stopped (s s' : Local) : Prop where
  calm : Calm s s'
  cmdQ : s'.slot.pool.cmdQ = s.slot.pool.cmdQ
  others : ∀ c', c' ≠ c → s'.slot.pool.cmdMem c' = s.slot.pool.cmdMem c'
  cmd : (s.slot.pool.cmdMem c).Same (s'.slot.pool.cmdMem c)
  closed : (s'.slot.pool.cmdMem c).scsiCmd.sendData = true
  cmds : s'.slot.pool.cmds = s.slot.pool.cmds ∨ ∃ a,
    s.slot.pool.cmds.remove (s.slot.pool.cmdMem c).scsiCmd.tag = some (a, s'.slot.pool.cmds)
  cmdQueue : s'.dev.cmdQueue = s.dev.cmdQueue
  log : s'.dev.log = s.dev.log

theorem Stopped.quiet_trans {c : Nat} {s s' s'' : Local} (h : Quiet c s s')
    (h' : Stopped c s' s'') : Stopped c s s'' := by
  refine ⟨Trans.trans h.calm h'.calm, h'.cmdQ.trans h.cmdQ,
    fun c' hc => (h'.others c' hc).trans (h.others c' hc), h.cmd.trans h'.cmd, h'.closed, ?_,
    h'.cmdQueue.trans h.cmdQueue, h'.log.trans h.log⟩
  have hcmds := h'.cmds
  rw [h.cmds, h.cmd.tag] at hcmds
  exact hcmds

/-- A quiet program on a marked command that fails the callback. -/
theorem Stopped.of_quiet {s s' : Local} (hm : (s.slot.pool.cmdMem c).scsiCmd.sendData = true)
    (h : Quiet c s s') : Stopped c s s' :=
  ⟨h.calm, h.cmdQ, h.others, h.cmd, h.sendData.trans hm, .inl h.cmds, h.cmdQueue, h.log⟩

/-- What `retire` does: it removes the tag, then puts the header back, then the structure. -/
theorem retire_spec (s : Local) :
    ensures (retire c) (fun rc s' => Calm s s' ∧ s'.slot.pool.cmdMem = s.slot.pool.cmdMem ∧
      s'.dev = s.dev ∧
      (∃ a, s.slot.pool.cmds.remove (s.slot.pool.cmdMem c).scsiCmd.tag =
        some (a, s'.slot.pool.cmds)) ∧
      (rc = 0 ∧ s.slot.pool.headerQ.insert (s.slot.pool.cmdMem c).header =
          some s'.slot.pool.headerQ ∧
        s.slot.pool.cmdQ.insert c = some s'.slot.pool.cmdQ ∨
      rc ≠ 0 ∧ s'.slot.pool.cmdQ = s.slot.pool.cmdQ)) s := by
  have hcalm (p : Pool) : Calm s (s.setPool p) := .of_eq rfl rfl rfl rfl rfl rfl rfl rfl rfl rfl
  simp only [retire, ensures, wp_bind, wp_getCmd, wp_removeOutstanding]
  refine ⟨fun _ => trivial, by simp, fun a h _ hr => ?_⟩
  simp only [Bool.not_true, Bool.false_eq_true, if_false, wp_bind, wp_putHeader, wp_putCmd]
  refine ⟨fun _ => ?_, fun hq hh => ?_⟩
  · exact ⟨hcalm _, rfl, rfl, ⟨a, hr⟩, .inr ⟨by decide, rfl⟩⟩
  · refine ⟨fun _ => ?_, fun cq hc => ?_⟩
    · exact ⟨hcalm _, rfl, rfl, ⟨a, hr⟩, .inr ⟨by decide, rfl⟩⟩
    · exact ⟨hcalm _, rfl, rfl, ⟨a, hr⟩, .inl ⟨rfl, hh, hc⟩⟩

/-- The first step of the callback marks the command. -/
def marked (s : Local) : Local :=
  s.setCmd c { s.slot.pool.cmdMem c with scsiCmd := { (s.slot.pool.cmdMem c).scsiCmd with
    sendData := true, sendSgLen := (s.slot.pool.cmdMem c).gatherList.length, bytesFromdev := 0 } }

theorem calm_marked (s : Local) : Calm s (marked c s) :=
  .of_eq rfl rfl rfl rfl rfl rfl rfl rfl rfl rfl

theorem marked_self (s : Local) :
    (s.slot.pool.cmdMem c).Same ((marked c s).slot.pool.cmdMem c) ∧
      ((marked c s).slot.pool.cmdMem c).scsiCmd.sendData = true := by
  have h : (marked c s).slot.pool.cmdMem c = { s.slot.pool.cmdMem c with
      scsiCmd := { (s.slot.pool.cmdMem c).scsiCmd with
        sendData := true, sendSgLen := (s.slot.pool.cmdMem c).gatherList.length
        bytesFromdev := 0 } } := Function.update_self ..
  rw [h]
  exact ⟨⟨⟨rfl, rfl, rfl, rfl, fun _ => rfl, rfl, rfl, rfl, rfl, id⟩, rfl, rfl⟩, rfl⟩

theorem marked_of_ne (s : Local) {c' : Nat} (h : c' ≠ c) :
    (marked c s).slot.pool.cmdMem c' = s.slot.pool.cmdMem c' := Function.update_of_ne h _ _

/-- A callback that fails before the end has done nothing but send. -/
theorem Stopped.of_marked {s s' : Local} (h : Stopped c (marked c s) s') : Stopped c s s' :=
  ⟨Trans.trans (calm_marked c s) h.calm, h.cmdQ,
    fun c' hc => (h.others c' hc).trans (marked_of_ne c s hc), (marked_self c s).1.trans h.cmd,
    h.closed, by
      have hcmds := h.cmds
      rw [(marked_self c s).1.tag] at hcmds
      exact hcmds, h.cmdQueue, h.log⟩

/-- The end of a callback, after programs that only send. -/
theorem retire_of_quiet {s s' : Local} (hopen : (s.slot.pool.cmdMem c).scsiCmd.sendData = false)
    (h : Quiet c (marked c s) s') :
    ensures (retire c) (fun rc s'' =>
      (rc = 0 → Retires c TargetCmd.Same s s'' ∧ s''.dev.log = s.dev.log) ∧
      (rc ≠ 0 → Stopped c s s'')) s' := by
  refine (retire_spec c s').mono ?_
  rintro rc s'' ⟨hcalm, hmem, hdev, ⟨a, hrem⟩, hend⟩
  have hcmd : (s.slot.pool.cmdMem c).Same (s'.slot.pool.cmdMem c) :=
    (marked_self c s).1.trans h.cmd
  have hcalm' : Calm s s'' := Trans.trans (Trans.trans (calm_marked c s) h.calm) hcalm
  have hothers : ∀ c', c' ≠ c → s''.slot.pool.cmdMem c' = s.slot.pool.cmdMem c' := by
    intro c' hc
    rw [hmem, h.others c' hc, marked_of_ne c s hc]
  have hrem' : s.slot.pool.cmds.remove (s.slot.pool.cmdMem c).scsiCmd.tag =
      some (a, s''.slot.pool.cmds) := by
    rw [← hrem, h.cmds, hcmd.tag]
    rfl
  rcases hend with ⟨rfl, hh, hc⟩ | ⟨hrc, hc⟩
  · refine ⟨fun _ => ⟨⟨hcalm', hopen, ?_, ⟨a, hrem'⟩, ?_, ?_,
      hothers, by rw [hmem]; exact hcmd, ?_⟩, ?_⟩, by simp⟩
    · rw [hmem, h.sendData]
      exact (marked_self c s).2
    · rw [← hh, h.headerQ, hcmd.header]
      rfl
    · rw [← hc, h.cmdQ]
      rfl
    · rw [hdev, h.cmdQueue]
      rfl
    · rw [hdev, h.log]
      rfl
  · refine ⟨fun h0 => absurd h0 hrc, fun _ => ⟨hcalm', ?_, hothers, by rw [hmem]; exact hcmd, ?_,
      .inr ⟨a, hrem'⟩, ?_, ?_⟩⟩
    · rw [hc, h.cmdQ]
      rfl
    · rw [hmem, h.sendData]
      exact (marked_self c s).2
    · rw [hdev, h.cmdQueue]
      rfl
    · rw [hdev, h.log]
      rfl

/-- What `device_command_done` does when it returns. -/
theorem deviceCommandDone_spec (s : Local) :
    ensures (deviceCommandDone c) (fun rc s' =>
      (rc = 0 → Retires c TargetCmd.Same s s' ∧ s'.dev.log = s.dev.log) ∧
      (rc ≠ 0 → Stopped c s s')) s := by
  simp only [deviceCommandDone, ensures, wp_bind, wp_getCmd, wp_ite, wp_halt, wp_modifyScsi]
  refine ⟨fun _ => trivial, fun hopen => ?_⟩
  have hopen' : (s.slot.pool.cmdMem c).scsiCmd.sendData = false := by
    simp only [Bool.or_eq_true, not_or] at hopen
    simpa using hopen.1
  change ensures (sendInput c) _ (marked c s)
  refine ((quiet_sendInput c).run _).mono fun r s₂ h₂ => ?_
  rcases r with _ | dataSN
  · exact ⟨by simp, fun _ => (Stopped.of_quiet c (marked_self c s).2 h₂).of_marked⟩
  · simp only [wp_bind]
    refine ((quiet_sendResponse c dataSN).run _).mono fun ok s₃ h₃ => ?_
    have h₁₃ : Quiet c (marked c s) s₃ := Trans.trans h₂ h₃
    rcases ok with _ | _
    · exact ⟨by simp, fun _ => (Stopped.of_quiet c (marked_self c s).2 h₁₃).of_marked⟩
    · exact retire_of_quiet c hopen' h₁₃

/-! ## The completion of a command -/

/-- Opening the new trace file fails only for want of it. -/
theorem openTraceFile_spec (a : ScsiCmd) (s : Local) :
    ensures (openTraceFile a) (fun ok s' => (ok = false → byte a.cdb 0 = opTracingSet ∧
      a.status = 0 ∧ s.dev.io.head? = some false) ∧ Quiet c s s') s := by
  refine (quiet_openTraceFile c a).and_wp ?_
  simp only [openTraceFile, nextIo, wp_ite, wp_onDev, wp_pure, Bool.and_eq_true,
    decide_eq_true_eq]
  refine ⟨fun h hio => ⟨h.1, h.2, ?_⟩, by simp⟩
  cases hd : s.dev.io <;> simp_all

/-- A callback that is logged and succeeds completes its command. -/
theorem Completed.of_logged {s s' : Local}
    (h : Retires c TargetCmd.Same (s.setDev { s.dev with
      log := s.dev.log ++ [.callback id c (s.slot.pool.cmdMem c)] }) s')
    (hl : s'.dev.log = s.dev.log ++ [.callback id c (s.slot.pool.cmdMem c)]) :
    Completed id c TargetCmd.Same s s' := by
  have h₀ : Calm s (s.setDev { s.dev with
      log := s.dev.log ++ [.callback id c (s.slot.pool.cmdMem c)] }) :=
    .of_eq rfl rfl rfl rfl rfl rfl rfl rfl rfl rfl
  exact ⟨⟨Trans.trans h₀ h.calm, h.wasOpen, h.closed, h.cmds, h.headerQ, h.cmdQ, h.others, h.cmd,
    h.cmdQueue⟩, ⟨_, .refl _, hl⟩⟩

/-- What `command_done` does when it returns: the command is completed, unless the new trace file
could not be opened. -/
theorem commandDone_spec (s : Local) :
    ensures (commandDone id c) (fun rc s' =>
      Completed id c TargetCmd.Same s s' ∨
      rc ≠ 0 ∧ Quiet c s s' ∧ byte (s.slot.pool.cmdMem c).scsiCmd.cdb 0 = opTracingSet ∧
        (s.slot.pool.cmdMem c).scsiCmd.status = 0 ∧ s.dev.io.head? = some false) s := by
  simp only [commandDone, ensures, wp_bind, wp_getCmd]
  refine (openTraceFile_spec c _ s).mono fun ok s₁ htrace => ?_
  obtain ⟨hok, h₁⟩ := htrace
  rcases ok with _ | _
  · exact .inr ⟨by decide, h₁, hok rfl⟩
  simp only [Bool.not_true, Bool.false_eq_true, if_false, wp_bind]
  refine ((quiet_writeOut c c).run s₁).mono fun _ s₂ h₂ => ?_
  simp only [wp_guarded, wp_halt, wp_getCmd, wp_logDev]
  refine ⟨fun _ => trivial, fun _ => ?_⟩
  refine (deviceCommandDone_spec c _).mono fun rc s₃ h₃ => ?_
  refine ⟨fun _ => trivial, fun hrc => ?_⟩
  obtain ⟨hret, hlog⟩ := h₃.1 (not_not.mp hrc)
  have hcompleted : Completed id c TargetCmd.Same s s₃ :=
    .quiet_trans (Trans.trans h₁ h₂) (.of_logged id c hret hlog)
  refine ((quiet_releaseBuffers c c).run s₃).mono fun ok s₄ h₄ => ?_
  have hdone := hcompleted.trans_quiet h₄ fun h => h.trans
  rcases ok with _ | _
  · exact .inl hdone
  · simp only [Bool.not_true, Bool.false_eq_true, if_false, wp_bind, wp_guarded, wp_halt, wp_pure]
    exact ⟨fun _ => trivial, fun _ => .inl hdone⟩

end Ost.Disk
