import Ost.Target.Books
import Ost.Target.Storing

/-!
# The data that commands hold

On a disk whose buffers are the medium, a step of the daemon either leaves the medium and the data
of all commands alone (`Rests`), or the device or the worker of a session serves one command
(`Serves`).  `Holding` is what holds of the commands of a slot in every reachable state: the
buffers of a command are those that it addresses, and it has data only if it went to the device.
-/

namespace Ost.Target

open Ost.Iscsi Ost.Util Ost.Param Ost.Prog Ost.Disk

variable {i c : Nat} {s s' : Local}

/-! ## What a step does -/

/-- The medium stays, and so do the data of all commands that are open.  Those whose callback is
called have no data. -/
structure Rests (s s' : Local) : Prop where
  media : s'.dev.mem .media = s.dev.mem .media
  cfg : s'.dev.cfg = s.dev.cfg
  log : ∃ l, s'.dev.log = s.dev.log ++ l ∧ ∀ j c t, DevEvent.callback j c t ∈ l → t.got = []
  cmds : ∀ c, s'.slot.pool.cmdMem c = s.slot.pool.cmdMem c ∨
    (s'.slot.pool.cmdMem c).got = [] ∧
      ((s.slot.pool.cmdMem c).scsiCmd.sendData = true ∨ (s.slot.pool.cmdMem c).got = [])

/-- The command `c` is served: it is open, unless it has no place on the medium, and it is closed
only when its callback is called. -/
structure Serves (i c : Nat) (s s' : Local) : Prop where
  queued : DevEvent.queued i c ∈ s.dev.log
  stores : Stores i c s s'
  others : ∀ c', c' ≠ c → s'.slot.pool.cmdMem c' = s.slot.pool.cmdMem c'
  wasOpen : (s.slot.pool.cmdMem c).scsiCmd.sendData = false ∨
    writeSpan s.dev.cfg (s.slot.pool.cmdMem c).scsiCmd.cdb = none
  closed : (s.slot.pool.cmdMem c).scsiCmd.sendData = false →
    (s'.slot.pool.cmdMem c).scsiCmd.sendData = true →
      ∃ t, DevEvent.callback i c t ∈ s'.dev.log.drop s.dev.log.length

/-- What a step does to the data. -/
inductive Effect (i : Nat) (s s' : Local) : Prop where
  | rests (h : Rests s s')
  | serves {c : Nat} (h : Serves i c s s')

theorem Rests.of_eq (hpool : s'.slot.pool.cmdMem = s.slot.pool.cmdMem) (hdev : s'.dev = s.dev) :
    Rests s s' :=
  ⟨by rw [hdev], by rw [hdev], ⟨[], by rw [hdev, List.append_nil], by simp⟩,
    fun _ => .inl (by rw [hpool])⟩

/-! ## What commands hold -/

/-- What holds of the commands of the slot `i` and their data. -/
structure Holding (i : Nat) (s : Local) : Prop where
  aimed : ∀ c, Aimed s.dev.cfg (s.slot.pool.cmdMem c)
  /-- A free structure has no data, or they have been reported. -/
  free : ∀ c ∈ s.slot.pool.cmdQ.toList,
    (s.slot.pool.cmdMem c).scsiCmd.sendData = true ∨ (s.slot.pool.cmdMem c).got = []
  /-- An outstanding command is open. -/
  outstanding : ∀ k c, (k, c) ∈ s.slot.pool.cmds.entries →
    (s.slot.pool.cmdMem c).scsiCmd.sendData = false ∧ DevEvent.queued i c ∈ s.dev.log
  /-- A command that a PDU waits for is open once it is ready, and not all its data are there. -/
  waiting : ∀ h hdr c, s.slot.waiting = some (h, hdr, c) → (s.slot.pool.cmdMem c).done = false ∧
    ((s.slot.pool.cmdMem c).ready = true → (s.slot.pool.cmdMem c).scsiCmd.sendData = false) ∧
    DevEvent.queued i c ∈ s.dev.log
  jobs : ∀ c ∈ s.dev.jobs i, DevEvent.queued i c ∈ s.dev.log
  /-- Only commands that went to the device have data. -/
  data : ∀ c, (s.slot.pool.cmdMem c).got ≠ [] → DevEvent.queued i c ∈ s.dev.log

namespace Holding

/-- The holdings depend on the pool, the PDU that waits, and the queue and the log of the device. -/
theorem congr (h : Holding i s) (hcmdQ : s'.slot.pool.cmdQ = s.slot.pool.cmdQ)
    (hcmds : ∀ e ∈ s'.slot.pool.cmds.entries, e ∈ s.slot.pool.cmds.entries)
    (hmem : s'.slot.pool.cmdMem = s.slot.pool.cmdMem)
    (hw : s'.slot.waiting = s.slot.waiting ∨ s'.slot.waiting = none)
    (hjobs : ∀ c ∈ s'.dev.jobs i, c ∈ s.dev.jobs i)
    (hlog : ∀ c, DevEvent.queued i c ∈ s.dev.log → DevEvent.queued i c ∈ s'.dev.log)
    (hcfg : s'.dev.cfg = s.dev.cfg) : Holding i s' := by
  refine ⟨?_, ?_, fun k c he => ?_, fun h' hdr c hc => ?_,
    fun c hc => hlog c (h.jobs c (hjobs c hc)), fun c hc => ?_⟩
  · rw [hmem, hcfg]
    exact h.aimed
  · rw [hmem, hcmdQ]
    exact h.free
  · rw [hmem]
    exact (h.outstanding k c (hcmds _ he)).imp id (hlog c)
  · rcases hw with hw | hw
    · rw [hw] at hc
      rw [hmem]
      obtain ⟨hd, hr, hq⟩ := h.waiting h' hdr c hc
      exact ⟨hd, hr, hlog c hq⟩
    · exact absurd (hw.symm.trans hc).symm (Option.some_ne_none _)
  · rw [hmem] at hc
    exact hlog c (h.data c hc)

/-- Only the command `c` has changed. -/
theorem change (h : Holding i s) (hcfg : s'.dev.cfg = s.dev.cfg)
    (hw : s'.slot.waiting = s.slot.waiting)
    (hothers : ∀ c', c' ≠ c → s'.slot.pool.cmdMem c' = s.slot.pool.cmdMem c')
    (hlog : ∀ e ∈ s.dev.log, e ∈ s'.dev.log)
    (hjobs : ∀ c' ∈ s'.dev.jobs i, c' ∈ s.dev.jobs i ∨ DevEvent.queued i c' ∈ s'.dev.log)
    (hcmdQ : ∀ c' ∈ s'.slot.pool.cmdQ.toList, c' ≠ c → c' ∈ s.slot.pool.cmdQ.toList)
    (hcmds : ∀ k c', (k, c') ∈ s'.slot.pool.cmds.entries → c' ≠ c →
      (k, c') ∈ s.slot.pool.cmds.entries)
    (haimed : Aimed s.dev.cfg (s'.slot.pool.cmdMem c))
    (hfree : c ∈ s'.slot.pool.cmdQ.toList →
      (s'.slot.pool.cmdMem c).scsiCmd.sendData = true ∨ (s'.slot.pool.cmdMem c).got = [])
    (hout : ∀ k, (k, c) ∈ s'.slot.pool.cmds.entries →
      (s'.slot.pool.cmdMem c).scsiCmd.sendData = false ∧ DevEvent.queued i c ∈ s'.dev.log)
    (hwait : ∀ h hdr, s.slot.waiting = some (h, hdr, c) → (s'.slot.pool.cmdMem c).done = false ∧
      ((s'.slot.pool.cmdMem c).ready = true → (s'.slot.pool.cmdMem c).scsiCmd.sendData = false))
    (hdata : (s'.slot.pool.cmdMem c).got ≠ [] → DevEvent.queued i c ∈ s'.dev.log) :
    Holding i s' := by
  refine ⟨fun c' => ?_, fun c' hc => ?_, fun k c' he => ?_, fun h' hdr c' hc' => ?_,
    fun c' hc => ?_, fun c' hc' => ?_⟩
  · rw [hcfg]
    by_cases hc : c' = c
    · exact hc ▸ haimed
    · rw [hothers c' hc]
      exact h.aimed c'
  · by_cases hne : c' = c
    · subst hne
      exact hfree hc
    · rw [hothers c' hne]
      exact h.free c' (hcmdQ c' hc hne)
  · by_cases hne : c' = c
    · subst hne
      exact hout k he
    · rw [hothers c' hne]
      exact (h.outstanding k c' (hcmds k c' he hne)).imp id (hlog _)
  · rw [hw] at hc'
    obtain ⟨hd, hr, hq⟩ := h.waiting h' hdr c' hc'
    by_cases hne : c' = c
    · subst hne
      obtain ⟨hd', hr'⟩ := hwait h' hdr hc'
      exact ⟨hd', hr', hlog _ hq⟩
    · rw [hothers c' hne]
      exact ⟨hd, hr, hlog _ hq⟩
  · exact (hjobs c' hc).elim (fun hj => hlog _ (h.jobs c' hj)) id
  · by_cases hne : c' = c
    · subst hne
      exact hdata hc'
    · rw [hothers c' hne] at hc'
      exact hlog _ (h.data c' hc')

end Holding

/-! ## The LUN worker -/

/-- The data of a command that the LUN worker takes. -/
structure LunFrame (c : Nat) (s s' : Local) : Prop where
  others : ∀ c', c' ≠ c → s'.slot.pool.cmdMem c' = s.slot.pool.cmdMem c'
  cmdQueue : s'.dev.cmdQueue = s.dev.cmdQueue
  done : (s'.slot.pool.cmdMem c).done = (s.slot.pool.cmdMem c).done
  cmds : ∀ e ∈ s'.slot.pool.cmds.entries, e ∈ s.slot.pool.cmds.entries
  cmdQ : ∀ c' ∈ s'.slot.pool.cmdQ.toList, c' ≠ c → c' ∈ s.slot.pool.cmdQ.toList

/-- A command is completed with its callback, or it is neither closed nor freed. -/
def LunFate (id c : Nat) (s s' : Local) : Prop :=
  (s.slot.pool.cmdMem c).scsiCmd.sendData = false ∧
      (s'.slot.pool.cmdMem c).scsiCmd.sendData = true ∧ c ∈ s'.slot.pool.cmdQ.toList ∧
      (∃ t, s'.dev.log = s.dev.log ++ [.callback id c t]) ∨
    (s'.slot.pool.cmdMem c).scsiCmd.sendData = (s.slot.pool.cmdMem c).scsiCmd.sendData ∧
      s'.slot.pool.cmdQ = s.slot.pool.cmdQ ∧ s'.slot.pool.cmds = s.slot.pool.cmds ∧
      s'.dev.log = s.dev.log

section Lun

variable {id : Nat} {M : TargetCmd → TargetCmd → Prop}

theorem lunFrame_retires (h : Retires c M s s') (hM : ∀ {t t'}, M t t' → t.Kept t') :
    LunFrame c s s' := by
  obtain ⟨a, hrem⟩ := h.cmds
  refine ⟨h.others, h.cmdQueue, (hM h.cmd).done, fun e he => ?_, fun c' hc hne => ?_⟩
  · exact (TagHash.remove_some hrem).1.mem_iff.mpr (List.mem_cons_of_mem _ he)
  · rw [(Fifo.insert_some h.cmdQ).1] at hc
    exact (List.mem_append.mp hc).elim id fun h => absurd (List.mem_singleton.mp h) hne

theorem lunFate_completed (h : Completed id c M s s') : LunFate id c s s' := by
  obtain ⟨t, -, hl⟩ := h.log
  refine .inl ⟨h.wasOpen, h.closed, ?_, t, hl⟩
  rw [(Fifo.insert_some h.cmdQ).1]
  exact List.mem_append_right _ (List.mem_singleton_self c)

theorem lunFrame_touched (h : Touched c s s') : LunFrame c s s' ∧ LunFate id c s s' :=
  ⟨⟨h.others, h.cmdQueue, h.cmd.done, fun _ he => h.cmds ▸ he, fun _ hc _ => h.cmdQ ▸ hc⟩,
    .inr ⟨h.sendData, h.cmdQ, h.cmds, h.log⟩⟩

/-- Whatever becomes of the command. -/
theorem lunEnd_frame (h : LunEnd id c s s') : LunFrame c s s' ∧ LunFate id c s s' := by
  cases h with
  | answered _ h => exact ⟨lunFrame_retires h.toRetires fun hm => hm.toKept, lunFate_completed h⟩
  | device _ _ _ h =>
    cases h with
    | completed h => exact ⟨lunFrame_retires h.toRetires fun hm => hm.toKept, lunFate_completed h⟩
    | pending h => exact lunFrame_touched h
    | failed h => exact lunFrame_touched h
  | done _ h => exact ⟨lunFrame_retires h.toRetires fun hm => hm.toKept, lunFate_completed h⟩
  | noTrace _ h => exact lunFrame_touched (.of_quiet h)

/-- A command that the LUN worker takes is open, unless it has no place on the medium. -/
theorem lunEnd_wasOpen (h : LunEnd id c s s') : (s.slot.pool.cmdMem c).scsiCmd.sendData = false ∨
    writeSpan s.dev.cfg (s.slot.pool.cmdMem c).scsiCmd.cdb = none := by
  cases h with
  | answered _ h => exact .inl h.wasOpen
  | device _ hopen => exact .inl hopen
  | done _ h => exact .inl h.wasOpen
  | noTrace _ _ hop => exact .inr (writeSpan_tracingSet hop)

theorem lunEnd_open (h : LunEnd id c s s') (hd : (s.slot.pool.cmdMem c).done = false) :
    (s.slot.pool.cmdMem c).scsiCmd.sendData = false := by
  cases h with
  | answered _ h => exact h.wasOpen
  | device _ hopen => exact hopen
  | done hd' => exact absurd (hd.symm.trans hd') (by decide)
  | noTrace hd' => exact absurd (hd.symm.trans hd') (by decide)

/-- The LUN worker serves the command that it takes. -/
theorem Holding.lun (h : Holding id s) (hb' : Books id s') (hst : DiskType.staged s.dev.cfg = false)
    (hq : DevEvent.queued id c ∈ s.dev.log)
    (hjob : c ∉ s.slot.pool.cmdQ.toList ∨ (s.slot.pool.cmdMem c).scsiCmd.sendData = true)
    (hx : lunWorker id c s = .ret ⟨⟩ s') : Holding id s' ∧ Serves id c s s' := by
  have hl : LunEnd id c s s' := (lunWorker_spec s).of_ret hx
  obtain ⟨hlist, hs⟩ := (lunWorker_stores hst (h.aimed c)).of_ret hx
  obtain ⟨hframe, hfate⟩ := lunEnd_frame hl
  obtain ⟨l, hlog, -, hready⟩ := hs.log
  have hmem : ∀ e ∈ s.dev.log, e ∈ s'.dev.log := fun e he => hlog ▸ List.mem_append_left _ he
  refine ⟨h.change hs.cfg hl.calm.waiting hframe.others hmem
    (fun c' hc => .inl (by rwa [Device.jobs, hframe.cmdQueue] at hc)) hframe.cmdQ
    (fun _ _ he _ => hframe.cmds _ he) hs.aimed ?_ ?_ ?_ fun _ => hmem _ hq,
    ⟨hq, hs, hframe.others, lunEnd_wasOpen hl, ?_⟩⟩
  · rcases hfate with ⟨-, hclosed, -⟩ | ⟨hsend, hcmdQ, -⟩
    · exact fun _ => .inl hclosed
    · intro hc
      rw [hcmdQ] at hc
      exact .inl (hsend.trans (hjob.resolve_left fun hn => hn hc))
  · intro k he
    rcases hfate with ⟨-, -, hc, -⟩ | ⟨hsend, -, hcmds, -⟩
    · exact absurd hc (hb'.outstanding k c he).2
    · rw [hcmds] at he
      exact ⟨hsend.trans (h.outstanding k c he).1, hmem _ hq⟩
  · -- the command is ready only after it was served, and it is not completed then
    intro h' hdr hw
    have hd := (h.waiting h' hdr c hw).1
    have hnot := ((h.aimed c).untouched (hlist hd)).ready
    refine ⟨hframe.done.trans hd, fun hr => ?_⟩
    rcases hfate with ⟨-, -, -, t, ht⟩ | ⟨hsend, -⟩
    · have hne : l ≠ [] := by
        rintro rfl
        exact absurd (ht.symm.trans hlog) (by simp)
      exact absurd ((hready hne).symm.trans hr) (by simp [hnot])
    · exact hsend.trans (lunEnd_open hl hd)
  · intro hopen hclosed
    rcases hfate with ⟨-, -, -, t, ht⟩ | ⟨hsend, -⟩
    · exact ⟨t, by rw [ht, List.drop_left]; exact List.mem_singleton_self _⟩
    · exact absurd (hopen.symm.trans (hsend.symm.trans hclosed)) (by decide)

end Lun

/-! ## Write data -/

/-- Only the command `c` is altered, and it stays open or closed. -/
structure Alters (i c : Nat) (s s' : Local) : Prop where
  cmdQ : s'.slot.pool.cmdQ = s.slot.pool.cmdQ
  cmds : s'.slot.pool.cmds = s.slot.pool.cmds
  others : ∀ c', c' ≠ c → s'.slot.pool.cmdMem c' = s.slot.pool.cmdMem c'
  sendData : (s'.slot.pool.cmdMem c).scsiCmd.sendData = (s.slot.pool.cmdMem c).scsiCmd.sendData
  jobs : ∀ c' ∈ s'.dev.jobs i, c' ∈ s.dev.jobs i ∨ c' = c

section Data

instance instIsPreorderAlters : IsPreorder Local (Alters i c) where
  refl _ := ⟨rfl, rfl, fun _ _ => rfl, rfl, fun _ => .inl⟩
  trans _ _ _ h h' :=
    ⟨h'.cmdQ.trans h.cmdQ, h'.cmds.trans h.cmds,
      fun c' hc => (h'.others c' hc).trans (h.others c' hc), h'.sendData.trans h.sendData,
      fun c' hc => (h'.jobs c' hc).elim (h.jobs c') .inr⟩

theorem Alters.of_quiet (h : Quiet c s s') : Alters i c s s' :=
  ⟨h.cmdQ, h.cmds, h.others, h.sendData, fun c' hc => .inl (by rwa [Device.jobs, h.cmdQueue] at hc)⟩

theorem Alters.setCmd {t : TargetCmd}
    (ht : t.scsiCmd.sendData = (s.slot.pool.cmdMem c).scsiCmd.sendData) :
    Alters i c s (s.setCmd c t) := by
  have hself : (s.setCmd c t).slot.pool.cmdMem c = t := Function.update_self ..
  refine ⟨rfl, rfl, fun _ hc => Function.update_of_ne hc _ _, ?_, fun _ => .inl⟩
  rw [hself, ht]

theorem Alters.enqueued (h : Enqueued i c s s') : Alters i c s s' := by
  have hjobs := Books.jobs_enqueued h
  obtain ⟨_, q, hq, rfl⟩ := h
  refine ⟨rfl, rfl, fun _ _ => rfl, rfl, fun c' hc => ?_⟩
  rw [hjobs] at hc
  exact (List.mem_append.mp hc).imp id List.mem_singleton.mp

theorem Alters.finished (h : Finished i c s s') : Alters i c s s' := by
  obtain ⟨s₁, hs₁, he⟩ := h
  have h₁ : Alters i c s s₁ := hs₁ ▸ .setCmd rfl
  exact Trans.trans h₁ (Alters.enqueued he)

/-- Write data alter their command. -/
theorem WriteEnd.alters {data : WriteData} {rc : Int} (h : WriteEnd i c data rc s s') :
    Alters i c s s' := by
  cases h with
  | refused _ h => exact .of_quiet h
  | @taken s₁ s₂ _ hplaced hcounted hend =>
    have h₁ : Alters i c s s₁ := by
      rcases hplaced with ⟨_, hf⟩ | ⟨_, _, _, _, rfl⟩
      · exact .finished hf
      · refine ⟨rfl, rfl, fun _ hc => Function.update_of_ne hc _ _, ?_, fun _ => .inl⟩
        simp [Local.setCmd, Local.setPool, Local.setDev, Local.setConn]
    have h₂ : Alters i c s₁ s₂ := by
      obtain rfl : s₂ = _ := hcounted
      exact .setCmd rfl
    have h₃ : Alters i c s₂ s' := by
      rcases hend with ⟨_, _, hf⟩ | ⟨_, hq⟩
      · exact .finished hf
      · exact .of_quiet hq
    exact Trans.trans (Trans.trans h₁ h₂) h₃

/-- The worker of the session serves the command of write data. -/
theorem Holding.data_served {hdr : Bytes} {data : WriteData} {rc : Int} (h : Holding i s)
    (hopen : (s.slot.pool.cmdMem c).scsiCmd.sendData = false) (hl : Books.Live c s)
    (hready : (s.slot.pool.cmdMem c).ready = true) (hq : DevEvent.queued i c ∈ s.dev.log)
    (hw : s.slot.waiting = none) (hend : WriteEnd i c data rc s s')
    (hx : writeDataReady i hdr c s = .ret rc s') : Holding i s' ∧ Serves i c s s' := by
  have hlun := hl.lun.resolve_right (by simp [hopen])
  obtain ⟨hs, hlog⟩ := (writeDataReady_stores ⟨h.aimed c, hready, hlun⟩).of_ret hx
  have ha := hend.alters
  have hmem : ∀ e ∈ s.dev.log, e ∈ s'.dev.log := fun e he => hlog ▸ he
  refine ⟨h.change hs.cfg hend.still.2.1 ha.others hmem (fun c' hc => ?_)
    (fun _ hc _ => ha.cmdQ ▸ hc) (fun _ _ he _ => ha.cmds ▸ he) hs.aimed (fun hc => ?_)
    (fun k he => ?_) ?_ fun _ => hmem _ hq,
    ⟨hq, hs, ha.others, .inl hopen, fun _ hclosed => ?_⟩⟩
  · refine (ha.jobs c' hc).imp id ?_
    rintro rfl
    exact hmem _ hq
  · rw [ha.cmdQ] at hc
    exact absurd hc (hl.free.resolve_right (by simp [hopen]))
  · exact ⟨ha.sendData.trans hopen, hmem _ hq⟩
  · intro _ _ hw'
    exact absurd (hw.symm.trans hw').symm (Option.some_ne_none _)
  · exact absurd (hopen.symm.trans (ha.sendData.symm.trans hclosed)) (by decide)

end Data

/-! ## SCSI command requests -/

section Request

variable {h : Nat} {hdr : Bytes} {rc : Int}

/-- What a SCSI command request does to the commands, other than to the structure that it takes. -/
structure Files (i c : Nat) (s s' : Local) : Prop where
  others : ∀ c', c' ≠ c → s'.slot.pool.cmdMem c' = s.slot.pool.cmdMem c'
  waiting : s'.slot.waiting = s.slot.waiting
  cmdQ : ∀ c' ∈ s'.slot.pool.cmdQ.toList, c' ≠ c → c' ∈ s.slot.pool.cmdQ.toList
  cmds : ∀ k c', (k, c') ∈ s'.slot.pool.cmds.entries → c' ≠ c →
    (k, c') ∈ s.slot.pool.cmds.entries
  jobs : ∀ c' ∈ s'.dev.jobs i, c' ∈ s.dev.jobs i ∨ DevEvent.queued i c' ∈ s'.dev.log
  outstanding : ∀ k, (k, c) ∈ s'.slot.pool.cmds.entries →
    (s'.slot.pool.cmdMem c).scsiCmd.sendData = false ∧ DevEvent.queued i c ∈ s'.dev.log

/-- A structure was taken, and nothing else has happened. -/
theorem Files.arrived {t : TargetCmd} (hb : Books i s) (ha : Arrived c t s s') :
    Files i c s s' := by
  have hq := (Fifo.remove_some ha.cmdQ).1
  refine ⟨ha.others, ha.waiting, fun c' hc _ => ?_, fun k c' he _ => ha.cmds ▸ he,
    fun c' hc => .inl (ha.dev ▸ hc), fun k he => ?_⟩
  · rw [hq]
    exact List.mem_cons_of_mem _ hc
  · rw [ha.cmds] at he
    refine absurd ?_ (hb.outstanding k c he).2
    rw [hq]
    exact List.mem_cons_self

/-- The structure that was taken became free again. -/
theorem Files.retires {M : TargetCmd → TargetCmd → Prop} {s₁ : Local} (hb' : Books i s')
    (h : Files i c s s₁) (hr : Retires c M s₁ s')
    (hlog : ∀ e ∈ s₁.dev.log, e ∈ s'.dev.log) : Files i c s s' := by
  have hq := (Fifo.insert_some hr.cmdQ).1
  obtain ⟨a, hrem⟩ := hr.cmds
  have hperm := (TagHash.remove_some hrem).1
  refine ⟨fun c' hc => (hr.others c' hc).trans (h.others c' hc), hr.calm.waiting.trans h.waiting,
    fun c' hc hne => ?_, fun k c' he hne => h.cmds k c' (hperm.mem_iff.mpr
      (List.mem_cons_of_mem _ he)) hne, fun c' hc => ?_, fun k he => ?_⟩
  · rw [hq] at hc
    exact h.cmdQ c' ((List.mem_append.mp hc).resolve_right fun h =>
      hne (List.mem_singleton.mp h)) hne
  · rw [Device.jobs, hr.cmdQueue] at hc
    exact (h.jobs c' hc).imp id (hlog _)
  · refine absurd ?_ (hb'.outstanding k c he).2
    rw [hq]
    exact List.mem_append_right _ (List.mem_singleton_self c)

/-- The structure that was taken went to the device. -/
theorem Files.booked {s₁ s₂ : Local} (h : Files i c s s₁)
    (hopen : (s₁.slot.pool.cmdMem c).scsiCmd.sendData = false) (hb : Booked i c s₁ s₂) :
    Files i c s s₂ ∧ DevEvent.queued i c ∈ s₂.dev.log ∧
      (s₂.slot.pool.cmdMem c).scsiCmd.sendData = false := by
  obtain ⟨s₃, hh, rfl⟩ := hb.hashed
  have hmem : DevEvent.queued i c ∈ s₁.dev.log ++ [.queued i c] :=
    List.mem_append_right _ (List.mem_singleton_self _)
  cases hh with
  | taken _ hs =>
    subst hs
    exact ⟨⟨h.others, h.waiting, h.cmdQ, h.cmds,
      fun c' hc => (h.jobs c' hc).imp id (List.mem_append_left _),
      fun k he => (h.outstanding k he).imp id (List.mem_append_left _)⟩, hmem, hopen⟩
  | inserted _ hins hs =>
    subst hs
    have hperm := (TagHash.insert_some hins).1
    refine ⟨⟨h.others, h.waiting, h.cmdQ, fun k c' he hne => ?_,
      fun c' hc => (h.jobs c' hc).imp id (List.mem_append_left _),
      fun k he => ⟨hopen, hmem⟩⟩, hmem, hopen⟩
    rcases List.mem_cons.mp (hperm.mem_iff.mp he) with he | he
    · exact absurd (Prod.mk.inj he).2 hne
    · exact h.cmds k c' he hne

/-- A SCSI command request changes the structure that it takes. -/
theorem ScsiEnd.files (hb : Books i s) (hb' : Books i s') (hs : ScsiEnd i h hdr rc s s') :
    s' = s ∨ ∃ c, (∃ q, s.slot.pool.cmdQ.remove = some (c, q)) ∧ Files i c s s' := by
  cases hs with
  | noCmd _ hs => exact .inl hs
  | @refused c s₁ ha _ hend =>
    have h₁ := Files.arrived hb ha
    refine .inr ⟨c, ⟨_, ha.cmdQ⟩, ?_⟩
    cases hend with
    | retired _ hr hlog => exact h₁.retires hb' hr fun _ he => hlog ▸ he
    | stopped _ hs =>
      have hcmds : ∀ e ∈ s'.slot.pool.cmds.entries, e ∈ s₁.slot.pool.cmds.entries := by
        rcases hs.cmds with hc | ⟨a, hc⟩
        · exact fun _ he => hc ▸ he
        · exact fun _ he => (TagHash.remove_some hc).1.mem_iff.mpr (List.mem_cons_of_mem _ he)
      refine ⟨fun c' hc => (hs.others c' hc).trans (h₁.others c' hc),
        hs.calm.waiting.trans h₁.waiting, fun c' hc hne => h₁.cmdQ c' (hs.cmdQ ▸ hc) hne,
        fun k c' he hne => h₁.cmds k c' (hcmds _ he) hne,
        fun c' hc => ?_, fun k he => ?_⟩
      · rw [Device.jobs, hs.cmdQueue] at hc
        exact (h₁.jobs c' hc).imp id fun hq => hs.log ▸ hq
      · have he₁ := hcmds _ he
        rw [ha.cmds] at he₁
        refine absurd ?_ (hb.outstanding k c he₁).2
        rw [(Fifo.remove_some ha.cmdQ).1]
        exact List.mem_cons_self
  | dropped _ ha => exact .inr ⟨_, ⟨_, ha.cmdQ⟩, .arrived hb ha⟩
  | @queued c s₁ s₂ _ _ ha _ _ _ hbooked hend =>
    have hopen : (s₁.slot.pool.cmdMem c).scsiCmd.sendData = false :=
      congrArg (fun t => t.scsiCmd.sendData) ha.cmd
    obtain ⟨h₂, hq, hopen₂⟩ := (Files.arrived hb ha).booked hopen hbooked
    refine .inr ⟨c, ⟨_, ha.cmdQ⟩, ?_⟩
    cases hend with
    | enqueued _ he =>
      have hjobs := Books.jobs_enqueued he
      obtain ⟨crash, q, _, rfl⟩ := he
      refine ⟨h₂.others, h₂.waiting, h₂.cmdQ, h₂.cmds, fun c' hc => ?_, h₂.outstanding⟩
      rw [hjobs] at hc
      rcases List.mem_append.mp hc with hc | hc
      · exact h₂.jobs c' hc
      · exact .inr (List.mem_singleton.mp hc ▸ hq)
    | answered _ hr =>
      obtain ⟨t, _, hl⟩ := hr.log
      exact h₂.retires hb' hr.toRetires fun _ he => hl ▸ List.mem_append_left _ he

/-- A SCSI command request leaves the medium and the data alone. -/
theorem Holding.request (hh : Holding i s) (hb : Books i s) (hb' : Books i s')
    (hst : DiskType.staged s.dev.cfg = false) (hw : s.slot.waiting = none)
    (hx : scsiCommandT i h hdr s = .ret rc s') : Holding i s' ∧ Rests s s' := by
  rcases (scsiCommandT_takes h hdr hst).of_ret hx with rfl | ⟨c, ht⟩
  · exact ⟨hh, .of_eq rfl rfl⟩
  rcases ((scsiCommandT_spec i h hdr s).of_ret hx).files hb hb' with rfl | ⟨c', ⟨q', hq'⟩, hf⟩
  · exact ⟨hh, .of_eq rfl rfl⟩
  obtain ⟨q, hq⟩ := ht.cmdQ
  obtain rfl : c = c' := congrArg Prod.fst (Option.some.inj (hq.symm.trans hq'))
  obtain ⟨l, hl, hall⟩ := ht.log
  have hmem : ∀ e ∈ s.dev.log, e ∈ s'.dev.log := fun e he => hl ▸ List.mem_append_left _ he
  have hgot := ht.untouched.got
  refine ⟨hh.change ht.cfg hf.waiting hf.others hmem hf.jobs hf.cmdQ hf.cmds (ht.untouched.aimed _)
    (fun _ => .inr hgot) hf.outstanding (fun _ _ hw' => ?_) (fun hne => absurd hgot hne),
    ⟨ht.media, ht.cfg, ⟨l, hl, fun j c' t he => ?_⟩, fun c' => ?_⟩⟩
  · exact absurd (hw.symm.trans hw').symm (Option.some_ne_none _)
  · rcases hall _ he with he | ⟨t', he, hgot', -⟩
    · cases he
    · cases he
      exact hgot'.trans hgot
  · by_cases hne : c' = c
    · subst hne
      refine .inr ⟨hgot, hh.free c' ?_⟩
      rw [(Fifo.remove_some hq).1]
      exact List.mem_cons_self
    · exact .inl (hf.others c' hne)

end Request

/-! ## Rounds -/

/-- What the effect of a step depends on. -/
def stock (s : Local) : (Nat → TargetCmd) × (Nat → UInt8) × DiskConfig × List DevEvent :=
  (s.slot.pool.cmdMem, s.dev.mem .media, s.dev.cfg, s.dev.log)

theorem Effect.congr {s₁ s₁' : Local} (h : Effect i s₁ s₁') (hs : stock s = stock s₁)
    (hs' : stock s' = stock s₁') : Effect i s s' := by
  simp only [stock, Prod.mk.injEq] at hs hs'
  obtain ⟨hmem, hmedia, hcfg, hlog⟩ := hs
  obtain ⟨hmem', hmedia', hcfg', hlog'⟩ := hs'
  cases h with
  | rests h =>
    refine .rests ⟨?_, ?_, ?_, ?_⟩
    · rw [hmedia, hmedia', h.media]
    · rw [hcfg, hcfg', h.cfg]
    · rw [hlog, hlog']
      exact h.log
    · rw [hmem, hmem']
      exact h.cmds
  | @serves c h =>
    refine .serves (c := c) ⟨?_, ⟨?_, ?_, ?_, ?_, ?_⟩, ?_, ?_, ?_⟩
    · rw [hlog]
      exact h.queued
    · rw [hcfg, hcfg', h.stores.cfg]
    · rw [hmem, hmem', h.stores.cdb]
    · rw [hmem, hmem', hcfg, hmedia, hmedia']
      exact h.stores.stored
    · rw [hmem, hmem', hlog, hlog']
      exact h.stores.log
    · rw [hmem', hcfg]
      exact h.stores.aimed
    · rw [hmem, hmem']
      exact h.others
    · rw [hmem, hcfg]
      exact h.wasOpen
    · rw [hmem, hmem', hlog, hlog']
      exact h.closed

/-- What `execute_t` does with a `WRITE_DATA` PDU, up to the run for a command that is ready. -/
theorem writeDataT_run (id h : Nat) (hdr : Bytes) (s : Local) :
    ensures (writeDataT id h hdr) (fun _ s' => s' = s ∨
      ∃ c, (iscsiItt hdr, c) ∈ s.slot.pool.cmds.entries ∧
        ((s.slot.pool.cmdMem c).ready = false ∧ s' = s.setWaiting (some (h, hdr, c)) ∨
          (s.slot.pool.cmdMem c).ready = true ∧ ∃ rc, writeDataReady id hdr c s = .ret rc s'))
      s := by
  rw [writeDataT, ensures]
  dsimp only
  refine (wp_ite _ _ _).mpr ⟨fun _ => .inl rfl, fun _ => ?_⟩
  rw [wp_bind, wp_getOutstanding]
  refine ⟨fun _ => trivial, fun _ => ?_⟩
  rcases hget : s.slot.pool.cmds.get (iscsiWriteDataDecap hdr).2.tag with _ | c
  · trivial
  have hc : (iscsiItt hdr, c) ∈ s.slot.pool.cmds.entries := TagHash.get_eq_some.mp hget
  dsimp only
  rw [wp_bind, wp_getCmd]
  refine (wp_ite _ _ _).mpr ⟨fun hready => ?_, fun hready => ?_⟩
  · rw [wp_bind, wp_modify]
    exact .inr ⟨c, hc, .inl ⟨by simpa using hready, rfl⟩⟩
  · rw [wp_map]
    exact ensures_run.mono fun rc s' hrun => .inr ⟨c, hc, .inr ⟨by simpa using hready, rc, hrun⟩⟩

section Round

variable {env : Env} {h : Nat} {hdr : Bytes}

/-- A handler that leaves the pool and the device alone. -/
theorem Holding.aside (hh : Holding i s) (ha : Keeps Target.aside s s') :
    Holding i s' ∧ Effect i s s' := by
  have hpool : s'.slot.pool = s.slot.pool := congrArg (fun a => a.1) ha
  have hdev : s'.dev = s.dev := congrArg (fun a => a.2.1) ha
  have hw : s'.slot.waiting = s.slot.waiting := congrArg (fun a => a.2.2.1) ha
  refine ⟨hh.congr (by rw [hpool]) (fun _ he => hpool ▸ he) (by rw [hpool]) (.inl hw)
    (fun _ hc => hdev ▸ hc) (fun _ hq => hdev ▸ hq) (by rw [hdev]),
    .rests (.of_eq (by rw [hpool]) hdev)⟩

/-- A `WRITE_DATA` PDU. -/
theorem Holding.writeData (hh : Holding i s) (hb : Books i s) (hw : s.slot.waiting = none)
    {r : Option Int} (hx : writeDataT i h hdr s = .ret r s') : Holding i s' ∧ Effect i s s' := by
  rcases (writeDataT_run i h hdr s).of_ret hx with rfl | ⟨c, hc, ⟨hready, rfl⟩ | ⟨hready, rc, hrun⟩⟩
  · exact ⟨hh, .rests (.of_eq rfl rfl)⟩
  · refine ⟨⟨hh.aimed, hh.free, hh.outstanding, fun h₁ hdr₁ c₁ hw₁ => ?_, hh.jobs, hh.data⟩,
      .rests (.of_eq rfl rfl)⟩
    obtain ⟨-, -, rfl⟩ : h = h₁ ∧ hdr = hdr₁ ∧ c = c₁ := by simpa [Local.setWaiting] using hw₁
    obtain ⟨hopen, hq⟩ := hh.outstanding _ _ hc
    exact ⟨Bool.eq_false_iff.mpr fun hd => absurd ((hh.aimed c).done hd) (by simp [hready]),
      fun _ => hopen, hq⟩
  · obtain ⟨hopen, hq⟩ := hh.outstanding _ _ hc
    have hl := hb.live hc hready
    have hend := (writeDataReady_spec (hb.outstanding _ _ hc).1 hl.lun).of_ret hrun
    obtain ⟨hh', hs⟩ := hh.data_served hopen hl hready hq hw hend hrun
    exact ⟨hh', .serves hs⟩

/-- A PDU that was dispatched. -/
theorem Holding.executed (hh : Holding i s) (hb : Books i s)
    (hst : DiskType.staged s.dev.cfg = false) (hw : s.slot.waiting = none) {r : Option Int}
    (hx : Executed env i h hdr s s' r) : Holding i s' ∧ Effect i s s' := by
  have hb' := (hb.executed hx hw).1
  cases hx with
  | outOfPhase ha => exact hh.aside ha
  | task _ _ hrun => exact hh.aside ((aside_taskCommandT hdr).of_ret hrun)
  | nop _ _ hrun => exact hh.aside ((aside_nopOutT hdr).of_ret hrun)
  | login _ hrun => exact hh.aside ((loginCommandT_spec env i hdr s).of_ret hrun).aside
  | text _ _ hrun => exact hh.aside ((aside_textCommandT hdr env).of_ret hrun)
  | logout _ hrun => exact hh.aside ((aside_logoutCommandT hdr).of_ret hrun)
  | scsi _ _ hrun =>
    obtain ⟨hh', hr⟩ := hh.request hb hb' hst hw hrun
    exact ⟨hh', .rests hr⟩
  | data _ _ hrun => exact hh.writeData hb hw hrun
  | unknown _ _ hrun => exact hh.aside ((aside_rejectT hdr 0x04).of_ret hrun)

/-- What becomes of the header and of the worker is not seen by the data. -/
theorem Holding.settled {queued : Int} (hh : Holding i s) (hs : Settled h hdr s queued s') :
    Holding i s' ∧ stock s' = stock s := by
  cases hs <;>
    exact ⟨hh.congr rfl (fun _ => id) rfl (.inl rfl) (fun _ => id) (fun _ => id) rfl, rfl⟩

/-- A round of the worker. -/
theorem Holding.round (hh : Holding i s) (hb : Books i s) (hst : DiskType.staged s.dev.cfg = false)
    (hr : Round env i s s') : Holding i s' ∧ Effect i s s' := by
  have hrests {s' : Local} (hp : s'.slot.pool.cmdQ = s.slot.pool.cmdQ)
      (hc : s'.slot.pool.cmds = s.slot.pool.cmds) (hm : s'.slot.pool.cmdMem = s.slot.pool.cmdMem)
      (hw : s'.slot.waiting = s.slot.waiting) (hd : s'.dev = s.dev) :
      Holding i s' ∧ Effect i s s' :=
    ⟨hh.congr hp (fun _ he => hc ▸ he) hm (.inl hw) (fun _ h => hd ▸ h)
      (fun _ h => hd ▸ h) (by rw [hd]), .rests (.of_eq hm hd)⟩
  have htaken (q : Fifo Nat) : Holding i (s.setHeaderQ q).skipHeader ∧
      Books i (s.setHeaderQ q).skipHeader :=
    ⟨hh.congr rfl (fun _ => id) rfl (.inl rfl) (fun _ => id) (fun _ => id) rfl,
      hb.congr rfl rfl rfl (.inl rfl) rfl rfl⟩
  cases hr with
  | noHeader _ _ hs =>
    subst hs
    exact hrests rfl rfl rfl rfl rfl
  | short _ _ _ _ hs =>
    subst hs
    exact hrests rfl rfl rfl rfl rfl
  | @waits h q hw _ _ hx =>
    obtain ⟨h₁, he⟩ := (htaken q).1.executed (htaken q).2 hst hw hx
    exact ⟨h₁, he.congr rfl rfl⟩
  | @executed h q queued s₁ hw _ _ hx hs =>
    obtain ⟨h₁, he⟩ := (htaken q).1.executed (htaken q).2 hst hw hx
    obtain ⟨h₂, hstock⟩ := h₁.settled hs
    exact ⟨h₂, he.congr rfl hstock⟩
  | stays _ _ hs =>
    subst hs
    exact hrests rfl rfl rfl rfl rfl
  | @resumed h c hdr rc s₁ hw hready hx hs =>
    obtain ⟨hend, hl⟩ := hb.resumed hw hready hx
    obtain ⟨-, hopen, hq⟩ := hh.waiting h hdr c hw
    have h₀ : Holding i (s.setWaiting none) :=
      hh.congr rfl (fun _ => id) rfl (.inr rfl) (fun _ => id) (fun _ => id) rfl
    obtain ⟨h₁, he⟩ := h₀.data_served (hopen hready) hl hready hq rfl hend hx
    obtain ⟨h₂, hstock⟩ := h₁.settled hs
    exact ⟨h₂, (Effect.serves he).congr rfl hstock⟩

end Round

/-! ## Steps of the daemon -/

/-- The device moved for another slot. -/
theorem Holding.elsewhere {j : Nat} {d : Device} {flag : Bool} (hh : Holding j s)
    (he : Elsewhere i s.dev d) (hj : j ≠ i) : Holding j { s with dev := d, nopFlag := flag } := by
  have hjobs : d.jobs j = s.dev.jobs j := he.jobs j hj
  refine hh.congr rfl (fun _ => id) rfl (.inl rfl) (fun c hc => hjobs ▸ hc) (fun c hq => ?_) he.cfg
  have hevent : DevEvent.queued j c ∈ d.events j := by
    rw [he.events j hj]
    exact List.mem_filter.mpr ⟨hq, by simp [DevEvent.slot]⟩
  exact List.mem_of_mem_filter hevent

/-- A slot that has not been used. -/
theorem holding_fresh (hs : s.slot = Slot.fresh) (hd : s.dev.jobs i = []) : Holding i s := by
  refine ⟨?_, ?_, ?_, ?_, ?_, ?_⟩ <;> simp only [hs, hd]
  · exact fun c => (⟨rfl, rfl, rfl, rfl⟩ : Untouched TargetCmd.zero).aimed _
  · exact fun _ _ => .inr rfl
  · intro k c he
    simp [Slot.fresh] at he
  · intro h hdr c hw
    simp [Slot.fresh] at hw
  · simp
  · exact fun _ hne => absurd rfl hne

/-- What a step does to the medium and to the commands. -/
structure World.Affects (i : Nat) (w w' : World) : Prop where
  effect : Effect i (w.view i) (w'.view i)
  others : ∀ j, j ≠ i → (w'.slots j).pool.cmdMem = (w.slots j).pool.cmdMem

section Steps

variable {env : Env} {w w' : World} {e : Event}

/-- The commands stay as they are. -/
theorem World.Affects.of_eq (hmem : ∀ j, (w'.slots j).pool.cmdMem = (w.slots j).pool.cmdMem)
    (hdev : w'.dev = w.dev) : w.Affects i w' :=
  ⟨.rests (.of_eq (hmem i) hdev), fun j _ => hmem j⟩

/-- What a step does, and that it keeps the holdings.  A round of a worker is about its slot. -/
theorem World.Move.affects (hb : ∀ i, Books i (w.view i)) (hh : ∀ i, Holding i (w.view i))
    (hb' : ∀ i, Books i (w'.view i)) (hst : DiskType.staged w.dev.cfg = false)
    (hm : World.Move env w e w') : (∀ i, Holding i (w'.view i)) ∧
      ∃ i, (∀ j, e = .rx j → i = j) ∧ w.Affects i w' := by
  cases hm with
  | idle =>
    cases e with
    | rx j => exact ⟨hh, j, fun _ h => Event.rx.inj h, .of_eq (fun _ => rfl) rfl⟩
    | accept cl => exact ⟨hh, 0, fun _ h => Event.noConfusion h, .of_eq (fun _ => rfl) rfl⟩
    | lun => exact ⟨hh, 0, fun _ h => Event.noConfusion h, .of_eq (fun _ => rfl) rfl⟩
  | @accept cl i hl =>
    refine ⟨fun j => ?_, i, fun _ h => Event.noConfusion h, .of_eq (fun j => ?_) (by simp)⟩
    · rw [World.view_nextListener]
      by_cases hj : j = i
      · subst hj
        refine (hh j).congr ?_ ?_ ?_ (.inr ?_) (fun _ => id) (fun _ => id) rfl
        all_goals simp [World.view, Slot.start]
      · refine (hh j).congr ?_ ?_ ?_ (.inl ?_) (fun _ => id) (fun _ => id) rfl
        all_goals simp [World.view, Function.update_of_ne hj]
    · rw [World.slots_nextListener]
      by_cases hj : j = i
      · subst hj
        simp [Slot.start]
      · simp [Function.update_of_ne hj]
  | @round i s hp hs =>
    have hr : Round env i (w.view i) s := (workerRound_spec env i _).of_ret hs
    obtain ⟨h₁, he⟩ := (hh i).round (hb i) hst hr
    refine ⟨fun j => ?_, i, fun _ h => Event.rx.inj h, ?_, fun j hj => ?_⟩
    · by_cases hj : j = i
      · subst hj
        rwa [World.view_put_self]
      · rw [World.view_put_of_ne w s hj]
        exact (hh j).elsewhere ((hb i).round hr).2 hj
    · rwa [World.view_put_self]
    · rw [World.slots_put_of_ne _ _ hj]
  | @ended i p q hp hend =>
    refine ⟨fun j => ?_, i, fun _ h => Event.rx.inj h, .of_eq (fun j => ?_) rfl⟩
    · by_cases hj : j = i
      · subst hj
        refine (hh j).congr ?_ ?_ ?_ (.inl ?_) (fun _ => id) (fun _ => id) rfl
        all_goals simp [World.view, Slot.cleaned]
      · refine (hh j).congr ?_ ?_ ?_ (.inl ?_) (fun _ => id) (fun _ => id) rfl
        all_goals simp [World.view, Function.update_of_ne hj]
    · by_cases hj : j = i
      · subst hj
        simp [Slot.cleaned]
      · simp [Function.update_of_ne hj]
  | @lun i c q s hq hs =>
    obtain ⟨he, hjobs⟩ := elsewhere_popped hq
    have hmem : c ∈ w.dev.jobs i := hjobs ▸ List.mem_cons_self
    have hpop : Holding i ((w.popped q).view i) :=
      (hh i).congr rfl (fun _ => id) rfl (.inl rfl)
        (fun c' hc => hjobs ▸ List.mem_cons_of_mem _ hc) (fun _ => id) rfl
    have hb₁ : Books i s := by
      have h := hb' i
      rwa [World.view_put_self] at h
    obtain ⟨h₁, hserves⟩ := hpop.lun hb₁ hst ((hh i).jobs c hmem) ((hb i).jobs c hmem) hs
    refine ⟨fun j => ?_, i, fun _ h => Event.noConfusion h, ?_, fun j hj => ?_⟩
    · by_cases hj : j = i
      · subst hj
        rwa [World.view_put_self]
      · rw [World.view_put_of_ne _ s hj]
        exact (hh j).elsewhere (he.trans (.of_lunEnd ((lunWorker_spec _).of_ret hs))) hj
    · rw [World.view_put_self]
      exact (Effect.serves hserves).congr rfl rfl
    · rw [World.slots_put_of_ne _ _ hj]
      rfl

end Steps

end Ost.Target
