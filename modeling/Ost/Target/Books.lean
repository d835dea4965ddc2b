import Ost.Target.Round

/-!
# The books of a session

Which command structures are free, outstanding and queued, in every reachable state and without
any assumption on what the initiator sends.  The books (`Books`) say that an outstanding command
is on them under its own tag, that a free structure is not outstanding, and that a command in the
queue of the device is free only once it has been completed.
-/

namespace Ost.Target

open Ost.Iscsi Ost.Util Ost.Param Ost.Prog Ost.Disk

/-! ## Other slots -/

/-- The commands of a slot in the queue of the device. -/
def Device.jobs (d : Device) (i : Nat) : List Nat :=
  (d.cmdQueue.toList.filter fun e => e.1 = i).map (·.2)

/-- The slot of an event. -/
def DevEvent.slot : DevEvent → Nat
  | .queued i _ | .callback i _ _ => i

/-- What happened to the commands of a slot. -/
def Device.events (d : Device) (i : Nat) : List DevEvent := d.log.filter fun e => e.slot = i

/-- A handler of the slot `i` does not touch what the device holds for the other slots. -/
structure Elsewhere (i : Nat) (d d' : Device) : Prop where
  cfg : d'.cfg = d.cfg
  jobs : ∀ j, j ≠ i → d'.jobs j = d.jobs j
  events : ∀ j, j ≠ i → d'.events j = d.events j

namespace Elsewhere

variable {i c : Nat} {d d' d'' : Device}

theorem refl (d : Device) : Elsewhere i d d := ⟨rfl, fun _ _ => rfl, fun _ _ => rfl⟩

theorem trans (h : Elsewhere i d d') (h' : Elsewhere i d' d'') : Elsewhere i d d'' :=
  ⟨h'.cfg.trans h.cfg, fun j hj => (h'.jobs j hj).trans (h.jobs j hj),
    fun j hj => (h'.events j hj).trans (h.events j hj)⟩

/-- The queue and the log stay. -/
theorem of_eq (hcfg : d'.cfg = d.cfg) (hq : d'.cmdQueue = d.cmdQueue) (hl : d'.log = d.log) :
    Elsewhere i d d' :=
  ⟨hcfg, fun _ _ => by rw [Device.jobs, hq]; rfl, fun _ _ => by rw [Device.events, hl]; rfl⟩

/-- The queue stays, and an event of the slot is logged. -/
theorem of_log {e : DevEvent} (hcfg : d'.cfg = d.cfg) (hq : d'.cmdQueue = d.cmdQueue)
    (he : e.slot = i) (hl : d'.log = d.log ++ [e]) : Elsewhere i d d' := by
  refine ⟨hcfg, fun _ _ => by rw [Device.jobs, hq]; rfl, fun j hj => ?_⟩
  have hne : ¬e.slot = j := fun h => hj (h.symm.trans he)
  simp [Device.events, hl, hne]

/-- A command of the slot was queued, and the log stays. -/
theorem of_insert (hcfg : d'.cfg = d.cfg) (hq : d.cmdQueue.insert (i, c) = some d'.cmdQueue)
    (hl : d'.log = d.log) : Elsewhere i d d' := by
  refine ⟨hcfg, fun j hj => ?_, fun _ _ => by rw [Device.events, hl]; rfl⟩
  simp [Device.jobs, (Fifo.insert_some hq).1, hj.symm]

section Relations

variable {s s' : Local} {M : TargetCmd → TargetCmd → Prop} {rc : Int}

theorem of_quiet (h : Quiet c s s') : Elsewhere i s.dev s'.dev := of_eq h.calm.cfg h.cmdQueue h.log

theorem of_touched (h : Touched c s s') : Elsewhere i s.dev s'.dev :=
  of_eq h.calm.cfg h.cmdQueue h.log

theorem of_completed (h : Completed i c M s s') : Elsewhere i s.dev s'.dev := by
  obtain ⟨_, _, hl⟩ := h.log
  exact of_log h.calm.cfg h.cmdQueue rfl hl

theorem of_deviceEnd (h : DeviceEnd i c s s') : Elsewhere i s.dev s'.dev := by
  cases h with
  | completed h => exact of_completed h
  | pending h => exact of_touched h
  | failed h => exact of_touched h

theorem of_lunEnd (h : LunEnd i c s s') : Elsewhere i s.dev s'.dev := by
  cases h with
  | answered _ h => exact of_completed h
  | device _ _ _ h => exact of_deviceEnd h
  | done _ h => exact of_completed h
  | noTrace _ h => exact of_quiet h

theorem of_ended (h : Ended c rc s s') : Elsewhere i s.dev s'.dev := by
  cases h with
  | retired _ h hl => exact of_eq h.calm.cfg h.cmdQueue hl
  | stopped _ h => exact of_eq h.calm.cfg h.cmdQueue h.log

theorem of_booked (h : Booked i c s s') : Elsewhere i s.dev s'.dev := by
  obtain ⟨s₁, hh, rfl⟩ := h.hashed
  have hdev : s₁.dev = s.dev := by cases hh <;> simp [*, Local.setPool]
  rw [← hdev]
  exact of_log (e := .queued i c) rfl rfl rfl rfl

theorem of_enqueued (h : Enqueued i c s s') : Elsewhere i s.dev s'.dev := by
  obtain ⟨_, _, hq, rfl⟩ := h
  exact of_insert rfl hq rfl

theorem of_handed (h : Handed i c s s') : Elsewhere i s.dev s'.dev := by
  cases h with
  | enqueued _ h => exact of_enqueued h
  | answered _ h => exact of_completed h

theorem of_finished (h : Finished i c s s') : Elsewhere i s.dev s'.dev := by
  obtain ⟨_, rfl, h⟩ := h
  exact (of_enqueued h :)

theorem of_scsiEnd {h : Nat} {hdr : Bytes} (h : ScsiEnd i h hdr rc s s') :
    Elsewhere i s.dev s'.dev := by
  cases h with
  | noCmd _ hs => exact hs ▸ refl _
  | refused ha _ hend => exact ha.dev ▸ of_ended hend
  | dropped _ ha => exact ha.dev ▸ refl _
  | queued _ _ ha _ _ _ hb hend => exact (ha.dev ▸ of_booked hb).trans (of_handed hend)

theorem of_writeEnd {data : WriteData} (h : WriteEnd i c data rc s s') :
    Elsewhere i s.dev s'.dev := by
  cases h with
  | refused _ h => exact of_quiet h
  | @taken s₁ s₂ _ hp hc hend =>
    have h₁ : Elsewhere i s.dev s₁.dev := by
      rcases hp with ⟨_, h⟩ | ⟨_, _, _, _, rfl⟩
      · exact of_finished h
      · exact of_eq rfl rfl rfl
    have h₂ : Elsewhere i s₁.dev s₂.dev := by
      obtain rfl : s₂ = _ := hc
      exact refl _
    refine (h₁.trans h₂).trans ?_
    rcases hend with ⟨_, _, h⟩ | ⟨_, h⟩
    · exact of_finished h
    · exact of_quiet h

theorem of_aside (h : Keeps aside s s') : Elsewhere i s.dev s'.dev := by
  have hdev : s'.dev = s.dev := congrArg (fun a => a.2.1) h
  exact hdev ▸ refl _

end Relations

end Elsewhere


/-! ## The invariant -/

/-- The books of the slot `i`. -/
structure Books (i : Nat) (s : Local) : Prop where
  /-- No structure is free twice. -/
  free : s.slot.pool.cmdQ.toList.Nodup
  /-- An outstanding command is on the books under its tag, and not free. -/
  outstanding : ∀ k c, (k, c) ∈ s.slot.pool.cmds.entries →
    (s.slot.pool.cmdMem c).scsiCmd.tag = k ∧ c ∉ s.slot.pool.cmdQ.toList
  /-- The command that a PDU waits for is that of its tag, and free only when completed. -/
  waiting : ∀ h hdr c, s.slot.waiting = some (h, hdr, c) →
    (s.slot.pool.cmdMem c).scsiCmd.tag = iscsiItt hdr ∧
      (c ∉ s.slot.pool.cmdQ.toList ∨ (s.slot.pool.cmdMem c).scsiCmd.sendData = true)
  /-- A command in the queue of the device is free only when completed. -/
  jobs : ∀ c ∈ s.dev.jobs i,
    c ∉ s.slot.pool.cmdQ.toList ∨ (s.slot.pool.cmdMem c).scsiCmd.sendData = true
  /-- Data are only taken for a LUN that exists. -/
  lun : ∀ c, ((s.slot.pool.cmdMem c).ready = true ∨ (s.slot.pool.cmdMem c).done = true) →
    (s.slot.pool.cmdMem c).scsiCmd.lun < s.dev.cfg.numLuns ∨
      (s.slot.pool.cmdMem c).scsiCmd.sendData = true

namespace Books

variable {i c : Nat} {s s' : Local}

/-- The books depend on the pool, the PDU that waits, the queue of the device and its LUNs. -/
theorem congr (h : Books i s) (hpool : s'.slot.pool.cmdQ = s.slot.pool.cmdQ)
    (hcmds : s'.slot.pool.cmds = s.slot.pool.cmds) (hmem : s'.slot.pool.cmdMem = s.slot.pool.cmdMem)
    (hw : s'.slot.waiting = s.slot.waiting ∨ s'.slot.waiting = none)
    (hjobs : s'.dev.jobs i = s.dev.jobs i) (hcfg : s'.dev.cfg = s.dev.cfg) : Books i s' := by
  refine ⟨?_, ?_, ?_, ?_, ?_⟩ <;> simp only [hpool, hcmds, hmem, hjobs, hcfg]
  · exact h.free
  · exact h.outstanding
  · intro h' hdr c hc
    rcases hw with hw | hw <;> rw [hw] at hc
    · exact h.waiting h' hdr c hc
    · exact nomatch hc
  · exact h.jobs
  · exact h.lun

/-- A change of the command `c` that keeps its identity. -/
theorem change (h : Books i s) (hcmdQ : s'.slot.pool.cmdQ = s.slot.pool.cmdQ)
    (hcmds : ∀ e ∈ s'.slot.pool.cmds.entries, e ∈ s.slot.pool.cmds.entries)
    (hw : s'.slot.waiting = s.slot.waiting) (hcfg : s'.dev.cfg = s.dev.cfg)
    (hothers : ∀ c', c' ≠ c → s'.slot.pool.cmdMem c' = s.slot.pool.cmdMem c')
    (hjobs : ∀ c' ∈ s'.dev.jobs i, c' ∈ s.dev.jobs i ∨
      c' ∉ s.slot.pool.cmdQ.toList ∨ (s.slot.pool.cmdMem c').scsiCmd.sendData = true)
    (htag : (s'.slot.pool.cmdMem c).scsiCmd.tag = (s.slot.pool.cmdMem c).scsiCmd.tag)
    (hsend : (s.slot.pool.cmdMem c).scsiCmd.sendData = true →
      (s'.slot.pool.cmdMem c).scsiCmd.sendData = true)
    (hlun : (s'.slot.pool.cmdMem c).scsiCmd.lun < s.dev.cfg.numLuns ∨
      (s'.slot.pool.cmdMem c).scsiCmd.sendData = true) : Books i s' := by
  have hmem (c' : Nat) :
      (s'.slot.pool.cmdMem c').scsiCmd.tag = (s.slot.pool.cmdMem c').scsiCmd.tag ∧
        ((s.slot.pool.cmdMem c').scsiCmd.sendData = true →
        (s'.slot.pool.cmdMem c').scsiCmd.sendData = true) := by
    by_cases hc : c' = c
    · subst hc
      exact ⟨htag, hsend⟩
    · rw [hothers c' hc]
      exact ⟨rfl, id⟩
  refine ⟨hcmdQ ▸ h.free, fun k c' he => ?_, fun h' hdr c' hc => ?_, fun c' hc => ?_,
    fun c' hr => ?_⟩
  · rw [(hmem c').1, hcmdQ]
    exact h.outstanding k c' (hcmds _ he)
  · rw [hw] at hc
    rw [(hmem c').1, hcmdQ]
    exact (h.waiting h' hdr c' hc).imp id (Or.imp id (hmem c').2)
  · rw [hcmdQ]
    exact ((hjobs c' hc).elim (h.jobs c') id).imp id (hmem c').2
  · rw [hcfg]
    by_cases hc : c' = c
    · subst hc
      exact hlun
    · rw [hothers c' hc] at hr ⊢
      exact h.lun c' hr

/-- A program that completes nothing. -/
theorem touched (h : Books i s) (hq : Touched c s s')
    (hlun : (s.slot.pool.cmdMem c).scsiCmd.lun < s.dev.cfg.numLuns ∨
      (s.slot.pool.cmdMem c).scsiCmd.sendData = true) : Books i s' :=
  h.change hq.cmdQ (fun _ he => hq.cmds ▸ he) hq.calm.waiting hq.calm.cfg hq.others
    (fun _ hc => .inl (by rwa [Device.jobs, hq.cmdQueue] at hc)) hq.cmd.tag
    (fun hs => hq.sendData.trans hs) (by rwa [hq.cmd.lun, hq.sendData])

/-- A quiet program. -/
theorem quiet (h : Books i s) (hq : Quiet c s s')
    (hlun : (s.slot.pool.cmdMem c).scsiCmd.lun < s.dev.cfg.numLuns ∨
      (s.slot.pool.cmdMem c).scsiCmd.sendData = true) : Books i s' := h.touched (.of_quiet hq) hlun

/-- A command is taken off the books and becomes free. -/
theorem retires {M : TargetCmd → TargetCmd → Prop} (h : Books i s) (hr : Retires c M s s')
    (hM : ∀ {t t'}, M t t' → t.Kept t') (hc : c ∉ s.slot.pool.cmdQ.toList) : Books i s' := by
  obtain ⟨a, hrem⟩ := hr.cmds
  obtain ⟨hperm, _⟩ := TagHash.remove_some hrem
  have hkept := hM hr.cmd
  have hq : s'.slot.pool.cmdQ.toList = s.slot.pool.cmdQ.toList ++ [c] :=
    (Fifo.insert_some hr.cmdQ).1
  have hold {e : UInt32 × Nat} (he : e ∈ s'.slot.pool.cmds.entries) :
      e ∈ s.slot.pool.cmds.entries := hperm.mem_iff.mpr (List.mem_cons_of_mem _ he)
  -- the entry that was removed is the only one under the tag of `c`
  have hne {k : UInt32} {c' : Nat} (he : (k, c') ∈ s'.slot.pool.cmds.entries) : c' ≠ c := by
    rintro rfl
    have hk := (h.outstanding k c' (hold he)).1
    have hnodup := (hperm.map (·.1)).nodup_iff.mp (TagHash.nodup_keys _)
    rw [List.map_cons, List.nodup_cons] at hnodup
    exact hnodup.1 (hk ▸ List.mem_map.mpr ⟨_, he, rfl⟩)
  refine ⟨?_, fun k c' he => ?_, fun h' hdr c' hw => ?_, fun c' hj => ?_, fun c' hready => ?_⟩
  · rw [hq]
    exact List.nodup_append.mpr
      ⟨h.free, by simp, by simpa using fun a ha => ne_of_mem_of_not_mem ha hc⟩
  · have hout := h.outstanding k c' (hold he)
    rw [hr.others c' (hne he), hq]
    exact ⟨hout.1, by simp [hout.2, hne he]⟩
  · rw [hr.calm.waiting] at hw
    have hout := h.waiting h' hdr c' hw
    by_cases hc' : c' = c
    · subst hc'
      exact ⟨hkept.tag.trans hout.1, .inr hr.closed⟩
    · rw [hr.others c' hc', hq]
      exact ⟨hout.1, hout.2.imp (fun hn => by simp [hn, hc']) id⟩
  · rw [Device.jobs, hr.cmdQueue] at hj
    by_cases hc' : c' = c
    · subst hc'
      exact .inr hr.closed
    · rw [hr.others c' hc', hq]
      exact (h.jobs c' hj).imp (fun hn => by simp [hn, hc']) id
  · by_cases hc' : c' = c
    · subst hc'
      exact .inr hr.closed
    · rw [hr.calm.cfg]
      rw [hr.others c' hc'] at hready ⊢
      exact h.lun c' hready

/-- A callback that fails. -/
theorem stopped (h : Books i s) (hs : Stopped c s s') : Books i s' := by
  refine h.change hs.cmdQ ?_ hs.calm.waiting hs.calm.cfg hs.others
    (fun _ hc => .inl (by rwa [Device.jobs, hs.cmdQueue] at hc)) hs.cmd.tag (fun _ => hs.closed)
    (.inr hs.closed)
  rcases hs.cmds with hc | ⟨a, hc⟩
  · exact fun _ he => hc ▸ he
  · exact fun _ he => (TagHash.remove_some hc).1.mem_iff.mpr (List.mem_cons_of_mem _ he)

/-- A command that the device has interpreted. -/
theorem deviceEnd (h : Books i s) (hd : DeviceEnd i c s s')
    (hlun : (s.slot.pool.cmdMem c).scsiCmd.lun < s.dev.cfg.numLuns)
    (hc : c ∉ s.slot.pool.cmdQ.toList) : Books i s' := by
  cases hd with
  | completed hd => exact h.retires hd.toRetires (fun hm => hm.toKept) hc
  | pending hd => exact h.touched hd (.inl hlun)
  | failed hd => exact h.touched hd (.inl hlun)

/-- A round of the LUN worker. -/
theorem lunEnd (h : Books i s) (hl : LunEnd i c s s')
    (hc : c ∉ s.slot.pool.cmdQ.toList ∨ (s.slot.pool.cmdMem c).scsiCmd.sendData = true) :
    Books i s' := by
  have hfree (hopen : (s.slot.pool.cmdMem c).scsiCmd.sendData = false) :
      c ∉ s.slot.pool.cmdQ.toList := hc.resolve_right (by simp [hopen])
  cases hl with
  | answered _ hl => exact h.retires hl.toRetires (fun hm => hm.toKept) (hfree hl.wasOpen)
  | device _ hopen hlun hl => exact h.deviceEnd hl hlun (hfree hopen)
  | done _ hl => exact h.retires hl.toRetires (fun hm => hm.toKept) (hfree hl.wasOpen)
  | noTrace hd hl => exact h.quiet hl (h.lun c (.inr hd))

/-- A command structure was taken from the pool. -/
theorem arrived {t : TargetCmd} (h : Books i s) (ha : Arrived c t s s')
    (hw : s.slot.waiting = none) (ht : t.ready = false ∧ t.done = false) :
    Books i s' ∧ c ∉ s'.slot.pool.cmdQ.toList ∧ (s'.slot.pool.cmdMem c).scsiCmd.tag =
      t.scsiCmd.tag := by
  have hq : s.slot.pool.cmdQ.toList = c :: s'.slot.pool.cmdQ.toList := (Fifo.remove_some ha.cmdQ).1
  have hfree := h.free
  rw [hq, List.nodup_cons] at hfree
  have hne {k : UInt32} {c' : Nat} (he : (k, c') ∈ s.slot.pool.cmds.entries) : c' ≠ c := by
    rintro rfl
    exact (h.outstanding k c' he).2 (by rw [hq]; exact List.mem_cons_self)
  have hready : (s'.slot.pool.cmdMem c).ready = false ∧ (s'.slot.pool.cmdMem c).done = false :=
    ⟨(congrArg TargetCmd.ready ha.cmd).trans ht.1, (congrArg TargetCmd.done ha.cmd).trans ht.2⟩
  refine ⟨⟨hfree.2, fun k c' he => ?_, fun h' hdr c' hc => ?_, fun c' hj => ?_, fun c' hr => ?_⟩,
    hfree.1, congrArg (fun t => t.scsiCmd.tag) ha.cmd⟩
  · rw [ha.cmds] at he
    have hout := h.outstanding k c' he
    rw [hq] at hout
    rw [ha.others c' (hne he)]
    exact ⟨hout.1, fun hm => hout.2 (List.mem_cons_of_mem _ hm)⟩
  · rw [ha.waiting, hw] at hc
    exact nomatch hc
  · rw [ha.dev] at hj
    by_cases hc' : c' = c
    · subst hc'
      exact .inl hfree.1
    · rw [ha.others c' hc']
      refine (h.jobs c' hj).imp (fun hn hm => hn ?_) id
      rw [hq]
      exact List.mem_cons_of_mem _ hm
  · rw [ha.dev]
    by_cases hc' : c' = c
    · subst hc'
      simp [hready] at hr
    · rw [ha.others c' hc'] at hr ⊢
      exact h.lun c' hr

/-- A command was put on the books. -/
theorem booked (h : Books i s) (hb : Booked i c s s') (hc : c ∉ s.slot.pool.cmdQ.toList) :
    Books i s' := by
  obtain ⟨s₁, hh, rfl⟩ := hb.hashed
  suffices Books i s₁ from this.congr rfl rfl rfl (.inl rfl) rfl rfl
  cases hh with
  | taken _ hs => exact hs ▸ h
  | @inserted t _ hins hs =>
    subst hs
    obtain ⟨hperm, _⟩ := TagHash.insert_some hins
    refine ⟨h.free, fun k c' he => ?_, h.waiting, h.jobs, h.lun⟩
    rcases List.mem_cons.mp (hperm.mem_iff.mp he) with he | he
    · obtain ⟨rfl, rfl⟩ := Prod.mk.inj he
      exact ⟨rfl, hc⟩
    · exact h.outstanding k c' he

/-- The jobs of a slot after a command of it was queued. -/
theorem jobs_enqueued (he : Enqueued i c s s') : s'.dev.jobs i = s.dev.jobs i ++ [c] := by
  obtain ⟨_, q, hq, rfl⟩ := he
  simp [Device.jobs, Local.setDev, (Fifo.insert_some hq).1]

/-- A command was put in the queue of the device. -/
theorem enqueued (h : Books i s) (he : Enqueued i c s s')
    (hc : c ∉ s.slot.pool.cmdQ.toList ∨ (s.slot.pool.cmdMem c).scsiCmd.sendData = true) :
    Books i s' := by
  have hjobs := jobs_enqueued he
  obtain ⟨_, q, hq, rfl⟩ := he
  refine ⟨h.free, h.outstanding, h.waiting, fun c' hj => ?_, h.lun⟩
  rw [hjobs] at hj
  rcases List.mem_append.mp hj with hj | hj
  · exact h.jobs c' hj
  · obtain rfl := List.mem_singleton.mp hj
    exact hc

/-- A command goes back to the device. -/
theorem finished (h : Books i s) (hf : Finished i c s s')
    (hc : c ∉ s.slot.pool.cmdQ.toList ∨ (s.slot.pool.cmdMem c).scsiCmd.sendData = true)
    (hlun : (s.slot.pool.cmdMem c).scsiCmd.lun < s.dev.cfg.numLuns ∨
      (s.slot.pool.cmdMem c).scsiCmd.sendData = true) : Books i s' := by
  obtain ⟨s₁, rfl, he⟩ := hf
  have hself : (s.setCmd c { s.slot.pool.cmdMem c with done := true }).slot.pool.cmdMem c =
      { s.slot.pool.cmdMem c with done := true } := Function.update_self ..
  refine Books.enqueued ?_ he ?_
  · exact h.change rfl (fun _ => id) rfl rfl (fun c' hc => Function.update_of_ne hc _ _)
      (fun _ => .inl) (by rw [hself]) (by rw [hself]; exact id) (by rwa [hself])
  · rwa [hself]

/-- A SCSI command request. -/
theorem scsiEnd {h' : Nat} {hdr : Bytes} {rc : Int} (h : Books i s) (hs : ScsiEnd i h' hdr rc s s')
    (hw : s.slot.waiting = none) : Books i s' := by
  cases hs with
  | noCmd _ hs => exact hs ▸ h
  | refused ha _ hend =>
    obtain ⟨h₁, hc, _⟩ := h.arrived ha hw ⟨rfl, rfl⟩
    cases hend with
    | retired _ hr _ => exact h₁.retires hr (fun hm => hm.toKept) hc
    | stopped _ hs => exact h₁.stopped hs
  | dropped _ ha => exact (h.arrived ha hw ⟨rfl, rfl⟩).1
  | @queued c s₁ s₂ _ _ ha _ _ _ hb hend =>
    obtain ⟨h₁, hc, _⟩ := h.arrived ha hw ⟨rfl, rfl⟩
    have h₂ := h₁.booked hb hc
    have hc₂ : c ∉ s₂.slot.pool.cmdQ.toList := by
      obtain ⟨s₃, hh, rfl⟩ := hb.hashed
      cases hh <;> simp [*, Local.setPool, Local.setDev]
    cases hend with
    | enqueued _ he => exact h₂.enqueued he (.inl hc₂)
    | answered _ hr => exact h₂.retires hr.toRetires (fun hm => hm.toKept) hc₂

/-- What the books need of a command that data arrive for. -/
structure Live (c : Nat) (s : Local) : Prop where
  free : c ∉ s.slot.pool.cmdQ.toList ∨ (s.slot.pool.cmdMem c).scsiCmd.sendData = true
  lun : (s.slot.pool.cmdMem c).scsiCmd.lun < s.dev.cfg.numLuns ∨
    (s.slot.pool.cmdMem c).scsiCmd.sendData = true

/-- A change of the command `c` that its books do not see. -/
theorem setCmd {t : TargetCmd} (h : Books i s) (hl : Live c s)
    (ht : t.scsiCmd.tag = (s.slot.pool.cmdMem c).scsiCmd.tag)
    (hlun : t.scsiCmd.lun = (s.slot.pool.cmdMem c).scsiCmd.lun)
    (hs : t.scsiCmd.sendData = (s.slot.pool.cmdMem c).scsiCmd.sendData) :
    Books i (s.setCmd c t) ∧ Live c (s.setCmd c t) := by
  have hself : (s.setCmd c t).slot.pool.cmdMem c = t := Function.update_self ..
  refine ⟨h.change rfl (fun _ => id) rfl rfl (fun c' hc => Function.update_of_ne hc _ _)
    (fun _ => .inl) (by rw [hself, ht]) (by rw [hself, hs]; exact id) ?_, ⟨?_, ?_⟩⟩
  · rw [hself, hlun, hs]
    exact hl.lun
  · rw [hself, hs]
    exact hl.free
  · rw [hself, hlun, hs]
    exact hl.lun

/-- Write data for a command that is ready. -/
theorem writeEnd {data : WriteData} {rc : Int} (h : Books i s) (hw : WriteEnd i c data rc s s')
    (hl : Live c s) : Books i s' := by
  have hfin {s s' : Local} (h : Books i s) (hl : Live c s) (hf : Finished i c s s') :
      Books i s' ∧ Live c s' := by
    refine ⟨h.finished hf hl.free hl.lun, ?_⟩
    obtain ⟨_, rfl, _, _, _, rfl⟩ := hf
    refine ⟨?_, ?_⟩ <;> simp only [Local.setCmd, Local.setPool, Local.setDev, Function.update_self]
    · exact hl.free
    · exact hl.lun
  cases hw with
  | refused _ hq => exact h.quiet hq hl.lun
  | @taken s₁ s₂ _ hplaced hcounted hend =>
    have h₁ : Books i s₁ ∧ Live c s₁ := by
      rcases hplaced with ⟨_, hf⟩ | ⟨_, _, iov, _, rfl⟩
      · exact hfin h hl hf
      · exact setCmd (h.congr rfl rfl rfl (.inl rfl) rfl rfl) ⟨hl.free, hl.lun⟩ rfl rfl rfl
    have h₂ : Books i s₂ ∧ Live c s₂ := by
      obtain rfl : s₂ = _ := hcounted
      exact setCmd h₁.1 h₁.2 rfl rfl rfl
    rcases hend with ⟨_, _, hf⟩ | ⟨_, hq⟩
    · exact (hfin h₂.1 h₂.2 hf).1
    · exact h₂.1.quiet hq h₂.2.lun

/-- A command on the books whose data can be taken. -/
theorem live (h : Books i s) {k : UInt32} (hc : (k, c) ∈ s.slot.pool.cmds.entries)
    (hready : (s.slot.pool.cmdMem c).ready = true) : Live c s :=
  ⟨.inl (h.outstanding k c hc).2, h.lun c (.inl hready)⟩

/-- A PDU out of a handler that leaves the books alone. -/
theorem aside (h : Books i s) (ha : Keeps aside s s') : Books i s' := by
  have hpool : s'.slot.pool = s.slot.pool := congrArg (fun a => a.1) ha
  have hdev : s'.dev = s.dev := congrArg (fun a => a.2.1) ha
  have hw : s'.slot.waiting = s.slot.waiting := congrArg (fun a => a.2.2.1) ha
  exact h.congr (by rw [hpool]) (by rw [hpool]) (by rw [hpool]) (.inl hw) (by rw [hdev])
    (by rw [hdev])

/-- A `WRITE_DATA` PDU. -/
theorem dataEnd {h' : Nat} {hdr : Bytes} {r : Option Int} (h : Books i s)
    (hd : DataEnd i h' hdr r s s') (hw : s.slot.waiting = none) :
    Books i s' ∧ Elsewhere i s.dev s'.dev := by
  cases hd with
  | bad _ hs =>
    subst hs
    exact ⟨h, .refl _⟩
  | @waits c _ hc _ _ hs =>
    subst hs
    refine ⟨⟨h.free, h.outstanding, fun h₁ hdr₁ c₁ hw₁ => ?_, h.jobs, h.lun⟩, .refl _⟩
    obtain ⟨rfl, rfl, rfl⟩ : h' = h₁ ∧ hdr = hdr₁ ∧ c = c₁ := by
      simpa [Local.setWaiting] using hw₁
    exact (h.outstanding _ _ hc).imp id .inl
  | ready _ hc hready _ hend => exact ⟨h.writeEnd hend (h.live hc hready), .of_writeEnd hend⟩

variable {env : Env}

/-- A PDU that was dispatched. -/
theorem executed {h' : Nat} {hdr : Bytes} {r : Option Int} (h : Books i s)
    (hx : Executed env i h' hdr s s' r) (hw : s.slot.waiting = none) :
    Books i s' ∧ Elsewhere i s.dev s'.dev := by
  have haside (ha : Keeps Target.aside s s') : Books i s' ∧ Elsewhere i s.dev s'.dev :=
    ⟨h.aside ha, .of_aside ha⟩
  cases hx with
  | outOfPhase ha => exact haside ha
  | task _ _ hrun => exact haside ((aside_taskCommandT hdr).of_ret hrun)
  | nop _ _ hrun => exact haside ((aside_nopOutT hdr).of_ret hrun)
  | login _ hrun => exact haside ((loginCommandT_spec env i hdr s).of_ret hrun).aside
  | text _ _ hrun => exact haside ((aside_textCommandT hdr env).of_ret hrun)
  | logout _ hrun => exact haside ((aside_logoutCommandT hdr).of_ret hrun)
  | scsi _ _ hrun =>
    have hs := (scsiCommandT_spec i h' hdr s).of_ret hrun
    exact ⟨h.scsiEnd hs hw, .of_scsiEnd hs⟩
  | data _ _ hrun =>
    have hd := (writeDataT_spec i h' hdr (fun k c hc => (h.outstanding k c hc).1)
      fun c hc => h.lun c (.inl hc)).of_ret hrun
    exact h.dataEnd hd hw
  | unknown _ _ hrun => exact haside ((aside_rejectT hdr 0x04).of_ret hrun)

/-- Write data that waited. -/
theorem resumed {h' : Nat} {hdr : Bytes} {rc : Int} (h : Books i s)
    (hw : s.slot.waiting = some (h', hdr, c)) (hready : (s.slot.pool.cmdMem c).ready = true)
    (hx : writeDataReady i hdr c (s.setWaiting none) = .ret rc s') :
    WriteEnd i c (iscsiWriteDataDecap hdr).2 rc (s.setWaiting none) s' ∧
      Live c (s.setWaiting none) := by
  have hwait := h.waiting h' hdr c hw
  have hl := h.lun c (.inl hready)
  exact ⟨(writeDataReady_spec (s := s.setWaiting none) hwait.1 hl).of_ret hx, hwait.2, hl⟩

/-- What becomes of the header and of the worker. -/
theorem settled {h' : Nat} {hdr : Bytes} {queued : Int} (h : Books i s)
    (hs : Settled h' hdr s queued s') : Books i s' ∧ Elsewhere i s.dev s'.dev := by
  cases hs <;> exact ⟨h.congr rfl rfl rfl (.inl rfl) rfl rfl, .refl _⟩

/-- A round of the worker. -/
theorem round (h : Books i s) (hr : Round env i s s') :
    Books i s' ∧ Elsewhere i s.dev s'.dev := by
  cases hr with
  | noHeader _ _ hs => exact hs ▸ ⟨h.congr rfl rfl rfl (.inl rfl) rfl rfl, .refl _⟩
  | short _ _ _ _ hs => exact hs ▸ ⟨h.congr rfl rfl rfl (.inl rfl) rfl rfl, .refl _⟩
  | @waits h' q hw _ _ hx =>
    have h₀ : Books i (s.setHeaderQ q).skipHeader := h.congr rfl rfl rfl (.inl rfl) rfl rfl
    exact h₀.executed hx hw
  | @executed h' q queued s₁ hw _ _ hx hs =>
    have h₀ : Books i (s.setHeaderQ q).skipHeader := h.congr rfl rfl rfl (.inl rfl) rfl rfl
    have h₁ := h₀.executed hx hw
    have h₂ := h₁.1.settled hs
    exact ⟨h₂.1, h₁.2.trans h₂.2⟩
  | stays _ _ hs =>
    subst hs
    exact ⟨h, .refl _⟩
  | @resumed h' c hdr rc s₁ hw hready hx hs =>
    obtain ⟨hend, hl⟩ := h.resumed hw hready hx
    have h₀ : Books i (s.setWaiting none) := h.congr rfl rfl rfl (.inr rfl) rfl rfl
    have h₁ := h₀.writeEnd hend hl
    have h₂ := h₁.settled hs
    exact ⟨h₂.1, (Elsewhere.of_writeEnd hend).trans h₂.2⟩

/-- The device moved for another slot. -/
theorem elsewhere {j : Nat} {d : Device} {flag : Bool} (h : Books j s) (he : Elsewhere i s.dev d)
    (hj : j ≠ i) : Books j { s with dev := d, nopFlag := flag } :=
  h.congr rfl rfl rfl (.inl rfl) (he.jobs j hj) he.cfg

end Books

/-! ## Every reachable state -/

/-- Taking a command of the slot `i` from the queue. -/
theorem elsewhere_popped {w : World} {i c : Nat} {q : Fifo (Nat × Nat)}
    (hq : w.dev.cmdQueue.remove = some ((i, c), q)) :
    Elsewhere i w.dev (w.popped q).dev ∧ w.dev.jobs i = c :: (w.popped q).dev.jobs i := by
  have hl := (Fifo.remove_some hq).1
  refine ⟨⟨rfl, fun j hj => ?_, fun _ _ => rfl⟩, ?_⟩
  · simp [Device.jobs, hl, World.popped, hj.symm]
  · simp [Device.jobs, hl, World.popped]

/-- The books of a slot that has not been used. -/
theorem books_fresh {i : Nat} {s : Local} (hs : s.slot = Slot.fresh) (hd : s.dev.jobs i = []) :
    Books i s := by
  refine ⟨?_, ?_, ?_, ?_, ?_⟩ <;> simp only [hs, hd]
  · rw [Slot.fresh, toList_fillQueue (by decide)]
    exact List.nodup_range
  · intro k c he
    simp [Slot.fresh] at he
  · exact fun _ _ _ hw => nomatch hw
  · simp
  · simp [Slot.fresh, TargetCmd.zero]

variable {env : Env} {Ok : World → Event → Prop} {w₀ w : World}

/-- A world at its start. -/
structure World.Starts (w : World) : Prop where
  slots : ∀ i, w.slots i = Slot.fresh
  queue : w.dev.cmdQueue.toList = []
  log : w.dev.log = []
  nopFlag : w.nopFlag = false

theorem starts_start (d : Device) (hq : d.cmdQueue.toList = []) (hl : d.log = []) :
    (World.start d).Starts :=
  ⟨fun i => by simp [World.start], by simpa [World.start] using hq, by simpa [World.start] using hl,
    by simp [World.start]⟩

theorem starts_smallWorld : smallWorld.Starts := starts_start _ rfl rfl

/-- The books are in order in every reachable state. -/
theorem books_reachable (hw₀ : w₀.Starts) (h : Reach (step env) Ok w₀ w) (i : Nat) :
    Books i (w.view i) := by
  refine invariant_views (P := Books) (fun i => books_fresh (hw₀.slots i) ?_) ?_ ?_ ?_ ?_ h i
  · simp [Device.jobs, World.view, hw₀.queue]
  · intro i s cl hb
    refine ⟨hb.free, ?_, ?_, hb.jobs, hb.lun⟩
    · intro k c he
      simp [Slot.start] at he
    · exact fun _ _ _ hw => by cases hw
  · intro w i p _ _ _ _ hb
    refine ⟨hb.free, ?_, hb.waiting, hb.jobs, hb.lun⟩
    intro k c he
    simp [Slot.cleaned] at he
  · intro w i _ _ _ hw
    refine (workerRound_spec env i _).mono fun _ s hr => ?_
    obtain ⟨hb, he⟩ := (hw i).round hr
    exact ⟨hb, fun j hj => (hw j).elsewhere he hj⟩
  · intro w i c q _ _ hq hw
    obtain ⟨he, hjobs⟩ := elsewhere_popped hq
    have hi : Books i ((w.popped q).view i) := by
      refine ⟨(hw i).free, (hw i).outstanding, (hw i).waiting, fun c' hc => (hw i).jobs c' ?_,
        (hw i).lun⟩
      change c' ∈ w.dev.jobs i
      rw [hjobs]
      exact List.mem_cons_of_mem _ hc
    refine (lunWorker_spec _).mono fun _ s hl => ?_
    refine ⟨hi.lunEnd hl ((hw i).jobs c ?_), fun j hj => ?_⟩
    · change c ∈ w.dev.jobs i
      rw [hjobs]
      exact List.mem_cons_self
    · exact (hw j).elsewhere (he.trans (.of_lunEnd hl)) hj

end Ost.Target
