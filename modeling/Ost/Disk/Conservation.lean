import Ost.Disk.Staging
import Ost.Prog.Run
import Ost.Target.Moves

/-!
# No staging buffer is lost

Each staging buffer is in the queue or lent to one command, in every run whose steps meet `Careful`.
The buffers are lent by the interpretation of a command and given back by the worker that walks its
lists.
-/

namespace Ost.Disk

open Ost.Iscsi Ost.Util Ost.Param Ost.Prog Ost.Target

/-! ## Giving buffers back -/

section Release

variable {c : Nat} {s : Local}

/-- Insert a buffer into the queue if there is room. -/
def putBack (q : Fifo Nat) (b : Nat) : Fifo Nat := (q.insert b).getD q

/-- The device after buffers were given back. -/
def withBuffers (s : Local) (l : List Nat) : Local :=
  s.setDev { s.dev with stagingQ := l.foldl putBack s.dev.stagingQ }

theorem wp_putStagings (l : List Iov) (s : Local) :
    ensures (l.forM putStaging) (fun _ s' => s' = withBuffers s (l.filterMap stagingOf)) s := by
  induction l generalizing s with
  | nil => exact rfl
  | cons v l ih =>
    refine (wp_bind _ _).mpr ((wp_onDev _).mpr ?_)
    refine (ih _).mono fun _ s' h => ?_
    rw [h]
    cases hbase : v.base <;> simp [stagingOf, hbase, withBuffers, Local.setDev, putBack]

/-- Walking the lists of a command gives its buffers back. -/
theorem releaseBuffers_spec (hstaged : DiskType.staged s.dev.cfg = true) :
    ensures (releaseBuffers c) (fun _ s' => s' = withBuffers s (buffersOf (s.slot.pool.cmdMem c)))
      s := by
  refine (wp_bind _ _).mpr ((wp_getCmd c).mpr ((wp_bind _ _).mpr (wp_getDev.mpr ?_)))
  rw [if_pos hstaged]
  refine ensures.bind (P := fun _ s₁ => s₁ = withBuffers s
    (if (s.slot.pool.cmdMem c).scatterType = .staging then
      (s.slot.pool.cmdMem c).scatterList.filterMap stagingOf else [])) ?_ ?_
  · refine (wp_guarded _ _).mpr ⟨fun htype => ?_, fun htype => ?_⟩
    · rw [if_pos htype]
      exact wp_putStagings _ s
    · rw [if_neg htype]
      rfl
  · rintro _ s₁ rfl
    refine ensures.bind (P := fun _ s₂ => s₂ = withBuffers s (buffersOf (s.slot.pool.cmdMem c))) ?_
      fun _ _ h => h
    refine (wp_guarded _ _).mpr ⟨fun htype => ?_, fun htype => ?_⟩
    · refine (wp_putStagings _ _).mono fun _ s' h => ?_
      rw [h, buffersOf, if_pos htype]
      simp [withBuffers, Local.setDev]
    · rw [buffersOf, if_neg htype, List.append_nil]

end Release

/-! ## What is kept -/

/-- What holds of a structure whose lists are to be walked `walks` times. -/
structure Filed (stage : Stage) (walks : Nat) (t : TargetCmd) : Prop where
  single : (buffersOf t).length ≤ 1
  alone : 0 < walks → buffersOf t ≠ [] → stage = .free ∧ walks = 1
  blank : stage = .queued → Blank t
  write : stage = .waiting → buffersOf t ≠ [] → byte t.scsiCmd.cdb 0 ≠ opTracingSet

namespace Filed

variable {stage stage' : Stage} {walks walks' : Nat} {t t' : TargetCmd}

/-- Only what the command holds matters. -/
theorem congr (h : Filed stage walks t) (ht : holding t' = holding t) : Filed stage walks t' := by
  have htypes := ht
  simp only [holding, Prod.mk.injEq] at htypes
  constructor
  · rw [buffersOf_congr ht]
    exact h.single
  · rw [buffersOf_congr ht]
    exact h.alone
  · intro hq
    exact ⟨htypes.2.1.trans (h.blank hq).1, htypes.2.2.2.1.trans (h.blank hq).2⟩
  · rw [buffersOf_congr ht, cdb_congr ht]
    exact h.write

/-- A structure without buffers. -/
theorem of_nil (hnil : buffersOf t = []) (hblank : stage = .queued → Blank t) :
    Filed stage walks t where
  single := by
    rw [hnil]
    exact Nat.zero_le 1
  alone _ hne := absurd hnil hne
  blank := hblank
  write _ hne := absurd hnil hne

/-- The lists of a structure that waits for data are not walked if they have a buffer. -/
theorem walks_eq_zero (h : Filed stage walks t) (hstage : stage ≠ .free) (hne : buffersOf t ≠ []) :
    walks = 0 := by
  by_contra hpos
  exact hstage (h.alone (Nat.pos_of_ne_zero hpos) hne).1

end Filed

namespace Yard

/-- What holds in every state. -/
structure Sound (s : Yard) : Prop where
  staged : DiskType.staged s.loc.dev.cfg = true
  capacity : s.loc.dev.stagingQ.capacity = configLunQueueDepth
  conserved : s.Conserved
  filed : ∀ c, Filed (s.stage c) (s.releasing.count c) (s.cmd c)

/-- Only the structure `c` has moved. -/
structure Moved (c : Nat) (s s' : Yard) : Prop where
  cfg : s'.loc.dev.cfg = s.loc.dev.cfg
  stage : ∀ c', c' ≠ c → s'.stage c' = s.stage c'
  walks : ∀ c', c' ≠ c → s'.releasing.count c' = s.releasing.count c'
  holds : ∀ c', c' ≠ c → holding (s'.cmd c') = holding (s.cmd c')

variable {c : Nat} {s s' : Yard}

theorem inUse_iff : s.InUse c ↔ s.stage c = .waiting ∨ 0 < s.releasing.count c := by
  rw [InUse, List.count_pos_iff]

/-- What others use is the same. -/
theorem Moved.uses (h : Moved c s s') {c' : Nat} (hc : c' ≠ c) (b : Nat) :
    s'.Uses c' b ↔ s.Uses c' b := by
  rw [Uses, Uses, inUse_iff, inUse_iff, h.stage c' hc, h.walks c' hc,
    buffersOf_congr (h.holds c' hc)]

/-- If only `c` has moved, it remains to look at `c` and at the buffers. -/
theorem Sound.of_moved (h : s.Sound) (hmoved : Moved c s s')
    (hcap : s'.loc.dev.stagingQ.capacity = s.loc.dev.stagingQ.capacity) (hcons : s'.Conserved)
    (hfiled : Filed (s'.stage c) (s'.releasing.count c) (s'.cmd c)) : s'.Sound := by
  refine ⟨?_, hcap.trans h.capacity, hcons, fun c' => ?_⟩
  · rw [hmoved.cfg]
    exact h.staged
  · by_cases hc : c' = c
    · rw [hc]
      exact hfiled
    · rw [hmoved.stage c' hc, hmoved.walks c' hc]
      exact (h.filed c').congr (hmoved.holds c' hc)

/-- The queue is as before, and `c` uses what it used. -/
theorem Sound.of_same (h : s.Sound) (hmoved : Moved c s s')
    (hqueue : s'.loc.dev.stagingQ = s.loc.dev.stagingQ) (huses : ∀ b, s'.Uses c b ↔ s.Uses c b)
    (hfiled : Filed (s'.stage c) (s'.releasing.count c) (s'.cmd c)) : s'.Sound := by
  refine h.of_moved hmoved (by rw [hqueue]) ?_ hfiled
  rw [Conserved, free, hqueue]
  refine h.conserved.congr fun c' b => ?_
  by_cases hc : c' = c
  · rw [hc]
    exact huses b
  · exact hmoved.uses hc b

/-- A structure with empty lists uses nothing. -/
theorem not_uses (hnil : buffersOf (s.cmd c) = []) (b : Nat) : ¬s.Uses c b := by
  rintro ⟨-, hb⟩
  rw [hnil] at hb
  exact List.not_mem_nil hb

/-- A buffer is in the queue, or there is room for it. -/
theorem Sound.room (h : s.Sound) {b : Nat} (hb : s.Uses c b) :
    s.loc.dev.stagingQ.toList.length < s.loc.dev.stagingQ.capacity := by
  rw [h.capacity, ← List.length_range (n := configLunQueueDepth)]
  exact Lent.length_lt h.conserved hb fun _ => List.mem_range

/-! ## The events -/

/-- The state after what has become of a command was noted. -/
def settled (s : Yard) (c : Nat) : Fate → Yard
  | .reported =>
    { s with stage := Function.update s.stage c .free, releasing := c :: s.releasing }
  | .waits => { s with stage := Function.update s.stage c .waiting }
  | .fails => { s with stage := Function.update s.stage c .failed }

theorem wp_settle {fate : Fate} {Q : PUnit → Yard → Prop} {E : Halt → Yard → Prop} :
    wp (settle c fate) Q E s ↔ Q ⟨⟩ (s.settled c fate) := by
  cases fate <;> rfl

section Settled

variable {fate : Fate} {loc : Local}

theorem stage_settled_self : (s.settled c fate).stage c ≠ .queued := by
  cases fate <;> simp [settled]

theorem moved_settled (hcfg : loc.dev.cfg = s.loc.dev.cfg)
    (hothers : ∀ c', c' ≠ c → holding (loc.slot.pool.cmdMem c') = holding (s.cmd c')) :
    Moved c s ({ s with loc }.settled c fate) := by
  refine ⟨?_, fun c' hc => ?_, fun c' hc => ?_, fun c' hc => ?_⟩
  · cases fate <;> exact hcfg
  · cases fate <;> exact Function.update_of_ne hc _ _
  · cases fate
    case reported => exact List.count_cons_of_ne (Ne.symm hc)
    all_goals rfl
  · cases fate <;> exact hothers c' hc

@[simp] theorem cmd_settled (c' : Nat) : (s.settled c fate).cmd c' = s.cmd c' := by
  cases fate <;> rfl

@[simp] theorem loc_settled : (s.settled c fate).loc = s.loc := by
  cases fate <;> rfl

/-- A command that will be completed is in use. -/
theorem inUse_settled (hfate : fate ≠ .fails) : (s.settled c fate).InUse c := by
  cases fate
  case reported => exact .inr List.mem_cons_self
  case waits => exact .inl (Function.update_self ..)
  case fails => exact absurd rfl hfate

/-- A structure whose lists nobody walked has its buffers found once. -/
theorem filed_settled (hwalks : s.releasing.count c = 0)
    (hsingle : (buffersOf (s.cmd c)).length ≤ 1)
    (hop : byte (s.cmd c).scsiCmd.cdb 0 ≠ opTracingSet) :
    Filed ((s.settled c fate).stage c) ((s.settled c fate).releasing.count c) (s.cmd c) := by
  refine ⟨hsingle, fun hpos _ => ?_, fun h => absurd h stage_settled_self, fun _ _ => hop⟩
  cases fate
  case reported =>
    refine ⟨Function.update_self .., ?_⟩
    rw [settled, List.count_cons_self, hwalks]
  all_goals exact absurd hwalks (Nat.ne_of_gt hpos)

end Settled

/-- A structure is taken for a new command. -/
theorem sound_arrive (h : s.Sound) {a : ScsiCmd} {immediate : Bytes}
    (hok : Careful s (.arrive c a immediate)) :
    ensures (next (.arrive c a immediate)) (fun _ s' => s'.Sound) s := by
  refine (wp_bind _ _).mpr (wp_get.mpr ((wp_guarded _ _).mpr ⟨fun hfree => ?_, fun _ => h⟩))
  refine (wp_bind _ _).mpr (wp_zoom.mpr ((wp_modifyCmd _ _).mpr ((wp_modify _).mpr ?_)))
  have hcmd : ∀ s' : Yard, s'.loc = s.loc.setCmd c (newCmd a immediate) →
      s'.cmd c = newCmd a immediate := by
    intro s' hloc
    rw [cmd, hloc]
    exact Function.update_self ..
  have hnil : buffersOf (newCmd a immediate) = [] := rfl
  refine h.of_same (c := c) ⟨rfl, fun c' hc => ?_, fun _ _ => rfl, fun c' hc => ?_⟩ rfl
    (fun b => ?_) ?_
  · exact Function.update_of_ne hc _ _
  · simp [cmd, Local.setCmd, Local.setPool, Function.update_of_ne hc]
  · refine iff_of_false (not_uses ?_ b) ?_
    · rw [hcmd _ rfl, hnil]
    · rintro ⟨huse, hb⟩
      rcases huse with hwait | hrel
      · exact Stage.noConfusion (hfree.symm.trans hwait)
      · rw [hok hrel] at hb
        exact List.not_mem_nil hb
  · rw [hcmd _ rfl]
    exact .of_nil hnil fun _ => ⟨rfl, rfl⟩

/-- What is given a buffer reads or writes blocks. -/
theorem ne_of_taking {cfg : DiskConfig} {a : ScsiCmd} (h : Taking cfg a) :
    byte a.cdb 0 ≠ opTracingSet := by
  intro hop
  rcases h with h | h
  · rw [takesForWrite, writeRange, hop] at h
    simp [opTracingSet, opWrite6, opWrite10] at h
  · rw [takesForRead, readRange, hop] at h
    simp [opTracingSet, opRead6, opRead10] at h

/-- A command takes the first buffer of the queue. -/
theorem sound_taken (h : s.Sound) {fate : Fate} {loc : Local} {b : Nat} {q : Fifo Nat}
    (hmoved : Moved c s ({ s with loc }.settled c fate)) (hrel : c ∉ s.releasing)
    (hstage : s.stage c ≠ .waiting) (hremove : s.loc.dev.stagingQ.remove = some (b, q))
    (hq : loc.dev.stagingQ = q) (hbuffers : buffersOf (loc.slot.pool.cmdMem c) = [b])
    (hfate : fate ≠ .fails) (hop : byte (loc.slot.pool.cmdMem c).scsiCmd.cdb 0 ≠ opTracingSet) :
    ({ s with loc }.settled c fate).Sound := by
  obtain ⟨hlist, hcap⟩ := Fifo.remove_some hremove
  have hcmd : ({ s with loc } : Yard).cmd c = loc.slot.pool.cmdMem c := rfl
  refine h.of_moved hmoved ?_ ?_ ?_
  · rw [loc_settled]
    exact (congrArg Fifo.capacity hq).trans hcap
  · have hfree : ({ s with loc }.settled c fate).free = q.toList := by
      rw [free, loc_settled]
      exact congrArg Fifo.toList hq
    rw [Conserved, hfree]
    have hcons : Lent (· < configLunQueueDepth) (b :: q.toList) s.Uses := hlist ▸ h.conserved
    refine hcons.lend (k := c) fun c' b' => ?_
    by_cases hc : c' = c
    · subst hc
      have hnot : ¬s.Uses c' b' := fun huses => huses.1.elim hstage hrel
      rw [Uses, cmd_settled, hcmd, hbuffers, List.mem_singleton]
      simp [hnot, inUse_settled hfate]
    · rw [hmoved.uses hc]
      simp [hc]
  · rw [cmd_settled]
    refine filed_settled (List.count_eq_zero.mpr hrel) ?_ hop
    rw [hcmd, hbuffers]
    exact Nat.le_refl 1

/-- A worker interprets a command. -/
theorem sound_start (h : s.Sound) {asks : Bool} (hok : Careful s (.start c asks)) :
    ensures (next (.start c asks)) (fun _ s' => s'.Sound) s := by
  refine (wp_bind _ _).mpr (wp_get.mpr ((wp_guarded _ _).mpr ⟨fun hqueued => ?_, fun _ => h⟩))
  have hblank := (h.filed c).blank hqueued
  refine (wp_bind _ _).mpr (wp_zoom.mpr ?_)
  refine wp_mono (beginCommand_began h.staged hblank (fun ht hfree => ?_) fun ht hfree => ?_)
    (fun fate loc hbegan => ?_) fun _ _ _ => trivial
  · exact ((hok hqueued hfree).1 ht).2
  · exact ((hok hqueued hfree).2 ht).2
  refine wp_settle.mpr ?_
  have hmoved : Moved c s ({ s with loc }.settled c fate) := moved_settled hbegan.cfg hbegan.others
  have hstage : s.stage c ≠ .waiting := fun hwait => Stage.noConfusion (hqueued.symm.trans hwait)
  rcases hbegan.buffer with ⟨hqueue, hnil⟩ | ⟨ht, hfate, b, q, hremove, hq, hbuffers⟩
  · refine h.of_same hmoved ?_ (fun b => iff_of_false (not_uses ?_ b) (not_uses ?_ b)) ?_
    · rw [loc_settled]
      exact hqueue
    · rw [cmd_settled]
      exact hnil
    · exact hblank.buffersOf
    · rw [cmd_settled]
      exact .of_nil hnil fun hcon => absurd hcon stage_settled_self
  · have hrel : c ∉ s.releasing := by
      obtain ⟨hwrite, hread⟩ := hok hqueued (nonempty_of_remove hremove)
      exact ht.elim (fun ht => (hwrite ht).1) fun ht => (hread ht).1
    refine sound_taken h hmoved hrel hstage hremove hq hbuffers hfate ?_
    rw [hbegan.cdb]
    exact ne_of_taking ht

/-- A write whose data are there is reported, and keeps its buffer until its lists are walked. -/
theorem sound_reported (h : s.Sound) (hwait : s.stage c = .waiting) {fate : Fate} {loc : Local}
    (hcfg : loc.dev.cfg = s.loc.dev.cfg) (hqueue : loc.dev.stagingQ = s.loc.dev.stagingQ)
    (hholds : ∀ c', holding (({ s with loc } : Yard).cmd c') = holding (s.cmd c'))
    (hfate : fate = .reported ∨ fate = .fails ∧ buffersOf (s.cmd c) = []) :
    ({ s with loc }.settled c fate).Sound := by
  have hbuffers := buffersOf_congr (hholds c)
  refine h.of_same (moved_settled hcfg fun c' _ => hholds c') ?_ (fun b => ?_) ?_
  · rw [loc_settled]
    exact hqueue
  · rw [Uses, Uses, cmd_settled, hbuffers]
    rcases hfate with rfl | ⟨-, hnil⟩
    · exact and_congr_left fun _ => iff_of_true (inUse_settled (by decide)) (.inl hwait)
    · rw [hnil]
      simp
  · rw [cmd_settled]
    by_cases hnil : buffersOf (s.cmd c) = []
    · exact .of_nil (hbuffers.trans hnil) fun hcon => absurd hcon stage_settled_self
    · have hne : s.stage c ≠ .free := fun hfree => Stage.noConfusion (hwait.symm.trans hfree)
      refine filed_settled ((h.filed c).walks_eq_zero hne hnil) (hbuffers ▸ (h.filed c).single) ?_
      rw [cdb_congr (hholds c)]
      exact (h.filed c).write hwait hnil

/-- The data of a write are all there. -/
theorem sound_placed (h : s.Sound) : ensures (next (.placed c)) (fun _ s' => s'.Sound) s := by
  refine (wp_bind _ _).mpr (wp_get.mpr ((wp_guarded _ _).mpr ⟨fun hwait => ?_, fun _ => h⟩))
  refine (wp_bind _ _).mpr
    (wp_zoom.mpr ((wp_modifyCmd _ _).mpr ((wp_bind _ _).mpr (wp_zoom.mpr ?_))))
  set s₁ := s.loc.setCmd c { s.cmd c with done := true } with hs₁
  have hcmd : ∀ c', holding (s₁.slot.pool.cmdMem c') = holding (s.cmd c') := by
    intro c'
    by_cases hc : c' = c
    · subst hc
      simp [hs₁, Local.setCmd, Local.setPool, holding]
    · simp [hs₁, cmd, Local.setCmd, Local.setPool, Function.update_of_ne hc]
  refine wp_mono (wp_and (report_fate c s₁) ((stores_report c).run s₁)) (fun fate loc hreport => ?_)
    fun _ _ _ => trivial
  obtain ⟨hfate, hkeeps⟩ := hreport
  obtain ⟨hqueue, hrest⟩ := Prod.mk.inj hkeeps
  obtain ⟨hcfg, hcmds⟩ := Prod.mk.inj hrest
  refine wp_settle.mpr (sound_reported h hwait hcfg hqueue
    (fun c' => (congrFun hcmds c').trans (hcmd c')) (hfate.imp_right fun hfails => ⟨hfails.1, ?_⟩))
  have hset := hfails.2
  by_contra hne
  rw [cdb_congr (hcmd c)] at hset
  exact (h.filed c).write hwait hne hset

/-- The state after a worker gave buffers back. -/
def walked (s : Yard) (c : Nat) (l : List Nat) : Yard :=
  { s with loc := withBuffers s.loc l, releasing := s.releasing.erase c }

@[simp] theorem cmd_walked (l : List Nat) (c' : Nat) : (s.walked c l).cmd c' = s.cmd c' := rfl

theorem moved_walked (l : List Nat) : Moved c s (s.walked c l) :=
  ⟨rfl, fun _ _ => rfl, fun _ hc => List.count_erase_of_ne hc, fun _ _ => rfl⟩

/-- The buffer of a structure is given back, and the structure uses it no more. -/
theorem sound_walked_one (h : s.Sound) (hrel : c ∈ s.releasing) {b : Nat}
    (hl : buffersOf (s.cmd c) = [b]) : (s.walked c [b]).Sound := by
  have hpos : 0 < s.releasing.count c := List.count_pos_iff.mpr hrel
  obtain ⟨hfree, hone⟩ := (h.filed c).alone hpos (hl ▸ List.cons_ne_nil _ _)
  have huses : s.Uses c b := ⟨.inr hrel, hl ▸ List.mem_singleton_self b⟩
  obtain ⟨q, hinsert, hlist, hcap⟩ := Fifo.insert_of_lt b (h.room huses)
  have hback : (s.walked c [b]).loc.dev.stagingQ = q := by
    rw [walked, withBuffers, List.foldl_cons, List.foldl_nil, putBack, hinsert]
    rfl
  have hzero : (s.walked c [b]).releasing.count c = 0 := by
    rw [walked, List.count_erase_self, hone]
  have hunused : ∀ b', ¬(s.walked c [b]).Uses c b' := by
    rintro b' ⟨hwait | hmem, -⟩
    · exact Stage.noConfusion (hfree.symm.trans hwait)
    · exact List.count_eq_zero.mp hzero hmem
  refine h.of_moved (moved_walked [b]) (hback ▸ hcap) ?_ ?_
  · have hthere : (s.walked c [b]).free = s.free ++ [b] := by
      rw [free, hback, hlist]
      rfl
    rw [Conserved, hthere]
    refine h.conserved.giveBack huses fun c' b' => ?_
    by_cases hc : c' = c
    · subst hc
      refine iff_of_false (hunused b') fun hcon => ?_
      obtain ⟨⟨-, hmem⟩, hnot⟩ := hcon
      rw [hl, List.mem_singleton] at hmem
      exact hnot ⟨rfl, hmem⟩
    · rw [(moved_walked [b]).uses hc]
      simp [hc]
  · rw [hzero, cmd_walked]
    exact ⟨(h.filed c).single, fun hcon => absurd hcon (Nat.lt_irrefl 0), (h.filed c).blank,
      (h.filed c).write⟩

/-- A worker walks the lists of a structure. -/
theorem sound_release (h : s.Sound) : ensures (next (.release c)) (fun _ s' => s'.Sound) s := by
  refine (wp_bind _ _).mpr (wp_get.mpr ((wp_guarded _ _).mpr ⟨fun hrel => ?_, fun _ => h⟩))
  refine (wp_bind _ _).mpr (wp_zoom.mpr ?_)
  refine wp_mono (releaseBuffers_spec h.staged) (fun _ loc hloc => ?_) fun _ _ _ => trivial
  have hstate : (s.walked c (buffersOf (s.cmd c))).Sound := by
    have hlen := (h.filed c).single
    rcases hl : buffersOf (s.cmd c) with _ | ⟨b, _ | ⟨b', l⟩⟩
    · refine h.of_same (moved_walked []) rfl (fun b => ?_) (.of_nil hl (h.filed c).blank)
      exact iff_of_false (not_uses (s := s.walked c []) hl b) (not_uses hl b)
    · exact sound_walked_one h hrel hl
    · rw [hl] at hlen
      exact absurd hlen (by simp)
  rw [hloc]
  exact (wp_modify _).mpr hstate

/-- Every event that meets the condition keeps the buffers. -/
theorem sound_next (h : s.Sound) (e : StagingEvent) (hok : Careful s e) :
    ensures (next e) (fun _ s' => s'.Sound) s := by
  cases e with
  | arrive c a immediate => exact sound_arrive h hok
  | start c asks => exact sound_start h hok
  | placed c => exact sound_placed h
  | release c => exact sound_release h

/-! ## Runs -/

variable {cfg : DiskConfig} {mem : Memory} {crash : Int} {io : List Bool}

/-- `device_init` fills the queue. -/
theorem sound_start_state (hstaged : DiskType.staged cfg = true) :
    (start (Device.start cfg mem crash io)).Sound := by
  obtain ⟨hlist, hcap⟩ := fillQueue_spec (n := configLunQueueDepth) (by decide)
  have hnil : ∀ c, buffersOf ((start (Device.start cfg mem crash io)).cmd c) = [] := fun _ => rfl
  have hqueue : (start (Device.start cfg mem crash io)).loc.dev.stagingQ =
      fillQueue configLunQueueDepth := by
    rw [start, Device.start]
  refine ⟨hstaged, (congrArg Fifo.capacity hqueue).trans hcap, ?_,
    fun c => .of_nil (hnil c) fun hq => Stage.noConfusion hq⟩
  rw [Conserved, free, hqueue, hlist]
  have hnone : ∀ c b, ¬(start (Device.start cfg mem crash io)).Uses c b := fun c b =>
    not_uses (hnil c) b
  refine ⟨List.nodup_range, fun b => ?_, fun c b hb => absurd hb (hnone c b), fun c _ b hb =>
    absurd hb (hnone c b)⟩
  simp [hnone]

/-- When no command is in progress, every buffer is in the queue once. -/
theorem Sound.perm_of_idle (h : s.Sound) (hidle : s.Idle) :
    s.free.Perm (List.range configLunQueueDepth) := by
  refine Lent.perm_of_unheld h.conserved ?_ List.nodup_range fun _ => List.mem_range
  rintro c b ⟨hwait | hmem, -⟩
  · rcases hidle.1 c with hfree | hfailed
    · exact Stage.noConfusion (hfree.symm.trans hwait)
    · exact Stage.noConfusion (hfailed.symm.trans hwait)
  · rw [hidle.2] at hmem
    exact List.not_mem_nil hmem

end Yard

/-- In every run whose events meet the condition, each staging buffer is in the queue once or used
by one command, and in the queue once when no command is in progress. -/
theorem staging_conserved {cfg : DiskConfig} {mem : Memory} {crash : Int} {io : List Bool}
    {s : Yard} (hstaged : DiskType.staged cfg = true)
    (h : Reach Yard.next Careful (Yard.start (Device.start cfg mem crash io)) s) :
    s.Conserved ∧ (s.Idle → s.free.Perm (List.range configLunQueueDepth)) := by
  have hsound : s.Sound := h.invariant (Yard.sound_start_state hstaged) fun _ e hs hok =>
    Yard.sound_next hs e hok
  exact ⟨hsound.conserved, hsound.perm_of_idle⟩

/-! ## Runs of one structure -/

/-- The structure an event is about. -/
def StagingEvent.cmd : StagingEvent → Nat
  | .arrive c _ _ | .start c _ | .placed c | .release c => c

/-- An event moves its structure only. -/
theorem stage_next (e : StagingEvent) (s : Yard) :
    ensures (Yard.next e) (fun _ s' => ∀ c, c ≠ e.cmd → s'.stage c = s.stage c) s := by
  have hsettled : ∀ (c c' : Nat) (fate : Fate) (loc : Local), c' ≠ c →
      ({ s with loc }.settled c fate).stage c' = s.stage c' := by
    intro c c' fate loc hc
    cases fate <;> exact Function.update_of_ne hc _ _
  cases e with
  | arrive c a immediate =>
    refine (wp_bind _ _).mpr (wp_get.mpr ((wp_guarded _ _).mpr ⟨fun _ => ?_, fun _ _ _ => rfl⟩))
    refine (wp_bind _ _).mpr (wp_zoom.mpr ((wp_modifyCmd _ _).mpr ((wp_modify _).mpr ?_)))
    exact fun c' hc => Function.update_of_ne hc _ _
  | start c asks =>
    refine (wp_bind _ _).mpr (wp_get.mpr ((wp_guarded _ _).mpr ⟨fun _ => ?_, fun _ _ _ => rfl⟩))
    refine (wp_bind _ _).mpr (wp_zoom.mpr (wp_mono (ensures_true _ _) (fun fate loc _ => ?_)
      fun _ _ => id))
    exact Yard.wp_settle.mpr fun c' hc => hsettled c c' fate loc hc
  | placed c =>
    refine (wp_bind _ _).mpr (wp_get.mpr ((wp_guarded _ _).mpr ⟨fun _ => ?_, fun _ _ _ => rfl⟩))
    refine (wp_bind _ _).mpr (wp_zoom.mpr ((wp_modifyCmd _ _).mpr ((wp_bind _ _).mpr ?_)))
    refine wp_zoom.mpr (wp_mono (ensures_true _ _) (fun fate loc _ => ?_) fun _ _ => id)
    exact Yard.wp_settle.mpr fun c' hc => hsettled c c' fate loc hc
  | release c =>
    refine (wp_bind _ _).mpr (wp_get.mpr ((wp_guarded _ _).mpr ⟨fun _ => ?_, fun _ _ _ => rfl⟩))
    refine (wp_bind _ _).mpr (wp_zoom.mpr (wp_mono (ensures_true _ _) (fun _ loc _ => ?_)
      fun _ _ => id))
    exact (wp_modify _).mpr fun _ _ => rfl

/-- When all events are about one structure, it alone can be in progress. -/
theorem idle_of_one {d : Device} {s : Yard}
    (h : Reach Yard.next (fun _ e => e.cmd = 0) (.start d) s)
    (hstage : s.stage 0 = .free ∨ s.stage 0 = .failed) (hrel : s.releasing = []) : s.Idle := by
  have hothers : ∀ c, c ≠ 0 → s.stage c = .free := by
    refine h.invariant (P := fun s => ∀ c, c ≠ 0 → s.stage c = .free) (fun _ _ => rfl)
      fun s₁ e h₁ hone => ?_
    refine (stage_next e s₁).mono fun _ s₂ h₂ c hc => ?_
    rw [h₂ c (hone ▸ hc), h₁ c hc]
  refine ⟨fun c => ?_, hrel⟩
  by_cases hc : c = 0
  · rw [hc]
    exact hstage
  · exact .inl (hothers c hc)

instance : ∀ s e, Decidable (Careful s e)
  | s, .arrive c _ _ => inferInstanceAs (Decidable (c ∈ s.releasing → buffersOf (s.cmd c) = []))
  | s, .start c asks => inferInstanceAs (Decidable (s.stage c = .queued → s.free ≠ [] →
    (takesForWrite s.loc.dev.cfg (s.cmd c).scsiCmd = true →
      c ∉ s.releasing ∧ asks = true ∧
      ∀ r ∈ writeRange (s.cmd c).scsiCmd.cdb, r.2 * s.loc.dev.cfg.blockLen ≤ configDiskMaxBurst) ∧
    (takesForRead s.loc.dev.cfg (s.cmd c).scsiCmd = true →
      c ∉ s.releasing ∧
      (s.loc.dev.cfg.type = .sg → byte (s.cmd c).scsiCmd.cdb 0 = opRead6 →
        s.loc.dev.io.headD true = true))))
  | _, .placed _ | _, .release _ => inferInstanceAs (Decidable True)

/-- Two megabytes are within 64 bits. -/
theorem size_lt_4096 : 4096 * 512 < 18446744073709551616 := by decide

/-- A disk of two megabytes with staging buffers. -/
def stagedDisk (type : DiskType) (io : List Bool) : Yard :=
  .start (.start { type, numBlocks := 4096, blockLen := 512, numLuns := 1, direct := true
                   blockLen_mem := blockLen_mem_512, numLuns_le := numLuns_le_1
                   size_lt := size_lt_4096 } (fun _ _ => 0) (-1) io)

/-- A command for blocks from 0 on. -/
def blocks (op : UInt8) (len : Nat) : ScsiCmd :=
  { ScsiCmd.zero with
    cdb := if op = opRead6 then [op, 0, 0, 0, UInt8.ofNat len]
      else [op, 0, 0, 0, 0, 0, 0, UInt8.ofNat (len / 256), UInt8.ofNat len]
    todev := op == opWrite10, transLen := len * 512 }

/-- A write of a block that waits for its data, and is released when they came. -/
theorem staging_conserved_write : ∃ s, Reach Yard.next Careful (stagedDisk .raw []) s ∧
    s.free.length = configLunQueueDepth ∧
    s.Conserved ∧ (s.Idle → s.free.Perm (List.range configLunQueueDepth)) := by
  obtain ⟨s, h, hlength⟩ : ∃ s, Reach Yard.next Careful (stagedDisk .raw []) s ∧
      s.free.length = configLunQueueDepth :=
    exists_reach [.arrive 0 (blocks opWrite10 1) [], .start 0 true, .placed 0, .release 0]
      (by decide +kernel)
  exact ⟨s, h, hlength, staging_conserved (by decide) h⟩

/-- When no command is in progress, a buffer can be lost: the device refused a read, a write was too
long, or the structure of a write was taken for the next before a worker walked its lists.  Then the
buffer of the next is in the queue twice. -/
theorem staging_lost :
    (∃ s, Reach Yard.next (fun _ e => e.cmd = 0) (stagedDisk .sg [false]) s ∧
      s.Idle ∧ 0 ∉ s.free) ∧
    (∃ s, Reach Yard.next (fun _ e => e.cmd = 0) (stagedDisk .raw []) s ∧ s.Idle ∧ 0 ∉ s.free) ∧
    ∃ s, Reach Yard.next (fun _ e => e.cmd = 0) (stagedDisk .raw []) s ∧
      s.Idle ∧ 0 ∉ s.free ∧ s.free.count 1 = 2 := by
  refine ⟨?_, ?_, ?_⟩
  · obtain ⟨s, h, ⟨hstage, hrel⟩, hlost⟩ :
        ∃ s, Reach Yard.next (fun _ e => e.cmd = 0) (stagedDisk .sg [false]) s ∧
          (s.stage 0 = .free ∧ s.releasing = []) ∧ 0 ∉ s.free :=
      exists_reach [.arrive 0 (blocks opRead6 1) [], .start 0 true, .release 0] (by decide +kernel)
    exact ⟨s, h, idle_of_one h (.inl hstage) hrel, hlost⟩
  · obtain ⟨s, h, ⟨hstage, hrel⟩, hlost⟩ :
        ∃ s, Reach Yard.next (fun _ e => e.cmd = 0) (stagedDisk .raw []) s ∧
          (s.stage 0 = .failed ∧ s.releasing = []) ∧ 0 ∉ s.free :=
      exists_reach [.arrive 0 (blocks opWrite10 2049) [], .start 0 true] (by decide +kernel)
    exact ⟨s, h, idle_of_one h (.inr hstage) hrel, hlost⟩
  · obtain ⟨s, h, ⟨hstage, hrel⟩, hlost⟩ :
        ∃ s, Reach Yard.next (fun _ e => e.cmd = 0) (stagedDisk .raw []) s ∧
          (s.stage 0 = .free ∧ s.releasing = []) ∧ 0 ∉ s.free ∧ s.free.count 1 = 2 :=
      exists_reach [.arrive 0 (blocks opWrite10 1) [], .start 0 true, .placed 0,
       .arrive 0 (blocks opWrite10 1) [], .start 0 true, .release 0, .placed 0, .release 0]
      (by decide +kernel)
    exact ⟨s, h, idle_of_one h (.inl hstage) hrel, hlost⟩

end Ost.Disk
