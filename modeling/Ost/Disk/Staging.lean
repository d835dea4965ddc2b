import Ost.Disk.Outcome
import Ost.Prog.Lending

/-!
# Staging buffers

A disk that is no file and no memory has staging buffers for the data of its commands.
`write_allocate_space` and `read_allocate_space` take one from `g_staging_queue`, and `command_done`
gives back those that it finds in the lists of the command.

It does so after it has called the callback, by which the target has the command structure back.
From then on the structure may be taken for a new command, which is zeroed, interpreted and given a
buffer while the worker has yet to walk the lists.  And a function that fails after it took a buffer
leaves it in no list: when a burst is too long, and when the device behind the disk refuses a read.

Here the interpretation of a command ends where the callback is called, and the release of its
buffers is a step of its own.  `commandDone_eq`, `prepareWrite_eq` and the lemmas about replies say
that the functions of `Ost.Disk.Device` begin like this.  The command structures of all sessions are
numbered through, and the callback stands for no more than that the structure is free again.
-/

namespace Ost.Disk

open Ost.Iscsi Ost.Util Ost.Param Ost.Prog Ost.Target

/-! ## Interpreting a command -/

/-- What a function of the device has made of a command. -/
inductive Fate where
  | /-- The callback was called. -/
    reported
  | /-- The data of a write have yet to come. -/
    waits
  | /-- The command will not be completed. -/
    fails
deriving DecidableEq, Repr

section Commands

variable (c : Nat)

/-- `command_done`, up to the callback.  A callback that fails ends the process. -/
def report : Handler Fate := do
  let cmd ← getCmd c
  if !(← openTraceFile cmd.scsiCmd) then return .fails
  writeOut c
  guarded (!cmd.callback) (halt .exit)
  return .reported

/-- The label `transfer` of `prepare_write`.  `asks` says whether the requests for the data go
out. -/
def beginTransfer (asks : Bool) : Handler Fate := do
  copyImmediate c
  let a := (← getCmd c).scsiCmd
  if a.todev && sub32 a.transLen a.bytesTodev ≠ 0 then return if asks then .waits else .fails
  report c

/-- `prepare_write`. -/
def beginWrite (asks : Bool) (lba len : Nat) : Handler Fate := do
  let cfg := (← getDev).cfg
  let cmd ← getCmd c
  if byte cmd.scsiCmd.cdb 0 = opTracingSet then
    modifyCmd c fun t => { t with scatterList := [⟨.tracefile, 0, configMaxFilename⟩] }
    beginTransfer c asks
  else do
    if pastEnd cfg lba len then return .fails
    match ← writeAllocateSpace c lba len with
    | none => return .fails
    | some v =>
      modifyCmd c fun t => { t with scatterList := [v] }
      beginTransfer c asks

/-- The label `done` of `device_command`, with a reply of `n` bytes from the stack. -/
def reply (status : UInt8) (n : Nat) : Handler Fate := do
  modifyScsi c fun a => { a with status }
  guarded (n ≠ 0) <|
    modifyCmd c fun t => { t with gatherList := [⟨.reply, 0, n⟩], gatherType := .stack }
  report c

/-- `READ_6` and `READ_10`, with what is done when `disk_read` fails. -/
def beginRead (failed : Handler Fate) (lba len : Nat) : Handler Fate := do
  match ← diskRead c lba len with
  | none => failed
  | some _ => report c

/-- The status of a command that moves no blocks. -/
def replyStatus (op : UInt8) : UInt8 :=
  if op ∈ [opTestUnitReady, opInquiry, opReadCapacity, opVerify, opModeSense, opReportLuns,
    opTargetExit, opTracingOn, opTracingOff] then 0 else 2

/-- How many bytes are replied to it. -/
def replyLength (cfg : DiskConfig) (a : ScsiCmd) (op : UInt8) : Nat :=
  if op = opInquiry then a.transLen
  else if op = opReadCapacity then 8
  else if op = opModeSense then (byte a.cdb 4).toNat
  else if op = opReportLuns then 8 + 8 * cfg.numLuns
  else if op = opVerify ∧ a.fromdev then a.length
  else 0

/-- The switch of `device_command`, for a LUN that exists. -/
def beginOp (asks : Bool) (cfg : DiskConfig) (a : ScsiCmd) (op : UInt8) : Handler Fate := do
  if op = opWrite6 then
    let fate ← beginWrite c asks (lba6 a.cdb) (len6 a.cdb)
    modifyCmd c fun t => { t with isWrite := true }
    return fate
  else if op = opRead6 then beginRead c (reply c 2 0) (lba6 a.cdb) (len6 a.cdb)
  else if op = opWrite10 then
    modifyCmd c fun t => { t with isWrite := true }
    beginWrite c asks (lba10 a.cdb) (len10 a.cdb)
  else if op = opRead10 then beginRead c (halt .exit) (lba10 a.cdb) (len10 a.cdb)
  else if op = opTracingSet then
    let fate ← beginWrite c asks 0 0
    if fate = .fails then reply c 2 0 else return fate
  else reply c (replyStatus op) (replyLength cfg a op)

/-- `device_command`. -/
def beginCommand (asks : Bool) : Handler Fate := do
  let cfg := (← getDev).cfg
  let cmd ← getCmd c
  let a := cmd.scsiCmd
  if cmd.gatherList ≠ [] || cmd.scatterList ≠ [] || a.sendData || a.sendSgLen ≠ 0 then halt .abort
  else if a.lun < cfg.numLuns then beginOp c asks cfg a (byte a.cdb 0)
  else if byte a.cdb 0 = opInquiry then reply c 0 a.transLen
  else reply c 1 0

end Commands

/-! ### What follows -/

section Concluding

variable (id : Nat) {c : Nat}

/-- What the code goes on with when a command has got so far: the callback and the release of the
buffers, the requests for the data of a write, or nothing. -/
def conclude (c : Nat) : Fate → Handler Int
  | .reported => do
    let cmd ← getCmd c
    logDev (.callback id c cmd)
    guarded ((← deviceCommandDone c) ≠ 0) (halt .exit)
    if !(← releaseBuffers c) then return -1
    guarded (byte cmd.scsiCmd.cdb 0 = opTargetExit) (halt .exit)
    return 0
  | .waits => do
    if (← targetTransferData (lunEnqueue id) c) ≠ 0 then return -1
    return 0
  | .fails => return -1

/-- The command structures. -/
abbrev KeepsPool : Local → Local → Prop := Prog.Keeps fun s => s.slot.pool

instance keepsPool_nextIo : Within KeepsPool nextIo := ⟨fun _ => rfl⟩

instance keepsPool_poke (r : Region) (off : Nat) (bs : Bytes) : Within KeepsPool (poke r off bs) :=
  ⟨fun _ => rfl⟩

instance keepsPool_openTraceFile (a : ScsiCmd) : Within KeepsPool (openTraceFile a) := by
  unfold openTraceFile
  infer_instance

instance keepsPool_writeOut : Within KeepsPool (writeOut c) := by
  unfold writeOut
  infer_instance

/-- `command_done` is `report` with what follows. -/
theorem commandDone_eq : commandDone id c = report c >>= conclude id c := by
  funext s
  set cmd := s.slot.pool.cmdMem c with hcmd
  have hdone : commandDone id c s = (openTraceFile cmd.scsiCmd >>= fun ok =>
      if !ok then return -1 else (do
        writeOut c
        guarded (!cmd.callback) (halt .exit)
        logDev (.callback id c (← getCmd c))
        guarded ((← deviceCommandDone c) ≠ 0) (halt .exit)
        if !(← releaseBuffers c) then return -1
        guarded (byte cmd.scsiCmd.cdb 0 = opTargetExit) (halt .exit)
        return 0 : Handler Int)) s := rfl
  have hreport : (report c >>= conclude id c) s = ((openTraceFile cmd.scsiCmd >>= fun ok =>
      if !ok then return .fails else (do
        writeOut c
        guarded (!cmd.callback) (halt .exit)
        return .reported : Handler Fate)) >>= conclude id c) s := rfl
  rw [hdone, hreport, bind_assoc]
  rcases hopen : openTraceFile cmd.scsiCmd s with ⟨ok, s₁⟩ | ⟨e, s₁⟩
  · rw [bind_ret hopen, bind_ret hopen]
    have hpool₁ : s₁.slot.pool = s.slot.pool := (keepsPool_openTraceFile _).of_ret hopen
    cases ok with
    | false => rfl
    | true =>
      change (writeOut c >>= _) s₁ = ((writeOut c >>= _) >>= _) s₁
      rw [bind_assoc]
      rcases hout : writeOut c s₁ with ⟨_, s₂⟩ | ⟨e, s₂⟩
      · rw [bind_ret hout, bind_ret hout]
        have hpool₂ : s₂.slot.pool = s₁.slot.pool := keepsPool_writeOut.of_ret hout
        have hcmd₂ : s₂.slot.pool.cmdMem c = cmd := by rw [hpool₂, hpool₁]
        by_cases hcallback : (!cmd.callback) = true
        · rw [guarded, if_pos hcallback]
          rfl
        · rw [guarded, if_neg hcallback]
          have hget : getCmd c s₂ = .ret cmd s₂ := by
            rw [← hcmd₂]
            rfl
          simp only [pure_bind]
          rw [conclude, bind_ret hget, bind_ret hget]
      · rw [bind_halt hout, bind_halt hout]
  · rw [bind_halt hopen, bind_halt hopen]

/-- The code checks what it has got back once more. -/
theorem conclude_checked (fate : Fate) :
    (conclude id c fate >>= fun rc => if rc ≠ 0 then return -1 else return 0) =
    conclude id c fate := by
  cases fate with
  | fails => rfl
  | waits =>
    rw [conclude, bind_assoc]
    refine congrArg _ (funext fun rc => ?_)
    split <;> rfl
  | reported =>
    simp only [conclude, bind_assoc]
    refine congrArg _ (funext fun cmd => congrArg _ (funext fun _ => congrArg _ (funext fun rc =>
      congrArg _ (funext fun _ => congrArg _ (funext fun ok => ?_)))))
    cases ok with
    | false => rfl
    | true =>
      simp only [Bool.not_true, Bool.false_eq_true, if_false, bind_assoc, pure_bind]
      rfl

/-- The label `transfer` is `beginTransfer` with what follows. -/
theorem prepareTransfer_eq : prepareTransfer id c = beginTransfer c true >>= conclude id c := by
  rw [prepareTransfer, beginTransfer, bind_assoc]
  refine congrArg _ (funext fun _ => ?_)
  rw [bind_assoc]
  refine congrArg _ (funext fun t => ?_)
  dsimp only
  by_cases hrest : (t.scsiCmd.todev && sub32 t.scsiCmd.transLen t.scsiCmd.bytesTodev ≠ 0) = true
  · rw [if_pos hrest, if_pos hrest]
    rfl
  · rw [if_neg hrest, if_neg hrest, commandDone_eq, bind_assoc]
    exact congrArg _ (funext (conclude_checked id))

/-- `prepare_write` is `beginWrite` with what follows. -/
theorem prepareWrite_eq (lba len : Nat) :
    prepareWrite id c lba len = beginWrite c true lba len >>= conclude id c := by
  simp only [prepareWrite, beginWrite, bind_assoc]
  refine congrArg _ (funext fun cfg => congrArg _ (funext fun cmd => ?_))
  split
  · rw [bind_assoc, prepareTransfer_eq]
  split
  · rfl
  rw [bind_assoc]
  refine congrArg _ (funext fun r => ?_)
  cases r with
  | none => rfl
  | some v => rw [bind_assoc, prepareTransfer_eq]

/-- A command that replies with nothing. -/
theorem finishWith_eq (status : UInt8) : finishWith id c status =
    (modifyScsi c fun a => { a with status, length := 0 }) >>= fun _ =>
      report c >>= conclude id c := by
  funext s
  set s' := s.setCmd c { s.slot.pool.cmdMem c with
    scsiCmd := { (s.slot.pool.cmdMem c).scsiCmd with status, length := 0 } }
  have hset : modifyScsi c (fun a => { a with status, length := 0 }) s = .ret ⟨⟩ s' := rfl
  have hlength : (s'.slot.pool.cmdMem c).scsiCmd.length = 0 := by
    simp [s', Local.setCmd, Local.setPool]
  rw [finishWith, bind_ret hset, bind_ret hset, ← commandDone_eq]
  change (guarded (((s'.slot.pool.cmdMem c).scsiCmd.fromdev &&
    (s'.slot.pool.cmdMem c).scsiCmd.length ≠ 0) = true) _ >>= _) s' = _
  rw [guarded, if_neg (by simp [hlength])]
  rfl

/-- A command that replies with `n` bytes. -/
theorem finishReply_eq (reply : Memory → Memory) {n : Nat} (hn : n ≠ 0) :
    finishReply id c reply n = (do
      onMem reply
      modifyScsi c fun a => { a with fromdev := true, status := 0, length := n }
      modifyCmd c fun t => { t with gatherList := [⟨.reply, 0, n⟩], gatherType := .stack }
      report c) >>= conclude id c := by
  simp only [finishReply, bind_assoc, ← commandDone_eq]
  refine congrArg _ (funext fun _ => funext fun s => ?_)
  set s' := s.setCmd c { s.slot.pool.cmdMem c with
    scsiCmd := { (s.slot.pool.cmdMem c).scsiCmd with fromdev := true, status := 0, length := n } }
    with hs'
  have hset : modifyScsi c (fun a => { a with fromdev := true, status := 0, length := n }) s =
    .ret ⟨⟩ s' := rfl
  have hlength : (s'.slot.pool.cmdMem c).scsiCmd.length = n := by
    simp [hs', Local.setCmd, Local.setPool]
  have hfrom : (s'.slot.pool.cmdMem c).scsiCmd.fromdev = true := by
    simp [hs', Local.setCmd, Local.setPool]
  rw [bind_ret hset, bind_ret hset]
  change (guarded (((s'.slot.pool.cmdMem c).scsiCmd.fromdev &&
    (s'.slot.pool.cmdMem c).scsiCmd.length ≠ 0) = true) _ >>= _) s' = _
  rw [guarded, if_pos (by simp [hlength, hfrom, hn]), hlength]

end Concluding
/-! ## The commands of a disk -/

/-- Where a command structure stands. -/
inductive Stage where
  | /-- It is in the queue of free structures of its session. -/
    free
  | /-- It is in the queue of the LUN. -/
    queued
  | /-- It holds a write that waits for its data. -/
    waiting
  | /-- It holds a command that nobody will complete. -/
    failed
deriving DecidableEq, Repr

/-- The disk and the command structures, and the structures whose lists a worker has yet to walk. -/
structure Yard where
  loc : Local
  stage : Nat → Stage
  releasing : List Nat

/-- What happens. -/
inductive StagingEvent where
  | /-- A structure is taken for a new command. -/
    arrive (c : Nat) (a : ScsiCmd) (immediate : Bytes)
  | /-- A worker interprets a command. -/
    start (c : Nat) (asks : Bool)
  | /-- The data of a write are all there. -/
    placed (c : Nat)
  | /-- A worker walks the lists of a structure. -/
    release (c : Nat)

namespace Yard

/-- Run a handler. -/
def inLocal {α : Type} : Handler α → Prog Halt Yard α :=
  zoom Yard.loc (fun s loc => { s with loc }) id

/-- Move a structure. -/
def setStage (c : Nat) (stage : Stage) : Prog Halt Yard PUnit :=
  modify fun s => { s with stage := Function.update s.stage c stage }

/-- What becomes of the structure of a command. -/
def settle (c : Nat) : Fate → Prog Halt Yard PUnit
  | .reported => do
    setStage c .free
    modify fun s => { s with releasing := c :: s.releasing }
  | .waits => setStage c .waiting
  | .fails => setStage c .failed

/-- A structure that is zeroed and filled for a new command. -/
def newCmd (a : ScsiCmd) (immediate : Bytes) : TargetCmd :=
  { TargetCmd.zero with scsiCmd := a, callback := true, immediate }

/-- One event. -/
def next : StagingEvent → Prog Halt Yard PUnit
  | .arrive c a immediate => do
    let s ← get
    guarded (s.stage c = .free) do
      inLocal (modifyCmd c fun _ => newCmd a immediate)
      setStage c .queued
  | .start c asks => do
    let s ← get
    guarded (s.stage c = .queued) do
      let fate ← inLocal (beginCommand c asks)
      settle c fate
  | .placed c => do
    let s ← get
    guarded (s.stage c = .waiting) do
      inLocal (modifyCmd c fun t => { t with done := true })
      let fate ← inLocal (report c)
      settle c fate
  | .release c => do
    let s ← get
    guarded (c ∈ s.releasing) do
      let _ ← inLocal (releaseBuffers c)
      modify fun s => { s with releasing := s.releasing.erase c }

/-- The disk after `device_init`, and no command. -/
def start (d : Device) : Yard :=
  { loc := { slot := Slot.fresh, dev := d, nopFlag := false }, stage := fun _ => .free
    releasing := [] }

end Yard

/-! ## Buffers -/

/-- The staging buffer an entry of a list points to. -/
def stagingOf (v : Iov) : Option Nat :=
  match v.base with
  | .staging i => some i
  | _ => none

/-- The staging buffers in the lists of a command. -/
def buffersOf (t : TargetCmd) : List Nat :=
  (if t.scatterType = .staging then t.scatterList.filterMap stagingOf else []) ++
    if t.gatherType = .staging then t.gatherList.filterMap stagingOf else []

namespace Yard

variable (s : Yard)

/-- A command structure. -/
def cmd (c : Nat) : TargetCmd := s.loc.slot.pool.cmdMem c

/-- The staging buffers that are free. -/
def free : List Nat := s.loc.dev.stagingQ.toList

/-- A structure whose lists will be walked. -/
def InUse (c : Nat) : Prop := s.stage c = .waiting ∨ c ∈ s.releasing

/-- No command is in progress. -/
def Idle : Prop := (∀ c, s.stage c = .free ∨ s.stage c = .failed) ∧ s.releasing = []

/-- A command has a buffer. -/
def Uses (c b : Nat) : Prop := s.InUse c ∧ b ∈ buffersOf (s.cmd c)

/-- Each staging buffer is in the queue once and in no list, or in the lists of one command and not
in the queue. -/
def Conserved : Prop := Lent (· < configLunQueueDepth) s.free s.Uses

end Yard

/-! ## The condition -/

/-- A write that is given a buffer. -/
def takesForWrite (cfg : DiskConfig) (a : ScsiCmd) : Bool :=
  a.lun < cfg.numLuns && (writeRange a.cdb).any fun r => !pastEnd cfg r.1 r.2

/-- A read that is given a buffer. -/
def takesForRead (cfg : DiskConfig) (a : ScsiCmd) : Bool :=
  a.lun < cfg.numLuns && cfg.type ≠ .sd && (readRange a.cdb).any fun r =>
    r.2 ≠ 0 && !pastEnd cfg r.1 r.2 && r.2 * cfg.blockLen ≤ configDiskMaxBurst

/-- The condition.  A structure is not taken for a new command while a worker has to find a buffer
in its lists.  A command that is given a buffer is not given it while a worker has to walk the lists
of the command before.  A write that is given one is not longer than a burst, and the requests for
its data go out.  The device behind the disk does not refuse a `READ_6` that is given one. -/
def Careful (s : Yard) : StagingEvent → Prop
  | .arrive c _ _ => c ∈ s.releasing → buffersOf (s.cmd c) = []
  | .start c asks => s.stage c = .queued → s.free ≠ [] →
    (takesForWrite s.loc.dev.cfg (s.cmd c).scsiCmd = true →
      c ∉ s.releasing ∧ asks = true ∧
      ∀ r ∈ writeRange (s.cmd c).scsiCmd.cdb, r.2 * s.loc.dev.cfg.blockLen ≤ configDiskMaxBurst) ∧
    (takesForRead s.loc.dev.cfg (s.cmd c).scsiCmd = true →
      c ∉ s.releasing ∧
      (s.loc.dev.cfg.type = .sg → byte (s.cmd c).scsiCmd.cdb 0 = opRead6 →
        s.loc.dev.io.headD true = true))
  | .placed _ | .release _ => True

/-! ## What a command takes -/

section Takes

variable (c : Nat)

/-- The lists of a command, and its CDB. -/
def holding (t : TargetCmd) : List Iov × MemType × List Iov × MemType × Bytes :=
  (t.scatterList, t.scatterType, t.gatherList, t.gatherType, t.scsiCmd.cdb)

/-- The queue, and what the commands hold. -/
def stores (s : Local) :
    Fifo Nat × DiskConfig × (Nat → List Iov × MemType × List Iov × MemType × Bytes) :=
  (s.dev.stagingQ, s.dev.cfg, fun c => holding (s.slot.pool.cmdMem c))

/-- Buffers are found in the lists. -/
theorem buffersOf_congr {t t' : TargetCmd} (h : holding t' = holding t) :
    buffersOf t' = buffersOf t := by
  obtain ⟨h₁, h₂, h₃, h₄, -⟩ := by simpa only [holding, Prod.mk.injEq] using h
  rw [buffersOf, buffersOf, h₁, h₂, h₃, h₄]

theorem cdb_congr {t t' : TargetCmd} (h : holding t' = holding t) :
    t'.scsiCmd.cdb = t.scsiCmd.cdb := congrArg (·.2.2.2.2) h

theorem stores_modifyCmd {f : TargetCmd → TargetCmd} (hf : ∀ t, holding (f t) = holding t) :
    Within (Keeps stores) (modifyCmd c f) where
  run s := by
    refine Prod.ext rfl (Prod.ext rfl (funext fun c' => ?_))
    by_cases hc : c' = c
    · subst hc
      simp [stores, Local.setPool, hf]
    · simp [stores, Local.setPool, Function.update_of_ne hc]

theorem stores_onDev {α : Type} {f : Device → α × Device}
    (hf : ∀ d, (f d).2.stagingQ = d.stagingQ ∧ (f d).2.cfg = d.cfg) :
    Within (Keeps stores) (onDev f) where
  run s := Prod.ext (hf s.dev).1 (Prod.ext (hf s.dev).2 rfl)

instance stores_nextIo : Within (Keeps stores) nextIo := stores_onDev fun _ => ⟨rfl, rfl⟩

instance stores_poke (r : Region) (off : Nat) (bs : Bytes) :
    Within (Keeps stores) (poke r off bs) := by
  unfold poke onMem modifyDev
  exact stores_onDev fun _ => ⟨rfl, rfl⟩

instance stores_openTraceFile (a : ScsiCmd) : Within (Keeps stores) (openTraceFile a) := by
  unfold openTraceFile
  infer_instance

instance stores_writeOut : Within (Keeps stores) (writeOut c) := by
  unfold writeOut
  infer_instance

instance stores_copyImmediate : Within (Keeps stores) (copyImmediate c) := by
  have hgot : Within (Keeps stores) (modifyCmd c fun t =>
      { t with scsiCmd := { t.scsiCmd with bytesTodev := t.scsiCmd.length }
               got := [(0, immediateData t t.scsiCmd.length)] }) := stores_modifyCmd c fun _ => rfl
  unfold copyImmediate
  infer_instance

instance stores_report : Within (Keeps stores) (report c) := by
  unfold report
  infer_instance

instance stores_beginTransfer (asks : Bool) : Within (Keeps stores) (beginTransfer c asks) := by
  unfold beginTransfer
  infer_instance

/-- Only a command that opens a trace file can fail to be reported. -/
theorem report_fate (s : Local) : ensures (report c) (fun fate _ => fate = .reported ∨
    fate = .fails ∧ byte (s.slot.pool.cmdMem c).scsiCmd.cdb 0 = opTracingSet) s := by
  refine (wp_bind _ _).mpr ((wp_getCmd c).mpr ((wp_bind _ _).mpr ?_))
  refine wp_mono (Q := fun ok _ => ok = true ∨
    byte (s.slot.pool.cmdMem c).scsiCmd.cdb 0 = opTracingSet) ?_ (fun ok s' hok => ?_) fun _ _ => id
  · refine (wp_ite _ _ _).mpr ⟨fun hset => ?_, fun _ => .inl rfl⟩
    exact wp_mono (ensures_true _ _)
      (fun _ _ _ => .inr (by simpa using And.left (by simpa using hset))) fun _ _ => id
  · refine (wp_ite _ _ _).mpr ⟨fun hfalse => ?_, fun _ => ?_⟩
    · refine .inr ⟨rfl, hok.resolve_left fun htrue => ?_⟩
      rw [htrue] at hfalse
      exact absurd hfalse (by decide)
    · refine (wp_bind _ _).mpr (wp_mono (ensures_true _ _) (fun _ _ _ => ?_) fun _ _ => id)
      exact (wp_bind _ _).mpr ((wp_guarded _ _).mpr ⟨fun _ => trivial, fun _ => .inl rfl⟩)

theorem report_reported (s : Local) (h : byte (s.slot.pool.cmdMem c).scsiCmd.cdb 0 ≠ opTracingSet) :
    ensures (report c) (fun fate _ => fate ≠ .fails) s :=
  (report_fate c s).mono fun _ _ hfate hfails =>
    hfate.elim (fun hreported => Fate.noConfusion (hreported.symm.trans hfails))
      fun hset => h hset.2

/-- A transfer that is asked for does not fail. -/
theorem beginTransfer_asks (s : Local)
    (h : byte (s.slot.pool.cmdMem c).scsiCmd.cdb 0 ≠ opTracingSet) :
    ensures (beginTransfer c true) (fun fate _ => fate ≠ .fails) s := by
  refine ensures.bind ((stores_copyImmediate c).run s) fun _ s₁ h₁ => ?_
  refine (wp_bind _ _).mpr ((wp_getCmd c).mpr ((wp_ite _ _ _).mpr ⟨fun _ => ?_, fun _ => ?_⟩))
  · exact Fate.noConfusion
  · refine report_reported c s₁ ?_
    have hcmd := congrFun (congrArg (·.2.2) h₁) c
    rw [cdb_congr hcmd]
    exact h

/-- A structure whose lists have had no type since it was zeroed. -/
def Blank (t : TargetCmd) : Prop := t.scatterType = .unset ∧ t.gatherType = .unset

theorem Blank.buffersOf {t : TargetCmd} (h : Blank t) : buffersOf t = [] := by
  simp [Disk.buffersOf, h.1, h.2]

/-- What the interpretation of a command does to the buffers: nothing, or a command for which
`taking` holds has the first of the queue, and will be completed. -/
structure Began (taking : Prop) (fate : Fate) (s s' : Local) : Prop where
  cfg : s'.dev.cfg = s.dev.cfg
  others : ∀ c', c' ≠ c → holding (s'.slot.pool.cmdMem c') = holding (s.slot.pool.cmdMem c')
  cdb : (s'.slot.pool.cmdMem c).scsiCmd.cdb = (s.slot.pool.cmdMem c).scsiCmd.cdb
  buffer : s'.dev.stagingQ = s.dev.stagingQ ∧ buffersOf (s'.slot.pool.cmdMem c) = [] ∨
    taking ∧ fate ≠ .fails ∧ ∃ b q, s.dev.stagingQ.remove = some (b, q) ∧ s'.dev.stagingQ = q ∧
      buffersOf (s'.slot.pool.cmdMem c) = [b]

variable {c} {taking : Prop} {fate fate' : Fate} {s s' s'' : Local}

/-- Nothing is taken. -/
theorem Began.of_keeps (h : Keeps stores s s') (hblank : Blank (s.slot.pool.cmdMem c)) :
    Began c taking fate s s' := by
  obtain ⟨hqueue, hrest⟩ := Prod.mk.inj h
  obtain ⟨hcfg, hcmds⟩ := Prod.mk.inj hrest
  refine ⟨hcfg, fun c' _ => congrFun hcmds c', cdb_congr (congrFun hcmds c), .inl ⟨hqueue, ?_⟩⟩
  rw [buffersOf_congr (congrFun hcmds c), hblank.buffersOf]

/-- What comes after leaves the buffers alone. -/
theorem Began.trans_keeps (h : Began c taking fate s s') (h' : Keeps stores s' s'')
    (hfate : fate' = .fails → fate = .fails) : Began c taking fate' s s'' := by
  obtain ⟨hqueue, hrest⟩ := Prod.mk.inj h'
  obtain ⟨hcfg, hcmds⟩ := Prod.mk.inj hrest
  refine ⟨hcfg.trans h.cfg, fun c' hc => (congrFun hcmds c').trans (h.others c' hc),
    (cdb_congr (congrFun hcmds c)).trans h.cdb, ?_⟩
  rw [buffersOf_congr (congrFun hcmds c)]
  refine h.buffer.imp (fun ⟨hq, hb⟩ => ⟨hqueue.trans hq, hb⟩) ?_
  rintro ⟨ht, hf, b, q, hremove, hq, hb⟩
  exact ⟨ht, fun hfails => hf (hfate hfails), b, q, hremove, hqueue.trans hq, hb⟩

theorem Began.mono {taking' : Prop} (h : Began c taking fate s s') (ht : taking → taking') :
    Began c taking' fate s s' :=
  ⟨h.cfg, h.others, h.cdb, h.buffer.imp_right fun ⟨h₁, h₂⟩ => ⟨ht h₁, h₂⟩⟩

/-- The first buffer of the queue, if there is one. -/
theorem wp_takeStaging {Q : Option Nat → Local → Prop} {E : Halt → Local → Prop} :
    wp takeStaging Q E s ↔ (s.dev.stagingQ.remove = none → Q none s) ∧
      ∀ b q, s.dev.stagingQ.remove = some (b, q) →
        Q (some b) (s.setDev { s.dev with stagingQ := q }) := by
  rw [takeStaging, wp_onDev]
  rcases h : s.dev.stagingQ.remove with _ | ⟨b, q⟩ <;> simp [Local.setDev]

theorem nonempty_of_remove {r r' : Fifo Nat} {b : Nat} (h : r.remove = some (b, r')) :
    r.toList ≠ [] := by
  rw [(Fifo.remove_some h).1]
  exact List.cons_ne_nil _ _

/-- The state after a command was given a buffer. -/
def given (s : Local) (c : Nat) (q : Fifo Nat) (t : TargetCmd) : Local :=
  (s.setDev { s.dev with stagingQ := q }).setCmd c t

/-- Space for a write that is no longer than a burst. -/
theorem writeAllocateSpace_given {lba len : Nat} (hstaged : DiskType.staged s.dev.cfg = true)
    (hburst : s.dev.stagingQ.toList ≠ [] → len * s.dev.cfg.blockLen ≤ configDiskMaxBurst) :
    ensures (writeAllocateSpace c lba len) (fun r s' => (r = none ∧ s' = s) ∨
      ∃ b q n, s.dev.stagingQ.remove = some (b, q) ∧ r = some ⟨.staging b, 0, n⟩ ∧
        s' = given s c q { s.slot.pool.cmdMem c with
          scatterType := .staging
          scsiCmd := { (s.slot.pool.cmdMem c).scsiCmd with lba, len } }) s := by
  have hram : s.dev.cfg.type ≠ .ram := by
    intro hram
    simp [DiskType.staged, hram] at hstaged
  refine (wp_bind _ _).mpr (wp_getDev.mpr ?_)
  rw [if_neg hram, if_pos hstaged]
  refine (wp_bind _ _).mpr (wp_takeStaging.mpr ⟨fun _ => .inl ⟨rfl, rfl⟩, fun b q hq => ?_⟩)
  refine (wp_bind _ _).mpr ((wp_modifyCmd _ _).mpr ?_)
  rw [if_neg (Nat.not_lt.mpr (hburst (nonempty_of_remove hq)))]
  refine (wp_bind _ _).mpr ((wp_modifyScsi _ _).mpr (.inr ⟨b, q, _, hq, rfl, ?_⟩))
  simp [given, Local.setCmd, Local.setPool, Local.setDev]

/-- Only what the command holds may have changed, and the queue has not. -/
structure Aside (c : Nat) (s s' : Local) : Prop where
  cfg : s'.dev.cfg = s.dev.cfg
  others : ∀ c', c' ≠ c → holding (s'.slot.pool.cmdMem c') = holding (s.slot.pool.cmdMem c')
  cdb : (s'.slot.pool.cmdMem c).scsiCmd.cdb = (s.slot.pool.cmdMem c).scsiCmd.cdb
  queue : s'.dev.stagingQ = s.dev.stagingQ

theorem aside_setCmd {t : TargetCmd} (ht : t.scsiCmd.cdb = (s.slot.pool.cmdMem c).scsiCmd.cdb) :
    Aside c s (s.setCmd c t) := by
  refine ⟨rfl, fun c' hc => ?_, ?_, rfl⟩
  · simp [Local.setCmd, Local.setPool, Function.update_of_ne hc]
  · simpa [Local.setCmd, Local.setPool] using ht

theorem Aside.trans_began (h : Aside c s s') (h' : Began c taking fate s' s'') :
    Began c taking fate s s'' := by
  refine ⟨h'.cfg.trans h.cfg, fun c' hc => (h'.others c' hc).trans (h.others c' hc),
    h'.cdb.trans h.cdb, ?_⟩
  rw [← h.queue]
  exact h'.buffer

theorem Aside.of_keeps (h : Keeps stores s s') : Aside c s s' := by
  obtain ⟨hqueue, hrest⟩ := Prod.mk.inj h
  obtain ⟨hcfg, hcmds⟩ := Prod.mk.inj hrest
  exact ⟨hcfg, fun c' _ => congrFun hcmds c', cdb_congr (congrFun hcmds c), hqueue⟩

theorem Aside.trans_keeps (h : Aside c s s') (h' : Keeps stores s' s'') : Aside c s s'' := by
  obtain ⟨hqueue, hrest⟩ := Prod.mk.inj h'
  obtain ⟨hcfg, hcmds⟩ := Prod.mk.inj hrest
  exact ⟨hcfg.trans h.cfg, fun c' hc => (congrFun hcmds c').trans (h.others c' hc),
    (cdb_congr (congrFun hcmds c)).trans h.cdb, hqueue.trans h.queue⟩

theorem Blank.of_keeps (h : Blank (s.slot.pool.cmdMem c)) (h' : Keeps stores s s') :
    Blank (s'.slot.pool.cmdMem c) := by
  have hhold := congrFun (Prod.mk.inj (Prod.mk.inj h').2).2 c
  simp only [holding, Prod.mk.injEq] at hhold
  exact ⟨hhold.2.1.trans h.1, hhold.2.2.2.1.trans h.2⟩

instance stores_isWrite (c : Nat) :
    Within (Keeps stores) (modifyCmd c fun t => { t with isWrite := true }) :=
  stores_modifyCmd c fun _ => rfl

/-- The name of a trace file is no staging buffer. -/
theorem beginWrite_tracing {asks : Bool} {lba len : Nat} (hblank : Blank (s.slot.pool.cmdMem c))
    (hop : byte (s.slot.pool.cmdMem c).scsiCmd.cdb 0 = opTracingSet) :
    ensures (beginWrite c asks lba len)
      (fun _ s' => Aside c s s' ∧ Blank (s'.slot.pool.cmdMem c)) s := by
  refine (wp_bind _ _).mpr (wp_getDev.mpr ((wp_bind _ _).mpr ((wp_getCmd c).mpr ?_)))
  rw [if_pos hop]
  refine (wp_bind _ _).mpr ((wp_modifyCmd _ _).mpr ?_)
  refine ((stores_beginTransfer c asks).run _).mono fun _ s' h => ?_
  have hset : Aside c s (s.setCmd c { s.slot.pool.cmdMem c with
      scatterList := [⟨.tracefile, 0, configMaxFilename⟩] }) := aside_setCmd rfl
  refine ⟨hset.trans_keeps h, Blank.of_keeps ?_ h⟩
  have hcmd : ((s.setCmd c { s.slot.pool.cmdMem c with
      scatterList := [⟨.tracefile, 0, configMaxFilename⟩] }).slot.pool.cmdMem c) = _ :=
    Function.update_self ..
  rw [hcmd]
  exact hblank

/-- A write that is no longer than a burst has the first buffer of the queue. -/
theorem beginWrite_began {asks : Bool} {lba len : Nat} (hstaged : DiskType.staged s.dev.cfg = true)
    (hblank : Blank (s.slot.pool.cmdMem c))
    (hop : byte (s.slot.pool.cmdMem c).scsiCmd.cdb 0 ≠ opTracingSet)
    (hok : pastEnd s.dev.cfg lba len = false → s.dev.stagingQ.toList ≠ [] →
      asks = true ∧ len * s.dev.cfg.blockLen ≤ configDiskMaxBurst) :
    ensures (beginWrite c asks lba len)
      (fun fate s' => Began c (pastEnd s.dev.cfg lba len = false) fate s s') s := by
  refine (wp_bind _ _).mpr (wp_getDev.mpr ((wp_bind _ _).mpr ((wp_getCmd c).mpr ?_)))
  rw [if_neg hop]
  refine (wp_ite _ _ _).mpr ⟨fun _ => .of_keeps rfl hblank, fun hin => ?_⟩
  have hin' := Bool.eq_false_iff.mpr hin
  refine ensures.bind (writeAllocateSpace_given hstaged fun hfree => (hok hin' hfree).2) ?_
  rintro r s₁ (⟨rfl, rfl⟩ | ⟨b, q, n, hq, rfl, rfl⟩)
  · exact .of_keeps rfl hblank
  · obtain ⟨rfl, -⟩ := hok hin' (nonempty_of_remove hq)
    refine (wp_bind _ _).mpr ((wp_modifyCmd _ _).mpr ?_)
    refine wp_mono (wp_and (beginTransfer_asks c _ ?_) ((stores_beginTransfer c true).run _))
      (fun fate s' h => ?_) fun _ _ _ => trivial
    · simpa [given, Local.setCmd, Local.setPool] using hop
    · refine Began.trans_keeps ⟨?_, ?_, ?_, .inr ⟨hin', h.1, b, q, hq, ?_, ?_⟩⟩ h.2 id
      · rfl
      · intro c' hc
        simp [given, Local.setCmd, Local.setPool, Local.setDev, Function.update_of_ne hc]
      · simp [given, Local.setCmd, Local.setPool]
      · rfl
      · simp [given, Local.setCmd, Local.setPool, buffersOf, stagingOf, hblank.2]

/-- Where the data of a read come from: a map of the device, or the first buffer of the queue. -/
structure Fetched (c : Nat) (v : Iov) (s s' : Local) : Prop where
  cfg : s'.dev.cfg = s.dev.cfg
  others : ∀ c', c' ≠ c → holding (s'.slot.pool.cmdMem c') = holding (s.slot.pool.cmdMem c')
  source : ∃ type, holding (s'.slot.pool.cmdMem c) =
      ((s.slot.pool.cmdMem c).scatterList, (s.slot.pool.cmdMem c).scatterType,
        (s.slot.pool.cmdMem c).gatherList, type, (s.slot.pool.cmdMem c).scsiCmd.cdb) ∧
    (type = .mapped ∧ s'.dev.stagingQ = s.dev.stagingQ ∨
      s.dev.cfg.type ≠ .sd ∧ type = .staging ∧ ∃ b q, s.dev.stagingQ.remove = some (b, q) ∧
        s'.dev.stagingQ = q ∧ v.base = .staging b)

theorem Fetched.trans_keeps {v : Iov} (h : Fetched c v s s') (h' : Keeps stores s' s'') :
    Fetched c v s s'' := by
  obtain ⟨hqueue, hrest⟩ := Prod.mk.inj h'
  obtain ⟨hcfg, hcmds⟩ := Prod.mk.inj hrest
  obtain ⟨type, hhold, hsource⟩ := h.source
  refine ⟨hcfg.trans h.cfg, fun c' hc => (congrFun hcmds c').trans (h.others c' hc), type,
    (congrFun hcmds c).trans hhold, ?_⟩
  rw [hqueue]
  exact hsource

/-- The first buffer of the queue is taken for a read. -/
theorem fetched_given {b : Nat} {q : Fifo Nat} {n : Nat} (hsd : s.dev.cfg.type ≠ .sd)
    (hq : s.dev.stagingQ.remove = some (b, q)) :
    Fetched c ⟨.staging b, 0, n⟩ s
      (given s c q { s.slot.pool.cmdMem c with gatherType := .staging }) := by
  refine ⟨rfl, fun c' hc => ?_, .staging, ?_, .inr ⟨hsd, rfl, b, q, hq, rfl, rfl⟩⟩
  · simp [given, Local.setCmd, Local.setPool, Local.setDev, Function.update_of_ne hc]
  · simp [given, Local.setCmd, Local.setPool, holding]

instance stores_privateData (lba len : Nat) :
    Within (Keeps stores) (modifyScsi c fun a => { a with lba, len }) :=
  stores_modifyCmd c fun _ => rfl

/-- The device behind the disk refuses a read that was given a buffer. -/
def Refused (s : Local) : Prop :=
  s.dev.cfg.type = .sg ∧ s.dev.io.headD true = false ∧ s.dev.stagingQ.toList ≠ []

/-- Data of a read that are announced. -/
theorem fetched_tail {v : Iov} {lba len : Nat} (h : Fetched c v s s') :
    ensures (modifyScsi c (fun a => { a with lba, len }) >>= fun _ =>
        (pure (some v) : Handler (Option Iov)))
      (fun r s'' => (r = none ∧ (s'' = s ∨ Refused s)) ∨
        ∃ v, r = some v ∧ Fetched c v s s'') s' :=
  ensures.bind ((stores_privateData lba len).run s') fun _ _ hkeeps =>
    .inr ⟨v, rfl, h.trans_keeps hkeeps⟩

/-- Space for a read.  The device behind the disk may refuse. -/
theorem readAllocateSpace_fetched {lba len : Nat} (hstaged : DiskType.staged s.dev.cfg = true) :
    ensures (readAllocateSpace c lba len) (fun r s' =>
      (r = none ∧ (s' = s ∨ Refused s)) ∨ ∃ v, r = some v ∧ Fetched c v s s') s := by
  refine (wp_bind _ _).mpr (wp_getDev.mpr ?_)
  dsimp only
  split
  case h_1 htype => simp [DiskType.staged, htype] at hstaged
  case h_2 htype => simp [DiskType.staged, htype] at hstaged
  case h_3 htype =>
    refine (wp_bind _ _).mpr (wp_mono (stores_nextIo.run s) (fun ok s₁ h₁ => ?_) fun _ _ => id)
    refine (wp_ite _ _ _).mpr ⟨fun _ => trivial, fun _ => ?_⟩
    refine (wp_bind _ _).mpr ((wp_modifyCmd _ _).mpr ?_)
    have hmapped : Fetched c ⟨.media, lba * s.dev.cfg.blockLen, w32 (len * s.dev.cfg.blockLen)⟩ s
        (s₁.setCmd c { s₁.slot.pool.cmdMem c with gatherType := .mapped }) := by
      obtain ⟨hqueue, hrest⟩ := Prod.mk.inj h₁
      obtain ⟨hcfg, hcmds⟩ := Prod.mk.inj hrest
      refine ⟨hcfg, fun c' hc => ?_, .mapped, ?_, .inl ⟨rfl, hqueue⟩⟩
      · rw [← congrFun hcmds c']
        simp [Local.setCmd, Local.setPool, Function.update_of_ne hc]
      · have hhold := congrFun hcmds c
        simp only [holding, Prod.mk.injEq] at hhold
        simp [Local.setCmd, Local.setPool, holding, hhold]
    exact fetched_tail hmapped
  case h_4 htype =>
    have hsd : s.dev.cfg.type ≠ .sd := by
      rw [htype]
      decide
    refine (wp_bind _ _).mpr (wp_takeStaging.mpr ⟨fun _ => ?_, fun b q hq => ?_⟩)
    · exact .inl ⟨rfl, .inl rfl⟩
    refine (wp_bind _ _).mpr ((wp_modifyCmd _ _).mpr ?_)
    refine (wp_bind _ _).mpr (wp_mono (stores_nextIo.run _) (fun ok s₁ h₁ => ?_) fun _ _ => id)
    refine (wp_ite _ _ _).mpr ⟨fun _ => trivial, fun _ => ?_⟩
    refine (wp_bind _ _).mpr (wp_getDev.mpr ?_)
    refine (wp_bind _ _).mpr (wp_mono ((stores_poke _ _ _).run s₁) (fun _ s₂ h₂ => ?_)
      fun _ _ => id)
    exact fetched_tail (((fetched_given hsd hq).trans_keeps h₁).trans_keeps h₂)
  case h_5 htype =>
    have hsd : s.dev.cfg.type ≠ .sd := by
      rw [htype]
      decide
    refine (wp_bind _ _).mpr (wp_takeStaging.mpr ⟨fun _ => ?_, fun b q hq => ?_⟩)
    · exact .inl ⟨rfl, .inl rfl⟩
    refine (wp_bind _ _).mpr ((wp_modifyCmd _ _).mpr ?_)
    refine (wp_bind _ _).mpr
      ((wp_onDev _).mpr ((wp_ite _ _ _).mpr ⟨fun hrefused => ?_, fun _ => ?_⟩))
    · refine .inl ⟨rfl, .inr ⟨htype, ?_, nonempty_of_remove hq⟩⟩
      exact Bool.not_eq_true' _ ▸ hrefused
    · refine (wp_bind _ _).mpr (wp_getDev.mpr ?_)
      refine (wp_bind _ _).mpr (wp_mono ((stores_poke _ _ _).run _) (fun _ s₂ h₂ => ?_)
        fun _ _ => id)
      exact fetched_tail (((fetched_given hsd hq).trans_keeps rfl).trans_keeps h₂)
  case h_6 htype =>
    have hsd : s.dev.cfg.type ≠ .sd := by
      rw [htype]
      decide
    refine (wp_bind _ _).mpr (wp_takeStaging.mpr ⟨fun _ => ?_, fun b q hq => ?_⟩)
    · exact .inl ⟨rfl, .inl rfl⟩
    refine (wp_bind _ _).mpr ((wp_modifyCmd _ _).mpr ?_)
    exact fetched_tail (fetched_given hsd hq)

/-- When a read is given a buffer. -/
def ReadTakes (cfg : DiskConfig) (lba len : Nat) : Prop :=
  cfg.type ≠ .sd ∧ len ≠ 0 ∧ pastEnd cfg lba len = false ∧ len * cfg.blockLen ≤ configDiskMaxBurst

/-- `disk_read` fails, or its data are in the gather list. -/
theorem diskRead_began {lba len : Nat} (hstaged : DiskType.staged s.dev.cfg = true)
    (hblank : Blank (s.slot.pool.cmdMem c)) :
    ensures (diskRead c lba len) (fun r s' =>
      (r = none ∧ (s' = s ∨ ReadTakes s.dev.cfg lba len ∧ Refused s)) ∨
      (∃ n, r = some n) ∧ Began c (ReadTakes s.dev.cfg lba len) .reported s s') s := by
  refine (wp_bind _ _).mpr (wp_getDev.mpr ((wp_ite _ _ _).mpr ⟨fun _ => .inl ⟨rfl, .inl rfl⟩,
    fun hlen => (wp_ite _ _ _).mpr ⟨fun _ => .inl ⟨rfl, .inl rfl⟩, fun hin =>
      (wp_ite _ _ _).mpr ⟨fun _ => .inl ⟨rfl, .inl rfl⟩, fun hburst => ?_⟩⟩⟩))
  refine ensures.bind (readAllocateSpace_fetched hstaged) ?_
  rintro r s₁ (⟨rfl, rfl | hrefused⟩ | ⟨v, rfl, hfetched⟩)
  · exact .inl ⟨rfl, .inl rfl⟩
  · refine .inl ⟨rfl, .inr ⟨⟨?_, hlen, Bool.eq_false_iff.mpr hin, Nat.not_lt.mp hburst⟩, hrefused⟩⟩
    rw [hrefused.1]
    decide
  · refine (wp_bind _ _).mpr ((wp_modifyCmd _ _).mpr (.inr ⟨⟨_, rfl⟩, ?_⟩))
    obtain ⟨type, hhold, hsource⟩ := hfetched.source
    simp only [holding, Prod.mk.injEq] at hhold
    obtain ⟨-, hscatter, -, htype, hcdb⟩ := hhold
    rw [hblank.1] at hscatter
    refine ⟨hfetched.cfg, fun c' hc => ?_, ?_, ?_⟩
    · rw [← hfetched.others c' hc]
      simp [Local.setCmd, Local.setPool, Function.update_of_ne hc]
    · simpa [Local.setCmd, Local.setPool] using hcdb
    · rcases hsource with ⟨hmapped, hqueue⟩ | ⟨hsd, hstaging, b, q, hq, hqueue, hbase⟩
      · refine .inl ⟨hqueue, ?_⟩
        simp [Local.setCmd, Local.setPool, buffersOf, hscatter, htype, hmapped]
      · refine .inr ⟨⟨hsd, hlen, Bool.eq_false_iff.mpr hin, Nat.not_lt.mp hburst⟩, by decide, b, q,
          hq, hqueue, ?_⟩
        simp [Local.setCmd, Local.setPool, buffersOf, stagingOf, hscatter, htype, hstaging, hbase]

instance stores_status (c : Nat) (status : UInt8) :
    Within (Keeps stores) (modifyScsi c fun a => { a with status }) :=
  stores_modifyCmd c fun _ => rfl

/-- A reply takes nothing. -/
theorem reply_began {status : UInt8} {n : Nat} (hblank : Blank (s.slot.pool.cmdMem c)) :
    ensures (reply c status n) (fun fate s' => Began c taking fate s s') s := by
  refine ensures.bind ((stores_status c status).run s) fun _ s₀ h₀ => ?_
  refine ensures.mono ?_ fun _ _ h => (Aside.of_keeps h₀).trans_began h
  replace hblank := hblank.of_keeps h₀
  clear h₀
  refine (wp_bind _ _).mpr ((wp_guarded _ _).mpr ⟨fun _ => (wp_modifyCmd _ _).mpr ?_, fun _ => ?_⟩)
  · refine ((stores_report c).run _).mono fun fate s' h => ?_
    have hreply : Began c taking fate s₀ (s₀.setCmd c { s₀.slot.pool.cmdMem c with
        gatherList := [⟨.reply, 0, n⟩], gatherType := .stack }) := by
      refine ⟨rfl, fun c' hc => ?_, ?_, .inl ⟨rfl, ?_⟩⟩
      · simp [Local.setCmd, Local.setPool, Function.update_of_ne hc]
      · simp [Local.setCmd, Local.setPool]
      · simp [Local.setCmd, Local.setPool, buffersOf, hblank.1]
    exact hreply.trans_keeps h id
  · exact ((stores_report c).run _).mono fun fate s' h => .of_keeps h hblank

/-- A read whose data the device does not refuse. -/
theorem beginRead_began {failed : Handler Fate} {lba len : Nat}
    (hstaged : DiskType.staged s.dev.cfg = true) (hblank : Blank (s.slot.pool.cmdMem c))
    (hop : byte (s.slot.pool.cmdMem c).scsiCmd.cdb 0 ≠ opTracingSet)
    (hfailed : ∀ s', s' = s ∨ ReadTakes s.dev.cfg lba len ∧ Refused s →
      ensures failed (fun fate s'' => Began c (ReadTakes s.dev.cfg lba len) fate s s'') s') :
    ensures (beginRead c failed lba len)
      (fun fate s' => Began c (ReadTakes s.dev.cfg lba len) fate s s') s := by
  refine ensures.bind (diskRead_began hstaged hblank) ?_
  rintro r s₁ (⟨rfl, hnone⟩ | ⟨⟨n, rfl⟩, hbegan⟩)
  · exact hfailed s₁ hnone
  · refine wp_mono (wp_and (report_reported c s₁ (hbegan.cdb ▸ hop)) ((stores_report c).run s₁))
      (fun fate s' h => ?_) fun _ _ _ => trivial
    exact hbegan.trans_keeps h.2 fun hfails => absurd hfails h.1

/-- When a command is given a buffer. -/
def Taking (cfg : DiskConfig) (a : ScsiCmd) : Prop :=
  takesForWrite cfg a = true ∨ takesForRead cfg a = true

theorem takesForWrite_of {cfg : DiskConfig} {a : ScsiCmd} {lba len : Nat}
    (hlun : a.lun < cfg.numLuns) (hrange : writeRange a.cdb = some (lba, len))
    (h : pastEnd cfg lba len = false) :
    takesForWrite cfg a = true := by
  have hblocks : (!pastEnd cfg lba len) = true := by
    rw [h]
    rfl
  rw [takesForWrite, hrange, Option.any_some, decide_eq_true hlun]
  simp only [Bool.true_and]
  exact hblocks

theorem ReadTakes.blocks {cfg : DiskConfig} {lba len : Nat} (h : ReadTakes cfg lba len) :
    (decide (len ≠ 0) && !pastEnd cfg lba len &&
      decide (len * cfg.blockLen ≤ configDiskMaxBurst)) = true := by
  obtain ⟨-, hlen, hin, hburst⟩ := h
  rw [hin, decide_eq_true hlen, decide_eq_true hburst]
  rfl

theorem takesForRead_of {cfg : DiskConfig} {a : ScsiCmd} {lba len : Nat}
    (hlun : a.lun < cfg.numLuns) (hrange : readRange a.cdb = some (lba, len))
    (h : ReadTakes cfg lba len) :
    takesForRead cfg a = true := by
  have hblocks := h.blocks
  rw [takesForRead, hrange, Option.any_some, decide_eq_true hlun, decide_eq_true h.1]
  simp only [Bool.true_and]
  exact hblocks

/-- The interpretation of a command that meets the condition. -/
theorem beginCommand_began {asks : Bool} (hstaged : DiskType.staged s.dev.cfg = true)
    (hblank : Blank (s.slot.pool.cmdMem c))
    (hwrite : takesForWrite s.dev.cfg (s.slot.pool.cmdMem c).scsiCmd = true →
      s.dev.stagingQ.toList ≠ [] → asks = true ∧
        ∀ r ∈ writeRange (s.slot.pool.cmdMem c).scsiCmd.cdb,
          r.2 * s.dev.cfg.blockLen ≤ configDiskMaxBurst)
    (hread : takesForRead s.dev.cfg (s.slot.pool.cmdMem c).scsiCmd = true →
      s.dev.stagingQ.toList ≠ [] → s.dev.cfg.type = .sg →
        byte (s.slot.pool.cmdMem c).scsiCmd.cdb 0 = opRead6 → s.dev.io.headD true = true) :
    ensures (beginCommand c asks)
      (fun fate s' => Began c (Taking s.dev.cfg (s.slot.pool.cmdMem c).scsiCmd) fate s s') s := by
  refine (wp_bind _ _).mpr (wp_getDev.mpr ((wp_bind _ _).mpr ((wp_getCmd c).mpr ?_)))
  refine (wp_ite _ _ _).mpr ⟨fun _ => trivial, fun _ => (wp_ite _ _ _).mpr ⟨fun hlun => ?_, fun _ =>
    (wp_ite _ _ _).mpr ⟨fun _ => reply_began hblank, fun _ => reply_began hblank⟩⟩⟩
  set a := (s.slot.pool.cmdMem c).scsiCmd with ha
  unfold beginOp
  refine (wp_ite _ _ _).mpr
    ⟨fun hop => ?_, fun hop₁ => (wp_ite _ _ _).mpr ⟨fun hop => ?_, fun hop₂ =>
    (wp_ite _ _ _).mpr ⟨fun hop => ?_, fun hop₃ => (wp_ite _ _ _).mpr ⟨fun hop => ?_, fun hop₄ =>
      (wp_ite _ _ _).mpr ⟨fun hop => ?_, fun _ => ?_⟩⟩⟩⟩⟩
  · have hrange : writeRange a.cdb = some (lba6 a.cdb, len6 a.cdb) := by rw [writeRange, if_pos hop]
    refine ensures.bind (beginWrite_began hstaged hblank (ne_of_eq_of_ne hop (by decide))
      (fun hin hfree => ?_)) fun fate s₁ hbegan => ?_
    · obtain ⟨hasks, hburst⟩ := hwrite (takesForWrite_of hlun hrange hin) hfree
      exact ⟨hasks, hburst _ hrange⟩
    · refine (wp_bind _ _).mpr (wp_mono ((stores_isWrite c).run s₁) (fun _ s₂ h₂ => ?_)
        fun _ _ => id)
      exact (hbegan.trans_keeps h₂ id).mono fun hin => .inl (takesForWrite_of hlun hrange hin)
  · have hrange : readRange a.cdb = some (lba6 a.cdb, len6 a.cdb) := by rw [readRange, if_pos hop]
    refine ensures.mono (beginRead_began hstaged hblank (ne_of_eq_of_ne hop (by decide)) ?_)
      fun _ _ h => h.mono fun ht => .inr (takesForRead_of hlun hrange ht)
    rintro s' (rfl | ⟨ht, hsg, hio, hfree⟩)
    · exact reply_began hblank
    · rw [hread (takesForRead_of hlun hrange ht) hfree hsg hop] at hio
      exact absurd hio (by decide)
  · have hrange : writeRange a.cdb = some (lba10 a.cdb, len10 a.cdb) := by
      rw [writeRange, if_neg hop₁, if_pos hop]
    refine (wp_bind _ _).mpr ((wp_modifyCmd _ _).mpr ?_)
    have hset : Aside c s (s.setCmd c { s.slot.pool.cmdMem c with isWrite := true }) :=
      aside_setCmd rfl
    have hcmd : (s.setCmd c { s.slot.pool.cmdMem c with isWrite := true }).slot.pool.cmdMem c =
        { s.slot.pool.cmdMem c with isWrite := true } := Function.update_self ..
    refine ensures.mono (beginWrite_began hstaged ?_ ?_ fun hin hfree => ?_) fun _ _ h =>
      (hset.trans_began h).mono fun hin => .inl (takesForWrite_of hlun hrange hin)
    · rw [hcmd]
      exact hblank
    · rw [hcmd]
      exact ne_of_eq_of_ne hop (by decide)
    · obtain ⟨hasks, hburst⟩ := hwrite (takesForWrite_of hlun hrange hin) hfree
      exact ⟨hasks, hburst _ hrange⟩
  · have hrange : readRange a.cdb = some (lba10 a.cdb, len10 a.cdb) := by
      rw [readRange, if_neg hop₂, if_pos hop]
    exact ensures.mono (beginRead_began hstaged hblank (ne_of_eq_of_ne hop (by decide))
      fun _ _ => trivial) fun _ _ h => h.mono fun ht => .inr (takesForRead_of hlun hrange ht)
  · refine ensures.bind (beginWrite_tracing hblank hop) fun fate s₁ hwritten => ?_
    obtain ⟨hset, hblank₁⟩ := hwritten
    refine (wp_ite _ _ _).mpr ⟨fun _ => ?_, fun _ => ?_⟩
    · exact (reply_began hblank₁).mono fun _ _ h => hset.trans_began h
    · exact hset.trans_began (.of_keeps rfl hblank₁)
  · exact reply_began hblank

end Takes

end Ost.Disk
