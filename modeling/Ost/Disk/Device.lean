import Ost.Target.Done

/-!
# The disk

`disk-alpha.c`: the interpretation of a CDB (`device_command`), the preparation of
writes and reads, the placement of incoming data, and the completion of a command
(`command_done`).

`target_transfer_data` of `target.c` stands here as well, because `prepare_write` calls
it and it calls `device_place_data` back.  The device code only runs for a LUN that
exists, and for such a LUN `device_enqueue` is `lunEnqueue`.
-/

namespace Ost.Disk

open Ost.Iscsi Ost.Util Ost.Param Ost.Prog Ost.Target

variable (id : Nat)

/-! ## Commands -/

/-- `TEST_UNIT_READY`. -/
def opTestUnitReady : UInt8 := 0x00
/-- `READ_6`. -/
def opRead6 : UInt8 := 0x08
/-- `WRITE_6`. -/
def opWrite6 : UInt8 := 0x0a
/-- `INQUIRY`. -/
def opInquiry : UInt8 := 0x12
/-- `MODE_SENSE`. -/
def opModeSense : UInt8 := 0x1a
/-- `READ_CAPACITY`. -/
def opReadCapacity : UInt8 := 0x25
/-- `ISCSI_IOCTL_TARGET_EXIT`. -/
def opTargetExit : UInt8 := 0x26
/-- `READ_10`. -/
def opRead10 : UInt8 := 0x28
/-- `WRITE_10`. -/
def opWrite10 : UInt8 := 0x2a
/-- `VERIFY`. -/
def opVerify : UInt8 := 0x2f
/-- `ISCSI_IOCTL_TRACING_ON`. -/
def opTracingOn : UInt8 := 0x37
/-- `ISCSI_IOCTL_TRACING_OFF`. -/
def opTracingOff : UInt8 := 0x38
/-- `ISCSI_IOCTL_TRACING_SET`. -/
def opTracingSet : UInt8 := 0x39
/-- `REPORT_LUNS`, which the code writes as a number. -/
def opReportLuns : UInt8 := 0xa0

/-- The block address of a six-byte CDB. -/
def lba6 (cdb : Bytes) : Nat := (be32 cdb 0).toNat % 2097152

/-- The block count of a six-byte CDB, where zero stands for 256. -/
def len6 (cdb : Bytes) : Nat := if byte cdb 4 = 0 then 256 else (byte cdb 4).toNat

/-- The block address of a ten-byte CDB. -/
def lba10 (cdb : Bytes) : Nat := (be32 cdb 2).toNat

/-- The block count of a ten-byte CDB. -/
def len10 (cdb : Bytes) : Nat := be16 cdb 7

/-! ## Media -/

/-- The media check of `prepare_write` and `disk_read`; `g_disk_num_blocks-1` wraps. -/
def pastEnd (cfg : DiskConfig) (lba len : Nat) : Bool :=
  lba > (cfg.numBlocks + 18446744073709551615) % 18446744073709551616 ||
    lba + len > cfg.numBlocks

/-- Whether commands go through staging buffers. -/
def DiskType.staged (cfg : DiskConfig) : Bool :=
  cfg.type == .raw || cfg.type == .sg || cfg.type == .ctrl || (cfg.type == .sd && cfg.direct)

/-- `iscsi_queue_remove(&g_staging_queue[lun])`. -/
def takeStaging : Handler (Option Nat) := onDev fun d =>
  match d.stagingQ.remove with
  | none => (none, d)
  | some (i, q) => (some i, { d with stagingQ := q })

/-- `iscsi_queue_insert(&g_staging_queue[lun], ptr)`, whose result is ignored. -/
def putStaging (v : Iov) : Handler PUnit := onDev fun d =>
  match v.base with
  | .staging i => (⟨⟩, { d with stagingQ := (d.stagingQ.insert i).getD d.stagingQ })
  | _ => (⟨⟩, d)

/-- Change memory. -/
def onMem (f : Memory → Memory) : Handler PUnit := modifyDev fun d => { d with mem := f d.mem }

/-- Store bytes in memory. -/
def poke (r : Region) (off : Nat) (bs : Bytes) : Handler PUnit := onMem fun m => m.write r off bs

/-- `write_allocate_space`: where the data of a write go. -/
def writeAllocateSpace (c lba len : Nat) : Handler (Option Iov) := do
  let cfg := (← getDev).cfg
  let numBytes := w32 (len * cfg.blockLen)
  let privateData : Handler PUnit := modifyScsi c fun a => { a with lba, len }
  if cfg.type = .ram then
    privateData
    return some ⟨.media, lba * cfg.blockLen, numBytes⟩
  else if DiskType.staged cfg then
    match ← takeStaging with
    | none => return none
    | some i =>
      modifyCmd c fun t => { t with scatterType := .staging }
      if len * cfg.blockLen > configDiskMaxBurst then return none
      privateData
      return some ⟨.staging i, 0, numBytes⟩
  else
    -- a failed mmap returns MAP_FAILED, which the code does not recognise
    if !(← nextIo) then halt .fault
    else do
      modifyCmd c fun t => { t with scatterType := .mapped }
      privateData
      return some ⟨.media, lba * cfg.blockLen, numBytes⟩

/-- `read_allocate_space`: where the data of a read come from. -/
def readAllocateSpace (c lba len : Nat) : Handler (Option Iov) := do
  let cfg := (← getDev).cfg
  let numBytes := w32 (len * cfg.blockLen)
  let privateData : Handler PUnit := modifyScsi c fun a => { a with lba, len }
  match cfg.type with
  | .ram =>
    privateData
    return some ⟨.media, lba * cfg.blockLen, numBytes⟩
  | .fs | .sd =>
    if !(← nextIo) then halt .fault
    else do
      modifyCmd c fun t => { t with gatherType := .mapped }
      privateData
      return some ⟨.media, lba * cfg.blockLen, numBytes⟩
  | .raw =>
    match ← takeStaging with
    | none => return none
    | some i =>
      modifyCmd c fun t => { t with gatherType := .staging }
      if !(← nextIo) then halt .exit
      else do
        poke (.staging i) 0 ((← getDev).mem.read .media (lba * cfg.blockLen) numBytes)
        privateData
        return some ⟨.staging i, 0, numBytes⟩
  | .sg =>
    match ← takeStaging with
    | none => return none
    | some i =>
      modifyCmd c fun t => { t with gatherType := .staging }
      if !(← nextIo) then return none
      poke (.staging i) 0 ((← getDev).mem.read .media (lba * cfg.blockLen) numBytes)
      privateData
      return some ⟨.staging i, 0, numBytes⟩
  | .ctrl =>
    -- what the targets behind the controller return is read into a local array and dropped
    match ← takeStaging with
    | none => return none
    | some i =>
      modifyCmd c fun t => { t with gatherType := .staging }
      privateData
      return some ⟨.staging i, 0, numBytes⟩

/-- `disk_read`: the number of bytes, or -1. -/
def diskRead (c lba len : Nat) : Handler (Option Nat) := do
  let cfg := (← getDev).cfg
  if len = 0 then return none
  if pastEnd cfg lba len then return none
  if len * cfg.blockLen > configDiskMaxBurst then return none
  match ← readAllocateSpace c lba len with
  | none => return none
  | some v =>
    modifyCmd c fun t => { t with gatherList := [v] }
    return some (w32 (len * cfg.blockLen))

/-! ## Completion -/

/-- The part of `command_done` that writes the data out, for the types that need it. -/
def writeOut (c : Nat) : Handler PUnit := do
  let cmd ← getCmd c
  let cfg := (← getDev).cfg
  if !cmd.isWrite then return
  if cfg.type = .raw || (cfg.type = .sd && cfg.direct) then
    guarded (!(← nextIo)) (halt .exit)
    let m := (← getDev).mem
    poke .media (cmd.scsiCmd.lba * cfg.blockLen)
      (cmd.scatterList.flatMap fun v => m.read v.base v.off v.len)
  else if cfg.type = .sg then
    guarded (!(← nextIo)) (halt .exit)
    let m := (← getDev).mem
    poke .media (cmd.scsiCmd.lba * cfg.blockLen)
      (cmd.scatterList.head?.elim [] fun v =>
        m.read v.base v.off (w32 (cmd.scsiCmd.len * cfg.blockLen)))

/-- One of the loops of `command_done` that unmap buffers: whether that worked. -/
def unmapBuffers (l : List Iov) (type : MemType) : Handler Bool :=
  if l = [] || type = .stack then return true
  else if type = .mapped then nextIo
  else halt .exit

/-- The part of `command_done` that releases buffers: whether that worked. -/
def releaseBuffers (c : Nat) : Handler Bool := do
  let cmd ← getCmd c
  let cfg := (← getDev).cfg
  if DiskType.staged cfg then
    guarded (cmd.scatterType = .staging) (cmd.scatterList.forM putStaging)
    guarded (cmd.gatherType = .staging) (cmd.gatherList.forM putStaging)
    return true
  if cfg.type ≠ .fs && cfg.type ≠ .sd then return true
  if !(← unmapBuffers cmd.scatterList cmd.scatterType) then return false
  unmapBuffers cmd.gatherList cmd.gatherType

/-- The part of `command_done` that opens a new trace file: whether that worked. -/
def openTraceFile (a : ScsiCmd) : Handler Bool :=
  if byte a.cdb 0 = opTracingSet && a.status = 0 then nextIo else return true

/-- `command_done`. -/
def commandDone (c : Nat) : Handler Int := do
  let cmd ← getCmd c
  if !(← openTraceFile cmd.scsiCmd) then return -1
  writeOut c
  guarded (!cmd.callback) (halt .exit)
  logDev (.callback id c (← getCmd c))
  guarded ((← deviceCommandDone c) ≠ 0) (halt .exit)
  if !(← releaseBuffers c) then return -1
  guarded (byte cmd.scsiCmd.cdb 0 = opTargetExit) (halt .exit)
  return 0

/-! ## Queueing -/

/-- The countdown of `g_crash` at the start of `device_enqueue`. -/
def countDown : Handler PUnit := do
  let d ← getDev
  if d.crash = -1 then return
  modifyDev fun d => { d with crash := d.crash - 1 }
  guarded (d.crash - 1 ≤ 0) (halt .exit)

/-- `iscsi_queue_insert(&g_cmd_queue[args->lun], cmd)`. -/
def lunInsert (c : Nat) : Handler Bool := onDev fun d =>
  match d.cmdQueue.insert (id, c) with
  | none => (false, d)
  | some q => (true, { d with cmdQueue := q })

/-- `device_enqueue` for a LUN that exists. -/
def lunEnqueue (c : Nat) : Handler Int := do
  countDown
  guarded (!(← lunInsert id c)) (halt .exit)
  return 0

/-- `device_place_data(cmd, 0, 0)`: all data are there.  `enqueue` is `device_enqueue`. -/
def placeDone (enqueue : Nat → Handler Int) (c : Nat) : Handler Int := do
  modifyCmd c fun t => { t with done := true }
  if (← enqueue c) ≠ 0 then return -1
  return 0

/-! ## Writing -/

/-- The R2T loop of `target_transfer_data`: whether all were sent. -/
def sendR2ts (c : Nat) : Nat → Nat → Nat → Handler Bool
  | 0, _, _ => halt .hang
  | fuel + 1, transferred, remaining => do
    if remaining = 0 then return true
    let a := (← getCmd c).scsiCmd
    let max := (← getLogin).sessParams.maxBurstLength
    let desired := if remaining > max then max else remaining
    let q ← getSeq
    let r2t : R2t :=
      { ahsLength := 0, lun := 0, tag := a.tag, transferTag := 0x1234, statSN := q.statSN
        expCmdSN := q.expCmdSN, maxCmdSN := q.maxCmdSN, r2tSN := 0
        offset := UInt32.ofNat (a.bytesTodev + transferred), length := UInt32.ofNat desired }
    if !(← sendLeaky (.r2t r2t) (some [])) then return false
    modifyCmd c fun t => { t with r2tFlag := true }
    sendR2ts c fuel (w32 (transferred + desired)) (remaining - desired)

/-- The part of `target_transfer_data` that asks for the rest of the data, in R2T mode or after
the first burst: whether that worked. -/
def requestData (c : Nat) : Handler Bool := do
  let a := (← getCmd c).scsiCmd
  let p := (← getLogin).sessParams
  let remaining := sub32 a.transLen a.bytesTodev
  if p.initialR2t || (p.firstBurstLength ≠ 0 && a.bytesTodev ≥ p.firstBurstLength) then do
    let tx := (← get).slot.conn.tx
    sendR2ts c (tx.length + remaining + 1) 0 remaining
  else return true

/-- `target_transfer_data`.  `enqueue` is the `device_enqueue` of the disk. -/
def targetTransferData (enqueue : Nat → Handler Int) (c : Nat) : Handler Int := do
  let a := (← getCmd c).scsiCmd
  if sub32 a.transLen a.bytesTodev = 0 then
    -- transfer is done, so signal the device
    if !a.final then return -1
    guarded ((← placeDone enqueue c) ≠ 0) (halt .exit)
    return 0
  if !(← requestData c) then return -1
  modifyCmd c fun t => { t with ready := true }
  return 0

/-- The first `n` bytes of the array `immediate`, which `memset` has zeroed. -/
def immediateData (t : TargetCmd) (n : Nat) : Bytes := (List.range n).map (byte t.immediate)

/-- The copy of the immediate data in `prepare_write`; the `ASSERT` in it calls `exit`. -/
def copyImmediate (c : Nat) : Handler PUnit := do
  let cmd ← getCmd c
  let v := cmd.scatterList.headD ⟨.media, 0, 0⟩
  poke v.base v.off (immediateData cmd (min v.len cmd.scsiCmd.length))
  guarded (cmd.scsiCmd.length > v.len) (halt .exit)
  modifyCmd c fun t =>
    { t with scsiCmd := { t.scsiCmd with bytesTodev := t.scsiCmd.length }
             got := [(0, immediateData t t.scsiCmd.length)] }

/-- The label `transfer` of `prepare_write`. -/
def prepareTransfer (c : Nat) : Handler Int := do
  copyImmediate c
  let a := (← getCmd c).scsiCmd
  if a.todev && sub32 a.transLen a.bytesTodev ≠ 0 then
    if (← targetTransferData (lunEnqueue id) c) ≠ 0 then return -1
    return 0
  if (← commandDone id c) ≠ 0 then return -1
  return 0

/-- `prepare_write`. -/
def prepareWrite (c lba len : Nat) : Handler Int := do
  let cfg := (← getDev).cfg
  let cmd ← getCmd c
  if byte cmd.scsiCmd.cdb 0 = opTracingSet then
    modifyCmd c fun t => { t with scatterList := [⟨.tracefile, 0, configMaxFilename⟩] }
    prepareTransfer id c
  else do
    if pastEnd cfg lba len then return -1
    match ← writeAllocateSpace c lba len with
    | none => return -1
    | some v =>
      modifyCmd c fun t => { t with scatterList := [v] }
      prepareTransfer id c

/-! ## Interpreting a command -/

/-- `data[i] |= mask`. -/
def orReply (i : Nat) (mask : UInt8) (m : Memory) : Memory :=
  m.write .reply i [m .reply i ||| mask]

/-- The array `data` after `INQUIRY`. -/
def inquiryReply (alloc : UInt8) (m : Memory) : Memory :=
  let m := m.write .reply 0 (List.replicate alloc.toNat 0)
  let m := m.write .reply 0 [0]
  let m := orReply 2 0x02 m
  let m := m.write .reply 4 [alloc - 4]
  let m := orReply 7 0x02 (orReply 7 0x20 (orReply 7 0x40 m))
  let m := m.write .reply 8 (cstr "Intel   " ++ [0])
  let m := m.write .reply 16 (cstr "iSCSI Reference " ++ [0])
  m.write .reply 32 (cstr "2   " ++ [0])

/-- The array `data` after `INQUIRY` to a LUN that does not exist. -/
def noDeviceReply (alloc : UInt8) (m : Memory) : Memory :=
  let m := m.write .reply 0 (List.replicate alloc.toNat 0)
  orReply 0 0x7f (m.write .reply 0 [0x60])

/-- Four bytes in network order. -/
def word (x : Nat) : Bytes := put32 [0, 0, 0, 0] 0 (UInt32.ofNat x)

/-- The array `data` after `READ_CAPACITY`. -/
def capacityReply (cfg : DiskConfig) (m : Memory) : Memory :=
  (m.write .reply 0 (word (cfg.numBlocks + 4294967295))).write .reply 4 (word cfg.blockLen)

/-- The array `data` after `MODE_SENSE`; a 16-bit value in network order is stored as a word. -/
def modeSenseReply (cfg : DiskConfig) (alloc : UInt8) (m : Memory) : Memory :=
  let m := m.write .reply 0 (List.replicate (4 + alloc.toNat) 0)
  let m := m.write .reply 0 [0x19]
  let m := m.write .reply 4 [0x03]
  let m := m.write .reply 5 [0x16]
  let m := m.write .reply 16 (put16 [0, 0, 0, 0] 0 cfg.blockLen)
  m.write .reply 24 [0x80]

/-- The array `data` after `REPORT_LUNS`. -/
def reportLunsReply (cfg : DiskConfig) (transLen : Nat) (m : Memory) : Memory :=
  let m := m.write .reply 0 (List.replicate transLen 0)
  let m := m.write .reply 0 (word (cfg.numLuns * 8))
  (List.range cfg.numLuns).foldl (fun m i => m.write .reply (8 + 8 * i) [0, UInt8.ofNat i]) m

/-- The label `done` of `device_command`: reply from the array `data` and complete. -/
def finish (c : Nat) : Handler Int := do
  let a := (← getCmd c).scsiCmd
  guarded (a.fromdev && a.length ≠ 0) <|
    modifyCmd c fun t => { t with gatherList := [⟨.reply, 0, a.length⟩], gatherType := .stack }
  commandDone id c

/-- Set the outcome of a command without data and complete it. -/
def finishWith (c : Nat) (status : UInt8) : Handler Int := do
  modifyScsi c fun a => { a with status, length := 0 }
  finish id c

/-- Set the outcome of a command that replies with `length` bytes and complete it. -/
def finishReply (c : Nat) (reply : Memory → Memory) (length : Nat) : Handler Int := do
  onMem reply
  modifyScsi c fun a => { a with fromdev := true, status := 0, length }
  finish id c

/-- `WRITE_6` and `WRITE_10` after the decoding: `status` is the one for a failure. -/
def deviceWrite (c lba len : Nat) (status : UInt8) : Handler PUnit := do
  guarded ((← prepareWrite id c lba len) ≠ 0) <| modifyScsi c fun a => { a with status }
  modifyScsi c fun a => { a with length := 0 }

/-- The switch of `device_command`, for a LUN that exists.  `a` is the command as it arrived. -/
def deviceOp (c : Nat) (cfg : DiskConfig) (a : ScsiCmd) (op : UInt8) : Handler Int := do
  if op = opTestUnitReady then finishWith id c 0
  else if op = opInquiry then finishReply id c (inquiryReply (byte a.cdb 4)) a.transLen
  else if op = opReadCapacity then finishReply id c (capacityReply cfg) 8
  else if op = opWrite6 then
    deviceWrite id c (lba6 a.cdb) (len6 a.cdb) 1
    modifyCmd c fun t => { t with isWrite := true }
    return 0
  else if op = opRead6 then
    match ← diskRead c (lba6 a.cdb) (len6 a.cdb) with
    | none => finishWith id c 2
    | some n =>
      modifyScsi c fun a => { a with status := 0, fromdev := true, length := n }
      commandDone id c
  else if op = opWrite10 then
    modifyCmd c fun t => { t with isWrite := true }
    deviceWrite id c (lba10 a.cdb) (len10 a.cdb) 2
    return 0
  else if op = opRead10 then
    match ← diskRead c (lba10 a.cdb) (len10 a.cdb) with
    | none => halt .exit
    | some n =>
      modifyScsi c fun a => { a with status := 0, fromdev := true, length := n }
      commandDone id c
  else if op = opVerify then
    modifyScsi c fun a => { a with status := 0 }
    finish id c
  else if op = opModeSense then
    finishReply id c (modeSenseReply cfg (byte a.cdb 4)) (byte a.cdb 4).toNat
  else if op = opReportLuns then
    guarded (a.transLen > 4096) (halt .fault)
    onMem (reportLunsReply cfg a.transLen)
    let n := 8 + 8 * cfg.numLuns
    modifyScsi c fun a => { a with status := 0, transLen := n, length := n, fromdev := true }
    finish id c
  else if op = opTargetExit then finishWith id c 0
  else if op = opTracingOn then
    modifyDev fun d => { d with tracing := true }
    finishWith id c 0
  else if op = opTracingOff then
    modifyDev fun d => { d with tracing := false }
    finishWith id c 0
  else if op = opTracingSet then
    modifyDev fun d => { d with tracing := true }
    if (← prepareWrite id c 0 0) ≠ 0 then finishWith id c 2
    else do
      modifyScsi c fun a => { a with length := 0 }
      return 0
  else finishWith id c 2

/-- `device_command`. -/
def deviceCommand (c : Nat) : Handler Int := do
  let cfg := (← getDev).cfg
  let cmd ← getCmd c
  let a := cmd.scsiCmd
  if cmd.gatherList ≠ [] || cmd.scatterList ≠ [] || a.sendData || a.sendSgLen ≠ 0 then halt .abort
  else if a.lun < cfg.numLuns then deviceOp id c cfg a (byte a.cdb 0)
  else if byte a.cdb 0 = opInquiry then
    finishReply id c (noDeviceReply (byte a.cdb 4)) a.transLen
  else do
    modifyScsi c fun a => { a with fromdev := false }
    finishWith id c 1

/-- `device_enqueue`. -/
def deviceEnqueue (c : Nat) : Handler Int := do
  let cfg := (← getDev).cfg
  let a := (← getCmd c).scsiCmd
  if a.lun < cfg.numLuns then lunEnqueue id c
  else do
    countDown
    deviceCommand id c

/-- `device_place_data` for a part of the data: the number of bytes, or what was returned on
a failure. -/
def devicePlaceData (c off len : Nat) : Handler Int := do
  if len = 0 then return ← placeDone (deviceEnqueue id) c
  let cmd ← getCmd c
  match modifyIov cmd.scatterList off len with
  | none => return -1
  | some iov =>
    let (rc, bs) ← sockRecv len
    let v := iov.headD ⟨.media, 0, 0⟩
    poke v.base v.off bs
    modifyCmd c fun t => { t with got := t.got ++ [(off, bs)] }
    guarded (rc ≠ len) (halt .exit)
    return rc

end Ost.Disk
