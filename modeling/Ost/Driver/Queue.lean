import Ost.Config.Basic
import Ost.Iscsi.Pdu
import Ost.Prog.Run

/-!
# The host driver

`iscsi_queuecommand`, `iscsi_done` and `stats_reset` of `driver.c`: how the SCSI midlayer
hands a command to the initiator, how it gets it back, and the statistics the driver keeps for
every LUN meanwhile.

A command structure is an index into `g_cmd`, and the scatter list that a command borrows
from `g_iovec_q` is only counted.  `Host.accepted` is a ghost: the commands for which
`iscsi_queuecommand` has returned 0 and `iscsi_done` has not been called.
-/

namespace Ost.Driver

open Ost.Iscsi Ost.Prog

/-! ## Commands of the midlayer -/

/-- `sc_data_direction`. -/
inductive Direction where
  | toDevice
  | fromDevice
  | other
deriving DecidableEq, Repr

/-- `struct scsi_cmnd`. -/
structure ScsiCmnd where
  tid : Nat
  lun : Nat
  cmnd : Bytes
  cmdLen : Nat
  direction : Direction
  /-- `REQUEST_BUFFLEN`. -/
  bufflen : UInt32
  /-- `sc_request->sr_bidi_bufflen`. -/
  bidiBufflen : UInt32
  /-- `USE_SG`. -/
  useSg : Nat
deriving DecidableEq, Repr

/-- `TEST_UNIT_READY`. -/
def testUnitReady : UInt8 := 0x00

/-- Whether a command is counted as a transfer. -/
def ScsiCmnd.transfers (p : ScsiCmnd) : Bool := byte p.cmnd 0 ≠ testUnitReady && p.bufflen ≠ 0

/-- How the driver was built and what it was configured with. -/
structure Config where
  /-- `CONFIG_OSD_BIDI`. -/
  osdBidi : Bool
  /-- `g_driver_num_targets`. -/
  numTargets : Nat
  /-- `g_ramdisk_num_blocks`. -/
  ramdiskBlocks : Nat

/-- The local variables of `iscsi_queuecommand` that describe the transfer. -/
structure Transfer where
  output : Bool
  input : Bool
  length : UInt32
  transLen : UInt32
  bidiTransLen : UInt32
deriving DecidableEq, Repr

/-- What `iscsi_queuecommand` makes of the direction and the length of a command. -/
def ScsiCmnd.transfer (cfg : Config) (p : ScsiCmnd) : Transfer :=
  if p.transfers then
    match p.direction with
    | .toDevice => ⟨true, false, p.bufflen, p.bufflen, 0⟩
    | .fromDevice => ⟨false, true, 0, p.bufflen, 0⟩
    | .other => ⟨true, true, 0, p.bufflen, if cfg.osdBidi then p.bidiBufflen else 0⟩
  else ⟨false, false, 0, 0, 0⟩

/-! ## Statistics -/

/-- `ISCSI_DRIVER_STATS_T`, without the fields on seek distances and resets. -/
structure DriverStats where
  outstanding : Int
  outstandingWr : Int
  outstandingRd : Int
  outstandingBidi : Int
  outstandingOther : Int
  succeeded : UInt64
  failed : UInt64
  latencies : UInt64
  latenciesWr : UInt64
  latenciesRd : UInt64
  latenciesBidi : UInt64
  latenciesOther : UInt64
  depths : UInt64
  depthsWr : UInt64
  depthsRd : UInt64
  depthsBidi : UInt64
  depthsOther : UInt64
  bytesTx : UInt64
  qBytesTx : UInt64
  bytesRx : UInt64
  qBytesRx : UInt64
  opsWr : UInt64
  opsRd : UInt64
  opsBidi : UInt64
  opsOther : UInt64
  minResponse : UInt32
  maxResponse : UInt32
deriving DecidableEq, Repr

/-- All counters 0, as `memset` leaves them. -/
def DriverStats.zero : DriverStats :=
  { outstanding := 0, outstandingWr := 0, outstandingRd := 0, outstandingBidi := 0,
    outstandingOther := 0, succeeded := 0, failed := 0, latencies := 0, latenciesWr := 0,
    latenciesRd := 0, latenciesBidi := 0, latenciesOther := 0, depths := 0, depthsWr := 0,
    depthsRd := 0, depthsBidi := 0, depthsOther := 0, bytesTx := 0, qBytesTx := 0, bytesRx := 0,
    qBytesRx := 0, opsWr := 0, opsRd := 0, opsBidi := 0, opsOther := 0, minResponse := 0,
    maxResponse := 0 }

/-- What `stats_reset` makes of the statistics of a LUN.  The locals it saves the gauges in are
`unsigned`, and the one for `q_bytes_rx` is loaded from `q_bytes_tx`. -/
def DriverStats.reset (st : DriverStats) : DriverStats :=
  let qBytesTx := st.qBytesTx.toUInt32
  let qBytesRx := st.qBytesTx.toUInt32
  { DriverStats.zero with
    minResponse := 0xffffffff
    outstanding := st.outstanding
    outstandingWr := st.outstandingWr
    outstandingRd := st.outstandingRd
    outstandingBidi := st.outstandingBidi
    outstandingOther := st.outstandingOther
    qBytesTx := qBytesTx.toUInt64
    qBytesRx := qBytesRx.toUInt64 }

/-- A counter added to a sum over time. -/
def addDepth (sum : UInt64) (depth : Int) : UInt64 := sum + UInt64.ofInt depth

/-- The statistics `iscsi_queuecommand` updates. -/
def DriverStats.issue (cfg : Config) (p : ScsiCmnd) (st : DriverStats) : DriverStats :=
  let t := p.transfer cfg
  let st := { st with outstanding := st.outstanding + 1 }
  let st := { st with depths := addDepth st.depths st.outstanding }
  if p.transfers then
    match p.direction with
    | .toDevice =>
      let st := { st with
        qBytesTx := st.qBytesTx + t.transLen.toUInt64
        opsWr := st.opsWr + 1
        outstandingWr := st.outstandingWr + 1 }
      { st with depthsWr := addDepth st.depthsWr st.outstandingWr }
    | .fromDevice =>
      let st := { st with
        qBytesRx := st.qBytesRx + t.transLen.toUInt64
        opsRd := st.opsRd + 1
        outstandingRd := st.outstandingRd + 1 }
      { st with depthsRd := addDepth st.depthsRd st.outstandingRd }
    | .other =>
      let st := { st with
        qBytesTx := st.qBytesTx + t.transLen.toUInt64
        qBytesRx := st.qBytesRx + t.bidiTransLen.toUInt64
        opsBidi := st.opsBidi + 1
        outstandingBidi := st.outstandingBidi + 1 }
      { st with depthsBidi := addDepth st.depthsBidi st.outstandingBidi }
  else
    let st := { st with opsOther := st.opsOther + 1, outstandingOther := st.outstandingOther + 1 }
    { st with depthsOther := addDepth st.depthsOther st.outstandingOther }

/-! ## The command structures -/

/-- An element of `g_cmd` with its `ISCSI_SCSI_CMD_T`. -/
structure DriverCmd where
  /-- `callback_arg`. -/
  callbackArg : Option ScsiCmnd
  /-- Whether `host_scribble` of the command holds a scatter list. -/
  hostScribble : Bool
  fromdev : Bool
  todev : Bool
  length : UInt32
  transLen : UInt32
  bidiTransLen : UInt32
  ahs : Bytes
  ahsLen : Nat
deriving DecidableEq, Repr

/-- The AHS that `iscsi_queuecommand` writes, and its length. -/
def queueAhs (p : ScsiCmnd) (t : Transfer) : Bytes × Nat :=
  let ahs := List.replicate configIscsiMaxAhsLen 0
  let (ahs, pos) :=
    if t.input && t.output then
      (put32 (put8 (put16 ahs 0 8) 2 0x02) 4 t.bidiTransLen, 8)
    else (ahs, 0)
  if p.cmdLen > 16 then
    (putBytes (put8 (put16 ahs pos (p.cmdLen - 16)) (pos + 2) 0x01) (pos + 4)
      ((p.cmnd.drop 16).take (p.cmdLen - 16)), pos + (p.cmdLen - 16))
  else (ahs, pos)

/-- A completed command in the statistics: what `iscsi_done` reads. -/
structure Completion where
  /-- `cmd->status`. -/
  status : Int
  /-- `scsi_cmd->status`. -/
  scsiStatus : UInt8
  aborted : Bool
  /-- `DIFF_USEC(scsi_cmd->start_time, scsi_cmd->stop_time)`. -/
  usec : UInt32
deriving DecidableEq, Repr

/-- `SCpnt->result`. -/
def Completion.result (r : Completion) : Nat := if r.status = 0 then r.scsiStatus.toNat else 2

/-- The statistics `iscsi_done` updates. -/
def DriverStats.complete (cfg : Config) (p : ScsiCmnd) (c : DriverCmd) (r : Completion)
    (st : DriverStats) : DriverStats :=
  let usec := r.usec.toUInt64
  let st := { st with
    maxResponse := if r.usec > st.maxResponse then r.usec else st.maxResponse
    minResponse := if r.usec < st.minResponse then r.usec else st.minResponse
    latencies := st.latencies + usec
    outstanding := st.outstanding - 1 }
  if r.aborted then st
  else
    let st := { st with
      failed := if r.result ≠ 0 then st.failed + 1 else st.failed
      succeeded := if r.result ≠ 0 then st.succeeded else st.succeeded + 1 }
    let st := if c.todev then
        { st with
          bytesTx := st.bytesTx + p.bufflen.toUInt64
          qBytesTx := st.qBytesTx - p.bufflen.toUInt64
          outstandingWr := st.outstandingWr - 1
          latenciesWr := st.latenciesWr + usec }
      else st
    if c.fromdev && c.todev then
      if cfg.osdBidi then
        { st with
          bytesRx := st.bytesRx + p.bidiBufflen.toUInt64
          qBytesRx := st.qBytesRx - p.bidiBufflen.toUInt64
          outstandingBidi := st.outstandingBidi - 1
          latenciesBidi := st.latenciesBidi + usec }
      else st
    else if c.fromdev then
      { st with
        bytesRx := st.bytesRx + p.bufflen.toUInt64
        qBytesRx := st.qBytesRx - p.bufflen.toUInt64
        outstandingRd := st.outstandingRd - 1
        latenciesRd := st.latenciesRd + usec }
    else
      { st with
        outstandingOther := st.outstandingOther - 1
        latenciesOther := st.latenciesOther + usec }

/-! ## The driver -/

/-- The globals of the driver. -/
structure Host where
  /-- `g_stats`. -/
  stats : Nat → Nat → DriverStats
  /-- `g_cmd`. -/
  cmds : Nat → DriverCmd
  /-- `g_cmd_q`. -/
  cmdQ : List Nat
  /-- How many scatter lists are in `g_iovec_q`. -/
  iovecs : Nat
  /-- Ghost: the accepted and uncompleted commands, with their structures. -/
  accepted : List (Nat × ScsiCmnd)

/-- Change the statistics of the LUN of a command. -/
def onStats (p : ScsiCmnd) (f : DriverStats → DriverStats) : Prog Empty Host PUnit :=
  modify fun s => { s with
    stats := fun tid lun => if tid = p.tid ∧ lun = p.lun then f (s.stats tid lun)
      else s.stats tid lun }

/-- Whether the ramdisk serves a target. -/
def Config.isRamdisk (cfg : Config) (tid : Nat) : Bool :=
  tid + 1 = cfg.numTargets && cfg.ramdiskBlocks ≠ 0

/-- How `initiator_enqueue` can end.  It refuses an unknown target before it stores anything in
the command structure; later failures leave the callback there. -/
inductive Enqueue where
  | queued
  | refused
  | failed
deriving DecidableEq, Repr

/-- `iscsi_queuecommand`. -/
def iscsiQueuecommand (cfg : Config) (p : ScsiCmnd) (enqueue : Enqueue) : Prog Empty Host Int := do
  if cfg.isRamdisk p.tid then return 0
  let t := p.transfer cfg
  onStats p (·.issue cfg p)
  if p.useSg ≠ 0 && (← get).iovecs = 0 then return -1
  guarded (p.useSg ≠ 0) (modify fun s => { s with iovecs := s.iovecs - 1 })
  match (← get).cmdQ with
  | [] => return -1
  | i :: cmdQ =>
    modify fun s => { s with cmdQ }
    if p.cmdLen > 16 && p.cmdLen > configIscsiMaxAhsLen then return -1
    let (ahs, ahsLen) := queueAhs p t
    let cmd : DriverCmd :=
      { callbackArg := some p, hostScribble := p.useSg ≠ 0, fromdev := t.input, todev := t.output
        length := t.length, transLen := t.transLen, bidiTransLen := t.bidiTransLen, ahs, ahsLen }
    if enqueue = .refused then return -1
    modify fun s => { s with cmds := fun j => if j = i then cmd else s.cmds j }
    if enqueue = .failed then return -1
    modify fun s => { s with accepted := s.accepted ++ [(i, p)] }
    return 0

/-- `iscsi_done` on an element of `g_cmd`. -/
def iscsiDone (cfg : Config) (i : Nat) (r : Completion) : Prog Empty Host Int := do
  let cmd := (← get).cmds i
  match cmd.callbackArg with
  | none => return -1
  | some p =>
    onStats p (·.complete cfg p cmd r)
    modify fun s => { s with accepted := s.accepted.eraseP fun a => a.1 = i }
    guarded cmd.hostScribble (modify fun s => { s with iovecs := s.iovecs + 1 })
    modify fun s => { s with cmdQ := s.cmdQ ++ [i] }
    modify fun s => { s with
      cmds := fun j => if j = i then { s.cmds j with callbackArg := none } else s.cmds j }
    return 0

/-- `stats_reset`. -/
def statsReset : Prog Empty Host Int := do
  modify fun s => { s with stats := fun tid lun => (s.stats tid lun).reset }
  return 0

/-- The calls that reach the driver. -/
inductive Call where
  | queuecommand (p : ScsiCmnd) (enqueue : Enqueue)
  | done (i : Nat) (r : Completion)
  | reset
deriving DecidableEq, Repr

/-- One call. -/
def next (cfg : Config) : Call → Prog Empty Host PUnit
  | .queuecommand p enqueue => do
    let _ ← iscsiQueuecommand cfg p enqueue
  | .done i r => do
    let _ ← iscsiDone cfg i r
  | .reset => do
    let _ ← statsReset

/-- The driver after `iscsi_driver_init`: every structure is free. -/
def Host.init (cmds : Nat → DriverCmd) : Host :=
  { stats := fun _ _ => DriverStats.zero.reset
    cmds := fun i => { cmds i with callbackArg := none }
    cmdQ := List.range configInitiatorQueueDepth
    iovecs := configInitiatorQueueDepth
    accepted := [] }

end Ost.Driver
