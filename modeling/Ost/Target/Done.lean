import Ost.Target.State

/-!
# Rejecting a PDU and completing a command

`reject_t` and `device_command_done` of `target.c`.  The second is the callback by which
the device reports that a command is finished: it sends the input data, sends the
response, and takes the command out of the books of its session.
-/

namespace Ost.Target

open Ost.Iscsi Ost.Util Ost.Param Ost.Prog

/-- `reject_t`. -/
def rejectT (hdr : Bytes) (reason : UInt8) : Handler Int := do
  modifySeq fun q => { q with statSN := q.statSN + 1 }
  let q ← getSeq
  let reject : Reject :=
    { reason, length := 48, statSN := q.statSN, expCmdSN := q.expCmdSN, maxCmdSN := q.maxCmdSN
      dataSN := 0 }
  if !(← sendLocked (.reject reject) (some hdr)) then return -1
  return 0

/-- Collect the bytes of a list of buffers, unless their sizes do not add up to `len`.  For
`len = 0` the list is not looked at.  The last three lengths of type `int` leave no room for the
padding, and `iscsi_sock_msg` stops after a part of the bytes. -/
def gather (iov : List Iov) (len : Nat) : Handler (Option Bytes) := gets fun s =>
  if len = 0 then some []
  else if w32 (iovTotal iov) = len ∧ len ≤ 2147483644 then
    some (iov.flatMap fun v => s.dev.mem.read v.base v.off v.len)
  else none

/-- The loop of `device_command_done` over the read data PDUs: whether all were sent.
`len` is `trans_len`, `mdsl` is `max_data_seg_length`, `sg` the gather list. -/
def sendReadData (c : Nat) (sg : List Iov) (len mdsl : Nat) :
    Nat → Nat → UInt32 → Handler (Option UInt32)
  | 0, _, _ => halt .hang
  | fuel + 1, offset, dataSN => do
    if offset < len then
      let n := if mdsl ≠ 0 then min (len - offset) mdsl else len - offset
      -- only a fragment gets a list of its own
      match (if n ≠ len then modifyIov sg offset n else some sg) with
      | none => return none
      | some iov =>
        let q ← getSeq
        let cmd ← getCmd c
        let data : ReadData :=
          { ReadData.zero with
            length := UInt32.ofNat n, final := offset + n = len, taskTag := cmd.scsiCmd.tag
            expCmdSN := q.expCmdSN, maxCmdSN := q.maxCmdSN, dataSN, offset := UInt32.ofNat offset }
        if !(← sendLeaky (.readData data) (← gather iov n)) then return none
        modifyScsi c fun a => { a with bytesFromdev := w32 (a.bytesFromdev + n) }
        sendReadData c sg len mdsl fuel (w32 (offset + if mdsl ≠ 0 then mdsl else len)) (dataSN + 1)
    else return some dataSN

/-- The first half of `device_command_done`: send any input data.  Returns the number of
read data PDUs sent. -/
def sendInput (c : Nat) : Handler (Option UInt32) := do
  let cmd ← getCmd c
  let a := cmd.scsiCmd
  if a.status = 0 && a.fromdev then
    let len := if a.todev then a.bidiTransLen else a.transLen
    -- without a gather list, `send_data` itself is taken for the buffer
    let sg := if a.sendSgLen ≠ 0 then cmd.gatherList else [⟨.command, 0, len⟩]
    let mdsl := (← getLogin).sessParams.maxDataSegLength
    sendReadData c sg len mdsl (len + 1) 0 0
  else return some 0

/-- The second half of `device_command_done`: send the response and check the transfer. -/
def sendResponse (c : Nat) (dataSN : UInt32) : Handler Bool := do
  let cmd ← getCmd c
  let a := cmd.scsiCmd
  let q ← getSeq
  modifySeq fun q => { q with statSN := q.statSN + 1 }
  let len := if a.status ≠ 0 then a.length else 0
  let rsp : ScsiRsp :=
    { ScsiRsp.zero with
      length := UInt32.ofNat len, tag := a.tag, statSN := q.statSN, expCmdSN := q.expCmdSN
      maxCmdSN := q.maxCmdSN, status := a.status
      expDataSN := if a.status = 0 && a.fromdev then dataSN else 0 }
  let sg := if a.sendSgLen ≠ 0 then cmd.gatherList else [⟨.command, 0, len⟩]
  if !(← sendLeaky (.scsiRsp rsp) (← gather sg len)) then return false
  -- make sure all data was transferred
  let ok :=
    if a.todev && a.status = 0 then
      a.bytesTodev == a.transLen && (!a.fromdev || a.bytesFromdev == a.bidiTransLen)
    else !(a.fromdev && a.status = 0) || a.bytesFromdev == a.transLen
  return ok

/-- The end of `device_command_done`: remove the command from the outstanding list and put
its header and its structure back. -/
def retire (c : Nat) : Handler Int := do
  let cmd ← getCmd c
  if !(← removeOutstanding cmd.scsiCmd.tag) then halt .exit
  else do
    if !(← putHeader cmd.header) then return -1
    if !(← putCmd c) then return -1
    return 0

/-- `device_command_done`. -/
def deviceCommandDone (c : Nat) : Handler Int := do
  let cmd ← getCmd c
  if cmd.scsiCmd.sendData || cmd.scsiCmd.sendSgLen ≠ 0 then halt .abort
  else do
    modifyScsi c fun a =>
      { a with sendData := true, sendSgLen := cmd.gatherList.length, bytesFromdev := 0 }
    match ← sendInput c with
    | none => return -1
    | some dataSN =>
      if !(← sendResponse c dataSN) then return -1
      retire c

end Ost.Target
