import Ost.Initiator.Done

/-!
# The Tx worker

The transmitting side of `initiator.c`: the functions that send one command each, the
answer to an R2T, and the loop of `tx_worker_proc_i` cut into the steps between which
other threads can be seen to act.

`scsi_command_i` and `scsi_r2t_tx_i` send the write data in rounds.  How much a round
sends is computed by a function of its own, because the agreement of the two sides of a
write depends on nothing else.
-/

namespace Ost.Initiator

open Ost.Iscsi Ost.Util Ost.Param Ost.Prog

/-! ## Transmissions -/

/-- The longest message that `iscsi_sock_msg` can send, because it keeps the length, padded to a
multiple of four, in an `int`. -/
def sockMsgMax : Nat := 2147483644

/-- Send a buffer list with `iscsi_sock_msg`, which first compares its total size with `len`.  No
number of bytes sent is equal to a negative length. -/
def sockData (len : Nat) (data : List Iov) : Handler Bool := do
  if u32 (iovTotal data) ≠ u32 len then return false
  if len > sockMsgMax then return false
  nextNet

/-- A transmission that is only made when `c` holds. -/
def whenever (c : Prop) [Decidable c] (x : Handler Bool) : Handler Bool :=
  if c then x else pure true

/-- `iscsi_sock_send_header_and_data`. -/
def sockSend (p : OutPdu) (len : Nat) (data : List Iov) : Handler Bool := do
  if !(← nextNet) then return false
  if len ≠ 0 then
    if !(← sockData len data) then return false
  logSent p
  return true

/-- `iscsi_sock_send_header_and_data` with a plain buffer. -/
def sockSendPlain (p : OutPdu) (len : Nat) : Handler Bool := do
  if !(← nextNet) then return false
  if len ≠ 0 then
    if !(← nextNet) then return false
  logSent p
  return true

/-- `CONFIG_INITIATOR_MAX_SG`. -/
def configInitiatorMaxSg : Nat := 128

/-- Cut the part of a transfer out of a copy of the scatter list. -/
def cutSg (sg : List Iov) (offset len : Nat) : Handler (Option (List Iov)) := do
  guarded (sg.length > configInitiatorMaxSg) (halt .exit)
  return modifyIov sg offset len

/-- The buffers of a data PDU: a part of the scatter list, or all of it. -/
def dataSg (part : Bool) (sg : List Iov) (offset len : Nat) : Handler (Option (List Iov)) :=
  if part then cutSg sg offset len else return some sg

/-! ## Commands without data -/

/-- `text_command_i`. -/
def textCommandI (c : Nat) (q : TextReq) : Handler Bool := do
  let v ← getVars
  let pdu := { q.pdu with expStatSN := v.expStatSN, cmdSN := v.cmdSN }
  setBody c (.text { q with pdu })
  modifyVars fun v => { v with cmdSN := v.cmdSN + 1 }
  sockSendPlain (.text pdu) pdu.length

/-- `login_command_i`.  Building the header changes the ISID of the command. -/
def loginCommandI (c : Nat) (q : LoginReq) : Handler Bool := do
  let v ← getVars
  let pdu := { q.pdu with expStatSN := v.expStatSN }
  setBody c (.login { q with pdu := (iscsiLoginCmdEncap zeroHeader pdu).2 })
  sockSendPlain (.login pdu) pdu.length

/-- `logout_command_i`. -/
def logoutCommandI (q : LogoutCmd) : Handler Bool := sockSendPlain (.logout q) 0

/-- `nop_out_i`: the PDU it sends, and whether that worked. -/
def nopOutI (q : NopOut) : Handler (NopOut × Bool) := do
  let v ← getVars
  let q := { q with cmdSN := v.cmdSN, expStatSN := v.expStatSN }
  guarded (q.tag ≠ 0xffffffff) (modifyVars fun v => { v with cmdSN := v.cmdSN + 1 })
  return (q, ← sockSendPlain (.nopOut q) q.length)

/-! ## Write data -/

/-- The scatter list of the write data; a plain buffer is a list of one. -/
def ScsiCmd.sendList (q : ScsiCmd) : Option (List Iov) :=
  if q.send.sg ≠ [] then some q.send.sg
  else q.send.plain.map fun v => [{ v with len := q.pdu.transLen }]

/-- The immediate data that `scsi_command_i` sends. -/
def immediateLength (p : SessParams) (todev : Bool) (transLen : Nat) : Nat :=
  if todev && p.immediateData then
    if p.maxDataSegLength ≠ 0 then min p.maxDataSegLength transLen else transLen
  else 0

/-- The final bit of the command PDU. -/
def commandFinal (p : SessParams) (todev : Bool) (transLen : Nat) : Bool :=
  if todev && p.immediateData then immediateLength p todev transLen == transLen || p.initialR2t
  else p.initialR2t

/-- The length of the next unsolicited data PDU. -/
def unsolicitedLength (p : SessParams) (transLen bytesTodev : Nat) : Nat :=
  let rest := minus32 transLen bytesTodev
  if p.maxDataSegLength ≠ 0 then
    if p.firstBurstLength ≠ 0 then
      min (minus32 p.firstBurstLength bytesTodev) (min p.maxDataSegLength rest)
    else min p.maxDataSegLength rest
  else if p.firstBurstLength ≠ 0 then min (minus32 p.firstBurstLength bytesTodev) rest
  else rest

/-- The final bit of an unsolicited data PDU of length `len`. -/
def unsolicitedFinal (p : SessParams) (transLen bytesTodev len : Nat) : Bool :=
  u32 (bytesTodev + len) == transLen || decide (u32 (bytesTodev + len) ≥ p.firstBurstLength)

/-- The condition under which `scsi_command_i` sends unsolicited data PDUs. -/
def sendsUnsolicited (p : SessParams) (todev : Bool) (transLen bytesTodev : Nat) : Bool :=
  todev && !p.initialR2t && bytesTodev != transLen &&
    (p.firstBurstLength == 0 || bytesTodev < p.firstBurstLength)

/-- The condition under which its loop goes on. -/
def unsolicitedGoesOn (p : SessParams) (transLen bytesTodev : Nat) : Bool :=
  decide (bytesTodev < transLen) && (decide (bytesTodev < p.firstBurstLength) ||
    p.firstBurstLength == 0)

/-- The loop of `scsi_command_i` that sends unsolicited data PDUs. -/
def sendUnsolicited (c : Nat) (sg : List Iov) : Nat → UInt32 → Handler Bool
  | 0, _ => halt .hang
  | n + 1, dataSN => do
    let q ← getScsi c
    let v ← getVars
    let len := unsolicitedLength v.sessParams q.pdu.transLen q.bytesTodev
    if len = 0 then return false
    let data : WriteData :=
      { final := unsolicitedFinal v.sessParams q.pdu.transLen q.bytesTodev len
        length := len, lun := 0, tag := q.pdu.tag, transferTag := 0xffffffff
        expStatSN := v.expStatSN, dataSN, offset := q.bytesTodev }
    match ← dataSg (len != q.pdu.transLen) sg q.bytesTodev len with
    | none => return false
    | some part =>
      if !(← sockSend (.writeData data part) len part) then return false
      let q := { q with bytesTodev := u32 (q.bytesTodev + len) }
      setBody c (.scsi q)
      if unsolicitedGoesOn v.sessParams q.pdu.transLen q.bytesTodev then
        sendUnsolicited c sg n (dataSN + 1)
      else return true

/-- The part of `scsi_command_i` that sends the command PDU with its AHS and immediate data. -/
def sendCommandPdu (q : ScsiCmd) (sg : Option (List Iov)) : Handler Bool := do
  match if q.pdu.length ≠ 0 then sg.bind fun l => modifyIov l 0 q.pdu.length else some [] with
  | none => return false
  | some part =>
    if !(← nextNet) then return false
    if !(← whenever (q.ahs ≠ []) nextNet) then return false
    if !(← whenever (q.pdu.length ≠ 0) (sockData q.pdu.length part)) then return false
    logSent (.scsi q.pdu part)
    return true

/-- `scsi_command_i`. -/
def scsiCommandI (c : Nat) : Handler Bool := do
  let q ← getScsi c
  let v ← getVars
  let p := v.sessParams
  if q.bytesTodev ≠ 0 then return false
  if p.maxBurstLength = 0 then return false
  if q.pdu.length > q.pdu.transLen then return false
  let sg := if q.pdu.todev then q.sendList else none
  let length := immediateLength p q.pdu.todev q.pdu.transLen
  let q : ScsiCmd := { q with
    status := 0, bytesTodev := 0, bytesFromdev := 0
    pdu := { q.pdu with
      expStatSN := v.expStatSN, cmdSN := v.cmdSN, length
      final := commandFinal p q.pdu.todev q.pdu.transLen } }
  setBody c (.scsi q)
  if !(← sendCommandPdu q sg) then return false
  let q := { q with bytesTodev := length }
  setBody c (.scsi q)
  if sendsUnsolicited p q.pdu.todev q.pdu.transLen length then
    if !(← sendUnsolicited c (sg.getD []) (q.pdu.transLen + 1) 0) then return false
  modifyVars fun v => { v with cmdSN := v.cmdSN + 1 }
  return true

/-! ## Answering an R2T -/

/-- The length of the next data PDU of an answer to an R2T. -/
def r2tDataLength (p : SessParams) (r2tLength done : Nat) : Nat :=
  if p.maxDataSegLength ≠ 0 then min p.maxDataSegLength (minus32 r2tLength done)
  else minus32 r2tLength done

/-- The loop of `scsi_r2t_tx_i`: the data PDUs it sends.  `done` is its variable
`bytes_todev`. -/
def sendR2tData (c : Nat) (r : R2t) (sg : List Iov) :
    Nat → Nat → UInt32 → List WriteData → Handler (Option (List WriteData))
  | 0, _, _, _ => halt .hang
  | n + 1, done, dataSN, acc => do
    let q ← getScsi c
    let v ← getVars
    let len := r2tDataLength v.sessParams r.length.toNat done
    let data : WriteData :=
      { final := u32 (done + len) == r.length.toNat, length := len, lun := q.pdu.lun, tag := r.tag
        transferTag := r.transferTag, expStatSN := v.expStatSN, dataSN
        offset := u32 (r.offset.toNat + done) }
    match ← dataSg (decide (len < r.length.toNat) || r.offset != 0) sg data.offset len with
    | none => return none
    | some part =>
      if !(← sockSend (.writeData data part) len part) then return none
      setBody c (.scsi { q with bytesTodev := u32 (q.bytesTodev + len) })
      let done := u32 (done + len)
      if done < r.length.toNat then sendR2tData c r sg n done (dataSN + 1) (acc ++ [data])
      else return some (acc ++ [data])

/-- `scsi_r2t_tx_i`. -/
def scsiR2tTxI (c : Nat) : Handler Bool := do
  let t ← getCmd c
  let q ← getScsi c
  match q.sendList with
  | none => return false
  | some sg =>
    if t.tag ≠ q.pdu.tag then return false
    if t.r2t.length = 0 then return false
    modifyVars fun v => { v with maxCmdSN := t.r2t.maxCmdSN }
    match ← sendR2tData c t.r2t sg t.r2t.length.toNat 0 0 [] with
    | none => return false
    | some ds =>
      modify fun s => { s with answers := s.answers ++ [(c, ds)] }
      return true

/-! ## The worker -/

/-- Where the Tx worker goes next. -/
def setTx (p : TxPhase) : Handler PUnit := modify fun s => { s with tx := p }

/-- The label `failure` of `tx_worker_proc_i`. -/
def txFailure : Handler PUnit := do
  setError
  setTx .exited

/-- The SCSI case of the switch of `tx_worker_proc_i`. -/
def executeScsi (c : Nat) (q : ScsiCmd) : Handler Bool := do
  let t ← getCmd c
  setBody c (.scsi { q with pdu := { q.pdu with tag := t.tag } })
  if t.r2tRequest ≠ 0 then
    if !(← scsiR2tTxI c) then return false
    modifyCmd c fun t => { t with r2tRequest := t.r2tRequest - 1 }
    return true
  else
    if q.bytesTodev ≠ 0 then return false
    scsiCommandI c

/-- The NOP-Out case. -/
def executeNopOut (c : Nat) (q : NopOutCmd) : Handler Bool := do
  let t ← getCmd c
  let pdu := if q.pdu.tag ≠ 0xffffffff then { q.pdu with tag := t.tag, transferTag := 0xffffffff }
    else q.pdu
  let (pdu, ok) ← nopOutI pdu
  setBody c (.nopOut { q with pdu })
  guarded (ok = true) (setStatus c 0)
  return ok

/-- The switch of `tx_worker_proc_i`. -/
def execute (c : Nat) : Handler Bool := do
  let t ← getCmd c
  match t.body with
  | .login q => loginCommandI c { q with pdu := { q.pdu with tag := t.tag } }
  | .text q => textCommandI c { q with pdu := { q.pdu with tag := t.tag } }
  | .scsi q => executeScsi c q
  | .nopOut q => executeNopOut c q
  | .logout q =>
    setBody c (.logout { q with tag := t.tag })
    logoutCommandI { q with tag := t.tag }
  | .other =>
    setStatus c (-1)
    return true

/-- Take the next command, or answer a ping. -/
def txIdle : Handler PUnit := do
  if (← get).stopping then setTx .exited
  else match ← queueRemove with
    | some c => setTx (.taken c)
    | none =>
      let v ← getVars
      if v.nopOutWaiting then
        let (q, ok) ← nopOutI v.nopOut
        modifyVars fun v => { v with nopOut := q }
        if ok then modifyVars fun v => { v with nopOutWaiting := false } else txFailure

/-- Put a command back that has to wait for full feature phase, or add it to the outstanding
commands. -/
def txTaken (c : Nat) : Handler PUnit := do
  let t ← getCmd c
  if !(← getFlags).fullFeature && !t.body.isControl then
    if ← queueInsert c then setTx .idle else txFailure
  else
    match ← hashLookup t.tag with
    | some _ => setTx (.hashed c)
    | none => if ← hashAdd t.tag c then setTx (.hashed c) else setTx .exited

/-- Drop an aborted command, or get ready to execute. -/
def txHashed (c : Nat) : Handler PUnit := do
  if (← getCmd c).aborted then setTx .idle
  else
    modifyCmd c fun t => { t with txDone := false }
    setTx (.sending c)

/-- Tell the Rx worker that the command has been sent; without a response to come, complete it. -/
def txSent (c : Nat) : Handler PUnit := do
  if (← getCmd c).body.isSilent then
    if ← iscsiDoneI c then setTx .idle else txFailure
  else
    modifyCmd c fun t => { t with txDone := true }
    setTx .idle

/-- One step of `tx_worker_proc_i`. -/
def txWorkerProcI : Handler PUnit := do
  match (← get).tx with
  | .idle => txIdle
  | .taken c => txTaken c
  | .hashed c => txHashed c
  | .sending c => if ← execute c then setTx (.sent c) else txFailure
  | .sent c => txSent c
  | .exited => return

end Ost.Initiator
