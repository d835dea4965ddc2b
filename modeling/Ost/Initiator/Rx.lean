import Ost.Initiator.Tx

/-!
# The Rx worker

The receiving side of `initiator.c`: one handler for each kind of PDU, and the loop of
`rx_worker_proc_i` cut where it waits for the Tx worker to finish with a command.

The Rx worker finds a command by the tag in the PDU and passes it to the handler of the
opcode.  A handler that looks at `cmd->ptr` as a structure of another type than the
command has is undefined behaviour, and so is an access behind the end of a buffer; both
halt with `Halt.fault`, and a wait that nothing can end halts with `Halt.hang`.
-/

namespace Ost.Initiator

open Ost.Iscsi Ost.Util Ost.Param Ost.Prog

/-- What the configuration file says about the target. -/
structure TargetConfig where
  tid : Nat
  users : Users
  initialR2T : CStr
  immediateData : CStr
  maxRecvDataSegmentLength : CStr
  firstBurstLength : CStr
  maxBurstLength : CStr

variable (env : Env) (cfg : TargetConfig)

/-! ## Text -/

/-- Run `param_text_parse` on the parameters of the session: its return value and the response
text. -/
def parseText (text textOut : Bytes) (outgoing : Bool) : Handler (Int × Bytes) := fun s =>
  let put (p : Parse) : Session := s.setVars { s.vars with ps := p.toParamState }
  match paramTextParse env text outgoing cfg.users ⟨s.vars.ps, textOut⟩ with
  | .ret rc p => .ret (rc, p.textOut) (put p)
  | .halt e p => .halt e (put p)

/-- The offers that `params_out` makes after the security stage, without those that the
configuration leaves empty. -/
def TargetConfig.offers (hostname : CStr) : List (CStr × CStr) :=
  [(cstr "InitiatorName", hostname), (cstr "InitiatorAlias", cstr "Intel")] ++
    [(cstr "InitialR2T", cfg.initialR2T), (cstr "ImmediateData", cfg.immediateData),
     (cstr "MaxRecvDataSegmentLength", cfg.maxRecvDataSegmentLength),
     (cstr "FirstBurstLength", cfg.firstBurstLength),
     (cstr "MaxBurstLength", cfg.maxBurstLength)].filter fun kv => kv.2 ≠ []

/-- `params_out` with `SESS_TYPE_NONE` and without the security keys: the text with the offers. -/
def paramsOut (text : Bytes) : Handler (Option Bytes) := do
  if (← getFlags).destroying then return none
  match (cfg.offers env.hostname).foldlM (fun text kv => paramTextAdd kv.1 kv.2 text) text with
  | none => return none
  | some text =>
    let (rc, _) ← parseText env cfg text text true
    if rc ≠ 0 then return none
    return some text

/-- `memcpy` of a text into the buffer of a command. -/
def copyText (text : Bytes) : Handler Bytes := do
  guarded (text.length > textBufferLen) (halt .fault)
  return text

/-- `param_val_reset` on the parameters of the session: whether the key exists. -/
def valReset (key : CStr) : Handler Bool := do
  let v ← getVars
  let (rc, params) := paramValReset v.ps.params key
  modifyVars fun v => { v with ps := { v.ps with params } }
  return rc = 0

/-! ## Login -/

/-- The macro `LIR_ERROR` and the label `callback` of `login_response_i`. -/
def loginFailed (c : Nat) : Handler Bool := do
  setStatus c (-1)
  iscsiDoneI c

/-- The part of `login_response_i` that reads and parses the text: the answers.  The text is not
terminated before it is parsed. -/
def readLoginAnswer (p : RxPdu) (len : Nat) : Handler (Option Bytes) := do
  if len = 0 then return some []
  match recvData p len with
  | none => return none
  | some text =>
    guarded (text.getLast? ≠ some 0) (halt .fault)
    let (rc, textOut) ← parseText env cfg text [] false
    if rc ≠ 0 then return none
    return some textOut

/-- `strcpy(address, param_val(sess->params, "TargetAddress"))` in the case of a redirection. -/
def redirect : Handler PUnit := do
  let v ← getVars
  match paramVal v.ps.params (cstr "TargetAddress") with
  | none => halt .fault
  | some a =>
    guarded (a.length ≥ 256) (halt .fault)
    modifyVars fun v => { v with redirected := true }

/-- The transition to the operational stage. -/
def enterNegotiation (c : Nat) (q : LoginReq) (textOut : Bytes) : Handler Bool := do
  setBody c (.login { q with pdu := { q.pdu with csg := q.pdu.nsg, nsg := 3 } })
  match ← paramsOut env cfg textOut with
  | none => return false
  | some text =>
    let text ← copyText text
    setBody c (.login { pdu := { q.pdu with csg := q.pdu.nsg, nsg := 3, length := text.length }
                        text })
    return true

/-- Whether the session type is one the initiator knows. -/
def sessionTypeKnown (head : Params) : Bool :=
  paramEquiv head (cstr "SessionType") (cstr "Normal") = 0 ||
    paramEquiv head (cstr "SessionType") (cstr "Discovery") = 0

/-- The transition to full feature phase.  Only the low 32 bits of the ISID are compared, and the
whole of it becomes the index of the session. -/
def enterFullFeature (q : LoginReq) (rsp : LoginRsp) : Handler Bool := do
  if rsp.tsih = 0 then return false
  if u32 rsp.isid ≠ u32 q.pdu.isid then return false
  if rsp.expCmdSN > rsp.maxCmdSN then return false
  modifyVars fun v => { v with
    cmdSN := rsp.expCmdSN, maxCmdSN := rsp.maxCmdSN, tsih := rsp.tsih, isid := rsp.isid }
  guarded (rsp.isid ≥ configInitiatorMaxTargets) (halt .fault)
  if !sessionTypeKnown (← getVars).ps.params then return false
  guarded (rsp.isid = cfg.tid) setLoggedIn
  return true

/-- The case of a response without a transition. -/
def partialLogin (c : Nat) (q : LoginReq) (textOut : Bytes) : Handler Bool := do
  if textOut = [] then
    setBody c (.login { q with pdu := { q.pdu with length := 0 } })
    return true
  else
    let (rc, _) ← parseText env cfg textOut textOut true
    if rc ≠ 0 then return false
    let text ← copyText textOut
    let pdu := { q.pdu with length := text.length }
    setBody c (.login
      { pdu := if (cstr "CHAP_N=").isPrefixOf text then { pdu with nsg := 1, transit := true }
          else pdu
        text })
    return true

/-- The part of `login_response_i` after the status has been found good. -/
def loginProgress (c : Nat) (rsp : LoginRsp) (textOut : Bytes) : Handler Bool := do
  let q ← getLogin c
  if rsp.tag ≠ q.pdu.tag then return false
  modifyVars fun v => { v with expStatSN := rsp.statSN + 1 }
  if rsp.transit then
    if !q.pdu.transit then return false
    if rsp.nsg = 1 then enterNegotiation env cfg c q textOut
    else if rsp.nsg = 3 then enterFullFeature cfg q rsp
    else return false
  else partialLogin env cfg c q textOut

/-- `login_response_i`: whether it returned 0. -/
def loginResponseI (c : Nat) (p : RxPdu) : Handler Bool := do
  let (rc, rsp) := iscsiLoginRspDecap p.header
  if rc ≠ 0 then loginFailed c
  else if rsp.length > 8192 then return false
  else
    match ← readLoginAnswer env cfg p rsp.length.toNat with
    | none => loginFailed c
    | some textOut =>
      if rsp.statusClass = 2 ∧ (rsp.statusDetail = 1 ∨ rsp.statusDetail = 2) then loginFailed c
      else if rsp.statusClass ≠ 0 ∧ rsp.statusDetail = 1 then
        redirect
        loginFailed c
      else if rsp.statusClass ≠ 0 then loginFailed c
      else if ← loginProgress env cfg c rsp textOut then iscsiDoneI c
      else loginFailed c

/-! ## Text responses and logout -/

/-- The macro `TI_ERROR` and the label `callback` of `text_response_i`. -/
def textFailed (c : Nat) : Handler Bool := do
  setStatus c (-1)
  let _ ← iscsiDoneI c
  return false

/-- The part of `text_response_i` that reads and answers the text: the new text of the command,
`none` when it is left alone. -/
def answerTextRsp (p : RxPdu) (rsp : TextRsp) : Handler (Option (Option Bytes)) := do
  if rsp.length = 0 then return some none
  match recvData p rsp.length.toNat with
  | none => return none
  | some text =>
    if !(← valReset (cstr "TargetName")) then return none
    if !(← valReset (cstr "TargetAddress")) then return none
    let (rc, textOut) ← parseText env cfg text [] false
    if rc ≠ 0 then return none
    if textOut = [] then return some (some [])
    if rsp.final then return none
    let (rc, _) ← parseText env cfg textOut textOut true
    if rc ≠ 0 then return none
    return some (some (← copyText textOut))

/-- `text_response_i`. -/
def textResponseI (c : Nat) (p : RxPdu) : Handler Bool := do
  let (rc, rsp) := iscsiTextRspDecap p.header
  if rc ≠ 0 then textFailed c
  else
    let q ← getText c
    let v ← getVars
    if rsp.tag ≠ q.pdu.tag ∨ rsp.transferTag ≠ 0xffffffff ∨ rsp.statSN ≠ v.expStatSN ∨
        rsp.expCmdSN ≠ v.cmdSN then textFailed c
    else
      modifyVars fun v => { v with expStatSN := rsp.statSN + 1 }
      match ← answerTextRsp env cfg p rsp with
      | none => textFailed c
      | some text =>
        let pdu := { q.pdu with final := rsp.final }
        setBody c (.text (match text with
          | none => { q with pdu }
          | some [] => { q with pdu := { pdu with length := 0 } }
          | some text => { pdu := { pdu with length := text.length }, text }))
        let failed := decide ((← getCmd c).status = -1)
        return (← iscsiDoneI c) && !failed

/-- The macro `LOR_ERROR` and the label `callback` of `logout_response_i`. -/
def logoutFailed (c : Nat) : Handler Bool := do
  setStatus c (-1)
  iscsiDoneI c

/-- `logout_response_i`. -/
def logoutResponseI (c : Nat) (p : RxPdu) : Handler Bool := do
  let (rc, rsp) := iscsiLogoutRspDecap p.header
  if rc ≠ 0 then logoutFailed c
  else if rsp.response ≠ 0 then logoutFailed c
  else
    let q ← getLogout c
    if rsp.tag ≠ q.tag then logoutFailed c
    else if rsp.statSN ≠ (← getVars).expStatSN then logoutFailed c
    else
      modifyVars fun v => { v with expStatSN := v.expStatSN + 1 }
      if rsp.expCmdSN ≠ (← getVars).cmdSN then logoutFailed c
      else
        modifyVars fun v => { v with maxCmdSN := rsp.maxCmdSN }
        setStatus c 0
        iscsiDoneI c

/-! ## SCSI responses -/

/-- The label `failed` of `scsi_response_i` and of `scsi_read_data_i`. -/
def scsiFailed (c : Nat) : Handler Bool := do
  setStatus c (-1)
  let _ ← iscsiDoneI c
  return false

/-- Whether the data of a command with good status have been transferred. -/
def ScsiCmd.complete (q : ScsiCmd) : Bool :=
  !q.pdu.todev || (q.bytesTodev == q.pdu.transLen &&
    (!q.pdu.fromdev || q.bytesFromdev == q.bidiTransLen))

/-- `scsi_response_i`.  It tests three bits and the residual count again, which the decoder has
already refused. -/
def scsiResponseI (c : Nat) (p : RxPdu) : Handler Bool := do
  let (rc, rsp) := iscsiScsiRspDecap p.header
  if rc ≠ 0 then return false
  else if rsp.response ≠ 0 then scsiFailed c
  else
    let q ← getScsi c
    if rsp.tag ≠ q.pdu.tag then scsiFailed c
    else
      modifyVars fun v => { v with expStatSN := rsp.statSN + 1 }
      let seg := (← getVars).sessParams.maxDataSegLength
      if seg ≠ 0 ∧ rsp.length.toNat > seg then scsiFailed c
      else if rsp.status = 0 ∧ rsp.length ≠ 0 then return false
      else
        modifyVars fun v => { v with maxCmdSN := rsp.maxCmdSN }
        if rsp.status = 0 ∧ !q.complete then scsiFailed c
        else if rsp.length ≠ 0 ∧ (recvData p rsp.length.toNat).isNone then return false
        else
          setStatus c 0
          setBody c (.scsi { q with status := rsp.status })
          let _ ← iscsiDoneI c
          return true

/-- First loop of `scsi_read_data_i`: drop the buffers before `offset` and shorten the one that
contains it; `none` when the list ends first. -/
def seekRecv (offset : Nat) : Nat → Nat → List Iov → Option (List Iov)
  | _, _, [] => none
  | total, disp, v :: vs =>
    let total := u32 (total + v.len)
    if total > offset then
      some ({ v with
        len := (v.len + (18446744073709551616 - disp)) % 18446744073709551616
        off := v.off + disp } :: vs)
    else seekRecv offset total (minus32 disp v.len) vs

/-- Second loop: keep the buffers up to `length` and shorten the last. -/
def cutRecv (length : Nat) : Nat → List Iov → Option (List Iov)
  | _, [] => none
  | total, v :: vs =>
    let total := u32 (total + v.len)
    if total ≥ length then
      some [{ v with
        len := (v.len + (18446744073709551616 - minus32 total length)) % 18446744073709551616 }]
    else (cutRecv length total vs).map (v :: ·)

/-- The buffers of a read-data PDU: a part of the scatter list, or all of it. -/
def recvSg (q : ScsiCmd) (offset length : Nat) : Handler (List Iov) :=
  if length ≠ q.pdu.transLen then
    match (seekRecv offset 0 offset q.recv.sg).bind (cutRecv length 0) with
    | none => halt .fault
    | some sg => return sg
  else return q.recv.sg

/-- Receive the data of a read-data PDU into the scatter list: whether that worked. -/
def recvIntoList (q : ScsiCmd) (p : RxPdu) (offset length : Nat) : Handler Bool := do
  let sg ← recvSg q offset length
  if u32 (iovTotal sg) ≠ length then return false
  return (recvData p length).isSome

/-- Receive them into the plain buffer.  A short read only gets a warning. -/
def recvIntoBuffer (q : ScsiCmd) (p : RxPdu) (offset length : Nat) : Handler Bool := do
  match q.recv.plain with
  | none => if offset = 0 then return false else halt .fault
  | some v =>
    guarded (offset + length > v.len) (halt .fault)
    return length ≤ p.data.length || pad4 length - length ≤ p.data.length

/-- The part of `scsi_read_data_i` that receives the data. -/
def recvReadData (q : ScsiCmd) (p : RxPdu) (offset length : Nat) : Handler Bool :=
  if q.recv.sg ≠ [] then recvIntoList q p offset length
  else if length ≠ 0 then recvIntoBuffer q p offset length
  else return true

/-- `scsi_read_data_i`. -/
def scsiReadDataI (c : Nat) (p : RxPdu) : Handler Bool := do
  let (rc, data) := iscsiReadDataDecap p.header
  if rc ≠ 0 then scsiFailed c
  else
    let t ← getCmd c
    match t.body with
    | .scsi q =>
      let seg := (← getVars).sessParams.maxDataSegLength
      if seg ≠ 0 ∧ data.length.toNat > seg then scsiFailed c
      else
        modifyVars fun v => { v with maxCmdSN := data.maxCmdSN }
        if !(← recvReadData q p data.offset.toNat data.length.toNat) then return false
        let q := { q with bytesFromdev := u32 (q.bytesFromdev + data.length.toNat) }
        setBody c (.scsi q)
        if !data.sBit then return true
        if !data.final then return false
        modifyVars fun v => { v with expStatSN := v.expStatSN + 1 }
        setBody c (.scsi { q with status := 0 })
        setStatus c 0
        iscsiDoneI c
    | _ => scsiFailed c

/-- `scsi_r2t_rx_i`.  The guard compares the count before the increment. -/
def scsiR2tRxI (c : Nat) (p : RxPdu) : Handler Bool := do
  let t ← getCmd c
  modifyCmd c fun t => { t with r2tRequest := t.r2tRequest + 1 }
  if t.r2tRequest > 1 then return false
  let (rc, r) := iscsiR2tDecap p.header
  modifyCmd c fun t => { t with r2t := r }
  if rc ≠ 0 then return false
  let q ← getScsi c
  if u32 (r.offset.toNat + r.length.toNat) = q.pdu.transLen then
    if !(← hashDelete t.tag) then return false
  if !(← queueInsert c) then return false
  modify fun s => { s with accepted := s.accepted ++ [(c, r)] }
  return true

/-! ## Pings, rejects and asynchronous messages -/

/-- The comparison of the ping data: `none` when it runs over the end of those of the NOP-Out. -/
def samePing : Bytes → Bytes → Option Bool
  | _, [] => some true
  | [], _ :: _ => none
  | x :: xs, y :: ys => if x = y then samePing xs ys else some false

/-- The case of `nop_in_i` for a PDU that answers a NOP-Out. -/
def pingAnswered (c : Nat) (ping : Bytes) : Handler Bool := do
  let q ← getNopOut c
  match samePing q.data ping with
  | none => halt .fault
  | some false => return false
  | some true =>
    if ping.length ≠ q.pdu.length then return false
    modifyVars fun v => { v with expStatSN := v.expStatSN + 1 }
    setStatus c 0
    iscsiDoneI c

/-- The case for a PDU of the target's own. -/
def pinged (r : NopIn) : Handler Bool := do
  if r.tag ≠ 0xffffffff then return false
  if r.length ≠ 0 then return false
  guarded (r.transferTag ≠ 0xffffffff) <| modifyVars fun v => { v with
    nopOut :=
      { immediate := true, length := 0, lun := r.lun, tag := 0xffffffff
        transferTag := r.transferTag, cmdSN := r.expCmdSN, expStatSN := v.expStatSN }
    nopOutWaiting := true }
  return true

/-- `nop_in_i`. -/
def nopInI (c : Option Nat) (p : RxPdu) : Handler Bool := do
  let (rc, r) := iscsiNopInDecap p.header
  if rc ≠ 0 then return false
  match recvData p r.length.toNat with
  | none => return false
  | some ping =>
    match c with
    | some c => pingAnswered c ping
    | none => pinged r

/-- The tag that `reject_i` reads from the header that was rejected, when it gets that far. -/
def RxPdu.rejectedTag (p : RxPdu) : Option UInt32 :=
  let (rc, r) := iscsiRejectDecap p.header
  if rc = 0 ∧ r.length.toNat = iscsiHeaderLen ∧ iscsiHeaderLen ≤ p.data.length then
    some (be32 p.data 16)
  else none

/-- `reject_i`, with the command it has found.  It does not mind if there is none. -/
def rejectI (c : Option Nat) (p : RxPdu) : Handler Bool := do
  match p.rejectedTag with
  | none => return false
  | some _ =>
    match c with
    | none => halt .fault
    | some c =>
      setStatus c (-1)
      iscsiDoneI c

/-- `logout_phase_i` called from the Rx worker, which then waits for a response that it would have
to receive itself. -/
def logoutFromRx (c : Nat) (q : LogoutCmd) : Handler PUnit := do
  let v ← getVars
  modifyVars fun v => v.numbering (.logout q)
  if !(← getFlags).destroying then
    if ← queueInsert c then
      modifyCmd c fun _ => { freshCmd 0 (Body.numbered v (.logout q)) true with status := 0 }
      halt .hang

/-- `async_msg_i`. -/
def asyncMsgI (p : RxPdu) : Handler Bool := do
  let (rc, msg) := iscsiAmsgDecap p.header
  if rc ≠ 0 then return false
  modifyVars fun v => { v with
    cmdSN := msg.expCmdSN, maxCmdSN := msg.maxCmdSN, expStatSN := msg.statSN + 1 }
  if (recvData p msg.length.toNat).isNone then return false
  if msg.asyncEvent = 1 ∨ msg.asyncEvent = 4 then
    let b ← gets fun s => s.books
    logoutFromRx b.issued.length
      { immediate := false, reason := 0, tag := 0, cid := 0, cmdSN := 0, expStatSN := 0 }
    return false
  return !(msg.asyncEvent == 2 || msg.asyncEvent == 3)

/-! ## The worker -/

/-- Where the Rx worker goes next. -/
def setRx (p : RxPhase) : Handler PUnit := modify fun s => { s with rx := p }

/-- The macro `RX_FAILURE`. -/
def rxFailure : Handler PUnit := do
  setError
  setRx .exited

/-- The tag by which the command of a PDU is looked up. -/
def RxPdu.lookupTag (p : RxPdu) : Option UInt32 :=
  if iscsiOpcode p.header = opReject then
    p.rejectedTag.filter fun tag => tag ≠ 0xffffffff
  else if iscsiOpcode p.header = opAsync then none
  else some (iscsiItt p.header)

/-- Look up the command of a PDU. -/
def rxLookup (p : RxPdu) : Handler PUnit := do
  match p.lookupTag with
  | none => setRx (.handling none p)
  | some tag =>
    match ← hashLookup tag with
    | some c => setRx (.waiting c p)
    | none =>
      if iscsiOpcode p.header = opNopIn ∨ iscsiOpcode p.header = opReject then
        setRx (.handling none p)
      else rxFailure

/-- The handler of a PDU whose command has been found. -/
def handleFor (c : Nat) (p : RxPdu) : Handler Bool :=
  let op := iscsiOpcode p.header
  if op = opScsiRsp then scsiResponseI c p
  else if op = opReadData then scsiReadDataI c p
  else if op = opR2t then scsiR2tRxI c p
  else if op = opNopIn then nopInI (some c) p
  else if op = opLoginRsp then loginResponseI env cfg c p
  else if op = opTextRsp then textResponseI env cfg c p
  else if op = opLogoutRsp then logoutResponseI c p
  else if op = opReject then rejectI (some c) p
  else return false

/-- The handler of a PDU without a command. -/
def handleAlone (p : RxPdu) : Handler Bool :=
  let op := iscsiOpcode p.header
  if op = opNopIn then nopInI none p
  else if op = opReject then rejectI none p
  else if op = opAsync then asyncMsgI p
  else return false

/-- The switch of `rx_worker_proc_i`. -/
def rxHandle (c : Option Nat) (p : RxPdu) : Handler Bool :=
  match c with
  | some c => handleFor env cfg c p
  | none => handleAlone p

/-- One step of `rx_worker_proc_i`, with the PDU that arrives if the worker is waiting for one;
`none` is the end of the stream. -/
def rxWorkerProcI (inp : Option RxPdu) : Handler PUnit := do
  match (← get).rx with
  | .idle =>
    match inp with
    | none => rxFailure
    | some p => if (← get).tx = .exited then setRx .exited else rxLookup p
  | .waiting c p => guarded ((← getCmd c).txDone = true) (setRx (.handling (some c) p))
  | .handling c p => if ← rxHandle env cfg c p then setRx .idle else rxFailure
  | .exited => return

end Ost.Initiator
