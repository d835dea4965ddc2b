import Ost.Disk.Device

/-!
# The request handlers of a target

The functions of `target.c` that a session worker calls on a PDU: `scsi_command_t`,
`task_command_t`, `nop_out_t`, `text_command_t`, `login_command_t`, `logout_command_t`,
`verify_cmd_t` and `execute_t`.

A handler takes the 48 bytes of the header and returns what the C function returns.
-/

namespace Ost.Target

open Ost.Iscsi Ost.Util Ost.Param Ost.Prog Ost.Disk

variable (env : Env) (id : Nat)

/-! ## SCSI commands -/

/-- The label `error` of `scsi_command_t`. -/
def scsiError (c : Nat) : Handler Int := do
  modifyScsi c fun a => { a with status := 2, length := 0 }
  deviceCommandDone c

/-- The loop of `scsi_command_t` over the segments of the AHS: whether all types are known.
`mem` is the array `ahs` with what lies behind it. -/
def parseAhs (c : Nat) (mem : Bytes) (len : Nat) : Nat → Nat → Handler Bool
  | 0, _ => halt .hang
  | fuel + 1, pos => do
    if len ≤ pos + 1 then return true
    if byte mem (pos + 2) = 1 then
      modifyScsi c fun a => { a with extCdb := some (pos + 4) }
      parseAhs c mem len fuel (pos + be16 mem pos)
    else if byte mem (pos + 2) = 2 then
      modifyScsi c fun a => { a with bidiTransLen := (be32 mem (pos + 4)).toNat }
      parseAhs c mem len fuel (pos + be16 mem pos)
    else return false

/-- The part of `scsi_command_t` that reads the AHS: whether that worked.  An AHS that does
not fit its array is read all the same. -/
def readAhs (c : Nat) : Handler Bool := do
  let len := (← getCmd c).scsiCmd.ahsLen
  if len = 0 then return true
  let (rc, bs) ← sockRecv len
  guarded (bs.length > configIscsiMaxAhsLen) (halt .fault)
  modifyScsi c fun a => { a with ahs := bs }
  if rc ≠ len then return false
  parseAhs c (bs ++ List.replicate (configIscsiMaxAhsLen - bs.length) 0 ++ [UInt8.ofNat len])
    len (len + 1) 0

/-- The part of `scsi_command_t` that reads the immediate data: whether they are allowed. -/
def readImmediate (c : Nat) : Handler Bool := do
  let len := (← getCmd c).scsiCmd.length
  let p := (← getLogin).sessParams
  if len = 0 then return true
  if !p.immediateData then return false
  if p.maxDataSegLength ≠ 0 && len > p.maxDataSegLength then return false
  let (rc, bs) ← sockRecv len
  guarded (bs.length > configTargetMaxImmediate) (halt .fault)
  modifyCmd c fun t => { t with immediate := bs }
  guarded (rc ≠ len) (halt .exit)
  return true

/-- Add a command to the list of outstanding commands, unless its tag is there already. -/
def hashCommand (c : Nat) : Handler Bool := do
  let tag := (← getCmd c).scsiCmd.tag
  match ← getOutstanding tag with
  | some _ => return true
  | none => insertOutstanding tag c

/-- `scsi_command_t` once it has decoded the header and checked it. -/
def scsiQueue (c : Nat) : Handler Int := do
  modifySeq fun q => { q with expCmdSN := q.expCmdSN + 1, maxCmdSN := q.maxCmdSN + 1 }
  modifyCmd c fun t => { t with scsiCmd := { t.scsiCmd with fromdev := false }, callback := true }
  if !(← readImmediate c) then return -1
  if !(← hashCommand c) then return -1
  logDev (.queued id c)
  if (← deviceEnqueue id c) ≠ 0 then scsiError c
  else return 0

/-- Whether the data segment of a command is longer than the session allows. -/
def SessParams.tooLong (p : SessParams) (len : Nat) : Bool :=
  (p.firstBurstLength ≠ 0 && len > p.firstBurstLength) ||
    (p.maxDataSegLength ≠ 0 && len > p.maxDataSegLength)

/-- `scsi_command_t`.  `h` is the index of the header. -/
def scsiCommandT (h : Nat) (hdr : Bytes) : Handler Int := do
  match ← takeCmd with
  | none => return -1
  | some c =>
    let (rc, pdu) := iscsiScsiCmdDecap hdr
    let a := ScsiCmd.ofPdu pdu
    modifyCmd c fun _ => { TargetCmd.zero with header := h, scsiCmd := a }
    if rc ≠ 0 then scsiError c
    else do
      modifySeq fun q => { q with expCmdSN := a.cmdSN }
      if SessParams.tooLong (← getLogin).sessParams a.length then scsiError c
      else if !(← readAhs c) then scsiError c
      else scsiQueue id c

/-! ## Task management and pings -/

/-- The response to a task management function. -/
def taskResponse (function : UInt8) : UInt8 := if 1 ≤ function ∧ function ≤ 8 then 0 else 255

/-- `task_command_t`. -/
def taskCommandT (hdr : Bytes) : Handler Int := do
  let (rc, cmd) := iscsiTaskCmdDecap hdr
  if rc ≠ 0 then return -1
  modifySeq fun q =>
    { expCmdSN := cmd.cmdSN, maxCmdSN := q.maxCmdSN + 1, statSN := q.statSN + 1 }
  let q ← getSeq
  let rsp : TaskRsp :=
    { response := taskResponse cmd.function, length := 0, tag := cmd.tag, statSN := q.statSN
      expCmdSN := q.expCmdSN, maxCmdSN := q.maxCmdSN }
  if !(← sockSend (.taskRsp rsp) (some [])) then return -1
  return 0

/-- The check of the CmdSN in `nop_out_t`: it resets ExpCmdSN once in the life of the daemon. -/
def nopResync (cmdSN : UInt32) : Handler PUnit := modify fun s =>
  if cmdSN ≠ s.slot.seq.expCmdSN ∧ s.nopFlag = false then
    { s.setSeq { s.slot.seq with expCmdSN := cmdSN } with nopFlag := true }
  else s

/-- `nop_out_t`. -/
def nopOutT (hdr : Bytes) : Handler Int := do
  let (rc, cmd) := iscsiNopOutDecap hdr
  if rc ≠ 0 then return -1
  nopResync cmd.cmdSN
  let (rc, ping) ← sockRecv cmd.length
  if rc ≠ cmd.length then return -1
  if cmd.tag = 0xffffffff then return 0
  let q ← getSeq
  modifySeq fun q =>
    { expCmdSN := q.expCmdSN + 1, maxCmdSN := q.maxCmdSN + 1, statSN := q.statSN + 1 }
  let rsp : NopIn :=
    { length := UInt32.ofNat cmd.length, lun := cmd.lun, tag := cmd.tag
      transferTag := 0xffffffff, statSN := q.statSN, expCmdSN := q.expCmdSN + 1
      maxCmdSN := q.maxCmdSN + 1 }
  if !(← sendLocked (.nopIn rsp) (some ping)) then return -1
  return 0

/-! ## Text -/

/-- Run a text exchange on the parameters of the session: `param_text_parse`'s return value and
the response text. -/
def parseText (text textOut : Bytes) (outgoing : Bool) (u : Users) :
    Handler (Int × Bytes) := fun s =>
  let put (p : Parse) : Local := s.setLogin { s.slot.login with ps := p.toParamState }
  match paramTextParse env text outgoing u ⟨s.slot.login.ps, textOut⟩ with
  | .ret rc p => .ret (rc, p.textOut) (put p)
  | .halt e p => .halt e (put p)

/-- Parse the outgoing text, if there is any: whether that worked. -/
def parseOutgoing (textOut : Bytes) : Handler Bool := do
  if textOut = [] then return true
  let (rc, _) ← parseText env textOut textOut true textUsers
  return rc = 0

/-- The texts that answer `SendTargets`. -/
def sendTargetsAnswer (head : Params) (offer : CStr) (textOut : Bytes) : Option Bytes :=
  if offer = cstr "All" && paramEquiv head (cstr "SessionType") (cstr "Discovery") ≠ 0 then
    paramTextAdd (cstr "SendTargets") (cstr "Reject") textOut
  else
    (paramTextAdd (cstr "TargetName") env.hostname textOut).bind
      (paramTextAdd (cstr "TargetAddress") env.targetAddress)

/-- The exceptional case of `text_command_t`: answer an offer of `SendTargets`. -/
def sendTargets (textOut : Bytes) : Handler (Option Bytes) := do
  let head ← getParams
  match paramGet head (cstr "SendTargets") with
  | none => return none
  | some p =>
    if !p.rxOffer then return some textOut
    match sendTargetsAnswer env head p.offerRx.str textOut with
    | none => return none
    | some textOut =>
      modifyLogin fun l => { l with ps := { l.ps with
        params := paramModify l.ps.params (cstr "SendTargets")
          fun p => { p with rxOffer := false } } }
      return some textOut

/-- The part of `text_command_t` that answers a text. -/
def answerText (text : Bytes) : Handler (Option Bytes) := do
  let (rc, textOut) ← parseText env text [] false textUsers
  if rc ≠ 0 then return none
  match ← sendTargets env textOut with
  | none => return none
  | some textOut =>
    if !(← parseOutgoing env textOut) then return none
    return some textOut

/-- The part of `text_command_t` that reads and answers the text. -/
def readText (len : Nat) : Handler (Option Bytes) := do
  if len = 0 then return some []
  let (rc, text) ← sockRecv len
  if rc ≠ len then return none
  answerText env text

/-- `text_command_t`. -/
def textCommandT (hdr : Bytes) : Handler Int := do
  let (rc, cmd) := iscsiTextCmdDecap hdr
  if rc ≠ 0 then return -1
  if cmd.cont then return -1
  if cmd.cmdSN ≠ (← getSeq).expCmdSN then return -1
  modifySeq fun q => { q with expCmdSN := q.expCmdSN + 1, maxCmdSN := q.maxCmdSN + 1 }
  match ← readText env cmd.length with
  | none => return -1
  | some textOut =>
    modifyLogin fun l =>
      if l.isFullFeature then { l with sessParams := setSessionParameters l.ps.params } else l
    let q ← getSeq
    modifySeq fun q => { q with statSN := q.statSN + 1 }
    let rsp : TextRsp :=
      { final := cmd.final, cont := false, length := UInt32.ofNat textOut.length, lun := cmd.lun
        tag := cmd.tag, transferTag := if cmd.final then 0xffffffff else 0x1234
        statSN := q.statSN, expCmdSN := q.expCmdSN, maxCmdSN := q.maxCmdSN }
    if !(← sockSend (.textRsp rsp) (some textOut)) then return -1
    return 0

/-! ## Login -/

/-- How the text of a login request is dealt with. -/
inductive LoginText where
  | /-- `login_command_t` returns -1 without a response. -/
    fail
  | /-- The parse fails, and the response has this detail. -/
    respond (detail : UInt8)
  | /-- The response text. -/
    text (textOut : Bytes)

/-- The first login response names the portal group. -/
def addPortalGroup (textOut : Bytes) : Handler (Option Bytes) := gets fun s =>
  if s.slot.login.loginStarted then some textOut
  else paramTextAdd (cstr "TargetPortalGroupTag") (cstr "1") textOut

/-- The part of `login_command_t` that answers a text. -/
def answerLoginText (text : Bytes) : Handler LoginText := do
  let (status, textOut) ← parseText env text [] false loginUsers
  if status ≠ 0 then return .respond (if status = -2 then 1 else 0)
  match ← addPortalGroup textOut with
  | none => return .fail
  | some textOut =>
    if !(← parseOutgoing env textOut) then return .fail
    return .text textOut

/-- The part of `login_command_t` that reads and answers the text.  A length from 2 GiB on is a
negative `int`: the allocation fails, but for -1, where it is one of zero bytes. -/
def readLoginText (len : Nat) : Handler LoginText := do
  if len = 0 then return .text []
  guarded (len = 4294967295) (halt .fault)
  if len ≥ 2147483648 then return .fail
  let (rc, text) ← sockRecv len
  if rc ≠ len then return .fail
  answerLoginText env text

/-- A response that grants the full feature phase. -/
def LoginRsp.granted (r : LoginRsp) : Bool := r.statusClass = 0 && r.transit && r.nsg = 3

/-- A request that asks for the full feature phase. -/
def LoginCmd.asks (cmd : LoginCmd) : Bool := cmd.transit && cmd.nsg = 3

/-- The label `response` of `login_command_t`.  `rsp` has the status, the stages and the versions;
`text` is what is sent with it. -/
def loginResponse (cmd : LoginCmd) (rsp : LoginRsp) (text : Bytes) : Handler Int := do
  modifySeq fun q =>
    { expCmdSN := cmd.cmdSN, maxCmdSN := cmd.cmdSN
      statSN := if LoginRsp.granted rsp then q.statSN + 1 else q.statSN }
  let q ← getSeq
  let l ← getLogin
  let rsp : LoginRsp :=
    { rsp with
      isid := cmd.isid, tag := cmd.tag, cont := cmd.cont, expCmdSN := q.expCmdSN
      maxCmdSN := q.maxCmdSN, length := UInt32.ofNat text.length
      statSN := if LoginRsp.granted rsp then q.statSN else cmd.expStatSN
      tsih := if LoginRsp.granted rsp then l.tsih else rsp.tsih }
  if !(← sendLocked (.loginRsp rsp) (some text)) then return -1
  if rsp.statusClass ≠ 0 then return -1
  modifySeq fun q => { q with statSN := if LoginCmd.asks cmd then q.statSN + 1 else q.statSN }
  return 0

/-- The post conditions of the login phase. -/
def loginComplete (head : Params) : Bool :=
  paramEquiv head (cstr "InitiatorName") [] ≠ 0 &&
    (paramEquiv head (cstr "SessionType") (cstr "Normal") ≠ 0 ||
      (paramEquiv head (cstr "TargetName") [] ≠ 0 &&
        paramEquiv head (cstr "TargetName") env.hostname = 0)) &&
    paramEquiv head (cstr "SessionType") [] ≠ 0

/-- The login state once a session is in the full feature phase. -/
def enterFullFeature (cmd : LoginCmd) (l : Login) : Login :=
  let params := if paramEquiv l.ps.params (cstr "SessionType") (cstr "Discovery") = 0 then
      paramModify l.ps.params (cstr "MaxConnections") fun p =>
        { p with valueL := p.valueL.set 0 (cstr "1") }
    else l.ps.params
  { l with
    isFullFeature := true, isLoggedIn := true, cid := cmd.cid, isid := cmd.isid, tsih := id + 1
    ps := { l.ps with params }, sessParams := setSessionParameters params
    entered := l.entered + 1 }

/-- The result of the authentication, as a request in the security stage sees it. -/
def authResultIs (cmd : LoginCmd) (head : Params) (v : String) : Bool :=
  cmd.csg = 0 && paramEquiv head (cstr "AuthResult") (cstr v) = 0

/-- The part of `login_command_t` behind the text: stages, authentication, full feature phase. -/
def loginAdvance (cmd : LoginCmd) (textOut : Bytes) : Handler Int := do
  modifyLogin fun l => { l with loginStarted := true }
  let head ← getParams
  let rsp : LoginRsp :=
    { LoginRsp.zero with
      statusClass := 2, csg := cmd.csg, nsg := cmd.nsg
      transit := cmd.transit && !authResultIs cmd head "No" }
  if authResultIs cmd head "Fail" then
    loginResponse cmd { rsp with statusClass := 1, statusDetail := 1 } []
  else do
    guarded (authResultIs cmd head "Yes") (modifyLogin fun l => { l with authenticated := true })
    if LoginCmd.asks cmd then
      if !loginComplete env head then loginResponse cmd rsp []
      else do
        modifyLogin (enterFullFeature id cmd)
        loginResponse cmd { rsp with statusClass := 0 } textOut
    else loginResponse cmd { rsp with statusClass := 0 } textOut

/-- The version test of `login_command_t`, on signed characters. -/
def LoginCmd.badVersion (cmd : LoginCmd) : Bool :=
  cmd.versionMax ≥ 0x80 || (0 < cmd.versionMin && cmd.versionMin < 0x80)

/-- `login_command_t`. -/
def loginCommandT (hdr : Bytes) : Handler Int := do
  let (rc, cmd) := iscsiLoginCmdDecap hdr
  let rsp : LoginRsp := { LoginRsp.zero with statusClass := 2 }
  if rc ≠ 0 then loginResponse cmd rsp []
  else if cmd.cont && cmd.transit then loginResponse cmd rsp []
  else if LoginCmd.badVersion cmd then loginResponse cmd { rsp with statusDetail := 5 } []
  else if cmd.tsih ≠ 0 then loginResponse cmd rsp []
  else
    match ← readLoginText env cmd.length with
    | .fail => return -1
    | .respond detail => loginResponse cmd { rsp with statusDetail := detail } []
    | .text textOut => loginAdvance env id cmd textOut

/-! ## Logout -/

/-- `logout_command_t`. -/
def logoutCommandT (hdr : Bytes) : Handler Int := do
  let (rc, cmd) := iscsiLogoutCmdDecap hdr
  if rc ≠ 0 then return -1
  let head ← getParams
  modifySeq fun q => { q with statSN := cmd.expStatSN, expCmdSN := q.expCmdSN + 1 }
  let q ← getSeq
  let rsp : LogoutRsp :=
    { response := if cmd.reason = 2 &&
          paramEquiv head (cstr "ErrorRecoveryLevel") (cstr "0") = 0 then 2 else 0
      length := 0, tag := cmd.tag, statSN := q.statSN, expCmdSN := q.expCmdSN
      maxCmdSN := q.maxCmdSN, time2Wait := 0, time2Retain := 0 }
  if !(← sockSend (.logoutRsp rsp) (some [])) then return -1
  modifyLogin fun l => { l with isLoggedIn := false }
  return 0

/-! ## Write data -/

/-- The R2T that `execute_t` sends at the end of the first burst. -/
def sendBurstR2t (c : Nat) : Handler Int := do
  let cmd ← getCmd c
  let a := cmd.scsiCmd
  let p := (← getLogin).sessParams
  if !cmd.r2tFlag && !p.initialR2t && p.firstBurstLength ≠ 0 &&
      a.bytesTodev ≥ p.firstBurstLength then do
    let q ← getSeq
    let r2t : R2t :=
      { ahsLength := 0, lun := 0, tag := a.tag, transferTag := 0x1234, statSN := q.statSN
        expCmdSN := q.expCmdSN, maxCmdSN := q.maxCmdSN, r2tSN := 0
        offset := UInt32.ofNat a.bytesTodev
        length := UInt32.ofNat (sub32 a.transLen a.bytesTodev) }
    if !(← sendLeaky (.r2t r2t) (some [])) then return -1
    modifyCmd c fun t => { t with r2tFlag := true }
    return 0
  else return 0

/-- The placement of the data of a `WRITE_DATA` PDU in `execute_t`, and what follows it. -/
def placeWriteData (c : Nat) (data : WriteData) : Handler Int := do
  guarded ((← devicePlaceData id c data.offset data.length) ≠ data.length) (halt .exit)
  modifyScsi c fun a => { a with bytesTodev := w32 (a.bytesTodev + data.length) }
  let a := (← getCmd c).scsiCmd
  if sub32 a.transLen a.bytesTodev = 0 then
    if (← placeDone (deviceEnqueue id) c) ≠ 0 then return -1
    return 0
  else sendBurstR2t c

/-- A `WRITE_DATA` PDU that is not the last one is only rejected for a tag that is not the tag of
its command: whether there was nothing to reject, or the reject was sent. -/
def rejectTag (hdr : Bytes) (bad : Bool) : Handler Bool := do
  if !bad then return true
  return (← rejectT hdr 0x09) = 0

/-- Fail a command whose `WRITE_DATA` PDU is out of bounds. -/
def refuseData (c : Nat) : Handler Int := do
  modifyScsi c fun a => { a with status := 2 }
  return -1

/-- The case `ISCSI_WRITE_DATA` of `execute_t` once the command is ready. -/
def writeDataReady (hdr : Bytes) (c : Nat) : Handler Int := do
  let data := (iscsiWriteDataDecap hdr).2
  let a := (← getCmd c).scsiCmd
  let mdsl := (← getLogin).sessParams.maxDataSegLength
  if mdsl ≠ 0 && data.length > mdsl then refuseData c
  else if w32 (a.bytesTodev + data.length) > a.transLen then refuseData c
  else if data.tag ≠ a.tag && data.final then refuseData c
  else do
    if !(← rejectTag hdr (data.tag ≠ a.tag)) then return 1
    if sub32 a.transLen (a.bytesTodev + data.length) = 0 && !data.final then return -1
    placeWriteData id c data

/-- The case `ISCSI_WRITE_DATA` of `execute_t`; `none` is to wait until the command is ready. -/
def writeDataT (h : Nat) (hdr : Bytes) : Handler (Option Int) := do
  let (rc, data) := iscsiWriteDataDecap hdr
  if rc ≠ 0 then return some (-1)
  match ← getOutstanding data.tag with
  | none => halt .exit
  | some c =>
    if !(← getCmd c).ready then
      modify fun s => s.setWaiting (some (h, hdr, c))
      return none
    some <$> writeDataReady id hdr c

/-! ## Dispatch -/

/-- `verify_cmd_t`. -/
def verifyCmdT (hdr : Bytes) : Handler Int := do
  let op := iscsiOpcode hdr
  let l ← getLogin
  if !l.loginStarted && op ≠ opLoginCmd then return -1
  if !l.isFullFeature && op ≠ opLoginCmd && op ≠ opLogoutCmd then
    let rsp : LoginRsp := { LoginRsp.zero with statusClass := 2, statusDetail := 0x0b }
    let _ ← sendLocked (.loginRsp rsp) (some [])
    return -1
  return 0

/-- `execute_t`: whether the header was queued, or -1; `none` is to wait. -/
def executeT (h : Nat) (hdr : Bytes) : Handler (Option Int) := do
  if (← verifyCmdT hdr) ≠ 0 then return some (-1)
  let op := iscsiOpcode hdr
  let sync (x : Handler Int) : Handler (Option Int) := do
    return some (if (← x) ≠ 0 then -1 else 0)
  if op = opTaskCmd then sync (taskCommandT hdr)
  else if op = opNopOut then sync (nopOutT hdr)
  else if op = opLoginCmd then sync (loginCommandT env id hdr)
  else if op = opTextCmd then sync (textCommandT env hdr)
  else if op = opLogoutCmd then sync (logoutCommandT hdr)
  else if op = opScsiCmd then
    return some (if (← scsiCommandT id h hdr) ≠ 0 then -1 else 1)
  else if op = opWriteData then writeDataT id h hdr
  else sync (rejectT hdr 0x04)

end Ost.Target
