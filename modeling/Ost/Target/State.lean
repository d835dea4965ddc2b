import Ost.Param.Session
import Ost.Iscsi.Pdu
import Ost.Util.Queue
import Ost.Util.Hash

/-!
# The state of the target

A session slot (`TARGET_SESSION_T` with the free queues and command structures of its
index), the disk behind it, and the primitive programs on the pair of them.

The slot is split along the lines on which the handlers work: the connection, the
sequence numbers, the login state, and the pool of headers and commands.  A handler is
a program over `Local`: one slot, the device and the one static variable that outlives
a call.

## Reading and writing a connection

`Conn.rx` holds everything the initiator will still send before it closes the
connection, and `Conn.tx` how the coming transmissions will go.  A PDU is logged in
`Conn.sent` when it is handed to the socket, with a flag that says how that went.
-/

namespace Ost.Target

open Ost.Iscsi Ost.Util Ost.Param Ost.Prog

/-! ## Constants -/

/-- `CONFIG_TARGET_MAX_SESSIONS`. -/
def configTargetMaxSessions : Nat := 9

/-- `CONFIG_TARGET_MAX_QUEUE`. -/
def configTargetMaxQueue : Nat := 65

/-- `CONFIG_TARGET_MAX_IMMEDIATE`. -/
def configTargetMaxImmediate : Nat := 65536

/-- `CONFIG_LUN_QUEUE_DEPTH`. -/
def configLunQueueDepth : Nat := 256

/-- `CONFIG_DISK_MAX_BURST`. -/
def configDiskMaxBurst : Nat := 1048576

/-- `CONFIG_MAX_FILENAME`. -/
def configMaxFilename : Nat := 1024

/-- The credentials of `login_command_t`: `CONFIG_TARGET_USER_IN` and its companions. -/
def loginUsers : Users :=
  { initiatorUser := some (cstr "foo"), initiatorPass := cstr "bar", targetUser := cstr "foo"
    targetPass := cstr "bar" }

/-- The credentials of `text_command_t`, and of the outgoing pass of `login_command_t`. -/
def textUsers : Users := { loginUsers with initiatorUser := none }

/-- Reduce to 32 bits, as arithmetic on `unsigned` does. -/
def w32 (x : Nat) : Nat := x % 4294967296

/-- Subtraction on `unsigned`. -/
def sub32 (x y : Nat) : Nat := (x + (4294967296 - y % 4294967296)) % 4294967296

/-! ## Commands -/

/-- `ISCSI_SCSI_CMD_T`.  `sendData` says whether the pointer `send_data` is set. -/
structure ScsiCmd where
  immediate : Bool
  final : Bool
  fromdev : Bool
  bytesFromdev : Nat
  todev : Bool
  bytesTodev : Nat
  attr : UInt8
  length : Nat
  lun : Nat
  tag : UInt32
  transLen : Nat
  bidiTransLen : Nat
  cmdSN : UInt32
  expStatSN : UInt32
  cdb : Bytes
  extCdb : Option Nat
  ahs : Bytes
  ahsLen : Nat
  sendData : Bool
  sendSgLen : Nat
  status : UInt8
  lba : Nat
  len : Nat
deriving DecidableEq, Repr

/-- The structure after `memset`. -/
def ScsiCmd.zero : ScsiCmd :=
  { immediate := false, final := false, fromdev := false, bytesFromdev := 0, todev := false,
    bytesTodev := 0, attr := 0, length := 0, lun := 0, tag := 0, transLen := 0,
    bidiTransLen := 0, cmdSN := 0, expStatSN := 0, cdb := [], extCdb := none, ahs := [],
    ahsLen := 0, sendData := false, sendSgLen := 0, status := 0, lba := 0, len := 0 }

/-- What `iscsi_scsi_cmd_decap` and the assignment after it make of a zeroed structure. -/
def ScsiCmd.ofPdu (p : ScsiCmdPdu) : ScsiCmd :=
  { ScsiCmd.zero with
    immediate := p.immediate, final := p.final, fromdev := p.fromdev, todev := p.todev
    attr := p.attr, ahsLen := p.ahsLen, length := p.length, lun := p.lun.toNat, tag := p.tag
    transLen := p.transLen, cmdSN := p.cmdSN, expStatSN := p.expStatSN, cdb := p.cdb }

/-- `TARGET_CMD_T`.  A buffer list carries the memory type of each entry; the length of the
C array is the length of the list.  `got` is ghost: the data received for a write with their
offsets, the immediate data first. -/
structure TargetCmd where
  scsiCmd : ScsiCmd
  callback : Bool
  scatterList : List Iov
  scatterType : MemType
  gatherList : List Iov
  gatherType : MemType
  header : Nat
  r2tFlag : Bool
  immediate : Bytes
  ready : Bool
  done : Bool
  isWrite : Bool
  got : List (Nat × Bytes)
deriving DecidableEq, Repr

/-- The structure after `memset`. -/
def TargetCmd.zero : TargetCmd :=
  { scsiCmd := ScsiCmd.zero, callback := false, scatterList := [], scatterType := .unset,
    gatherList := [], gatherType := .unset, header := 0, r2tFlag := false, immediate := [],
    ready := false, done := false, isWrite := false, got := [] }

/-! ## A session slot -/

/-- A PDU handed to the socket. -/
structure Sent where
  pdu : TargetPdu
  data : Bytes
  ok : Bool
deriving DecidableEq, Repr

/-- A connection. -/
structure Conn where
  /-- Ghost: all that the initiator sends on this connection. -/
  input : Bytes
  /-- What has not been read yet. -/
  rx : Bytes
  /-- How the next transmissions go; those after the end of the list succeed. -/
  tx : List Bool
  isOpen : Bool
  /-- `sess->slock`. -/
  slock : Bool
  /-- Ghost: what was handed to the socket, oldest first. -/
  sent : List Sent

/-- The sequence numbers of a session. -/
structure SeqNums where
  expCmdSN : UInt32
  maxCmdSN : UInt32
  statSN : UInt32
deriving DecidableEq, Repr

/-- The login state of a session. -/
structure Login where
  loginStarted : Bool
  isFullFeature : Bool
  isLoggedIn : Bool
  authenticated : Bool
  cid : Nat
  isid : Nat
  tsih : Nat
  ps : ParamState
  sessParams : SessParams
  /-- Ghost: how often `IsFullFeature` was set to 1. -/
  entered : Nat

/-- The header buffers and command structures of a slot, named by their indices. -/
structure Pool where
  /-- `g_header_q[id]`. -/
  headerQ : Fifo Nat
  /-- `g_cmd_q[id]`. -/
  cmdQ : Fifo Nat
  /-- `sess->cmds`. -/
  cmds : TagHash Nat
  /-- `g_cmd[id]`. -/
  cmdMem : Nat → TargetCmd

/-- Where the worker thread of a slot stands. -/
inductive Phase where
  | /-- The slot is in `g_session_q`. -/
    free
  | /-- The worker is in its loop. -/
    running
  | /-- The worker has left its loop and not yet cleaned up. -/
    closing
  | /-- The worker has returned without giving the slot back. -/
    dead
deriving DecidableEq, Repr

/-- A session slot. -/
structure Slot where
  phase : Phase
  conn : Conn
  seq : SeqNums
  login : Login
  pool : Pool
  /-- A `WRITE_DATA` PDU that waits for its command to be ready: the index and the bytes of
  its header, and the command. -/
  waiting : Option (Nat × Bytes × Nat)

/-! ## The device -/

/-- `g_type`. -/
inductive DiskType where
  | ram | sg | sd | fs | raw | ctrl
deriving DecidableEq, Repr

/-- The configuration of the disk that `device_init` has accepted. -/
structure DiskConfig where
  type : DiskType
  /-- `g_disk_num_blocks`. -/
  numBlocks : Nat
  /-- `g_disk_block_len`. -/
  blockLen : Nat
  /-- `g_disk_num_luns`. -/
  numLuns : Nat
  /-- `g_direct`. -/
  direct : Bool
  blockLen_mem : blockLen = 512 ∨ blockLen = 1024 ∨ blockLen = 2048 ∨ blockLen = 4096
  numLuns_le : numLuns ≤ 1
  size_lt : numBlocks * blockLen < 18446744073709551616

/-- Blocks of 512 bytes are allowed. -/
theorem blockLen_mem_512 : 512 = 512 ∨ 512 = 1024 ∨ 512 = 2048 ∨ 512 = 4096 := .inl rfl

/-- One LUN is allowed. -/
theorem numLuns_le_1 : 1 ≤ 1 := Nat.le_refl 1

/-- What happens to the commands of the device. -/
inductive DevEvent where
  | /-- A session handed a command to the device. -/
    queued (slot cmd : Nat)
  | /-- The device called the completion callback of a command, which was `t` then. -/
    callback (slot cmd : Nat) (t : TargetCmd)
deriving DecidableEq, Repr

/-- The disk. -/
structure Device where
  cfg : DiskConfig
  mem : Memory
  /-- `g_staging_queue[0]`. -/
  stagingQ : Fifo Nat
  /-- `g_cmd_queue[0]`: commands named by their slot and their index. -/
  cmdQueue : Fifo (Nat × Nat)
  /-- `g_tracing`. -/
  tracing : Bool
  /-- `g_crash`. -/
  crash : Int
  /-- How the next accesses to the medium or to the trace file go. -/
  io : List Bool
  /-- Ghost: what happened to the commands, oldest first. -/
  log : List DevEvent

/-- What a handler works on. -/
structure Local where
  slot : Slot
  dev : Device
  /-- The static variable `flag` of `nop_out_t`. -/
  nopFlag : Bool

/-- A handler. -/
abbrev Handler (α : Type) := Prog Halt Local α

/-! ## Primitive handlers -/

namespace Local

variable (s : Local)

/-- Replace the connection. -/
def setConn (c : Conn) : Local := { s with slot := { s.slot with conn := c } }

/-- Replace the sequence numbers. -/
def setSeq (q : SeqNums) : Local := { s with slot := { s.slot with seq := q } }

/-- Replace the login state. -/
def setLogin (l : Login) : Local := { s with slot := { s.slot with login := l } }

/-- Replace the pool. -/
def setPool (p : Pool) : Local := { s with slot := { s.slot with pool := p } }

/-- Replace the PDU that waits. -/
def setWaiting (w : Option (Nat × Bytes × Nat)) : Local :=
  { s with slot := { s.slot with waiting := w } }

/-- Replace the device. -/
def setDev (d : Device) : Local := { s with dev := d }

end Local

/-- Work on the connection. -/
def onConn {α : Type} (f : Conn → α × Conn) : Handler α := fun s =>
  .ret (f s.slot.conn).1 (s.setConn (f s.slot.conn).2)

/-- Work on the sequence numbers. -/
def onSeq {α : Type} (f : SeqNums → α × SeqNums) : Handler α := fun s =>
  .ret (f s.slot.seq).1 (s.setSeq (f s.slot.seq).2)

/-- Work on the login state. -/
def onLogin {α : Type} (f : Login → α × Login) : Handler α := fun s =>
  .ret (f s.slot.login).1 (s.setLogin (f s.slot.login).2)

/-- Work on the pool. -/
def onPool {α : Type} (f : Pool → α × Pool) : Handler α := fun s =>
  .ret (f s.slot.pool).1 (s.setPool (f s.slot.pool).2)

/-- Work on the device. -/
def onDev {α : Type} (f : Device → α × Device) : Handler α := fun s =>
  .ret (f s.dev).1 (s.setDev (f s.dev).2)

/-- Read the sequence numbers. -/
def getSeq : Handler SeqNums := gets fun s => s.slot.seq

/-- Read the login state. -/
def getLogin : Handler Login := gets fun s => s.slot.login

/-- Read the session parameters. -/
def getParams : Handler Params := gets fun s => s.slot.login.ps.params

/-- Read the device. -/
def getDev : Handler Device := gets fun s => s.dev

/-- Read a command structure. -/
def getCmd (c : Nat) : Handler TargetCmd := gets fun s => s.slot.pool.cmdMem c

/-- Change the sequence numbers. -/
def modifySeq (f : SeqNums → SeqNums) : Handler PUnit := onSeq fun q => (⟨⟩, f q)

/-- Change the login state. -/
def modifyLogin (f : Login → Login) : Handler PUnit := onLogin fun l => (⟨⟩, f l)

/-- Change the device. -/
def modifyDev (f : Device → Device) : Handler PUnit := onDev fun d => (⟨⟩, f d)

/-- Change a command structure. -/
def modifyCmd (c : Nat) (f : TargetCmd → TargetCmd) : Handler PUnit :=
  onPool fun p => (⟨⟩, { p with cmdMem := Function.update p.cmdMem c (f (p.cmdMem c)) })

/-- Change the SCSI part of a command structure. -/
def modifyScsi (c : Nat) (f : ScsiCmd → ScsiCmd) : Handler PUnit :=
  modifyCmd c fun t => { t with scsiCmd := f t.scsiCmd }

/-- Append to the log of the device. -/
def logDev (e : DevEvent) : Handler PUnit := modifyDev fun d => { d with log := d.log ++ [e] }

/-- How the next access to the medium or to the trace file goes. -/
def nextIo : Handler Bool := onDev fun d => (d.io.headD true, { d with io := d.io.tail })

/-! ### The connection -/

/-- `iscsi_sock_msg` for receiving `len` bytes: its return value and the bytes received.
It reads the padding too.  If the stream ends first, it has read what was left. -/
def Conn.recv (len : Nat) (c : Conn) : (Int × Bytes) × Conn :=
  if pad4 len ≤ c.rx.length then
    ((len, c.rx.take len), { c with rx := c.rx.drop (pad4 len) })
  else (((c.rx.length : Int) - (pad4 len - len : Nat), c.rx.take len), { c with rx := [] })

/-- Whether the next transmission succeeds. -/
def Conn.sendMsg (c : Conn) : Bool × Conn :=
  (c.isOpen && c.tx.headD true, { c with tx := c.tx.tail })

/-- `iscsi_sock_send_header_and_data`.  `none` is a list of buffers that does not have the
announced length: the header goes out, and the data do not. -/
def Conn.send (pdu : TargetPdu) (data : Option Bytes) (c : Conn) : Bool × Conn :=
  let (ok, c) := c.sendMsg
  if !ok then (false, { c with sent := c.sent ++ [⟨pdu, [], false⟩] })
  else
    match data with
    | none => (false, { c with sent := c.sent ++ [⟨pdu, [], false⟩] })
    | some [] => (true, { c with sent := c.sent ++ [⟨pdu, [], true⟩] })
    | some bs =>
      let (ok, c) := c.sendMsg
      (ok, { c with sent := c.sent ++ [⟨pdu, bs, ok⟩] })

/-- Receive. -/
def sockRecv (len : Nat) : Handler (Int × Bytes) := onConn (Conn.recv len)

/-- Send. -/
def sockSend (pdu : TargetPdu) (data : Option Bytes) : Handler Bool := onConn (Conn.send pdu data)

/-- `ISCSI_SPIN_LOCK_ELSE(&sess->slock, ...)`. -/
def lockSession : Handler PUnit := do
  if (← get).slot.conn.slock then halt .hang
  else onConn fun c => (⟨⟩, { c with slock := true })

/-- `ISCSI_SPIN_UNLOCK_ELSE(&sess->slock, ...)`. -/
def unlockSession : Handler PUnit := onConn fun c => (⟨⟩, { c with slock := false })

/-- Send with the session lock held, and release it whatever comes out. -/
def sendLocked (pdu : TargetPdu) (data : Option Bytes) : Handler Bool := do
  lockSession
  let ok ← sockSend pdu data
  unlockSession
  return ok

/-- Send with the session lock held, and keep it when the transmission fails. -/
def sendLeaky (pdu : TargetPdu) (data : Option Bytes) : Handler Bool := do
  lockSession
  let ok ← sockSend pdu data
  guarded (ok = true) unlockSession
  return ok

/-- Every coming transmission succeeds. -/
def Conn.Reliable (c : Conn) : Prop := c.isOpen = true ∧ ∀ b ∈ c.tx, b = true

/-- Sending uses up outcomes and logs the PDU.  It fails only for want of data of the announced
length, or because a transmission fails. -/
theorem Conn.send_spec (pdu : TargetPdu) (data : Option Bytes) (c : Conn) :
    ∃ d n, (c.send pdu data).2 =
        { c with tx := c.tx.drop n, sent := c.sent ++ [⟨pdu, d, (c.send pdu data).1⟩] } ∧
      ((c.send pdu data).1 = true → data = some d) ∧
      ((c.send pdu data).1 = false → data = none ∨ ¬c.Reliable) := by
  have hfail {l : List Bool} (h : (c.isOpen && l.headD true) = false) (hl : ∀ b ∈ l, b ∈ c.tx) :
      ¬c.Reliable := by
    rintro ⟨hopen, htx⟩
    rw [hopen, Bool.true_and] at h
    cases l with
    | nil => exact nomatch h
    | cons b l => exact absurd (htx b (hl b List.mem_cons_self)) (by simpa using h)
  unfold Conn.send Conn.sendMsg
  rcases hok : c.isOpen && c.tx.headD true with _ | _
  · exact ⟨[], 1, by simp, by simp, fun _ => .inr (hfail hok fun _ h => h)⟩
  · rcases data with _ | (_ | ⟨b, bs⟩)
    · exact ⟨[], 1, by simp, by simp, by simp⟩
    · exact ⟨[], 1, by simp, by simp, by simp⟩
    · refine ⟨b :: bs, 2, ?_, ?_, ?_⟩
      · simp [← List.drop_one]
      · simp
      · exact fun h => .inr (hfail h fun _ => List.mem_of_mem_tail)

/-! ### The pool -/

/-- Take a header buffer from `g_header_q`. -/
def takeHeader : Handler (Option Nat) := onPool fun p =>
  match p.headerQ.remove with
  | none => (none, p)
  | some (i, q) => (some i, { p with headerQ := q })

/-- Give a header buffer back to `g_header_q`: whether it fitted. -/
def putHeader (i : Nat) : Handler Bool := onPool fun p =>
  match p.headerQ.insert i with
  | none => (false, p)
  | some q => (true, { p with headerQ := q })

/-- Take a command structure from `g_cmd_q`. -/
def takeCmd : Handler (Option Nat) := onPool fun p =>
  match p.cmdQ.remove with
  | none => (none, p)
  | some (i, q) => (some i, { p with cmdQ := q })

/-- Give a command structure back to `g_cmd_q`: whether it fitted. -/
def putCmd (i : Nat) : Handler Bool := onPool fun p =>
  match p.cmdQ.insert i with
  | none => (false, p)
  | some q => (true, { p with cmdQ := q })

/-- `hash_get` on `sess->cmds`; the modulus is zero once the hash is destroyed. -/
def getOutstanding (tag : UInt32) : Handler (Option Nat) := do
  let p ← gets fun s => s.slot.pool
  if p.cmds.n = 0 then halt .fault
  else return p.cmds.get tag

/-- `hash_insert` on `sess->cmds`. -/
def insertOutstanding (tag : UInt32) (c : Nat) : Handler Bool := onPool fun p =>
  match p.cmds.insert tag c with
  | none => (false, p)
  | some h => (true, { p with cmds := h })

/-- `hash_remove` on `sess->cmds`: whether the tag was there. -/
def removeOutstanding (tag : UInt32) : Handler Bool := do
  let p ← gets fun s => s.slot.pool
  if p.cmds.n = 0 then halt .fault
  else onPool fun p =>
    match p.cmds.remove tag with
    | none => (false, p)
    | some (_, h) => (true, { p with cmds := h })

/-! ### Rules -/

section Rules

variable {α : Type} {Q : α → Local → Prop} {E : Halt → Local → Prop} {s : Local}

@[simp] theorem wp_onConn (f : Conn → α × Conn) :
    wp (onConn f) Q E s ↔ Q (f s.slot.conn).1 (s.setConn (f s.slot.conn).2) := Iff.rfl

@[simp] theorem wp_onSeq (f : SeqNums → α × SeqNums) :
    wp (onSeq f) Q E s ↔ Q (f s.slot.seq).1 (s.setSeq (f s.slot.seq).2) := Iff.rfl

@[simp] theorem wp_onLogin (f : Login → α × Login) :
    wp (onLogin f) Q E s ↔ Q (f s.slot.login).1 (s.setLogin (f s.slot.login).2) := Iff.rfl

@[simp] theorem wp_onPool (f : Pool → α × Pool) :
    wp (onPool f) Q E s ↔ Q (f s.slot.pool).1 (s.setPool (f s.slot.pool).2) := Iff.rfl

@[simp] theorem wp_onDev (f : Device → α × Device) :
    wp (onDev f) Q E s ↔ Q (f s.dev).1 (s.setDev (f s.dev).2) := Iff.rfl

@[simp] theorem wp_getSeq {Q : SeqNums → Local → Prop} :
    wp getSeq Q E s ↔ Q s.slot.seq s := Iff.rfl

@[simp] theorem wp_getLogin {Q : Login → Local → Prop} :
    wp getLogin Q E s ↔ Q s.slot.login s := Iff.rfl

@[simp] theorem wp_getParams {Q : Params → Local → Prop} :
    wp getParams Q E s ↔ Q s.slot.login.ps.params s := Iff.rfl

@[simp] theorem wp_getDev {Q : Device → Local → Prop} : wp getDev Q E s ↔ Q s.dev s := Iff.rfl

@[simp] theorem wp_getCmd (c : Nat) {Q : TargetCmd → Local → Prop} :
    wp (getCmd c) Q E s ↔ Q (s.slot.pool.cmdMem c) s := Iff.rfl

variable {Q : PUnit → Local → Prop}

@[simp] theorem wp_modifySeq (f : SeqNums → SeqNums) :
    wp (modifySeq f) Q E s ↔ Q ⟨⟩ (s.setSeq (f s.slot.seq)) := Iff.rfl

@[simp] theorem wp_modifyLogin (f : Login → Login) :
    wp (modifyLogin f) Q E s ↔ Q ⟨⟩ (s.setLogin (f s.slot.login)) := Iff.rfl

@[simp] theorem wp_modifyDev (f : Device → Device) :
    wp (modifyDev f) Q E s ↔ Q ⟨⟩ (s.setDev (f s.dev)) := Iff.rfl

@[simp] theorem wp_logDev (e : DevEvent) :
    wp (logDev e) Q E s ↔ Q ⟨⟩ (s.setDev { s.dev with log := s.dev.log ++ [e] }) := Iff.rfl

/-- The state after a command structure has changed. -/
def Local.setCmd (s : Local) (c : Nat) (t : TargetCmd) : Local :=
  s.setPool { s.slot.pool with cmdMem := Function.update s.slot.pool.cmdMem c t }

@[simp] theorem wp_modifyCmd (c : Nat) (f : TargetCmd → TargetCmd) :
    wp (modifyCmd c f) Q E s ↔ Q ⟨⟩ (s.setCmd c (f (s.slot.pool.cmdMem c))) := Iff.rfl

@[simp] theorem wp_modifyScsi (c : Nat) (f : ScsiCmd → ScsiCmd) :
    wp (modifyScsi c f) Q E s ↔
      Q ⟨⟩ (s.setCmd c { s.slot.pool.cmdMem c with
        scsiCmd := f (s.slot.pool.cmdMem c).scsiCmd }) := Iff.rfl

end Rules

/-! ### Rules for the pool -/

section PoolRules

variable {E : Halt → Local → Prop} {s : Local}

theorem wp_takeHeader {Q : Option Nat → Local → Prop} :
    wp takeHeader Q E s ↔
      (s.slot.pool.headerQ.remove = none → Q none s) ∧
      ∀ i q, s.slot.pool.headerQ.remove = some (i, q) →
        Q (some i) (s.setPool { s.slot.pool with headerQ := q }) := by
  rw [takeHeader, wp_onPool]
  rcases h : s.slot.pool.headerQ.remove with _ | ⟨i, q⟩ <;> simp [Local.setPool]

theorem wp_takeCmd {Q : Option Nat → Local → Prop} :
    wp takeCmd Q E s ↔
      (s.slot.pool.cmdQ.remove = none → Q none s) ∧
      ∀ i q, s.slot.pool.cmdQ.remove = some (i, q) →
        Q (some i) (s.setPool { s.slot.pool with cmdQ := q }) := by
  rw [takeCmd, wp_onPool]
  rcases h : s.slot.pool.cmdQ.remove with _ | ⟨i, q⟩ <;> simp [Local.setPool]

variable {Q : Bool → Local → Prop}

theorem wp_putHeader (i : Nat) :
    wp (putHeader i) Q E s ↔
      (s.slot.pool.headerQ.insert i = none → Q false s) ∧
      ∀ q, s.slot.pool.headerQ.insert i = some q →
        Q true (s.setPool { s.slot.pool with headerQ := q }) := by
  rw [putHeader, wp_onPool]
  rcases h : s.slot.pool.headerQ.insert i with _ | q <;> simp [Local.setPool]

theorem wp_putCmd (i : Nat) :
    wp (putCmd i) Q E s ↔
      (s.slot.pool.cmdQ.insert i = none → Q false s) ∧
      ∀ q, s.slot.pool.cmdQ.insert i = some q →
        Q true (s.setPool { s.slot.pool with cmdQ := q }) := by
  rw [putCmd, wp_onPool]
  rcases h : s.slot.pool.cmdQ.insert i with _ | q <;> simp [Local.setPool]

theorem wp_insertOutstanding (tag : UInt32) (c : Nat) :
    wp (insertOutstanding tag c) Q E s ↔
      (s.slot.pool.cmds.insert tag c = none → Q false s) ∧
      ∀ h, s.slot.pool.cmds.insert tag c = some h →
        Q true (s.setPool { s.slot.pool with cmds := h }) := by
  rw [insertOutstanding, wp_onPool]
  rcases h : s.slot.pool.cmds.insert tag c with _ | q <;> simp [Local.setPool]

theorem wp_removeOutstanding (tag : UInt32) :
    wp (removeOutstanding tag) Q E s ↔
      (s.slot.pool.cmds.n = 0 → E .fault s) ∧
      (s.slot.pool.cmds.n ≠ 0 → s.slot.pool.cmds.remove tag = none → Q false s) ∧
      ∀ a h, s.slot.pool.cmds.n ≠ 0 → s.slot.pool.cmds.remove tag = some (a, h) →
        Q true (s.setPool { s.slot.pool with cmds := h }) := by
  simp only [removeOutstanding, wp_bind, wp_gets, wp_ite, wp_halt, wp_onPool]
  rcases h : s.slot.pool.cmds.remove tag with _ | ⟨a, q⟩ <;> simp [Local.setPool]

theorem wp_getOutstanding (tag : UInt32) {Q : Option Nat → Local → Prop} :
    wp (getOutstanding tag) Q E s ↔
      (s.slot.pool.cmds.n = 0 → E .fault s) ∧
      (s.slot.pool.cmds.n ≠ 0 → Q (s.slot.pool.cmds.get tag) s) := by
  simp only [getOutstanding, wp_bind, wp_gets, wp_ite, wp_halt, wp_pure]

end PoolRules

end Ost.Target
