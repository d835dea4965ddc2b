import Ost.Config.Basic
import Ost.Param.Session
import Ost.Iscsi.InitiatorPdu
import Ost.Util.Queue
import Ost.Util.Hash

/-!
# The state of an initiator session

What the Tx worker, the Rx worker and the callers of one session share: the queue of
commands to transmit (`g_tx_queue[tid]`), the hash of outstanding commands
(`g_cmd_hash[tid]`), the command structures, and the variables of the session.

A command structure is named by a number.  Its owner may free or reuse the memory once
the callback has run; here every submission has a number of its own, so that "the
structure is not touched again" can be said about a submission.

The handlers are programs over `Session`.  They call `halt` where the C code leaves the
memory it owns or follows a pointer to a structure of another type.
-/

namespace Ost.Initiator

open Ost.Iscsi Ost.Util Ost.Param Ost.Prog

/-! ## Constants -/

/-- The size of the text buffers that `full_feature_phase` and `discovery_phase` allocate. -/
def textBufferLen : Nat := 1024

/-- Reduce to 32 bits, as arithmetic on `unsigned` does. -/
def u32 (x : Nat) : Nat := x % 4294967296

/-- Subtraction on `unsigned`. -/
def minus32 (x y : Nat) : Nat := (x + (4294967296 - y % 4294967296)) % 4294967296

/-! ## Commands -/

/-- A data buffer: the scatter list, and the plain buffer that the pointer leads to when the
list is empty. -/
structure Buffer where
  sg : List Iov
  plain : Option Iov
deriving DecidableEq, Repr

/-- `ISCSI_SCSI_CMD_T`: the fields of the PDU, and those of the initiator.  `transLen` and
`length` of the PDU are the expected transfer length and the immediate data. -/
structure ScsiCmd where
  pdu : ScsiCmdPdu
  ahs : Bytes
  bidiTransLen : Nat
  bytesTodev : Nat
  bytesFromdev : Nat
  send : Buffer
  recv : Buffer
  status : UInt8
deriving DecidableEq, Repr

/-- `ISCSI_NOP_OUT_T` with its ping data. -/
structure NopOutCmd where
  pdu : NopOut
  data : Bytes
deriving DecidableEq, Repr

/-- `ISCSI_LOGIN_CMD_T` with its text. -/
structure LoginReq where
  pdu : LoginCmd
  text : Bytes
deriving DecidableEq, Repr

/-- `ISCSI_TEXT_CMD_T` with its text. -/
structure TextReq where
  pdu : TextCmd
  text : Bytes
deriving DecidableEq, Repr

/-- `cmd->type`. -/
inductive CmdType where
  | scsi | nopOut | login | text | logout
  | /-- A type that the Tx worker does not know. -/
    other
deriving DecidableEq, Repr

/-- What `cmd->ptr` leads to. -/
inductive Body where
  | scsi (c : ScsiCmd)
  | nopOut (c : NopOutCmd)
  | login (c : LoginReq)
  | text (c : TextReq)
  | logout (c : LogoutCmd)
  | other
deriving DecidableEq, Repr

/-- The type that goes with it. -/
def Body.type : Body → CmdType
  | .scsi _ => .scsi
  | .nopOut _ => .nopOut
  | .login _ => .login
  | .text _ => .text
  | .logout _ => .logout
  | .other => .other

/-- `session_destroy_i` and the Tx worker single out login, text and logout commands. -/
def CmdType.isControl : CmdType → Bool
  | .login | .text | .logout => true
  | .scsi | .nopOut | .other => false

/-- The same for a command. -/
def Body.isControl (b : Body) : Bool := b.type.isControl

/-- A NOP-Out without ping, which has no response. -/
def Body.isSilent : Body → Bool
  | .nopOut c => c.pdu.tag = 0xffffffff
  | _ => false

/-- `INITIATOR_CMD_T`.  `callbackOk` says whether the callback will return 0. -/
structure InitiatorCmd where
  body : Body
  tag : UInt32
  txDone : Bool
  status : Int
  r2tRequest : Nat
  r2t : R2t
  aborted : Bool
  callbackOk : Bool
deriving DecidableEq, Repr

/-! ## The session -/

/-- `g_target[tid].state`, without the flag that is only for the kernel driver. -/
structure Flags where
  started : Bool
  initialized : Bool
  connected : Bool
  loggedIn : Bool
  fullFeature : Bool
  error : Bool
  destroying : Bool
deriving DecidableEq, Repr

/-- A state of 0. -/
def Flags.zero : Flags :=
  { started := false, initialized := false, connected := false, loggedIn := false
    fullFeature := false, error := false, destroying := false }

/-- `INITIATOR_SESSION_T` and the variables of the same index. -/
structure Vars where
  cmdSN : UInt32
  expStatSN : UInt32
  maxCmdSN : UInt32
  isid : Nat
  tsih : Nat
  redirected : Bool
  sessParams : SessParams
  ps : ParamState
  /-- `g_nop_out[tid]`. -/
  nopOut : NopOut
  /-- `g_nop_out_waiting[tid]`. -/
  nopOutWaiting : Bool

/-- The commands of a session and where they are. -/
structure Books where
  /-- `g_tx_queue[tid]`. -/
  txQueue : Fifo Nat
  /-- `g_cmd_hash[tid]`. -/
  cmdHash : TagHash Nat
  /-- The command structures. -/
  mem : Nat → InitiatorCmd
  /-- Ghost: the commands submitted so far, oldest first. -/
  issued : List Nat
  /-- Ghost: the commands whose callback has been run, oldest first. -/
  called : List Nat

/-- A PDU that has been sent, with the list of buffers its data come from. -/
inductive OutPdu where
  | scsi (c : ScsiCmdPdu) (data : List Iov)
  | writeData (c : WriteData) (data : List Iov)
  | nopOut (c : NopOut)
  | login (c : LoginCmd)
  | text (c : TextCmd)
  | logout (c : LogoutCmd)
deriving DecidableEq, Repr

/-- Where the Tx worker stands. -/
inductive TxPhase where
  | /-- Waiting for work. -/
    idle
  | /-- It has taken a command from the queue. -/
    taken (c : Nat)
  | /-- It has seen to it that the hash has the tag of the command. -/
    hashed (c : Nat)
  | /-- It has cleared `tx_done` and is about to execute the command. -/
    sending (c : Nat)
  | /-- It has executed the command. -/
    sent (c : Nat)
  | /-- It has returned. -/
    exited
deriving DecidableEq, Repr

/-- The command that the Tx worker holds. -/
def TxPhase.holds : TxPhase → Option Nat
  | .taken c | .hashed c | .sending c | .sent c => some c
  | .idle | .exited => none

/-- A received PDU: its header, and the data that the target sends with it. -/
structure RxPdu where
  header : Bytes
  data : Bytes
deriving DecidableEq, Repr

/-- Where the Rx worker stands. -/
inductive RxPhase where
  | /-- Reading the next header. -/
    idle
  | /-- It has found the command of a PDU and waits for `tx_done`. -/
    waiting (c : Nat) (p : RxPdu)
  | /-- It is about to call the handler. -/
    handling (c : Option Nat) (p : RxPdu)
  | /-- It has returned. -/
    exited
deriving DecidableEq, Repr

/-- The command that the Rx worker holds. -/
def RxPhase.holds : RxPhase → Option Nat
  | .waiting c _ => some c
  | .handling c _ => c
  | .idle | .exited => none

/-- A session. -/
structure Session where
  books : Books
  vars : Vars
  flags : Flags
  tx : TxPhase
  rx : RxPhase
  /-- The session manager has asked the workers to stop. -/
  stopping : Bool
  /-- How the next transmissions go; those after the end of the list succeed. -/
  net : List Bool
  /-- Ghost: the PDUs sent so far, oldest first. -/
  sent : List OutPdu
  /-- Ghost: the R2Ts the Rx worker accepted on this connection, with their commands, oldest
  first. -/
  accepted : List (Nat × R2t)
  /-- Ghost: the commands for which an R2T was answered on this connection, with the data PDUs of
  the answer. -/
  answers : List (Nat × List WriteData)

/-- A program of the initiator. -/
abbrev Handler (α : Type) := Prog Halt Session α

/-! ## Primitive programs -/

namespace Session

variable (s : Session)

/-- Replace the books. -/
def setBooks (b : Books) : Session := { s with books := b }

/-- Replace the variables. -/
def setVars (v : Vars) : Session := { s with vars := v }

/-- Replace a command structure. -/
def setCmd (c : Nat) (t : InitiatorCmd) : Session :=
  s.setBooks { s.books with mem := Function.update s.books.mem c t }

end Session

/-- Read a command structure. -/
def getCmd (c : Nat) : Handler InitiatorCmd := gets fun s => s.books.mem c

/-- Change a command structure. -/
def modifyCmd (c : Nat) (f : InitiatorCmd → InitiatorCmd) : Handler PUnit :=
  modify fun s => s.setCmd c (f (s.books.mem c))

/-- Read the variables of the session. -/
def getVars : Handler Vars := gets fun s => s.vars

/-- Change the variables of the session. -/
def modifyVars (f : Vars → Vars) : Handler PUnit := modify fun s => s.setVars (f s.vars)

/-- Read the state flags of the session. -/
def getFlags : Handler Flags := gets fun s => s.flags

/-- Change the state flags of the session. -/
def modifyFlags (f : Flags → Flags) : Handler PUnit :=
  modify fun s => { s with flags := f s.flags }

/-- `SESSION_STATE_ERROR`. -/
def setError : Handler PUnit := modifyFlags fun f => { f with error := true }

/-- `SESSION_STATE_LOGGED_IN`. -/
def setLoggedIn : Handler PUnit := modifyFlags fun f => { f with loggedIn := true }

/-- `cmd->ptr` as a SCSI command. -/
def getScsi (c : Nat) : Handler ScsiCmd := do
  match (← getCmd c).body with
  | .scsi q => return q
  | _ => halt .fault

/-- `cmd->ptr` as a NOP-Out. -/
def getNopOut (c : Nat) : Handler NopOutCmd := do
  match (← getCmd c).body with
  | .nopOut q => return q
  | _ => halt .fault

/-- `cmd->ptr` as a login command. -/
def getLogin (c : Nat) : Handler LoginReq := do
  match (← getCmd c).body with
  | .login q => return q
  | _ => halt .fault

/-- `cmd->ptr` as a text command. -/
def getText (c : Nat) : Handler TextReq := do
  match (← getCmd c).body with
  | .text q => return q
  | _ => halt .fault

/-- `cmd->ptr` as a logout command. -/
def getLogout (c : Nat) : Handler LogoutCmd := do
  match (← getCmd c).body with
  | .logout q => return q
  | _ => halt .fault

/-- Store through `cmd->ptr`, which leaves `cmd->type` alone. -/
def InitiatorCmd.store (t : InitiatorCmd) (b : Body) : InitiatorCmd :=
  if b.type = t.body.type then { t with body := b } else t

/-- Change what `cmd->ptr` leads to. -/
def setBody (c : Nat) (b : Body) : Handler PUnit := modifyCmd c fun t => t.store b

/-- Set `cmd->status`. -/
def setStatus (c : Nat) (x : Int) : Handler PUnit := modifyCmd c fun t => { t with status := x }

/-- `iscsi_queue_insert` on the tx queue: whether there was room. -/
def queueInsert (c : Nat) : Handler Bool := fun s =>
  match s.books.txQueue.insert c with
  | none => .ret false s
  | some q => .ret true (s.setBooks { s.books with txQueue := q })

/-- `iscsi_queue_remove` on the tx queue. -/
def queueRemove : Handler (Option Nat) := fun s =>
  match s.books.txQueue.remove with
  | none => .ret none s
  | some (c, q) => .ret (some c) (s.setBooks { s.books with txQueue := q })

/-- `hash_get`. -/
def hashLookup (tag : UInt32) : Handler (Option Nat) := gets fun s => s.books.cmdHash.get tag

/-- `hash_insert`: whether the tag was free. -/
def hashAdd (tag : UInt32) (c : Nat) : Handler Bool := fun s =>
  match s.books.cmdHash.insert tag c with
  | none => .ret false s
  | some h => .ret true (s.setBooks { s.books with cmdHash := h })

/-- `hash_remove`: whether the tag was there. -/
def hashDelete (tag : UInt32) : Handler Bool := fun s =>
  match s.books.cmdHash.remove tag with
  | none => .ret false s
  | some (_, h) => .ret true (s.setBooks { s.books with cmdHash := h })

/-- How the next transmission goes. -/
def nextNet : Handler Bool := fun s => .ret (s.net.headD true) { s with net := s.net.tail }

/-- Log a PDU that has been sent. -/
def logSent (p : OutPdu) : Handler PUnit := modify fun s => { s with sent := s.sent ++ [p] }

/-- Receive `len` bytes of the data that follow a header: `none` when that fails. -/
def recvData (p : RxPdu) (len : Nat) : Option Bytes :=
  if len < 2147483648 ∧ len ≤ p.data.length then some (p.data.take len) else none

/-! ## Rules -/

section Rules

variable {α : Type} {E : Halt → Session → Prop} {s : Session}

@[simp] theorem wp_getCmd (c : Nat) {Q : InitiatorCmd → Session → Prop} :
    wp (getCmd c) Q E s ↔ Q (s.books.mem c) s := Iff.rfl

@[simp] theorem wp_getVars {Q : Vars → Session → Prop} : wp getVars Q E s ↔ Q s.vars s := Iff.rfl

@[simp] theorem wp_modifyCmd (c : Nat) (f : InitiatorCmd → InitiatorCmd)
    {Q : PUnit → Session → Prop} :
    wp (modifyCmd c f) Q E s ↔ Q ⟨⟩ (s.setCmd c (f (s.books.mem c))) := Iff.rfl

@[simp] theorem wp_setBody (c : Nat) (b : Body) {Q : PUnit → Session → Prop} :
    wp (setBody c b) Q E s ↔ Q ⟨⟩ (s.setCmd c ((s.books.mem c).store b)) := Iff.rfl

@[simp] theorem wp_setStatus (c : Nat) (x : Int) {Q : PUnit → Session → Prop} :
    wp (setStatus c x) Q E s ↔ Q ⟨⟩ (s.setCmd c { s.books.mem c with status := x }) := Iff.rfl

@[simp] theorem wp_modifyVars (f : Vars → Vars) {Q : PUnit → Session → Prop} :
    wp (modifyVars f) Q E s ↔ Q ⟨⟩ (s.setVars (f s.vars)) := Iff.rfl

@[simp] theorem wp_getFlags {Q : Flags → Session → Prop} :
    wp getFlags Q E s ↔ Q s.flags s := Iff.rfl

@[simp] theorem wp_modifyFlags (f : Flags → Flags) {Q : PUnit → Session → Prop} :
    wp (modifyFlags f) Q E s ↔ Q ⟨⟩ { s with flags := f s.flags } := Iff.rfl

@[simp] theorem wp_setError {Q : PUnit → Session → Prop} :
    wp setError Q E s ↔ Q ⟨⟩ { s with flags := { s.flags with error := true } } := Iff.rfl

@[simp] theorem wp_nextNet {Q : Bool → Session → Prop} :
    wp nextNet Q E s ↔ Q (s.net.headD true) { s with net := s.net.tail } := Iff.rfl

@[simp] theorem wp_logSent (p : OutPdu) {Q : PUnit → Session → Prop} :
    wp (logSent p) Q E s ↔ Q ⟨⟩ { s with sent := s.sent ++ [p] } := Iff.rfl

@[simp] theorem wp_hashLookup (tag : UInt32) {Q : Option Nat → Session → Prop} :
    wp (hashLookup tag) Q E s ↔ Q (s.books.cmdHash.get tag) s := Iff.rfl

theorem wp_queueInsert (c : Nat) {Q : Bool → Session → Prop} :
    wp (queueInsert c) Q E s ↔
      (s.books.txQueue.insert c = none → Q false s) ∧
      ∀ q, s.books.txQueue.insert c = some q →
        Q true (s.setBooks { s.books with txQueue := q }) := by
  unfold wp queueInsert
  rcases s.books.txQueue.insert c with _ | q <;> simp

theorem wp_queueRemove {Q : Option Nat → Session → Prop} :
    wp queueRemove Q E s ↔
      (s.books.txQueue.remove = none → Q none s) ∧
      ∀ c q, s.books.txQueue.remove = some (c, q) →
        Q (some c) (s.setBooks { s.books with txQueue := q }) := by
  unfold wp queueRemove
  rcases s.books.txQueue.remove with _ | ⟨c, q⟩ <;> simp

theorem wp_hashAdd (tag : UInt32) (c : Nat) {Q : Bool → Session → Prop} :
    wp (hashAdd tag c) Q E s ↔
      (s.books.cmdHash.insert tag c = none → Q false s) ∧
      ∀ h, s.books.cmdHash.insert tag c = some h →
        Q true (s.setBooks { s.books with cmdHash := h }) := by
  unfold wp hashAdd
  rcases s.books.cmdHash.insert tag c with _ | q <;> simp

theorem wp_hashDelete (tag : UInt32) {Q : Bool → Session → Prop} :
    wp (hashDelete tag) Q E s ↔
      (s.books.cmdHash.remove tag = none → Q false s) ∧
      ∀ c h, s.books.cmdHash.remove tag = some (c, h) →
        Q true (s.setBooks { s.books with cmdHash := h }) := by
  unfold wp hashDelete
  rcases s.books.cmdHash.remove tag with _ | ⟨c, q⟩ <;> simp

end Rules

end Ost.Initiator
