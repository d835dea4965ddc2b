import Ost.Osd.Command
import Ost.Osd.Host
import Ost.Prog.Basic
import Ost.Util.Iov

/-!
# The execution of an OSD command

`exec_upper` and `exec_lower` of `osd.c`, with what `device_command` does around them for an
extended CDB.

The labels `protocol_error` and `device_error` of `exec_upper` both end in `exit`, so every
failure of a call on the host halts here.  An access outside of a buffer is a fault.  The
buffer of the incoming data is the list of its bytes, and the buffer of the attributes is the
list of the bytes that have been stored in it.
-/

namespace Ost.Osd

open Ost.Iscsi Ost.Util Ost.Prog

/-! ## Commands and states -/

/-- `OSD_CREATE_GROUP`. -/
def osdCreateGroup : UInt16 := 0x880b
/-- `OSD_REMOVE_GROUP`. -/
def osdRemoveGroup : UInt16 := 0x880c
/-- `OSD_CREATE`. -/
def osdCreate : UInt16 := 0x8802
/-- `OSD_REMOVE`. -/
def osdRemove : UInt16 := 0x880a
/-- `OSD_READ`. -/
def osdRead : UInt16 := 0x8805
/-- `OSD_WRITE`. -/
def osdWrite : UInt16 := 0x8806
/-- `OSD_GET_ATTR`. -/
def osdGetAttr : UInt16 := 0x880e
/-- `OSD_SET_ATTR`. -/
def osdSetAttr : UInt16 := 0x880f

/-- `INODE_LEN`. -/
def inodeLen : Nat := 1024

/-- The page that has the `GroupID`. -/
def pageGroup : UInt32 := 0x40000001
/-- The page that has the `GroupID` and the `UserID`. -/
def pageIds : UInt32 := 0x00000001
/-- The vendor specific page. -/
def pageInode : UInt32 := 0x30000000

/-- What the target system hands to the device for an extended CDB.  `data` is what the buffer
holds when the transfer has completed, `granted` says whether `target_transfer_data` succeeds, and
`answered` whether the callback does.  `stack` is what the array `data` of `device_command`, which
is not cleared, and the memory behind it hold. -/
structure Command where
  lun : UInt64
  cdb : Bytes
  extCdb : Option Bytes
  fromdev : Bool
  todev : Bool
  transLen : UInt32
  length : UInt32
  data : Bytes
  granted : Bool
  answered : Bool
  stack : Nat → UInt8
  extended : byte cdb 0 = 0x7f
  filled : data.length = transLen.toNat

/-- What `command_done` reports: the status, `length`, `fromdev` and the gather list. -/
structure Completion where
  status : UInt8
  length : UInt32
  fromdev : Bool
  gather : List Bytes
deriving DecidableEq, Repr

/-- `base_dir` and `osd_num_luns`. -/
structure Env where
  baseDir : BaseDir
  numLuns : Nat

/-- What was done to an object. -/
inductive Act where
  | created (o : Obj)
  | removed (o : Obj)
  | wrote (o : Obj) (off : Nat) (b : Bytes)
deriving DecidableEq, Repr

/-- The state of the device: the host, what `rand` will return, and the calls of
`command_done`.  The last field is a record for the proofs, the latest first. -/
structure World where
  host : Host
  rand : List Nat
  done : List Completion
  acts : List Act
deriving DecidableEq, Repr

/-- A program of the device. -/
abbrev Exec (α : Type) : Type := Prog Halt World α

/-! ## Calls -/

/-- A call on the host. -/
def attempt (f : Host → Except Errno Host) : Exec (Except Errno PUnit) := fun w =>
  match f w.host with
  | .ok h => .ret (.ok ⟨⟩) { w with host := h }
  | .error e => .ret (.error e) w

/-- A call whose failure leads to `protocol_error` or `device_error`. -/
def orExit (f : Host → Except Errno Host) : Exec PUnit := do
  match ← attempt f with
  | .ok _ => pure ⟨⟩
  | .error _ => halt .exit

/-- Change the host. -/
def onHost (f : Host → Host) : Exec PUnit := modify fun w => { w with host := f w.host }

/-- Note what was done. -/
def record (a : Act) : Exec PUnit := modify fun w => { w with acts := a :: w.acts }

/-- `rand`. -/
def nextRand : Exec Nat := fun w =>
  match w.rand with
  | [] => .halt .hang w
  | r :: rs => .ret r { w with rand := rs }

/-- `rand()%1048576*1024+1`. -/
def randId (r : Nat) : Nat := r % 1048576 * 1024 + 1

/-- Read from the buffer of the incoming data. -/
def load (buf : Option Bytes) (off len : Nat) : Exec Bytes :=
  match buf with
  | none => halt .fault
  | some b => if off + len ≤ b.length then pure ((b.drop off).take len) else halt .fault

/-- Store behind what the buffer of the attributes has. -/
def emit (alloc : Nat) (out b : Bytes) : Exec Bytes :=
  if out.length + b.length ≤ alloc then pure (out ++ b) else halt .fault

variable (base : BaseDir)

/-! ## Service actions -/

/-- The values of `GroupID`, `UserID` and `osd_args` after the service action, and the data that
were read. -/
structure Ran where
  groupID : UInt32
  userID : UInt64
  obj : Obj
  read : Option Bytes
deriving DecidableEq, Repr

/-- The loop of `OSD_CREATE_GROUP`, from the label `create_group_again`. -/
def createGroupAgain (lun : UInt64) (asked : UInt32) : Nat → UInt32 → Exec UInt32
  | 0, _ => halt .hang
  | n + 1, group => do
    match ← attempt (·.mkdir (groupName base lun group)) with
    | .ok _ => return group
    | .error .eexist =>
      if asked = 0 then createGroupAgain lun asked n (UInt32.ofNat (randId (← nextRand)))
      else return group
    | .error _ => halt .exit

/-- The `GroupID` that is asked for, or a random one. -/
def drawGroup (asked : UInt32) : Exec UInt32 :=
  if asked = 0 then (fun r => UInt32.ofNat (randId r)) <$> nextRand else pure asked

/-- `OSD_CREATE_GROUP`. -/
def createGroup (lun : UInt64) (asked : UInt32) : Exec UInt32 := do
  let rounds := (← gets (·.rand)).length + 1
  createGroupAgain base lun asked rounds (← drawGroup asked)

/-- The `UserID` that is asked for, or a random one. -/
def drawUser (asked : UInt64) : Exec UInt64 :=
  if asked = 0 then (fun r => UInt64.ofNat (randId r)) <$> nextRand else pure asked

/-- The loop of `OSD_CREATE`, from the label `create_again`. -/
def createAgain (lun : UInt64) (group : UInt32) (asked : UInt64) : Nat → Exec UInt64
  | 0 => halt .hang
  | n + 1 => do
    let user ← drawUser asked
    match ← attempt (·.openCreat (fileName base ⟨lun, group, user⟩ .data) true) with
    | .ok _ => return user
    | .error .eexist => if asked = 0 then createAgain lun group asked n else halt .exit
    | .error _ => halt .exit

/-- `OSD_CREATE`. -/
def create (lun : UInt64) (group : UInt32) (asked : UInt64) : Exec UInt64 := do
  let user ← createAgain base lun group asked ((← gets (·.rand)).length + 1)
  record (.created ⟨lun, group, user⟩)
  return user

/-- `OSD_REMOVE`. -/
def removeObject (o : Obj) : Exec PUnit := do
  onHost (·.remove (removePattern base o))
  record (.removed o)

/-- What `write` reads from the buffer. -/
def loadData (buf : Option Bytes) (off : Nat) (length : UInt64) : Exec Bytes :=
  if length = 0 then pure [] else load buf off length.toNat

/-- `OSD_WRITE`, with the data at `off` in the buffer.  The result of `write` is an `int`. -/
def writeObject (o : Obj) (offset length : UInt64) (buf : Option Bytes) (off : Nat) :
    Exec PUnit := do
  let p := fileName base o .data
  orExit (·.openCreat p false)
  if 9223372036854775808 ≤ offset.toNat then halt .exit
  else do
    let b ← loadData buf off length
    if 9223372036854775808 ≤ offset.toNat + length.toNat then halt .exit
    else do
      onHost fun h => h.put p (overwrite ((h.file p).getD []) offset.toNat b)
      if 2147483648 ≤ length.toNat then halt .exit
      else record (.wrote o offset.toNat b)

/-- `OSD_READ`.  The argument of `iscsi_malloc_atomic` is an `int`. -/
def readObject (o : Obj) (offset length : UInt64) : Exec Bytes := do
  let p := fileName base o .data
  if 2147483648 ≤ length.toNat % 4294967296 then halt .exit
  else do
    orExit (·.openCreat p false)
    if 9223372036854775808 ≤ offset.toNat then halt .exit
    else if 4294967296 ≤ length.toNat then halt .fault
    else do
      let got := ((((← gets (·.host)).file p).getD []).drop offset.toNat).take length.toNat
      return got ++ List.replicate (length.toNat - got.length) 0

/-- The `switch` on the service action. -/
def serviceAction (lun : UInt64) (a : OsdArgs) (buf : Option Bytes) : Exec Ran := do
  let o : Obj := ⟨lun, a.groupID, a.userID⟩
  if a.serviceAction = osdCreateGroup then
    let group ← createGroup base lun a.groupID
    return ⟨group, 0, o, none⟩
  else if a.serviceAction = osdRemoveGroup then
    orExit (·.rmdir (groupName base lun a.groupID))
    return ⟨0, 0, o, none⟩
  else if a.serviceAction = osdCreate then
    let user ← create base lun a.groupID a.userID
    return ⟨0, user, { o with user }, none⟩
  else if a.serviceAction = osdRemove then
    removeObject base o
    return ⟨0, 0, o, none⟩
  else if a.serviceAction = osdWrite then
    writeObject base o a.offset a.length buf
      (a.setAttributesListLength.toNat + a.getAttributesListLength.toNat)
    return ⟨0, 0, o, none⟩
  else if a.serviceAction = osdRead then
    let b ← readObject base o a.offset a.length
    return ⟨0, 0, o, some b⟩
  else if a.serviceAction = osdGetAttr || a.serviceAction = osdSetAttr then
    return ⟨0, 0, o, none⟩
  else halt .exit

/-! ## Attributes -/

/-- One round of the loop for the set list, after the loads. -/
def setAttribute (o : Obj) (page attr : UInt32) (value : Bytes) : Exec PUnit := do
  let p := fileName base o (.attr page attr)
  orExit (·.openCreat p false)
  onHost fun h => h.put p (overwrite ((h.file p).getD []) 0 value)

/-- The loop for the set list, from `i` on.  There are no more rounds than bytes. -/
def setAttributes (o : Obj) (buf : Option Bytes) (listLen : Nat) : Nat → Nat → Exec PUnit
  | 0, _ => pure ⟨⟩
  | n + 1, i => guarded (i < listLen) do
    let head ← load buf i 10
    let value ← load buf (i + 10) (be16 head 8)
    setAttribute base o (be32 head 0) (be32 head 4) value
    setAttributes o buf listLen n (i + 10 + be16 head 8)

/-- The header of an attribute: page, index and length. -/
def attrHead (page index : UInt32) (len : Nat) : Bytes :=
  put16 (put32 (put32 (List.replicate 10 0) 0 page) 4 index) 8 len

/-- `HTONL(x)` in memory. -/
def word32 (x : UInt32) : Bytes := put32 (List.replicate 4 0) 0 x

/-- `HTONLL(x)` in memory. -/
def word64 (x : UInt64) : Bytes := put64 (List.replicate 8 0) 0 x.toNat

/-- The vendor specific attribute, which is read from its file. -/
def emitInode (o : Obj) (page index : UInt32) (alloc : Nat) (out : Bytes) : Exec Bytes := do
  let out ← emit alloc out (attrHead page index inodeLen)
  match (← gets (·.host)).file (fileName base o (.attr page index)) with
  | none => halt .exit
  | some b => do
    let out ← emit alloc out (b.take inodeLen)
    if (b.take inodeLen).length ≠ inodeLen then halt .exit else return out

/-- One round of the loop for the get list, after the loads. -/
def getAttribute (r : Ran) (page index : UInt32) (alloc : Nat) (out : Bytes) : Exec Bytes :=
  if page = pageGroup then
    if index = 1 then emit alloc out (attrHead page index 4 ++ word32 r.groupID)
    else halt .exit
  else if page = pageIds then
    if index = 1 then emit alloc out (attrHead page index 4 ++ word32 r.groupID)
    else if index = 2 then emit alloc out (attrHead page index 8 ++ word64 r.userID)
    else halt .exit
  else if page = pageInode then
    if index = 1 then emitInode base r.obj page index alloc out else halt .exit
  else halt .exit

/-- The loop for the get list at `off` in the buffer, from `i` on. -/
def getAttributeList (r : Ran) (buf : Option Bytes) (off listLen alloc : Nat) :
    Nat → Nat → Bytes → Exec Bytes
  | 0, _, out => pure out
  | n + 1, i, out =>
    if i < listLen then do
      let entry ← load buf (off + i) 8
      let out ← getAttribute base r (be32 entry 0) (be32 entry 4) alloc out
      getAttributeList r buf off listLen alloc n (i + 8) out
    else pure out

/-- A whole page, if one is asked for.  One attribute is returned. -/
def getPage (r : Ran) (page : UInt32) (alloc : Nat) (out : Bytes) : Exec Bytes :=
  if page = 0 then pure out
  else if page = pageGroup then emit alloc out (attrHead page 1 4 ++ word32 r.groupID)
  else if page = pageIds then emit alloc out (attrHead page 2 8 ++ word64 r.userID)
  else if page = pageInode then emitInode base r.obj page 1 alloc out
  else halt .exit

/-- The part of `exec_upper` on the attributes to get: the bytes that are returned, if any. -/
def getAttributes (r : Ran) (a : OsdArgs) (buf : Option Bytes) : Exec (Option Bytes) := do
  let alloc := a.getAttributesAllocationLength.toNat
  let listLen := a.getAttributesListLength.toNat
  if (a.getAttributesListLength ≠ 0 || a.getAttributesPage ≠ 0) &&
      2147483648 ≤ alloc then halt .exit
  else do
    let out ← getAttributeList base r buf a.setAttributesListLength.toNat listLen alloc listLen 0 []
    let out ← getPage base r a.getAttributesPage alloc out
    if out = [] then return none
    else if out.length ≠ alloc then halt .exit
    else return some out

/-! ## The command -/

/-- `command_done`.  The result says whether it returned zero. -/
def commandDone (c : Command) (d : Completion) : Exec Bool := do
  modify fun w => { w with done := w.done ++ [d] }
  if !c.answered then return false
  else if byte c.cdb 0 = 0x26 then halt .exit
  else return true

/-- `exec_upper`, for the incoming data in `buf`. -/
def execUpper (env : Env) (c : Command) (buf : Option Bytes) : Exec Bool :=
  match c.extCdb with
  | none => return false
  | some ext => do
    let a := osdDecapCdb c.cdb ext
    let setLen := a.setAttributesListLength.toNat
    let r ← serviceAction env.baseDir c.lun a buf
    setAttributes env.baseDir r.obj buf setLen setLen 0
    let attrs ← getAttributes env.baseDir r a buf
    commandDone c
      { status := 0, length := c.length, fromdev := c.fromdev || r.read.isSome || attrs.isSome
        gather := r.read.toList ++ attrs.toList }

/-- How `exec_lower` returns. -/
inductive Lower where
  | /-- It returned an error. -/
    failed
  | /-- The rest of the data was requested. -/
    requested
  | /-- The command was executed. -/
    executed
deriving DecidableEq, Repr

/-- `exec_lower`.  `iscsi_malloc_atomic` takes an `int` and fails for a negative one. -/
def execLower (env : Env) (c : Command) : Exec Lower := do
  if c.todev then
    if 2147483648 ≤ c.transLen.toNat then return .failed
    else if c.transLen < c.length then halt .fault
    else if c.transLen ≠ c.length then return if c.granted then .requested else .failed
    else if ← execUpper env c (some c.data) then return .executed
    else halt .exit
  else if ← execUpper env c none then return .executed
  else halt .exit

/-- How `device_command` completes a command that `exec_lower` has failed: when it reads, with as
many bytes of the array `data` as it has immediate data. -/
def Command.failedDone (c : Command) : Completion :=
  { status := 2, length := c.length, fromdev := c.fromdev
    gather :=
      if c.fromdev ∧ c.length ≠ 0 then [(List.range c.length.toNat).map c.stack] else [] }

/-- The life of a command with an extended CDB: `device_command`, and `device_place_data` when the
transfer has completed.  There the LUN is an `unsigned char`. -/
def deviceCommand (env : Env) (c : Command) : Exec PUnit := do
  if env.numLuns ≤ c.lun.toUInt8.toNat then
    let _ ← commandDone c { status := 2, length := 0, fromdev := false, gather := [] }
  else
    match ← execLower env c with
    | .failed =>
      let _ ← commandDone c c.failedDone
    | .requested =>
      let _ ← execUpper env c (some c.data)
    | .executed => pure ⟨⟩

/-! ## Commands of an initiator -/

/-- `osd_args_t` after `memset`, with the opcode, the service action and the ids. -/
def clearedArgs (serviceAction : UInt16) (groupID : UInt32) (userID : UInt64) : OsdArgs :=
  { opcode := 0x7f, control := 0, security := 0, addCdbLen := 0, serviceAction, optionsByte := 0
    secondOptionsByte := 0, groupID, userID, sessionID := 0, length := 0, offset := 0
    setAttributesListLength := 0, getAttributesPage := 0, getAttributesListLength := 0
    getAttributesAllocationLength := 0 }

/-- The first bytes of a CDB have every byte that is read from them. -/
theorem byte_take (h : Bytes) {n i : Nat} (hi : i < n) : byte (h.take n) i = byte h i := by
  simp only [byte, List.getD_eq_getElem?_getD]
  rw [List.getElem?_take_of_lt hi]

/-- The CDB of `osd_command_build`. -/
@[irreducible] def sentCdb (a : OsdArgs) : Bytes := osdEncapCdb a (List.replicate configOsdCdbLen 0)

theorem osdDecapCdb_sentCdb (a : OsdArgs) : osdDecapCdb (sentCdb a) ((sentCdb a).drop 16) = a := by
  unfold sentCdb
  exact osdDecapCdb_encap a List.length_replicate

theorem opcode_osdDecapCdb (cdb ext : Bytes) : (osdDecapCdb cdb ext).opcode = byte cdb 0 := rfl

theorem opcode_sentCdb (a : OsdArgs) : byte (sentCdb a) 0 = a.opcode := by
  rw [← opcode_osdDecapCdb (sentCdb a) ((sentCdb a).drop 16), osdDecapCdb_sentCdb]

/-- The command that the target receives for these arguments and data, when `recvLen` bytes are
expected, and the transfer and the answer succeed. -/
def arrived (lun : UInt64) (a : OsdArgs) (data : Bytes) (recvLen : Nat) (opcode : a.opcode = 0x7f)
    (short : data.length < 4294967296) : Command where
  lun := lun
  cdb := (sentCdb a).take 16
  extCdb := some ((sentCdb a).drop 16)
  fromdev := 0 < recvLen
  todev := data ≠ []
  transLen := UInt32.ofNat data.length
  length := 0
  data := data
  granted := true
  answered := true
  stack := fun _ => 0
  extended := by rw [byte_take _ (by decide), opcode_sentCdb, opcode]
  filled := by
    rw [UInt32.toNat_ofNat']
    omega

/-- The target reads the arguments that were sent. -/
theorem arrived_args (lun : UInt64) (a : OsdArgs) (data : Bytes) (recvLen : Nat)
    (opcode : a.opcode = 0x7f) (short : data.length < 4294967296) :
    ∀ ext ∈ (arrived lun a data recvLen opcode short).extCdb,
      osdDecapCdb (arrived lun a data recvLen opcode short).cdb ext = a := by
  intro ext h
  have hext : (sentCdb a).drop 16 = ext := Option.some.inj h
  rw [← hext]
  exact (osdDecapCdb_congr (fun i hi => byte_take _ hi) fun _ _ => rfl).trans
    (osdDecapCdb_sentCdb a)

end Ost.Osd
