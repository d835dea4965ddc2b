import Ost.Osd.Execution

/-!
# The client of the attribute service

`osd_create_group`, `osd_create`, `osd_create_and_set`, `osd_set_one_attr` and `osd_get_one_attr` of
`osd_ops.c`, against the target.  `osd_exec` carries the arguments and the data to the target and
brings back the status and the first bytes of the gather list, as many as are expected.  When fewer
come, a command with data to send fails, and one without is taken for good: `iscsi_done_i` warns,
and the rest of the buffer is what it was.

A call that writes or reads outside of a buffer of its own has the result `overflow`.  What happens
in the target is a program of the target: when it halts there, the call does not return.
-/

namespace Ost.Osd

open Ost.Iscsi Ost.Util Ost.Prog

/-- Bytes whose length is a `uint32_t`. -/
abbrev Sized : Type := { b : Bytes // b.length < 4294967296 }

/-- What a call returns: it went out of bounds, it failed, or the value that it stored. -/
inductive Result where
  | overflow
  | failed
  | group (id : UInt32)
  | user (id : UInt64)
  | stored
  | value (b : Bytes)
deriving DecidableEq, Repr

/-- How `extract_attribute` ends. -/
inductive Extract where
  | overflow
  | mismatch
  | value (b : Bytes)
deriving DecidableEq, Repr

/-- `extract_attribute`, from `i` on.  There are no more rounds than bytes. -/
def extractAttribute (page index : UInt32) (len : Nat) (data : Bytes) (length : Nat) :
    Nat → Nat → Bytes → Extract
  | 0, _, val => .value val
  | n + 1, i, val =>
    if length ≤ i then .value val
    else if data.length < i + 4 then .overflow
    else if be32 data i ≠ page then .mismatch
    else if data.length < i + 8 then .overflow
    else if be32 data (i + 4) ≠ index then .mismatch
    else if data.length < i + 10 then .overflow
    else if be16 data (i + 8) ≠ len then .mismatch
    else if data.length < i + 10 + len then .overflow
    else extractAttribute page index len data length n (i + 10 + len)
      ((data.drop (i + 10)).take len)

/-- What a call finds in its buffer for the answer. -/
abbrev Stale : Type := Nat → UInt8

/-- The buffer of an answer of `recvLen` bytes, of which these were received. -/
def replyBuffer (stale : Stale) (recvLen : Nat) (got : Bytes) : Bytes :=
  got.take recvLen ++ ((List.range recvLen).map stale).drop got.length

/-- The buffer when all bytes were received. -/
theorem replyBuffer_of_le {stale : Stale} {recvLen : Nat} {got : Bytes} (h : recvLen ≤ got.length) :
    replyBuffer stale recvLen got = got.take recvLen := by
  rw [replyBuffer, List.drop_of_length_le (by simpa using h), List.append_nil]

variable (env : Env) (lun : UInt64) (stale : Stale)

/-- `osd_exec`: the buffer with the answer, if the command succeeded. -/
def osdExec (a : OsdArgs) (opcode : a.opcode = 0x7f) (send : Sized) (recvLen : Nat) :
    Exec (Option Bytes) := do
  let before := (← gets (·.done)).length
  deviceCommand env (arrived lun a send.1 recvLen opcode send.2)
  match (← gets (·.done))[before]? with
  | none => return none
  | some d =>
    return if d.status = 0 ∧ (send.1 = [] ∨ recvLen ≤ d.gather.flatten.length) then
      some (replyBuffer stale recvLen d.gather.flatten) else none

/-- No data. -/
def nothing : Sized := ⟨[], by decide⟩

/-- `osd_create_group`. -/
def osdCreateGroupCall (group : UInt32) : Exec Result := do
  let a : OsdArgs := { clearedArgs osdCreateGroup group 0 with
    getAttributesPage := 0x40000001, getAttributesAllocationLength := 14 }
  match ← osdExec env lun stale a rfl nothing 14 with
  | none => return .failed
  | some getData =>
    match extractAttribute 0x40000001 1 4 getData 14 14 0 [] with
    | .overflow => return .overflow
    | .mismatch => return .failed
    | .value v => return .group (be32 v 0)

/-- The end of `osd_create` and `osd_create_and_set`. -/
def storeUser (reply : Option Bytes) (rest : Bytes) : Result :=
  match reply with
  | none => .failed
  | some b =>
    match extractAttribute 0x00000001 2 8 (b ++ rest) 18 18 0 [] with
    | .overflow => .overflow
    | .mismatch => .failed
    | .value v => .user (be64 v 0)

/-- `osd_create`. -/
def osdCreateCall (group : UInt32) (user : UInt64) : Exec Result := do
  let a : OsdArgs := { clearedArgs osdCreate group user with
    getAttributesPage := 0x00000001, getAttributesAllocationLength := 18 }
  return storeUser (← osdExec env lun stale a rfl nothing 18) []

/-- `osd_create_and_set`, where the value may be `NULL`.  The buffer has 1024 bytes, and the reply
is stored over the list. -/
def osdCreateAndSetCall (group : UInt32) (user : UInt64) (page index : UInt32)
    (value : Option Sized) : Exec Result := do
  let a : OsdArgs := { clearedArgs osdCreate group user with
    getAttributesPage := 0x00000001, getAttributesAllocationLength := 18 }
  match value with
  | none =>
    return storeUser (← osdExec env lun stale a rfl nothing 18) (List.replicate (1024 - 18) 0)
  | some v =>
    if h : 1024 < 10 + v.1.length then return .overflow
    else
      let list := attrHead page index v.1.length ++ v.1
      let send : Sized := ⟨list, by simp [list, attrHead]; omega⟩
      let a := { a with setAttributesListLength := UInt32.ofNat (10 + v.1.length) }
      let buffer := list ++ List.replicate (1024 - list.length) 0
      return storeUser (← osdExec env lun stale a rfl send 18) (buffer.drop 18)

/-- `osd_set_one_attr`.  The argument of `iscsi_malloc_atomic` is an `int`, and the sum of a
`uint32_t`. -/
def osdSetOneAttr (group : UInt32) (user : UInt64) (page index : UInt32) (value : Sized) :
    Exec Result := do
  let n := (10 + value.1.length) % 4294967296
  if 2147483648 ≤ n then return .failed
  else if h : n < 10 + value.1.length then return .overflow
  else
    let send : Sized := ⟨attrHead page index value.1.length ++ value.1, by simp [attrHead]; omega⟩
    let a : OsdArgs := { clearedArgs osdSetAttr group user with
      length := UInt64.ofNat n, setAttributesListLength := UInt32.ofNat n }
    match ← osdExec env lun stale a rfl send 0 with
    | none => return .failed
    | some _ => return .stored

/-- The arguments of `osd_get_one_attr`: a list with one attribute, or a page. -/
def getArgs (group : UInt32) (user : UInt64) (page index : UInt32) (alloc : Nat) : OsdArgs :=
  if index ≠ 0 then
    { clearedArgs osdGetAttr group user with
      length := 8, getAttributesListLength := 8
      getAttributesAllocationLength := UInt32.ofNat alloc }
  else
    { clearedArgs osdGetAttr group user with
      getAttributesPage := page, getAttributesAllocationLength := UInt32.ofNat alloc }

theorem opcode_getArgs (group : UInt32) (user : UInt64) (page index : UInt32) (alloc : Nat) :
    (getArgs group user page index alloc).opcode = 0x7f := by
  unfold getArgs
  split <;> rfl

/-- The list of `osd_get_one_attr`. -/
def getListOut (page index : UInt32) : Sized :=
  if index ≠ 0 then ⟨word32 page ++ word32 index, by simp⟩ else nothing

/-- `osd_get_one_attr`. -/
def osdGetOneAttr (group : UInt32) (user : UInt64) (page index allocLen : UInt32) :
    Exec Result := do
  let n := (10 + allocLen.toNat) % 4294967296
  if 2147483648 ≤ n then return .failed
  else
    match ← osdExec env lun stale (getArgs group user page index n) (opcode_getArgs ..)
        (getListOut page index) n with
    | none => return .failed
    | some buffer =>
      return if n < 10 + allocLen.toNat then .overflow
        else .value ((buffer.drop 10).take allocLen.toNat)

/-- A call of the client. -/
inductive Call where
  | createGroup (group : UInt32)
  | create (group : UInt32) (user : UInt64)
  | createAndSet (group : UInt32) (user : UInt64) (page index : UInt32) (value : Option Sized)
  | setOneAttr (group : UInt32) (user : UInt64) (page index : UInt32) (value : Sized)
  | getOneAttr (group : UInt32) (user : UInt64) (page index allocLen : UInt32)
deriving DecidableEq

/-- The program of a call. -/
def Call.run : Call → Exec Result
  | .createGroup g => osdCreateGroupCall env lun stale g
  | .create g u => osdCreateCall env lun stale g u
  | .createAndSet g u page index value => osdCreateAndSetCall env lun stale g u page index value
  | .setOneAttr g u page index value => osdSetOneAttr env lun stale g u page index value
  | .getOneAttr g u page index allocLen => osdGetOneAttr env lun stale g u page index allocLen

end Ost.Osd
