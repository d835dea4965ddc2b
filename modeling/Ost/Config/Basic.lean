import Ost.Param.Basic
import Ost.Prog.Sweep

/-!
# The configuration of the targets

`get_target_config` of `initiator.c`, as it is outside the kernel: the file is read into a buffer,
two loops take the comments out of it, and the tokens that are left set the entries of `g_target`.

`file_length` is the size of the buffer to begin with, whatever was read.  Both loops move with
`memcpy` what is behind a comment to where it started, and these two parts of the buffer usually
overlap.  The C standard gives such a call no meaning; a library whose `memcpy` copies upwards does
what the loops need.  `moves` says whether it does.
-/

namespace Ost

/-- `CONFIG_INITIATOR_QUEUE_DEPTH`. -/
def configInitiatorQueueDepth : Nat := 64

/-- `CONFIG_INITIATOR_MAX_TARGETS`. -/
def configInitiatorMaxTargets : Nat := 8

end Ost

namespace Ost.Config

open Ost.Iscsi Ost.Param Ost.Prog Ost.Util

/-! ## Data -/

/-- `MAX_LEN`. -/
def maxLen : Nat := 256

/-- `ISCSI_PORT`. -/
def iscsiPort : UInt32 := 3260

/-- What the configuration sets in an `INITIATOR_TARGET_T`. -/
structure InitiatorTarget where
  port : UInt32
  ip : Bytes
  fixAddress : UInt32
  targetName : Bytes
  initiatorUser : Bytes
  initiatorPass : Bytes
  targetUser : Bytes
  targetPass : Bytes
  immediateData : Bytes
  initialR2T : Bytes
  maxRecvDataSegmentLength : Bytes
  firstBurstLength : Bytes
  maxBurstLength : Bytes
  which : Bytes
deriving DecidableEq, Repr

/-- `g_target` and the other globals that are set, with the buffer.  Nothing reads `removed`: it
lists the pieces that the first loop has cut out. -/
structure Setup where
  buffer : Bytes
  fileLength : Int
  removed : List CStr
  target : List InitiatorTarget
  numTargets : Int
deriving DecidableEq, Repr

/-- An entry of `g_target` that is zero. -/
def InitiatorTarget.zero : InitiatorTarget :=
  let field := List.replicate maxLen 0
  ⟨0, field, 0, field, field, field, field, field, field, field, field, field, field, field⟩

/-- Before the file is read. -/
def Setup.start : Setup :=
  ⟨[], 0, [], List.replicate configInitiatorMaxTargets .zero, 0⟩

/-- A function on them. -/
abbrev SetupProg (α : Type) : Type := Prog Halt Setup α

/-! ## The buffer -/

/-- The string at an index of the buffer. -/
def stringAt (i : Nat) : SetupProg CStr := do
  let s ← get
  if 0 ∈ s.buffer.drop i then
    return (s.buffer.drop i).takeWhile (· ≠ 0)
  else
    halt .fault

/-- `strstr`, and `strchr` where the pattern is one character, from an index of the buffer on. -/
def strstr (i : Nat) (pat : CStr) : SetupProg (Option Nat) := do
  let s ← stringAt i
  return (firstIdx pat s).map (i + ·)

/-- `memcpy` within the buffer. -/
def memcpy (moves : Bool) (dst src : Nat) (n : Int) : SetupProg PUnit := do
  let s ← get
  let m := n.toNat
  if n < 0 ∨ s.buffer.length < src + m ∨ s.buffer.length < dst + m then
    halt .fault
  else if dst < src + m ∧ src < dst + m ∧ ¬(moves ∧ dst ≤ src) then
    halt .fault
  else
    modify fun s =>
      { s with
        buffer := s.buffer.take dst ++ (s.buffer.drop src).take m ++ s.buffer.drop (dst + m) }

/-- A byte of the buffer is set. -/
def store (i : Int) (c : UInt8) : SetupProg PUnit := do
  let s ← get
  if 0 ≤ i ∧ i < s.buffer.length then
    modify fun s => { s with buffer := s.buffer.set i.toNat c }
  else
    halt .fault

/-! ## Comments -/

/-- One round of the loop that removes C comments. -/
def removeCComment (moves : Bool) : SetupProg PUnit := do
  match ← strstr 0 [47, 42] with
  | some ptr =>
    match ← strstr (ptr + 1) [42, 47] with
    | some ptr2 =>
      modify fun s =>
        { s with removed := s.removed ++ [(s.buffer.drop ptr).take (ptr2 + 2 - ptr)] }
      memcpy moves ptr (ptr2 + 2) ((← get).fileLength - ptr2 - 2)
      modify fun s => { s with fileLength := s.fileLength - ((ptr2 - ptr) + 2) }
      store (← get).fileLength 0
    | none => return ⟨⟩
  | none => return ⟨⟩

/-- One round of the loop that removes shell comments. -/
def removeShellComment (moves : Bool) : SetupProg PUnit := do
  match ← strstr 0 [35] with
  | some ptr =>
    match ← strstr (ptr + 1) [10] with
    | some ptr2 =>
      memcpy moves ptr (ptr2 + 1) ((← get).fileLength - ptr2 - 1)
      modify fun s => { s with fileLength := s.fileLength - ((ptr2 - ptr) + 1) }
      store (← get).fileLength 0
    | none =>
      let comment ← stringAt ptr
      modify fun s => { s with fileLength := s.fileLength - comment.length }
      store (← get).fileLength 0
  | none => return ⟨⟩

/-- `while (ptr)`: a round, and another one as long as the pattern is there.  The number bounds the
rounds. -/
def whilePtr (round : SetupProg PUnit) (pat : CStr) : Nat → SetupProg PUnit
  | 0 => halt .hang
  | n + 1 => do
    round
    match ← strstr 0 pat with
    | some _ => whilePtr round pat n
    | none => return ⟨⟩

/-- Both loops. -/
def removeComments (moves : Bool) (n : Nat) : SetupProg PUnit := do
  whilePtr (removeCComment moves) [47, 42] n
  whilePtr (removeShellComment moves) [35] n

/-! ## Tokens -/

/-- `strncpy` into a field. -/
def strncpy (dst : Bytes) (src : CStr) (n : Nat) : Bytes :=
  src.take n ++ List.replicate (n - src.length) 0 ++ dst.drop n

/-- `ASSIGN`, `ASSIGN_INT` and `ASSIGN_INT_FROM_INT`: one entry, or all of them. -/
def assign (tid : Int) (set : InitiatorTarget → InitiatorTarget) : SetupProg PUnit :=
  if tid = -1 then
    modify fun s => { s with target := s.target.map set }
  else if 0 ≤ tid ∧ tid < configInitiatorMaxTargets then
    modify fun s => { s with target := s.target.modify tid.toNat set }
  else
    halt .fault

/-- A key of the file, its length as the code has it, and what the text behind it sets. -/
structure Key where
  name : String
  len : Nat
  set : CStr → InitiatorTarget → InitiatorTarget

/-- The key that starts the next target. -/
def ipKey : Key := ⟨"ip=", 3, fun v t => { t with ip := strncpy t.ip v (maxLen - 3) }⟩

/-- The keys that set a field of a target, in the order in which they are looked for. -/
def keys : List Key :=
  [⟨"fix=", 4, fun v t => { t with fixAddress := iscsiAtoi v }⟩,
    ⟨"port=", 5, fun v t => { t with port := iscsiAtoi v }⟩,
    ⟨"which=", 6, fun v t => { t with which := strncpy t.which v (maxLen - 6) }⟩,
    ⟨"TargetUser=", 11, fun v t => { t with targetUser := strncpy t.targetUser v (maxLen - 11) }⟩,
    ⟨"TargetPass=", 11, fun v t => { t with targetPass := strncpy t.targetPass v (maxLen - 11) }⟩,
    ⟨"InitiatorUser=", 14,
      fun v t => { t with initiatorUser := strncpy t.initiatorUser v (maxLen - 14) }⟩,
    ⟨"InitiatorPass=", 14,
      fun v t => { t with initiatorPass := strncpy t.initiatorPass v (maxLen - 14) }⟩,
    ⟨"ImmediateData=", 14,
      fun v t => { t with immediateData := strncpy t.immediateData v (maxLen - 14) }⟩,
    ⟨"InitialR2T=", 11, fun v t => { t with initialR2T := strncpy t.initialR2T v (maxLen - 11) }⟩,
    ⟨"MaxRecvDataSegmentLength=", 25, fun v t =>
      { t with maxRecvDataSegmentLength := strncpy t.maxRecvDataSegmentLength v (maxLen - 25) }⟩,
    ⟨"FirstBurstLength=", 17,
      fun v t => { t with firstBurstLength := strncpy t.firstBurstLength v (maxLen - 17) }⟩,
    ⟨"MaxBurstLength=", 15,
      fun v t => { t with maxBurstLength := strncpy t.maxBurstLength v (maxLen - 15) }⟩,
    ⟨"TargetName=", 11, fun v t => { t with targetName := strncpy t.targetName v (maxLen - 11) }⟩]

/-- Whether a key is somewhere in a token. -/
def Key.isIn (key : Key) (token : CStr) : Bool := (firstIdx (cstr key.name) token).isSome

/-- A token that does not start a target; one without a key is ignored. -/
def assignToken (tid : Int) (token : CStr) : SetupProg PUnit :=
  match keys.find? fun key => key.isIn token with
  | some key => assign tid (key.set (token.drop key.len))
  | none => return ⟨⟩

/-- The tokens one after another.  There is no target at the end where the function returns. -/
def assignTokens : List CStr → Int → SetupProg (Option Int)
  | [], tid => return some tid
  | token :: tokens, tid => do
    if ipKey.isIn token then
      if tid + 1 > configInitiatorMaxTargets then
        return none
      else
        assign (tid + 1) (ipKey.set (token.drop ipKey.len))
        assignTokens tokens (tid + 1)
    else
      assignToken tid token
      assignTokens tokens tid

/-- The tokens that `strsep` takes from a string. -/
def tokens (s : CStr) : List CStr := s.splitOnP fun c => c = 32 ∨ c = 10

/-- The defaults, and the tokens. -/
def assignAll : SetupProg Int := do
  assign (-1) fun t => { t with port := iscsiPort }
  let text ← stringAt 0
  match ← assignTokens (tokens text) (-1) with
  | some tid =>
    modify fun s => { s with numTargets := tid + 1 }
    return 0
  | none => return -1

/-! ## The file -/

/-- The size of the buffer, less its last byte. -/
def bufferLength : Nat := 65536

/-- The file is read into a buffer from the heap. -/
def readFile (heap : Nat → UInt8) (file : Bytes) : SetupProg PUnit := modify fun s =>
  let bytes := file.take bufferLength
  { s with
    buffer := bytes ++ 0 :: (List.range (bufferLength - bytes.length)).map heap
    fileLength := bufferLength
    removed := [] }

/-- `get_target_config` once the file is open and there is memory for the buffer. -/
def parseFile (moves : Bool) (n : Nat) (heap : Nat → UInt8) (file : Bytes) : SetupProg Int := do
  readFile heap file
  removeComments moves n
  assignAll

/-- `get_target_config`, from the name of the file, its content if it can be opened, and whether
there is memory for the buffer. -/
def getTargetConfig (moves : Bool) (n : Nat) (heap : Nat → UInt8) (filename : CStr)
    (file : Option Bytes) (memory : Bool) : SetupProg Int :=
  if filename = [] then
    return -1
  else
    match file with
    | none => return -1
    | some file => if memory then parseFile moves n heap file else return -1

end Ost.Config
