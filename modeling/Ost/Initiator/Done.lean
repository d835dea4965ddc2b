import Ost.Initiator.State

/-!
# Submitting, completing and aborting commands

`initiator_enqueue` and the three places that submit a command of their own,
`iscsi_done_i`, `initiator_abort`, and the second half of `session_destroy_i`, which
requeues or aborts whatever is left once the workers have stopped.

A loop of the C code that ends when a container is empty is a recursion on a bound for
the number of its rounds.  Running out of it counts as a hang.
-/

namespace Ost.Initiator

open Ost.Iscsi Ost.Util Ost.Param Ost.Prog

/-! ## Completion -/

/-- The check for a correct transfer in `iscsi_done_i`; too little data from the device only
gets a warning. -/
def ScsiCmd.transferred (q : ScsiCmd) : Bool :=
  if q.pdu.fromdev && q.pdu.todev then
    q.bytesTodev == q.pdu.transLen && q.bytesFromdev == q.bidiTransLen
  else if q.pdu.fromdev then true
  else if q.pdu.todev then q.bytesTodev == q.pdu.transLen
  else q.bytesTodev == 0 && q.bytesFromdev == 0

/-- The same check on a command of any type. -/
def Body.transferred : Body → Bool
  | .scsi q => q.transferred
  | _ => true

/-- `cmd->callback(cmd)`: whether it returned 0. -/
def runCallback (c : Nat) : Handler Bool := fun s =>
  .ret (s.books.mem c).callbackOk (s.setBooks { s.books with called := s.books.called ++ [c] })

/-- `iscsi_done_i`: whether it returned 0. -/
def iscsiDoneI (c : Nat) : Handler Bool := do
  let t ← getCmd c
  let found ← hashDelete t.tag
  if !found && !t.aborted then return false
  guarded (!t.aborted && !t.body.transferred) (setStatus c (-1))
  runCallback c

/-! ## Abort -/

/-- The loop of `initiator_abort`, which takes the first command with the tag out of the queue
and rotates the others.  `start` is the variable of that name. -/
def abortScan (tagOf : Nat → UInt32) (tag : UInt32) :
    Nat → Option Nat → Fifo Nat → Option (Fifo Nat)
  | 0, _, q => some q
  | n + 1, start, q =>
    match q.remove with
    | none => some q
    | some (ptr, q) =>
      if tagOf ptr = tag then some q
      else match q.insert ptr with
        | none => none
        | some q =>
          if start = some ptr then some q
          else abortScan tagOf tag n (start <|> some ptr) q

/-- `initiator_abort`: whether it returned 0. -/
def initiatorAbort (c : Nat) : Handler Bool := do
  modifyCmd c fun t => { t with status := -1, aborted := true }
  let b ← gets fun s => s.books
  match abortScan (fun d => (b.mem d).tag) (b.mem c).tag (b.txQueue.toList.length + 1) none
      b.txQueue with
  | none => return false
  | some q =>
    modify fun s => s.setBooks { s.books with txQueue := q }
    iscsiDoneI c

/-! ## Submission -/

/-- The structure that `initiator_enqueue` builds. -/
def freshCmd (tag : UInt32) (body : Body) (callbackOk : Bool) : InitiatorCmd :=
  { body, tag, txDone := false, status := -1, r2tRequest := 0
    r2t := ⟨0, 0, 0, 0, 0, 0, 0, 0, 0, 0⟩, aborted := false, callbackOk }

/-- Put a new command structure into the tx queue. -/
def submit (c : Nat) (t : InitiatorCmd) : Handler PUnit := do
  if ← queueInsert c then
    modifyCmd c fun _ => t
    modify fun s => s.setBooks { s.books with issued := s.books.issued ++ [c] }

/-- `initiator_enqueue`, with the tag that `ISCSI_SET_TAG_ELSE` draws. -/
def initiatorEnqueue (c : Nat) (tag : UInt32) (body : Body) (callbackOk : Bool) : Handler PUnit :=
  submit c (freshCmd tag body callbackOk)

/-- `logout_phase_i` numbers its command when it builds it, and no other phase does. -/
def Body.numbered (v : Vars) : Body → Body
  | .logout q => .logout { q with immediate := false, cmdSN := v.cmdSN, expStatSN := v.expStatSN }
  | b => b

/-- The variables of the session after that. -/
def Vars.numbering (v : Vars) : Body → Vars
  | .logout _ => { v with cmdSN := v.cmdSN + 1 }
  | _ => v

@[simp] theorem type_numbered (v : Vars) (b : Body) : (b.numbered v).type = b.type := by
  cases b <;> rfl

/-- What `login_phase_i`, `full_feature_negotiation_phase_i` and `logout_phase_i` do in each of
their rounds.  Only the first draws a tag for the command, and its later rounds find `tx_done`
as the round before has left it. -/
def submitControl (c : Nat) (tag : UInt32) (body : Body) (txDone : Bool) : Handler PUnit := do
  let v ← getVars
  modifyVars fun v => v.numbering body
  if (← getFlags).destroying then return
  submit c { freshCmd tag (body.numbered v) true with
    status := 0, txDone, tag := match body with | .login _ => tag | _ => 0 }

/-! ## Recovery -/

/-- The first loop of `session_destroy_i`: abort the login, text and logout commands of the tx
queue and put the others aside in `tmp_queue`. -/
def drainQueue : Nat → Fifo Nat → Handler (Option (Fifo Nat))
  | 0, _ => halt .hang
  | n + 1, tmp => do
    match ← queueRemove with
    | none => return some tmp
    | some c =>
      if (← getCmd c).body.isControl then
        if !(← initiatorAbort c) then return none
        drainQueue n tmp
      else match tmp.insert c with
        | none => return none
        | some tmp => drainQueue n tmp

/-- The second loop: move the commands back. -/
def refillQueue : Nat → Fifo Nat → Handler Bool
  | 0, _ => halt .hang
  | n + 1, tmp => do
    match tmp.remove with
    | none => return true
    | some (c, tmp) =>
      if !(← queueInsert c) then return false
      refillQueue n tmp

/-- `hash_remove_head`. -/
def hashTakeHead : Handler (Option Nat) := fun s =>
  match s.books.cmdHash.removeHead with
  | none => .ret none s
  | some (c, h) => .ret (some c) (s.setBooks { s.books with cmdHash := h })

/-- A SCSI command with its transfer counters reset. -/
def Body.reset : Body → Body
  | .scsi q => .scsi { q with bytesTodev := 0, bytesFromdev := 0 }
  | b => b

/-- An outstanding command as `session_destroy_i` requeues it. -/
def InitiatorCmd.reset (t : InitiatorCmd) : InitiatorCmd :=
  { t with r2tRequest := 0, txDone := false, status := 0, aborted := false, body := t.body.reset }

/-- The third loop: abort or requeue the outstanding commands. -/
def drainHash : Nat → Handler Bool
  | 0 => halt .hang
  | n + 1 => do
    match ← hashTakeHead with
    | none => return true
    | some c =>
      if (← getCmd c).body.isControl then
        if !(← initiatorAbort c) then return false
      else
        modifyCmd c InitiatorCmd.reset
        if !(← queueInsert c) then return false
      drainHash n

/-- `session_destroy_i` from the point where both workers have stopped: its return value. -/
def sessionDestroyI : Handler Int := do
  let b ← gets fun s => s.books
  match ← drainQueue (b.txQueue.toList.length + 1) (.init (configInitiatorQueueDepth - 1)) with
  | none => return -1
  | some tmp =>
    if !(← refillQueue (tmp.toList.length + 1) tmp) then return -1
    let b ← gets fun s => s.books
    if !(← drainHash (b.cmdHash.entries.length + 1)) then return -1
    let b ← gets fun s => s.books
    if b.cmdHash.count ≠ 0 then return -1
    modifyFlags fun _ => .zero
    return 0

end Ost.Initiator
