import Ost.Util.HashRuns
import Ost.Util.QueueRuns

/-!
# The locks of the queue and of the hash

`LockedQueue` is the queue with its lock, and the functions of `util.c` with the calls that take and
release it; what they do to the queue is in `Ost.Util.Queue`.  Every path through them ends with a
release, or does not take the lock.  So does every path through the functions of the hash but one:
the loop of `hash_insert` returns at once when it meets the key.

The functions are looked at in any state of the queue and of the table, also in one that no caller
brings about, in which their loops may not end.
-/

namespace Ost.Util

open Ost.Prog Ost.Prog.Lock

variable {α : Type}

/-! ## The queue -/

/-- `ISCSI_QUEUE_T` with its lock. -/
structure LockedQueue (α : Type) where
  queue : IscsiQueue α
  lock : Bool

/-- `q->lock`. -/
def queueLock : Lock (LockedQueue α) where
  held s := s.lock
  set b s := { s with lock := b }
  held_set _ _ := rfl

/-- A call of the module. -/
abbrev QueueProg (α β : Type) : Type := Prog Halt (LockedQueue α) β

namespace LockedQueue

/-- Store the queue. -/
def setQueue (q : IscsiQueue α) : QueueProg α PUnit := modify fun s => { s with queue := q }

/-- `iscsi_queue_insert`. -/
def insert (ptr : α) : QueueProg α Int := do
  queueLock.acquire .hang
  match iscsiQueueInsert (← get).queue ptr with
  | none =>
    queueLock.release
    return -1
  | some q =>
    setQueue q
    queueLock.release
    return 0

/-- `iscsi_queue_remove`. -/
def remove : QueueProg α (Option α) := do
  queueLock.acquire .hang
  match iscsiQueueRemove (← get).queue with
  | none =>
    queueLock.release
    return none
  | some (ptr, q) =>
    setQueue q
    queueLock.release
    return some ptr

/-- The loop of `iscsi_queue_print`, without what it prints. -/
def printFrom : Nat → Nat → QueueProg α PUnit
  | 0, _ => halt .hang
  | fuel + 1, i => do
    let q := (← get).queue
    let i := if i = q.depth then 0 else i
    if i = q.tail then return ⟨⟩ else printFrom fuel (i + 1)

/-- `iscsi_queue_print`. -/
def print (fuel : Nat) : QueueProg α Int := do
  queueLock.acquire .hang
  if iscsiQueueDepth (← get).queue = 0 then
    queueLock.release
    return 0
  else
    printFrom fuel (← get).queue.head
    queueLock.release
    return 0

/-- `iscsi_queue_get_head`, which does not take the lock. -/
def getHead : QueueProg α α := gets fun s => s.queue.elem s.queue.head

/-- The loop of `iscsi_queue_get_this`. -/
def getFrom [DecidableEq α] (this : α) : Nat → Nat → QueueProg α (Option α)
  | 0, _ => halt .hang
  | fuel + 1, pos => do
    let q := (← get).queue
    let pos := if pos = q.depth then 0 else pos
    if q.elem pos = this then
      queueLock.release
      return some (q.elem pos)
    else if pos = q.tail then
      queueLock.release
      return none
    else getFrom this fuel (pos + 1)

/-- `iscsi_queue_get_this`. -/
def getThis [DecidableEq α] (fuel : Nat) (this : α) : QueueProg α (Option α) := do
  if iscsiQueueDepth (← get).queue = 0 then return none
  else
    queueLock.acquire .hang
    getFrom this fuel (← get).queue.head

/-- The loop of `iscsi_queue_remove_this`. -/
def removeFrom [DecidableEq α] (this : α) : Nat → Nat → QueueProg α (Option α)
  | 0, _ => halt .hang
  | fuel + 1, pos => do
    let q := (← get).queue
    let pos := if pos = q.depth then 0 else pos
    if q.elem pos = this then
      setQueue (iscsiQueueStrike q pos)
      queueLock.release
      return some this
    else if pos = q.tail then
      queueLock.release
      return none
    else removeFrom this fuel (pos + 1)

/-- `iscsi_queue_remove_this`. -/
def removeThis [DecidableEq α] (fuel : Nat) (this : α) : QueueProg α (Option α) := do
  if iscsiQueueDepth (← get).queue = 0 then return none
  else
    queueLock.acquire .hang
    removeFrom this fuel (← get).queue.head

end LockedQueue

/-- The calls of the queue. -/
inductive QueueCall (α : Type) where
  | insert (ptr : α)
  | remove
  | print
  | getHead
  | getThis (this : α)
  | removeThis (this : α)
  | depth
  | full
deriving Repr

/-- One call. -/
def queueCall [DecidableEq α] (fuel : Nat) : QueueCall α → QueueProg α (QueueResult α)
  | .insert ptr => return .status (← LockedQueue.insert ptr)
  | .remove => return .ptr (← LockedQueue.remove)
  | .print => return .status (← LockedQueue.print fuel)
  | .getHead => return .ptr (some (← LockedQueue.getHead))
  | .getThis this => return .ptr (← LockedQueue.getThis fuel this)
  | .removeThis this => return .ptr (← LockedQueue.removeThis fuel this)
  | .depth => return .num (iscsiQueueDepth (← get).queue)
  | .full => return .bool (iscsiQueueFull (← get).queue)

section Queue

variable [DecidableEq α]

/-- The loops of the two searches end with a release. -/
instance frees_getFrom (this : α) (fuel pos : Nat) :
    queueLock.Frees (LockedQueue.getFrom this fuel pos) := by
  induction fuel generalizing pos with
  | zero => exact queueLock.frees_halt _
  | succ fuel ih =>
    rw [LockedQueue.getFrom]
    infer_instance

instance frees_removeFrom (this : α) (fuel pos : Nat) :
    queueLock.Frees (LockedQueue.removeFrom this fuel pos) := by
  induction fuel generalizing pos with
  | zero => exact queueLock.frees_halt _
  | succ fuel ih =>
    rw [LockedQueue.removeFrom]
    infer_instance

instance stays_insert (ptr : α) : queueLock.Stays (LockedQueue.insert ptr) := by
  rw [LockedQueue.insert]
  refine queueLock.stays_acquire (.bind _ fun s => ?_)
  split <;> infer_instance

instance stays_remove : queueLock.Stays (LockedQueue.remove : QueueProg α (Option α)) := by
  rw [LockedQueue.remove]
  refine queueLock.stays_acquire (.bind _ fun s => ?_)
  split <;> infer_instance

instance stays_print (fuel : Nat) : queueLock.Stays (LockedQueue.print fuel : QueueProg α Int) := by
  rw [LockedQueue.print]
  infer_instance

instance stays_getThis (fuel : Nat) (this : α) :
    queueLock.Stays (LockedQueue.getThis fuel this) := by
  rw [LockedQueue.getThis]
  infer_instance

instance stays_removeThis (fuel : Nat) (this : α) :
    queueLock.Stays (LockedQueue.removeThis fuel this) := by
  rw [LockedQueue.removeThis]
  infer_instance

instance stays_getHead : queueLock.Stays (LockedQueue.getHead : QueueProg α α) :=
  within_gets _

/-- Every call leaves the lock free. -/
instance stays_queueCall (fuel : Nat) (op : QueueCall α) :
    queueLock.Stays (queueCall fuel op) := by
  cases op <;> rw [queueCall] <;> infer_instance

/-- So no call of the queue waits for it. -/
theorem freeThroughout_queueCall (fuel : Nat) (ops : List (QueueCall α)) {q : LockedQueue α}
    (hfree : q.lock = false) : queueLock.FreeThroughout (queueCall fuel) ops q :=
  queueLock.freeThroughout_of_along (P := fun _ _ => True)
    (fun op q _ h => ((stays_queueCall fuel op).run q).mono fun _ _ hkept => hkept h)
    (along_of_forall (fun _ _ => trivial) ops) hfree

end Queue

/-! ## The hash -/

namespace HashTable

/-- The functions that look for a key free the lock, whatever they find. -/
instance stays_getCurr (fuel : Nat) (key : UInt32) :
    hashLock.Stays (getCurr fuel key : HashProg α (Option Nat)) := by
  rw [getCurr]
  refine hashLock.stays_acquire (.bind _ fun i => .bind _ fun h => ?_)
  split <;> infer_instance

instance stays_removeCurr (fuel : Nat) (key : UInt32) :
    hashLock.Stays (removeCurr fuel key : HashProg α (Option Nat)) := by
  rw [removeCurr]
  refine hashLock.stays_acquire (.bind _ fun i => .bind _ fun h => ?_)
  split <;> infer_instance

instance frees_removeFirst (is : List Nat) :
    hashLock.Frees (removeFirst is : HashProg α (Option Nat)) := by
  induction is with
  | nil =>
    rw [removeFirst]
    infer_instance
  | cons i is ih =>
    rw [removeFirst]
    refine .bind _ fun h => ?_
    split <;> infer_instance

/-- Reading the pointer of an element. -/
instance stays_ptrOf (curr : Option Nat) : hashLock.Stays (ptrOf curr : HashProg α (Option α)) :=
  within_gets _

/-- The end of an insertion frees the lock. -/
instance frees_inserted : hashLock.Frees (inserted : HashProg α Int) := by
  rw [inserted]
  infer_instance

section Insert

variable {h : HashTable α} {key : UInt32} {fuel e : Nat}

/-- The loop of `hash_insert` only reads, and it finds the key only in an element that the pointer
leads to. -/
theorem rehashing_spec (p : Option Nat) :
    ensures (rehashing key fuel p) (fun found h' => h' = h ∧
      (found = true → ∃ b, Reaches h.next p b ∧ (h.elem b).key = key)) h := by
  induction fuel generalizing p with
  | zero =>
    cases p with
    | none => exact ⟨rfl, fun hfound => absurd hfound Bool.false_ne_true⟩
    | some a => trivial
  | succ fuel ih =>
    cases p with
    | none => exact ⟨rfl, fun hfound => absurd hfound Bool.false_ne_true⟩
    | some a =>
      rw [rehashing]
      refine (wp_bind _ _).mpr (wp_get.mpr ((wp_ite _ _ _).mpr ⟨fun hkey => ?_, fun _ => ?_⟩))
      · exact ⟨rfl, fun _ => ⟨a, .head a, hkey.symm⟩⟩
      · refine (ih (h.elem a).next).mono fun found h' hrun => ⟨hrun.1, fun hfound => ?_⟩
        obtain ⟨b, hb, hkey⟩ := hrun.2 hfound
        exact ⟨b, .next hb, hkey⟩

/-- With enough fuel it finds the key in such an element. -/
theorem rehashing_found {p : Option Nat} {b : Nat} (hb : Reaches h.next p b)
    (hkey : (h.elem b).key = key) : ∃ fuel, rehashing key fuel p h = .ret true h := by
  induction hb with
  | head a =>
    refine ⟨1, ?_⟩
    rw [rehashing, get_bind, if_pos hkey.symm]
    rfl
  | @next a b hab ih =>
    obtain ⟨fuel, hrun⟩ := ih hkey
    refine ⟨fuel + 1, ?_⟩
    rw [rehashing, get_bind]
    by_cases ha : key = (h.elem a).key
    · rw [if_pos ha]
      rfl
    · rw [if_neg ha]
      exact hrun

/-- The chain that an element goes to leads to an element with its key. -/
def Rehashing (h : HashTable α) (e : Nat) : Prop :=
  h.n ≠ 0 ∧ ∃ b, Reaches h.next (h.bucket ((h.elem e).key.toNat % h.n)) b ∧
    (h.elem b).key = (h.elem e).key

/-- `hash_insert` frees the lock just when it does not find the key. -/
theorem hashInsert_frees_iff (hfree : h.lock = false) :
    (∀ fuel, ensures (hashInsert fuel e) (fun _ h' => h'.lock = false) h) ↔ ¬h.Rehashing e := by
  constructor
  · rintro hall ⟨hn, b, hb, hkey⟩
    obtain ⟨fuel, hfound⟩ := rehashing_found (h := hashLock.set true h) hb hkey
    have hhead : h.bucket ((h.elem e).key.toNat % h.n) ≠ none := by
      intro hnone
      rw [hnone] at hb
      cases hb
    have hrun : hashInsert fuel e h = .ret (-1) (hashLock.set true h) := by
      rw [hashInsert, hashLock.acquire_bind hfree, get_bind, bucketOf, bind_assoc, get_bind,
        if_neg (show (hashLock.set true h).n ≠ 0 from hn), pure_bind, get_bind]
      exact (congrFun (if_neg hhead) _).trans (bind_ret hfound)
    exact Bool.false_ne_true ((hall fuel).of_ret hrun).symm
  · intro hnot fuel
    rw [hashInsert]
    refine hashLock.ensures_acquire fun _ => (wp_bind _ _).mpr (wp_get.mpr ?_)
    change wp (bucketOf (h.elem e).key >>= _) _ _ (hashLock.set true h)
    rw [bucketOf, bind_assoc]
    refine (wp_bind _ _).mpr (wp_get.mpr ?_)
    by_cases hn : h.n = 0
    · rw [if_pos (show (hashLock.set true h).n = 0 from hn)]
      trivial
    rw [if_neg (show (hashLock.set true h).n ≠ 0 from hn), pure_bind]
    refine (wp_bind _ _).mpr (wp_get.mpr ((wp_ite _ _ _).mpr ⟨fun _ => ?_, fun _ => ?_⟩))
    · exact Frees.run (l := hashLock) _
    · refine (rehashing_spec _).bind fun found h' hrun => ?_
      cases found with
      | false =>
        rw [if_neg Bool.false_ne_true]
        exact Frees.run (l := hashLock) _
      | true => exact absurd ⟨hn, hrun.2 rfl⟩ hnot

/-- The call is an insertion, and the chain of the key leads to an element with the key. -/
def Rehashes (op : HashOp α) (h : HashTable α) : Prop :=
  match op with
  | .insert e key ptr =>
    Rehashing { h with elem := Function.update h.elem e { h.elem e with key, ptr } } e
  | _ => False

/-- Every call but such an insertion leaves the lock free. -/
theorem hashCall_frees_iff {op : HashOp α} (hfree : h.lock = false) :
    (∀ fuel, ensures (hashCall fuel op) (fun _ h' => h'.lock = false) h) ↔ ¬Rehashes op h := by
  have hstays (hop : ∀ fuel, hashLock.Stays (hashCall fuel op)) (hnot : ¬Rehashes op h) :
      (∀ fuel, ensures (hashCall fuel op) (fun _ h' => h'.lock = false) h) ↔ ¬Rehashes op h :=
    iff_of_true (fun fuel => ((hop fuel).run h).mono fun _ _ hkept => hkept hfree) hnot
  cases op with
  | insert e key ptr =>
    refine Iff.trans (forall_congr' fun fuel => ?_) (hashInsert_frees_iff (e := e) (h := { h with
      elem := Function.update h.elem e { h.elem e with key, ptr } }) hfree)
    rw [hashCall, fill, ensures, wp_bind, wp_modify, wp_bind]
    rfl
  | get key => exact hstays (fun fuel => by rw [hashCall, HashTable.hashGet]; infer_instance) id
  | getElem key => exact hstays (fun fuel => by rw [hashCall, hashGetElem]; infer_instance) id
  | remove key =>
    exact hstays (fun fuel => by rw [hashCall, HashTable.hashRemove]; infer_instance) id
  | removeElem key => exact hstays (fun fuel => by rw [hashCall, hashRemoveElem]; infer_instance) id
  | removeHead =>
    exact hstays (fun fuel => by rw [hashCall, HashTable.hashRemoveHead]; infer_instance) id
  | count => exact hstays (fun fuel => by rw [hashCall, HashTable.hashCount]; infer_instance) id
  | print => exact hstays (fun fuel => by rw [hashCall, hashPrint]; infer_instance) id

/-- While no key is inserted again, no call of the hash waits for the lock. -/
theorem freeThroughout_hashCall {ops : List (HashOp α)} (hfree : h.lock = false)
    (hops : Along (fun op h => ¬Rehashes op h) (hashCall fuel) ops h) :
    hashLock.FreeThroughout (hashCall fuel) ops h :=
  hashLock.freeThroughout_of_along
    (fun _ _ hnot hfree => (hashCall_frees_iff hfree).mpr hnot fuel) hops hfree

end Insert

end HashTable

end Ost.Util
