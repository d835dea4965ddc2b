import Ost.Target.ReadData
import Ost.Util.Locks

/-!
# The lock of a session

`device_command_done` and `target_transfer_data` take `slock` around each PDU they send, and leave
it taken when the transmission fails.  So the lock is free afterwards just when every PDU went out.
The device may complete a command while it is given one, so what holds of these two holds of all its
programs.
-/

namespace Ost.Disk

open Ost.Iscsi Ost.Util Ost.Param Ost.Prog Ost.Target

/-! ## What was sent and the lock -/

/-- The lock is free when it was free before, and every PDU that was handed to the socket went
out. -/
def Unlocks (s s' : Local) : Prop :=
  ∃ new, s'.slot.conn.sent = s.slot.conn.sent ++ new ∧
    (s'.slot.conn.slock = false ↔ s.slot.conn.slock = false ∧ ∀ x ∈ new, x.ok = true)

namespace Unlocks

/-- The connection was not touched. -/
theorem of_conn {s s' : Local} (h : s'.slot.conn = s.slot.conn) : Unlocks s s' :=
  ⟨[], by rw [h, List.append_nil], by rw [h, and_iff_left fun x hx => absurd hx List.not_mem_nil]⟩

/-- What two programs do one after the other. -/
instance instIsPreorder : IsPreorder Local Unlocks where
  refl _ := of_conn rfl
  trans := by
    rintro s₁ s₂ s₃ ⟨new, hsent, hlock⟩ ⟨new', hsent', hlock'⟩
    refine ⟨new ++ new', by rw [hsent', hsent, List.append_assoc], ?_⟩
    rw [hlock', hlock, List.forall_mem_append, and_assoc]

end Unlocks

/-! ### The primitive programs -/

section Primitives

variable {α : Type}

/-- The numbers of the session. -/
instance unlocks_onSeq (f : SeqNums → α × SeqNums) : Within Unlocks (onSeq f) :=
  ⟨fun _ => .of_conn rfl⟩

/-- The structures of a session. -/
instance unlocks_onPool (f : Pool → α × Pool) : Within Unlocks (onPool f) :=
  ⟨fun _ => .of_conn rfl⟩

/-- The device. -/
instance unlocks_onDev (f : Device → α × Device) : Within Unlocks (onDev f) :=
  ⟨fun _ => .of_conn rfl⟩

instance unlocks_modifySeq (f : SeqNums → SeqNums) : Within Unlocks (modifySeq f) :=
  unlocks_onSeq _

/-- A command is one of the structures. -/
instance unlocks_modifyCmd (c : Nat) (f : TargetCmd → TargetCmd) :
    Within Unlocks (modifyCmd c f) := unlocks_onPool _

instance unlocks_modifyScsi (c : Nat) (f : ScsiCmd → ScsiCmd) :
    Within Unlocks (modifyScsi c f) := unlocks_modifyCmd c _

/-- Structures go back to their queues. -/
instance unlocks_putHeader (i : Nat) : Within Unlocks (putHeader i) := unlocks_onPool _

instance unlocks_putCmd (i : Nat) : Within Unlocks (putCmd i) := unlocks_onPool _

/-- The table of outstanding commands. -/
instance unlocks_removeOutstanding (tag : UInt32) : Within Unlocks (removeOutstanding tag) := by
  unfold removeOutstanding
  infer_instance

instance unlocks_modifyDev (f : Device → Device) : Within Unlocks (modifyDev f) := unlocks_onDev _

instance unlocks_logDev (e : DevEvent) : Within Unlocks (logDev e) := unlocks_modifyDev _

instance unlocks_nextIo : Within Unlocks nextIo := unlocks_onDev _

instance unlocks_onMem (f : Memory → Memory) : Within Unlocks (onMem f) := unlocks_modifyDev _

instance unlocks_poke (r : Region) (off : Nat) (bs : Bytes) : Within Unlocks (poke r off bs) :=
  unlocks_onMem _

instance unlocks_takeStaging : Within Unlocks takeStaging := unlocks_onDev _

instance unlocks_putStaging (v : Iov) : Within Unlocks (putStaging v) := unlocks_onDev _

instance unlocks_putStagings (l : List Iov) : Within Unlocks (l.forM putStaging) := by
  induction l with
  | nil => exact within_pure _
  | cons v l ih => exact within_bind (putStaging v) fun _ => l.forM putStaging

/-- The queue of the LUN worker. -/
instance unlocks_lunInsert (id c : Nat) : Within Unlocks (lunInsert id c) := unlocks_onDev _

/-- A PDU for which the lock is not given back on a failure. -/
instance unlocks_sendLeaky (p : TargetPdu) (data : Option Bytes) :
    Within Unlocks (sendLeaky p data) where
  run s := by
    cases hlock : s.slot.conn.slock with
    | true =>
      rw [ensures, wp, sendLeaky_locked p data hlock]
      trivial
    | false =>
      obtain ⟨conn, hconn, hsend⟩ := sendLeaky_free p data hlock
      obtain ⟨d, n, hc, -⟩ := Conn.send_spec p data { s.slot.conn with slock := true }
      rw [hc] at hconn
      subst hconn
      rw [ensures, wp, hsend]
      cases hok : (Conn.send p data { s.slot.conn with slock := true }).1 with
      | true =>
        refine ⟨[⟨p, d, true⟩], rfl, iff_of_true rfl ⟨hlock, fun x hx => ?_⟩⟩
        rw [List.mem_singleton.mp hx]
      | false =>
        refine ⟨[⟨p, d, false⟩], rfl, iff_of_false Bool.noConfusion fun h => ?_⟩
        exact Bool.false_ne_true (h.2 _ (List.mem_singleton_self _))

end Primitives

/-! ### The completion of a command -/

section Completion

variable (c : Nat)

/-- A read data PDU that is not sent ends the loop. -/
instance unlocks_sendReadData (sg : List Iov) (len mdsl fuel offset : Nat) (dataSN : UInt32) :
    Within Unlocks (sendReadData c sg len mdsl fuel offset dataSN) := by
  induction fuel generalizing offset dataSN with
  | zero => exact within_halt _
  | succ fuel ih =>
    unfold sendReadData
    split
    · dsimp only
      split <;> infer_instance
    · infer_instance

/-- The data of a read, before its status. -/
instance unlocks_sendInput : Within Unlocks (sendInput c) := by
  unfold sendInput
  refine .bind inferInstance fun cmd => ?_
  dsimp only
  split <;> infer_instance

instance unlocks_sendResponse (dataSN : UInt32) : Within Unlocks (sendResponse c dataSN) := by
  unfold sendResponse
  infer_instance

instance unlocks_retire : Within Unlocks (retire c) := by
  unfold retire
  infer_instance

/-- The callback, whose return value says whether all was sent. -/
instance unlocks_deviceCommandDone : Within Unlocks (deviceCommandDone c) := by
  unfold deviceCommandDone
  refine .bind inferInstance fun cmd => ?_
  split
  · infer_instance
  · refine .bind inferInstance fun _ => .bind inferInstance fun r => ?_
    split <;> infer_instance

end Completion

/-! ### The device -/

section Device

variable (id c : Nat)

instance unlocks_openTraceFile (a : ScsiCmd) : Within Unlocks (openTraceFile a) := by
  unfold openTraceFile
  infer_instance

/-- What a write has brought goes to the medium. -/
instance unlocks_writeOut : Within Unlocks (writeOut c) := by
  unfold writeOut
  infer_instance

instance unlocks_unmapBuffers (l : List Iov) (type : MemType) :
    Within Unlocks (unmapBuffers l type) := by
  unfold unmapBuffers
  infer_instance

instance unlocks_releaseBuffers : Within Unlocks (releaseBuffers c) := by
  unfold releaseBuffers
  infer_instance

/-- `command_done` passes on what the callback returns. -/
instance unlocks_commandDone : Within Unlocks (commandDone id c) := by
  unfold commandDone
  refine .bind inferInstance fun cmd => .bind inferInstance fun opened => ?_
  split
  · infer_instance
  · repeat refine .bind inferInstance fun _ => ?_
    infer_instance

instance unlocks_countDown : Within Unlocks countDown := by
  unfold countDown
  infer_instance

/-- Handing a command to the LUN worker. -/
instance unlocks_lunEnqueue : Within Unlocks (lunEnqueue id c) := by
  unfold lunEnqueue
  infer_instance

/-- An R2T that is not sent ends the loop. -/
instance unlocks_sendR2ts (fuel transferred remaining : Nat) :
    Within Unlocks (sendR2ts c fuel transferred remaining) := by
  induction fuel generalizing transferred remaining with
  | zero => exact within_halt _
  | succ fuel ih =>
    unfold sendR2ts
    infer_instance

instance unlocks_requestData : Within Unlocks (requestData c) := by
  unfold requestData
  infer_instance

/-- Asking for the data of a write, or handing it to the device. -/
instance unlocks_targetTransferData (enqueue : Nat → Handler Int)
    [h : ∀ c, Within Unlocks (enqueue c)] : Within Unlocks (targetTransferData enqueue c) := by
  unfold targetTransferData placeDone
  infer_instance

instance unlocks_copyImmediate : Within Unlocks (copyImmediate c) := by
  unfold copyImmediate
  infer_instance

instance unlocks_prepareTransfer : Within Unlocks (prepareTransfer id c) := by
  unfold prepareTransfer
  infer_instance

/-- Space for the data of a write. -/
instance unlocks_writeAllocateSpace (lba len : Nat) :
    Within Unlocks (writeAllocateSpace c lba len) := by
  unfold writeAllocateSpace
  dsimp only
  refine .bind inferInstance fun d => ?_
  split
  · infer_instance
  · split
    · refine .bind inferInstance fun i => ?_
      split <;> infer_instance
    · infer_instance

instance unlocks_prepareWrite (lba len : Nat) : Within Unlocks (prepareWrite id c lba len) := by
  unfold prepareWrite
  refine .bind inferInstance fun d => .bind inferInstance fun cmd => ?_
  split
  · infer_instance
  split
  · infer_instance
  · refine .bind inferInstance fun v => ?_
    split <;> infer_instance

/-- Space for the data of a read. -/
instance unlocks_readAllocateSpace (lba len : Nat) :
    Within Unlocks (readAllocateSpace c lba len) := by
  unfold readAllocateSpace
  dsimp only
  refine .bind inferInstance fun d => ?_
  split
  · infer_instance
  · infer_instance
  · infer_instance
  all_goals
    refine .bind inferInstance fun i => ?_
    split <;> infer_instance

instance unlocks_diskRead (lba len : Nat) : Within Unlocks (diskRead c lba len) := by
  unfold diskRead
  refine .bind inferInstance fun d => ?_
  dsimp only
  split
  · infer_instance
  split
  · infer_instance
  split
  · infer_instance
  refine .bind inferInstance fun v => ?_
  split <;> infer_instance

/-- The ends of `device_command`. -/
instance unlocks_finish : Within Unlocks (finish id c) := by
  unfold finish
  infer_instance

instance unlocks_finishWith (status : UInt8) : Within Unlocks (finishWith id c status) := by
  unfold finishWith
  infer_instance

instance unlocks_finishReply (reply : Memory → Memory) (length : Nat) :
    Within Unlocks (finishReply id c reply length) := by
  unfold finishReply
  infer_instance

instance unlocks_deviceWrite (lba len : Nat) (status : UInt8) :
    Within Unlocks (deviceWrite id c lba len status) := by
  unfold deviceWrite
  infer_instance

/-- The `switch` on the opcode. -/
instance unlocks_deviceOp (cfg : DiskConfig) (a : ScsiCmd) (op : UInt8) :
    Within Unlocks (deviceOp id c cfg a op) := by
  have hread {x : Option Nat → Handler Int} (hx : ∀ r, Within Unlocks (x r)) (lba len : Nat) :
      Within Unlocks (diskRead c lba len >>= x) := .bind inferInstance hx
  unfold deviceOp
  -- the commands are all instances, but for the two reads
  refine .ite _ (.ite _ (.ite _ (.ite _ (@within_ite _ _ _ _ _ _ _ _ ?_ (.ite _
    (@within_ite _ _ _ _ _ _ _ _ ?_ inferInstance))))))
  · exact hread (fun r => by cases r <;> infer_instance) _ _
  · exact hread (fun r => by cases r <;> infer_instance) _ _

instance unlocks_deviceCommand : Within Unlocks (deviceCommand id c) := by
  unfold deviceCommand
  infer_instance

instance unlocks_deviceEnqueue : Within Unlocks (deviceEnqueue id c) := by
  unfold deviceEnqueue
  infer_instance

end Device

/-! ## Calls -/

/-- The calls that keep the lock of a session when a transmission fails. -/
inductive SendCall where
  | /-- `device_command_done`. -/
    commandDone (c : Nat)
  | /-- `target_transfer_data`. -/
    transferData (c : Nat)
  | /-- Anything that happens to the session and to the disk, with the lock free again. -/
    between (f : Local → Local)

/-- One of them, in the session with the number `id`.  The log is of what these calls send. -/
def sendCall (id : Nat) : SendCall → Handler Int
  | .commandDone c => deviceCommandDone c
  | .transferData c => targetTransferData (deviceEnqueue id) c
  | .between f => do
    modify fun s => (f s).setConn { (f s).slot.conn with
      slock := s.slot.conn.slock, sent := s.slot.conn.sent }
    return 0

/-- Each of the calls. -/
instance unlocks_sendCall (id : Nat) (op : SendCall) : Within Unlocks (sendCall id op) := by
  cases op with
  | commandDone c => exact unlocks_deviceCommandDone c
  | transferData c => exact unlocks_targetTransferData c (deviceEnqueue id)
  | between f =>
    refine .bind (within_modify fun s => ⟨[], ?_, ?_⟩) fun _ => within_pure _
    · exact (List.append_nil _).symm
    · exact (and_iff_left fun x hx => absurd hx List.not_mem_nil).symm

section Discipline

variable {α : Type} [DecidableEq α]

/-- The locks are freed, but by the insertion of a key that is there, and by a call of which a
transmission has failed. -/
theorem locks_freed (id : Nat) :
    (∀ (fuel : Nat) (ops : List (QueueCall α)) (q : LockedQueue α), q.lock = false →
      queueLock.FreeThroughout (queueCall fuel) ops q) ∧
    (∀ (op : HashOp α) (h : HashTable α), h.lock = false →
      ((∀ fuel, ensures (HashTable.hashCall fuel op) (fun _ h' => h'.lock = false) h) ↔
        ¬HashTable.Rehashes op h)) ∧
    (∀ (fuel : Nat) (ops : List (HashOp α)) (h : HashTable α), h.lock = false →
      Along (fun op h => ¬HashTable.Rehashes op h) (HashTable.hashCall fuel) ops h →
      hashLock.FreeThroughout (HashTable.hashCall fuel) ops h) ∧
    ∀ (ops : List SendCall) (s : Local), s.slot.conn.slock = false →
      ensures (calls (sendCall id) ops) (fun _ s' =>
        ∃ new, s'.slot.conn.sent = s.slot.conn.sent ++ new ∧
          (s'.slot.conn.slock = false ↔ ∀ x ∈ new, x.ok = true)) s := by
  refine ⟨fun fuel ops q => freeThroughout_queueCall fuel ops, fun op h => ?_,
    fun fuel ops h => HashTable.freeThroughout_hashCall, fun ops s hfree => ?_⟩
  · exact HashTable.hashCall_frees_iff
  · refine (Within.run (R := Unlocks) (x := calls (sendCall id) ops) s).mono ?_
    rintro _ s' ⟨new, hsent, hlock⟩
    exact ⟨new, hsent, hlock.trans (and_iff_right hfree)⟩

end Discipline

/-- A read of eight bytes, whose response is not sent. -/
def unanswered : Local :=
  (reading 8 0).setConn { (reading 8 0).slot.conn with tx := [true, true, false] }

/-- A table of one bucket, with the key 5 in it. -/
def fiveTable : HashTable Nat := ⟨fun _ => some 0, 0, 1, 1, false, fun _ => ⟨none, 5, 7⟩⟩

/-- The key 6 may be inserted, and the lock is free in the end; and a read that was sent. -/
theorem locks_freed_five :
    hashLock.FreeThroughout (HashTable.hashCall 3) [.insert 1 6 8, .get 5] fiveTable ∧
    ensures (calls (sendCall 0) [.commandDone 0]) (fun _ s' =>
      ∃ new, s'.slot.conn.sent = (reading 8 0).slot.conn.sent ++ new ∧
        (s'.slot.conn.slock = false ↔ ∀ x ∈ new, x.ok = true)) (reading 8 0) := by
  refine ⟨(@locks_freed Nat _ 0).2.2.1 3 _ fiveTable rfl
    ⟨?_, (ensures_true _ _).mono fun _ _ _ => ⟨not_false, (ensures_true _ _).mono fun _ _ _ => ?_⟩⟩,
    (@locks_freed Nat _ 0).2.2.2 _ (reading 8 0) rfl⟩
  · rintro ⟨-, b, hb, hkey⟩
    have hnext : b = 0 := by
      cases hb with
      | head => rfl
      | next hb => cases hb
    subst hnext
    exact absurd hkey (by decide)
  · trivial

/-- After the second insertion of a key the next call waits forever, and after a failed transmission
the lock is held. -/
theorem locks_kept :
    ¬hashLock.FreeThroughout (HashTable.hashCall 3) [.insert 1 5 8, .get 5] fiveTable ∧
    ((deviceCommandDone 0 unanswered).value? = some (-1) ∧ unanswered.slot.conn.slock = false ∧
      (deviceCommandDone 0 unanswered).state.slot.conn.slock = true) := by
  refine ⟨?_, by decide +kernel, rfl, by decide +kernel⟩
  rintro ⟨⟨-, hinsert⟩, -⟩
  have hrun : (HashTable.hashCall 3 (.insert 1 5 8) fiveTable).value? = some (.status (-1)) := by
    decide +kernel
  have hheld : (HashTable.hashCall 3 (.insert 1 5 8) fiveTable).state.lock = true := by
    decide +kernel
  obtain ⟨h', hret⟩ := Outcome.exists_ret hrun
  rw [hret] at hheld
  exact absurd ((hinsert.of_ret hret).1.symm.trans hheld) Bool.false_ne_true

end Ost.Disk
