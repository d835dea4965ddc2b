import Ost.Target.Handlers

/-!
# The daemon

The loop of `worker_proc_t`, the loop of `lun_worker_proc`, the loop of `target_listen`, and
the state they share.

The daemon moves by events: a client connects, a session worker makes one round of its loop,
the LUN worker makes one round of its loop.  An event that cannot happen changes nothing.  A
run is any sequence of events, so it covers every order in which the threads take their
rounds.  A round is whole here.  Where it matters that two threads are in the middle of a round, the
round is cut: `Ost.Session.Status` cuts it where a StatSN is taken and where it is sent.
-/

namespace Ost.Target

open Ost.Iscsi Ost.Util Ost.Param Ost.Prog Ost.Disk

variable (env : Env) (id : Nat)

/-! ## The session worker -/

/-- Move the worker of a slot. -/
def setPhase (p : Phase) : Handler PUnit :=
  modify fun s => { s with slot := { s.slot with phase := p } }

/-- Put a header back unless it was queued with its command: whether that worked. -/
def requeueHeader (h : Nat) (queued : Int) : Handler Bool :=
  if queued = 0 then putHeader h else return true

/-- What `worker_proc_t` does with the result of `execute_t`. -/
def settle (h : Nat) (hdr : Bytes) (queued : Int) : Handler PUnit := do
  if queued < 0 then setPhase .closing
  else do
    let ok ← requeueHeader h queued
    guarded (!ok || iscsiOpcode hdr = opLogoutCmd) (setPhase .closing)

/-- One round of the loop of `worker_proc_t`. -/
def nextPdu : Handler PUnit := do
  match ← takeHeader with
  | none =>
    modifyLogin fun l => { l with isLoggedIn := false }
    setPhase .dead
  | some h =>
    let (rc, hdr) ← sockRecv iscsiHeaderLen
    if rc ≠ iscsiHeaderLen then
      let _ ← putHeader h
      setPhase .closing
    else
      match ← executeT env id h hdr with
      | none => return
      | some queued => settle h hdr queued

/-- A `WRITE_DATA` PDU whose command may have become ready. -/
def resume (h : Nat) (hdr : Bytes) (c : Nat) : Handler PUnit := do
  if !(← getCmd c).ready then return
  modify fun s => s.setWaiting none
  settle h hdr (← writeDataReady id hdr c)

/-- One step of a worker in its loop. -/
def workerRound : Handler PUnit := do
  match (← get).slot.waiting with
  | none => nextPdu env id
  | some (h, hdr, c) => resume id h hdr c

/-- What `worker_proc_t` does after its loop, up to the return of the slot. -/
def cleanUp : Handler PUnit := modify fun s =>
  { s with slot := { s.slot with
      phase := .free
      conn := { s.slot.conn with isOpen := false }
      login := { s.slot.login with
        isLoggedIn := false, ps := { s.slot.login.ps with params := [], cookie := none } }
      pool := { s.slot.pool with cmds := s.slot.pool.cmds.destroy } } }

/-! ## The LUN worker -/

/-- One round of the loop of `lun_worker_proc` for a command it has removed. -/
def lunWorker (c : Nat) : Handler PUnit := do
  if (← getCmd c).done then
    let _ ← commandDone id c
  else
    let _ ← deviceCommand id c

/-! ## The daemon -/

/-- The state of the daemon. -/
structure World where
  slots : Nat → Slot
  /-- `g_session_q`. -/
  sessionQ : Fifo Nat
  /-- The slot that `target_listen` has taken for the next connection, while it runs. -/
  listener : Option Nat
  dev : Device
  nopFlag : Bool

/-- A client and the environment of its connection. -/
structure Client where
  /-- What it will send. -/
  input : Bytes
  /-- How transmissions to it will go. -/
  tx : List Bool
  /-- What `malloc` returns for the parameters. -/
  heap : Bytes
  /-- What `malloc` returns for the security cookie. -/
  heapCookie : Cookie
  /-- The random bytes drawn on this connection. -/
  rand : Nat → UInt8

/-- What moves the daemon. -/
inductive Event where
  | /-- A client connects. -/
    accept (cl : Client)
  | /-- The worker of a slot makes a round. -/
    rx (slot : Nat)
  | /-- The LUN worker makes a round. -/
    lun

/-- A slot whose worker has just started. -/
def Slot.start (s : Slot) (cl : Client) : Slot :=
  { phase := .running
    conn := { input := cl.input, rx := cl.input, tx := cl.tx, isOpen := true, slock := false
              sent := [] }
    seq := { expCmdSN := 0, maxCmdSN := 0, statSN := 0 }
    login :=
      { loginStarted := false, isFullFeature := false, isLoggedIn := false
        authenticated := false, cid := 0, isid := 0, tsih := 0
        ps := ParamState.init cl.heap cl.heapCookie cl.rand, sessParams := SessParams.zero
        entered := 0 }
    pool := { s.pool with cmds := TagHash.init configTargetMaxQueue }
    waiting := none }

namespace World

variable (w : World)

/-- What a handler on a slot works on. -/
def view (i : Nat) : Local := { slot := w.slots i, dev := w.dev, nopFlag := w.nopFlag }

/-- The daemon after a handler on a slot. -/
def put (i : Nat) (s : Local) : World :=
  { w with slots := Function.update w.slots i s.slot, dev := s.dev, nopFlag := s.nopFlag }

/-- The next slot for `target_listen`. -/
def nextListener : World :=
  match w.sessionQ.remove with
  | none => { w with listener := none }
  | some (i, q) => { w with sessionQ := q, listener := some i }

/-- A client connects. -/
def accept (cl : Client) : World :=
  match w.listener with
  | none => w
  | some i => nextListener { w with slots := Function.update w.slots i ((w.slots i).start cl) }

/-- A slot goes back to `g_session_q`: whether it fitted. -/
def giveBack (i : Nat) : Bool × World :=
  match w.sessionQ.insert i with
  | none => (false, w)
  | some q => (true, { w with sessionQ := q })

end World

/-- Run a handler on a slot. -/
def onSlot {α : Type} (i : Nat) (x : Handler α) : Prog Halt World α := fun w =>
  match x (w.view i) with
  | .ret a s => .ret a (w.put i s)
  | .halt e s => .halt e (w.put i s)

/-- A worker ends, with its slot given back. -/
def endSession (i : Nat) : Prog Halt World PUnit := do
  onSlot i cleanUp
  let w ← get
  if (w.giveBack i).1 then modify fun w => (w.giveBack i).2
  else onSlot i (setPhase .dead)

/-- A round of the worker of a slot. -/
def slotRound (i : Nat) : Prog Halt World PUnit := do
  match ((← get).slots i).phase with
  | .running => onSlot i (workerRound env i)
  | .closing => endSession i
  | .free | .dead => return

/-- A round of the LUN worker. -/
def lunRound : Prog Halt World PUnit := do
  match (← get).dev.cmdQueue.remove with
  | none => return
  | some ((i, c), q) =>
    modify fun w => { w with dev := { w.dev with cmdQueue := q } }
    onSlot i (lunWorker i c)

/-- What an event does. -/
def step : Event → Prog Halt World PUnit
  | .accept cl => modify fun w => w.accept cl
  | .rx i => slotRound env i
  | .lun => lunRound

/-! ## The start of the daemon -/

/-- A queue of `n` slots filled with the indices below `n`. -/
def fillQueue (n : Nat) : Fifo Nat :=
  ((Fifo.init (n - 1)).insertAll (List.range n)).getD (Fifo.init (n - 1))

/-- A slot after `target_init`; what its command structures hold is never read. -/
def Slot.fresh : Slot :=
  { phase := .free
    conn := { input := [], rx := [], tx := [], isOpen := false, slock := false, sent := [] }
    seq := { expCmdSN := 0, maxCmdSN := 0, statSN := 0 }
    login :=
      { loginStarted := false, isFullFeature := false, isLoggedIn := false
        authenticated := false, cid := 0, isid := 0, tsih := 0
        ps := { params := [], cookie := none, heapCookie := ⟨0, [], []⟩, rand := fun _ => 0
                randPos := 0, received := [], log := [] }
        sessParams := SessParams.zero, entered := 0 }
    pool :=
      { headerQ := fillQueue configTargetMaxQueue, cmdQ := fillQueue configTargetMaxQueue
        cmds := (TagHash.init 1).destroy, cmdMem := fun _ => TargetCmd.zero }
    waiting := none }

/-- The device after `device_init`: `mem` is what the medium holds, `crash` is `g_crash`. -/
def Device.start (cfg : DiskConfig) (mem : Memory) (crash : Int) (io : List Bool) : Device :=
  { cfg, mem, stagingQ := fillQueue configLunQueueDepth
    cmdQueue := Fifo.init (configLunQueueDepth - 1), tracing := true, crash, io, log := [] }

/-- The daemon when `target_listen` waits for its first connection. -/
def World.start (d : Device) : World :=
  World.nextListener
    { slots := fun _ => Slot.fresh, sessionQ := fillQueue configTargetMaxSessions, listener := none
      dev := d, nopFlag := false }

end Ost.Target
