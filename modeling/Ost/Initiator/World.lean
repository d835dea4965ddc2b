import Ost.Initiator.Rx
import Ost.Prog.Run

/-!
# A session and its threads

The events of a session: the steps of its Tx and Rx workers, the calls of its users
(`initiator_enqueue`, `initiator_abort`, the login, text and logout phases), and the
session manager, which starts a session and takes it down again.

`session_destroy_i` is two events.  The first asks the workers to stop, and other threads
go on until both have returned; the second drains the queue and the hash.  Enqueueing,
aborting and draining are one event each here, and `Ost.Initiator.Calls` takes aborting and
draining apart.  The workers are interleaved with everything else at every point where they
look at or change what others can see.
-/

namespace Ost.Initiator

open Ost.Iscsi Ost.Util Ost.Param Ost.Prog

/-- The events of a session. -/
inductive Event where
  | /-- `session_init_i`, up to the point where both workers run. -/
    start (params : ParamState)
  | /-- `get_full_feature` after a login that succeeded. -/
    fullFeature
  | /-- `initiator_enqueue`. -/
    enqueue (c : Nat) (tag : UInt32) (body : Body) (callbackOk : Bool)
  | /-- A round of `login_phase_i`, `full_feature_negotiation_phase_i` or `logout_phase_i`. -/
    control (c : Nat) (tag : UInt32) (body : Body) (txDone : Bool)
  | /-- A step of the Tx worker. -/
    tx
  | /-- A step of the Rx worker, with the PDU that arrives. -/
    rx (inp : Option RxPdu)
  | /-- `initiator_abort`. -/
    abort (c : Nat)
  | /-- `initiator_session_reset`, or a failure of the session worker. -/
    fail
  | /-- The first half of `session_destroy_i`. -/
    stop
  | /-- The second half of `session_destroy_i`. -/
    destroy

variable (env : Env) (cfg : TargetConfig)

/-- `session_init_i`: the session manager calls it only for a session in state 0. -/
def sessionInitI (params : ParamState) : Handler PUnit := do
  if (← getFlags) = .zero then
    modifyFlags fun _ => { Flags.zero with started := true, initialized := true, connected := true }
    modifyVars fun v => { v with
      cmdSN := 0, expStatSN := 0, maxCmdSN := 0, isid := cfg.tid, tsih := 0, redirected := false
      sessParams := .zero, ps := params }
    modify fun s => { s with tx := .idle, rx := .idle, stopping := false }

/-- The end of `get_full_feature`. -/
def getFullFeature : Handler PUnit := do
  if (← getFlags).loggedIn then
    modifyVars fun v => { v with sessParams := setSessionParameters v.ps.params }
    modifyFlags fun f => { f with fullFeature := true }

/-- The first half of `session_destroy_i`: nothing to do for a session that is in state 0 or is
being destroyed. -/
def sessionStop : Handler PUnit := do
  let f ← getFlags
  if f ≠ .zero ∧ !f.destroying then
    modifyFlags fun f => { f with destroying := true }
    modify fun s => { s with stopping := true }

/-- Whether both workers have returned. -/
def Session.stopped (s : Session) : Bool := s.stopping && s.tx == .exited && s.rx == .exited

/-- The second half of `session_destroy_i`, which waits for the workers.  It follows the first half
once.  The R2Ts of the connection are void after it. -/
def sessionDestroy : Handler PUnit := do
  if (← get).stopped then
    modify fun s => { s with stopping := false, accepted := [], answers := [] }
    let _ ← sessionDestroyI

/-- One event. -/
def next : Event → Handler PUnit
  | .start params => sessionInitI cfg params
  | .fullFeature => getFullFeature
  | .enqueue c tag body ok => initiatorEnqueue c tag body ok
  | .control c tag body d => submitControl c tag body d
  | .tx => txWorkerProcI
  | .rx inp => rxWorkerProcI env cfg inp
  | .abort c => do let _ ← initiatorAbort c
  | .fail => setError
  | .stop => sessionStop
  | .destroy => sessionDestroy

/-- A session that has not been started: nothing is queued and nothing is outstanding. -/
structure Fresh (s : Session) : Prop where
  txQueue : s.books.txQueue = .init (configInitiatorQueueDepth - 1)
  cmdHash : s.books.cmdHash = .init configInitiatorQueueDepth
  issued : s.books.issued = []
  called : s.books.called = []
  tx : s.tx = .exited
  rx : s.rx = .exited
  flags : s.flags = .zero
  accepted : s.accepted = []
  answers : s.answers = []

/-- A command is the responsibility of the session from its submission to its callback. -/
def Books.Live (b : Books) (c : Nat) : Prop := c ∈ b.issued ∧ c ∉ b.called

/-- The number of places in the tx queue. -/
def Books.room (b : Books) : Bool := decide (b.txQueue.toList.length < b.txQueue.capacity)

/-! ## What callers may do -/

/-- The session has a pointer to the command. -/
def Session.Has (s : Session) (c : Nat) : Prop :=
  c ∈ s.books.txQueue.toList ∨ c ∈ s.books.cmdHash.values ∨ s.tx.holds = some c ∨
    s.rx.holds = some c

/-- The session has a pointer to the command, or owes its owner a callback. -/
def Session.Knows (s : Session) (c : Nat) : Prop := s.books.Live c ∨ s.Has c

instance (s : Session) (c : Nat) : Decidable (s.Knows c) :=
  inferInstanceAs (Decidable ((_ ∧ _) ∨ _ ∨ _ ∨ _ ∨ _))

/-- No command that the session knows has the tag. -/
def Session.free (s : Session) (tag : UInt32) : Prop :=
  ∀ d ∈ s.books.issued, s.Knows d → (s.books.mem d).tag ≠ tag

instance (s : Session) (tag : UInt32) : Decidable (s.free tag) :=
  inferInstanceAs (Decidable (∀ d ∈ _, _))

/-- The tag of a command that `submitControl` submits. -/
def controlTag (tag : UInt32) : Body → UInt32
  | .login _ => tag
  | _ => 0

/-- What callers may do at any moment: submit a new command under a tag that is free, and abort a
command that they have submitted and not got back. -/
def Offered (s : Session) : Event → Prop
  | .enqueue c tag _ _ => c ∉ s.books.issued ∧ s.free tag
  | .control c tag body _ => body.isControl ∧ c ∉ s.books.issued ∧ s.free (controlTag tag body)
  | .abort c => c ∈ s.books.issued ∧ c ∉ s.books.called
  | _ => True

instance (s : Session) : ∀ e, Decidable (Offered s e)
  | .enqueue c tag _ _ => inferInstanceAs (Decidable (c ∉ s.books.issued ∧ s.free tag))
  | .control c tag body _ =>
    inferInstanceAs (Decidable (body.isControl ∧ c ∉ s.books.issued ∧ s.free (controlTag tag body)))
  | .abort c => inferInstanceAs (Decidable (c ∈ s.books.issued ∧ c ∉ s.books.called))
  | .start _ | .fullFeature | .tx | .rx _ | .fail | .stop | .destroy => isTrue trivial

/-! ## Runs on a small session

The runs that show a property to fail, or a theorem to apply, start with a session whose target
answers the first login request with the full feature phase. -/

/-- An environment with a digest that does not depend on what it digests. -/
def smallEnv : Env :=
  { md5 := fun _ => List.replicate 16 0, md5_length := length_zeroDigest, hostname := cstr "h"
    targetAddress := [], staleKey := [] }

/-- A configuration that leaves everything to the defaults. -/
def smallTarget : TargetConfig :=
  { tid := 0, users := ⟨none, [], [], []⟩, initialR2T := []
    immediateData := [], maxRecvDataSegmentLength := [], firstBurstLength := []
    maxBurstLength := [] }

/-- The parameters that matter after the login: an R2T is needed for all data of a write. -/
def smallParams : ParamState :=
  { params :=
      [paramListAdd [] .declarative (cstr "SessionType") (cstr "Normal")
        (cstr "Normal,Discovery"),
       paramListAdd [] .numericalZ (cstr "MaxBurstLength") (cstr "16") (cstr "64"),
       paramListAdd [] .binaryOr (cstr "InitialR2T") (cstr "Yes") (cstr "Yes,No")]
    cookie := none, heapCookie := ⟨0, [], []⟩, rand := fun _ => 0, randPos := 0, received := []
    log := [] }

/-- The session before its start. -/
def smallSession : Session :=
  { books :=
      { txQueue := .init (configInitiatorQueueDepth - 1), cmdHash := .init configInitiatorQueueDepth
        mem := fun _ => freshCmd 0 .other true, issued := [], called := [] }
    vars :=
      { cmdSN := 0, expStatSN := 0, maxCmdSN := 0, isid := 0, tsih := 0, redirected := false
        sessParams := .zero, ps := smallParams, nopOut := ⟨false, 0, 0, 0, 0, 0, 0⟩
        nopOutWaiting := false }
    flags := .zero, tx := .exited, rx := .exited, stopping := false, net := [], sent := []
    accepted := [], answers := [] }

theorem fresh_smallSession : Fresh smallSession := by
  constructor <;> rfl

/-- A PDU without data: its first two bytes, and words at some offsets. -/
def smallPdu (b₀ b₁ : UInt8) (words : List (Nat × UInt32)) : RxPdu :=
  ⟨words.foldl (fun h w => put32 h w.1 w.2) (put8 (put8 zeroHeader 0 b₀) 1 b₁), []⟩

/-- The login request with tag 1. -/
def smallLoginReq : Body :=
  .login
    { pdu :=
        { transit := true, cont := false, csg := 1, nsg := 3, versionMax := 2, versionMin := 2
          ahsLength := 0, length := 0, isid := 0, tsih := 0, tag := 0, cid := 0, cmdSN := 0
          expStatSN := 0 }
      text := [] }

/-- A write of 16 bytes. -/
def smallWrite : Body :=
  .scsi
    { pdu :=
        { immediate := false, final := false, fromdev := false, todev := true, attr := 0
          ahsLen := 0, length := 0, lun := 0, tag := 0, transLen := 16, cmdSN := 0
          expStatSN := 0, cdb := [] }
      ahs := [], bidiTransLen := 0, bytesTodev := 0, bytesFromdev := 0
      send := ⟨[], some ⟨.staging 0, 0, 16⟩⟩, recv := ⟨[], none⟩, status := 0 }

/-- An R2T for the command with tag 7. -/
def smallR2t (offset length : UInt32) : RxPdu :=
  smallPdu 0x31 0x80 [(16, 7), (40, offset), (44, length)]

/-- The steps in which the Tx worker takes a command from the queue and executes it. -/
def smallSend : List Event := [.tx, .tx, .tx, .tx, .tx]

/-- The steps in which the Rx worker handles a PDU. -/
def smallReceive (p : RxPdu) : List Event := [.rx (some p), .rx none, .rx none]

/-- The start of a session, up to the full feature phase. -/
def smallLogin : List Event :=
  [.start smallParams, .control 0 1 smallLoginReq false] ++ smallSend ++
    smallReceive (smallPdu 0x23 0x87 [(12, 0x00010001), (16, 1), (28, 1), (32, 4)]) ++
    [.fullFeature]

end Ost.Initiator
