import Mathlib.Data.List.Nodup
import Ost.Driver.Queue
import Ost.Util.Queue

/-!
# Timeouts

`initiator_command` and `alarm_signal_handler` of `initiator.c`.  A call puts its command into
`g_alarm_q`, sets the alarm of the process, queues the command, waits for it, and takes it out
of `g_alarm_q` again unless it was aborted.  The handler of the alarm aborts the oldest command
of `g_alarm_q`.

The calls of all threads, the responses, the time and the signal interleave: every statement
that touches something shared is an event of its own.  A command is a pointer, which a thread
may use again when its call has returned.  `TimedCmd.deadline` is a ghost.

There is one alarm for all calls, and one signal hits the oldest command.  The condition
`TimerOk` says when that is the right one, and `InOrder` is the invariant that it keeps.
-/

namespace Ost.Initiator

open Ost.Prog Ost.Util

/-! ## The calls and the alarm -/

/-- Where a call of `initiator_command` is. -/
inductive CallPhase where
  | /-- There is no call, or it has returned. -/
    returned
  | /-- The command is in `g_alarm_q`, and `alarm(timeout)` comes next. -/
    inserted
  | /-- The alarm is set, and `initiator_enqueue` comes next. -/
    armed
  | /-- The call is in `ISCSI_WAIT`. -/
    waiting
  | /-- The command was not aborted, and is taken out of `g_alarm_q` next. -/
    checked
  | /-- The command is taken out, and `alarm(0)` comes next. -/
    removed
deriving DecidableEq, Repr

/-- The part of an `INITIATOR_CMD_T` that matters here, with the locals of its call. -/
structure TimedCmd where
  phase : CallPhase
  status : Int
  aborted : Bool
  done : Bool
  /-- The number of seconds that is passed to `alarm`. -/
  timeout : Nat
  /-- The time at which the timeout elapses. -/
  deadline : Nat
deriving DecidableEq, Repr

/-- The process: its clock, its alarm, and the calls in it. -/
structure Timers where
  now : Nat
  /-- The time at which the alarm goes off. -/
  alarm : Option Nat
  /-- Whether a `SIGALRM` has not been delivered yet. -/
  pending : Bool
  /-- `g_alarm_q`. -/
  alarmQ : Fifo Nat
  /-- The commands that handlers have removed and will abort. -/
  handlers : List Nat
  cmds : Nat → TimedCmd

/-- What ends the process: the `exit(1)` of a call. -/
inductive Exit where
  | exit (c : Nat)
deriving DecidableEq, Repr

/-- `alarm`: the time at which the alarm goes off.  Without seconds it is cancelled. -/
def alarmAt (now seconds : Nat) : Option Nat := if seconds = 0 then none else some (now + seconds)

/-- The seconds of a timeout: `-1` is half a minute, and 0 an hour.  Then it is not 0. -/
def timeoutSeconds (timeout : Int32) : Nat :=
  let timeout := if timeout = -1 then 30 else timeout
  let timeout := if timeout = 0 then 3600 else timeout
  timeout.toUInt32.toNat

/-- Change a command. -/
def Timers.setCmd (s : Timers) (c : Nat) (t : TimedCmd) : Timers :=
  { s with cmds := Function.update s.cmds c t }

/-- `initiator_command` up to `QUEUE_INSERT_ELSE`, which returns when the queue is full. -/
def callStart (c : Nat) (timeout : Int32) : Prog Exit Timers PUnit := do
  let s ← get
  guarded ((s.cmds c).phase = .returned)
    (match s.alarmQ.insert c with
    | none => pure ⟨⟩
    | some alarmQ => modify fun s => { s with alarmQ }.setCmd c { s.cmds c with
        phase := .inserted, timeout := timeoutSeconds timeout })

/-- `alarm(timeout)`. -/
def callArm (c : Nat) : Prog Exit Timers PUnit := do
  let s ← get
  guarded ((s.cmds c).phase = .inserted)
    (modify fun s =>
      { s with alarm := alarmAt s.now (s.cmds c).timeout }.setCmd c { s.cmds c with
        phase := .armed, deadline := s.now + (s.cmds c).timeout })

/-- `initiator_enqueue`.  The call returns when it fails. -/
def callEnqueue (c : Nat) (enqueue : Driver.Enqueue) : Prog Exit Timers PUnit := do
  let s ← get
  let cleared := { s.cmds c with status := -1, aborted := false, done := false }
  guarded ((s.cmds c).phase = .armed)
    (modify fun s => match enqueue with
      | .queued => s.setCmd c { cleared with phase := .waiting }
      | .refused => s.setCmd c { s.cmds c with phase := .returned }
      | .failed => s.setCmd c { cleared with phase := .returned })

/-- A command is completed: a worker has set its status and runs `wait_callback_i`. -/
def complete (c : Nat) (status : Int) : Prog Exit Timers PUnit := do
  let s ← get
  guarded ((s.cmds c).phase = .waiting ∧ (s.cmds c).done = false)
    (modify fun s => s.setCmd c { s.cmds c with status, done := true })

/-- A second passes.  When it is time for the alarm, `SIGALRM` is raised. -/
def tick : Prog Exit Timers PUnit :=
  modify fun s =>
    let now := s.now + 1
    if s.alarm.any (· ≤ now) then { s with now, alarm := none, pending := true }
    else { s with now }

/-- `SIGALRM` is delivered: the first part of `alarm_signal_handler`. -/
def deliver : Prog Exit Timers PUnit := do
  let s ← get
  guarded s.pending
    (match s.alarmQ.remove with
    | none => modify fun s => { s with pending := false }
    | some (c, alarmQ) =>
      modify fun s => { s with pending := false, alarmQ, handlers := c :: s.handlers })

/-- `initiator_abort`, called by a handler.  It runs `wait_callback_i`. -/
def handlerAbort (c : Nat) : Prog Exit Timers PUnit := do
  let s ← get
  guarded (c ∈ s.handlers)
    (modify fun s => { s with handlers := s.handlers.erase c }.setCmd c { s.cmds c with
      status := -1, aborted := true, done := true })

/-- The call wakes up.  It returns when its command was aborted. -/
def callWake (c : Nat) : Prog Exit Timers PUnit := do
  let s ← get
  guarded ((s.cmds c).phase = .waiting ∧ (s.cmds c).done = true)
    (modify fun s => s.setCmd c { s.cmds c with
      phase := if (s.cmds c).aborted then .returned else .checked })

/-- `QUEUE_REMOVE_THIS_ELSE`. -/
def callRemove (c : Nat) : Prog Exit Timers PUnit := do
  let s ← get
  guarded ((s.cmds c).phase = .checked)
    (match s.alarmQ.removeThis c with
    | none => halt (.exit c)
    | some alarmQ => modify fun s => { s with alarmQ }.setCmd c { s.cmds c with phase := .removed })

/-- `alarm(0)`, after which the call returns. -/
def callDisarm (c : Nat) : Prog Exit Timers PUnit := do
  let s ← get
  guarded ((s.cmds c).phase = .removed)
    (modify fun s => { s with alarm := alarmAt s.now 0 }.setCmd c { s.cmds c with
      phase := .returned })

/-- What can happen. -/
inductive TimerEvent where
  | start (c : Nat) (timeout : Int32)
  | arm (c : Nat)
  | enqueue (c : Nat) (r : Driver.Enqueue)
  | complete (c : Nat) (status : Int)
  | tick
  | deliver
  | abort (c : Nat)
  | wake (c : Nat)
  | remove (c : Nat)
  | disarm (c : Nat)
deriving DecidableEq, Repr

/-- One event. -/
def timerNext : TimerEvent → Prog Exit Timers PUnit
  | .start c timeout => callStart c timeout
  | .arm c => callArm c
  | .enqueue c r => callEnqueue c r
  | .complete c status => complete c status
  | .tick => tick
  | .deliver => deliver
  | .abort c => handlerAbort c
  | .wake c => callWake c
  | .remove c => callRemove c
  | .disarm c => callDisarm c

/-- The process after `initiator_init`. -/
def Timers.init (cmds : Nat → TimedCmd) : Timers :=
  { now := 0, alarm := none, pending := false
    alarmQ := .init configInitiatorQueueDepth
    handlers := [], cmds := fun c => { cmds c with phase := .returned } }

/-! ## What the timeouts are for -/

/-- A command whose call has not returned and that nobody has completed. -/
def Timers.Incomplete (s : Timers) (c : Nat) : Prop :=
  (s.cmds c).phase = .inserted ∨ (s.cmds c).phase = .armed ∨
    (s.cmds c).phase = .waiting ∧ (s.cmds c).done = false

/-- The alarm was set for a command, and its time has passed. -/
def Timers.Elapsed (s : Timers) (c : Nat) : Prop :=
  (s.cmds c).phase ≠ .inserted ∧ (s.cmds c).deadline ≤ s.now

/-- A signal will come for a command in time. -/
def Timers.Covered (s : Timers) (c : Nat) : Prop :=
  s.pending = true ∨ ∃ t, s.alarm = some t ∧ t ≤ (s.cmds c).deadline

/-- The timeouts hit the right commands. -/
structure Timely (s : Timers) : Prop where
  /-- The commands that handlers are about to abort. -/
  aborts : ∀ c ∈ s.handlers, s.Incomplete c ∧ s.Elapsed c
  /-- A command that has returned to its caller is not in `g_alarm_q`. -/
  gone : ∀ c ∈ s.alarmQ.toList, (s.cmds c).phase ≠ .returned
  /-- The incomplete commands in `g_alarm_q` for which `alarm` was called. -/
  covered : ∀ c ∈ s.alarmQ.toList, s.Incomplete c → (s.cmds c).phase ≠ .inserted → s.Covered c

/-! ## The condition -/

/-- A call for which `alarm` was called and whose command nobody has completed. -/
def TimedCmd.Running (t : TimedCmd) : Prop :=
  t.phase = .armed ∨ t.phase = .waiting ∧ t.done = false

/-- The signal that is raised will hit a command. -/
def Timers.Doomed (s : Timers) (c : Nat) : Prop :=
  s.pending = true ∧ s.alarmQ.toList.head? = some c

/-- A running call needs the alarm. -/
def Timers.Relies (s : Timers) (c : Nat) : Prop :=
  c ∈ s.alarmQ.toList ∧ (s.cmds c).Running ∧ ¬s.Doomed c

/-- The condition on a step.
* No call starts between a signal for an empty `g_alarm_q` and its delivery.
* A call sets the alarm no later than the deadline of any call that needs it, and cancels it when
  no call does.
* Every command can be queued.
* A response comes before the timeout of its command has elapsed.
* When the alarm goes off, the oldest command waits for its response and its own timeout elapses,
  no other call needs the alarm, and the last signal has been delivered.
* A completed command is taken out of `g_alarm_q` when that is not full, or the command is its
  oldest. -/
def TimerOk (s : Timers) : TimerEvent → Prop
  | .start _ _ => s.pending = true → s.alarmQ.toList ≠ []
  | .arm c => ∀ d, s.Relies d → s.now + (s.cmds c).timeout ≤ (s.cmds d).deadline
  | .enqueue _ r => r = .queued
  | .complete c _ => c ∉ s.handlers ∧ ¬s.Doomed c
  | .tick => ∀ t ∈ s.alarm, t ≤ s.now + 1 →
    s.pending = false ∧ ∀ c ∈ s.alarmQ.toList.head?,
      (s.cmds c).phase = .waiting ∧ (s.cmds c).done = false ∧ (s.cmds c).deadline ≤ s.now + 1 ∧
        ∀ d, s.Relies d → d = c
  | .remove c => s.alarmQ.toList.length < s.alarmQ.capacity ∨ s.alarmQ.toList.head? = some c
  | .disarm _ => ∀ d, ¬s.Relies d
  | .deliver | .abort _ | .wake _ => True

instance (t : TimedCmd) : Decidable t.Running :=
  inferInstanceAs (Decidable (_ ∨ _ ∧ _))

instance (s : Timers) (c : Nat) : Decidable (s.Doomed c) :=
  inferInstanceAs (Decidable (_ ∧ _))

/-- Only the commands in `g_alarm_q` can need the alarm. -/
instance (s : Timers) (P : Nat → Prop) [DecidablePred P] :
    Decidable (∀ c, s.Relies c → P c) :=
  decidable_of_iff (∀ c ∈ s.alarmQ.toList, (s.cmds c).Running → ¬s.Doomed c → P c)
    (by simp only [Timers.Relies, and_imp])

instance (s : Timers) : (e : TimerEvent) → Decidable (TimerOk s e)
  | .start _ _ => inferInstanceAs (Decidable (_ → _ ≠ _))
  | .arm c => inferInstanceAs
    (Decidable (∀ d, s.Relies d → s.now + (s.cmds c).timeout ≤ (s.cmds d).deadline))
  | .enqueue _ _ => inferInstanceAs (Decidable (_ = _))
  | .complete _ _ => inferInstanceAs (Decidable (_ ∧ _))
  | .tick => inferInstanceAs (Decidable (∀ t ∈ s.alarm, t ≤ s.now + 1 →
    s.pending = false ∧ ∀ c ∈ s.alarmQ.toList.head?,
      (s.cmds c).phase = .waiting ∧ (s.cmds c).done = false ∧ (s.cmds c).deadline ≤ s.now + 1 ∧
        ∀ d, s.Relies d → d = c))
  | .remove _ => inferInstanceAs (Decidable (_ ∨ _))
  | .disarm _ => inferInstanceAs (Decidable (∀ d, s.Relies d → False))
  | .deliver | .abort _ | .wake _ => inferInstanceAs (Decidable True)

/-! ## The invariant -/

/-- A command whose call has put it into `g_alarm_q` and nobody has taken it out, unless a handler
has. -/
def TimedCmd.Listed (t : TimedCmd) : Prop :=
  t.phase = .inserted ∨ t.phase = .armed ∨ t.phase = .checked ∨
    t.phase = .waiting ∧ t.aborted = false

/-- The invariant of the runs whose steps meet the condition. -/
structure InOrder (s : Timers) : Prop where
  nodup : s.alarmQ.toList.Nodup
  queued : ∀ c, c ∈ s.alarmQ.toList ↔ (s.cmds c).Listed ∧ c ∉ s.handlers
  single : s.handlers.Nodup
  held : ∀ c ∈ s.handlers, (s.cmds c).phase = .waiting ∧ (s.cmds c).done = false ∧
    (s.cmds c).deadline ≤ s.now
  timeouts : ∀ c, (s.cmds c).phase = .inserted → 0 < (s.cmds c).timeout
  doomed : ∀ c, s.Doomed c → (s.cmds c).phase = .waiting ∧ (s.cmds c).done = false ∧
    (s.cmds c).deadline ≤ s.now
  covered : ∀ c, s.Relies c → ∃ t, s.alarm = some t ∧ t ≤ (s.cmds c).deadline

section Steps

variable {s : Timers} {c : Nat}

/-- What the invariant is for. -/
theorem InOrder.timely (h : InOrder s) : Timely s := by
  constructor
  · intro c hc
    obtain ⟨hphase, hdone, hlate⟩ := h.held c hc
    exact ⟨.inr (.inr ⟨hphase, hdone⟩), by rw [hphase]; exact nofun, hlate⟩
  · intro c hc hphase
    have hlisted := ((h.queued c).mp hc).1
    simp [TimedCmd.Listed, hphase] at hlisted
  · intro c hc hinc harmed
    by_cases hdoomed : s.Doomed c
    · exact .inl hdoomed.1
    · exact .inr (h.covered c ⟨hc, hinc.resolve_left harmed, hdoomed⟩)

/-- A command that is in no handler and that no signal will hit changes.  For the others it stays
where they are, and whether they are hit. -/
theorem InOrder.change (h : InOrder s) {s' : Timers} {t : TimedCmd} (hnow : s'.now = s.now)
    (hcmds : s'.cmds = Function.update s.cmds c t)
    (hnodup : s'.alarmQ.toList.Nodup) (hsingle : s'.handlers.Nodup)
    (hmem : ∀ d, d ≠ c → (d ∈ s'.alarmQ.toList ↔ d ∈ s.alarmQ.toList))
    (hhandlers : ∀ d, d ≠ c → (d ∈ s'.handlers ↔ d ∈ s.handlers))
    (hhit : ∀ d, d ≠ c → (s'.Doomed d ↔ s.Doomed d))
    (hqueued : c ∈ s'.alarmQ.toList ↔ t.Listed) (hheld : c ∉ s'.handlers) (hdoomed : ¬s'.Doomed c)
    (htimeout : t.phase = .inserted → 0 < t.timeout)
    (hself : c ∈ s'.alarmQ.toList → t.Running → ∃ x, s'.alarm = some x ∧ x ≤ t.deadline)
    (hothers : ∀ d, d ≠ c → s.Relies d → ∃ x, s'.alarm = some x ∧ x ≤ (s.cmds d).deadline) :
    InOrder s' := by
  have self : s'.cmds c = t := by rw [hcmds, Function.update_self]
  have other {d : Nat} (hd : d ≠ c) : s'.cmds d = s.cmds d := by
    rw [hcmds, Function.update_of_ne hd]
  refine ⟨hnodup, fun d => ?_, hsingle, fun d hd => ?_, fun d => ?_, fun d hd => ?_, fun d hd => ?_⟩
  all_goals by_cases hdc : d = c
  · rw [hdc, self]
    exact ⟨fun hm => ⟨hqueued.mp hm, hheld⟩, fun hm => hqueued.mpr hm.1⟩
  · rw [other hdc, hmem d hdc, hhandlers d hdc]
    exact h.queued d
  · exact absurd hd (hdc ▸ hheld)
  · rw [other hdc, hnow]
    exact h.held d ((hhandlers d hdc).mp hd)
  · rw [hdc, self]
    exact htimeout
  · rw [other hdc]
    exact h.timeouts d
  · exact absurd hd (hdc ▸ hdoomed)
  · rw [other hdc, hnow]
    exact h.doomed d ((hhit d hdc).mp hd)
  · subst hdc
    obtain ⟨hm, hrunning, -⟩ := hd
    rw [self] at hrunning ⊢
    exact hself hm hrunning
  · obtain ⟨hm, hrunning, hn⟩ := hd
    rw [other hdc] at hrunning ⊢
    exact hothers d hdc ⟨(hmem d hdc).mp hm, hrunning, fun hd => hn ((hhit d hdc).mpr hd)⟩

/-- Only the command and the alarm change. -/
theorem InOrder.touch (h : InOrder s) (alarm : Option Nat) {t : TimedCmd}
    (hqueued : c ∈ s.alarmQ.toList ↔ t.Listed) (hheld : c ∉ s.handlers) (hdoomed : ¬s.Doomed c)
    (htimeout : t.phase = .inserted → 0 < t.timeout)
    (hself : c ∈ s.alarmQ.toList → t.Running → ∃ x, alarm = some x ∧ x ≤ t.deadline)
    (hothers : ∀ d, d ≠ c → s.Relies d → ∃ x, alarm = some x ∧ x ≤ (s.cmds d).deadline) :
    InOrder ({ s with alarm }.setCmd c t) :=
  h.change rfl rfl h.nodup h.single (fun _ _ => Iff.rfl) (fun _ _ => Iff.rfl) (fun _ _ => Iff.rfl)
    hqueued hheld hdoomed htimeout hself hothers

/-- The events that neither end the process nor break the invariant. -/
abbrev KeepsOrder (x : Prog Exit Timers PUnit) (s : Timers) : Prop :=
  wp x (fun _ s' => InOrder s') (fun _ _ => False) s

/-- An event that is not enabled changes nothing. -/
theorem InOrder.guarded {p : Prop} [Decidable p] {x : Prog Exit Timers PUnit} (h : InOrder s)
    (hx : p → KeepsOrder x s) : KeepsOrder (Prog.guarded p x) s :=
  (wp_guarded _ _).mpr ⟨hx, fun _ => h⟩

/-- A command that is not waiting for its response is in no handler, and no signal will hit it. -/
theorem InOrder.free (h : InOrder s) (hc : (s.cmds c).phase = .waiting → (s.cmds c).done = true) :
    c ∉ s.handlers ∧ ¬s.Doomed c := by
  constructor
  · intro hm
    obtain ⟨hphase, hdone, -⟩ := h.held c hm
    exact nomatch hdone.symm.trans (hc hphase)
  · intro hd
    obtain ⟨hphase, hdone, -⟩ := h.doomed c hd
    exact nomatch hdone.symm.trans (hc hphase)

theorem timeoutSeconds_pos (timeout : Int32) : 0 < timeoutSeconds timeout := by
  unfold timeoutSeconds
  dsimp only
  generalize (if timeout = -1 then 30 else timeout) = t
  by_contra hz
  have hz : (if t = 0 then 3600 else t).toUInt32.toNat = 0 := Nat.eq_zero_of_not_pos hz
  split at hz
  · exact absurd hz (by decide)
  · rename_i ht
    exact ht (congrArg UInt32.toInt32 (UInt32.toNat_inj.mp hz))

theorem alarmAt_of_pos {now seconds : Nat} (h : 0 < seconds) :
    alarmAt now seconds = some (now + seconds) := if_neg (Nat.ne_of_gt h)

theorem keepsOrder_arm (h : InOrder s) (ok : TimerOk s (.arm c)) : KeepsOrder (callArm c) s := by
  refine (wp_bind _ _).mpr (h.guarded fun hphase => ?_)
  have ok : ∀ d, s.Relies d → s.now + (s.cmds c).timeout ≤ (s.cmds d).deadline := ok
  have halarm : alarmAt s.now (s.cmds c).timeout = _ := alarmAt_of_pos (h.timeouts c hphase)
  obtain ⟨hheld, hdoomed⟩ := h.free (c := c) fun hw => nomatch hphase.symm.trans hw
  have hqueue : c ∈ s.alarmQ.toList := (h.queued c).mpr ⟨.inl hphase, hheld⟩
  refine h.touch _ ⟨fun _ => .inr (.inl rfl), fun _ => hqueue⟩ hheld hdoomed nofun ?_ ?_
  · exact fun _ _ => ⟨_, halarm, Nat.le_refl _⟩
  · exact fun d _ hd => ⟨_, halarm, ok d hd⟩

theorem keepsOrder_enqueue (h : InOrder s) {r : Driver.Enqueue} (ok : TimerOk s (.enqueue c r)) :
    KeepsOrder (callEnqueue c r) s := by
  obtain rfl : r = .queued := ok
  refine (wp_bind _ _).mpr (h.guarded fun hphase => ?_)
  obtain ⟨hheld, hdoomed⟩ := h.free (c := c) fun hw => nomatch hphase.symm.trans hw
  have hqueue : c ∈ s.alarmQ.toList := (h.queued c).mpr ⟨.inr (.inl hphase), hheld⟩
  refine h.touch s.alarm ⟨fun _ => .inr (.inr (.inr ⟨rfl, rfl⟩)), fun _ => hqueue⟩
    hheld hdoomed nofun ?_ fun d _ => h.covered d
  exact fun _ _ => h.covered c ⟨hqueue, .inl hphase, hdoomed⟩

theorem keepsOrder_complete (h : InOrder s) {status : Int} (ok : TimerOk s (.complete c status)) :
    KeepsOrder (complete c status) s := by
  refine (wp_bind _ _).mpr (h.guarded fun ⟨hphase, _⟩ => ?_)
  obtain ⟨hheld, hdoomed⟩ := ok
  refine h.touch s.alarm ?_ hheld hdoomed (fun hi => nomatch hphase.symm.trans hi) ?_
    fun d _ => h.covered d
  · rw [h.queued c]
    exact ⟨fun hm => hm.1, fun hm => ⟨hm, hheld⟩⟩
  · rintro - (harmed | ⟨-, hdone⟩)
    · exact nomatch hphase.symm.trans harmed
    · exact nomatch hdone

theorem keepsOrder_wake (h : InOrder s) : KeepsOrder (callWake c) s := by
  refine (wp_bind _ _).mpr (h.guarded fun ⟨hphase, hdone⟩ => ?_)
  obtain ⟨hheld, hdoomed⟩ := h.free (c := c) fun _ => hdone
  have hqueued := h.queued c
  refine h.touch s.alarm ?_ hheld hdoomed ?_ ?_ fun d _ => h.covered d
  all_goals cases haborted : (s.cmds c).aborted
  all_goals simp_all [TimedCmd.Listed, TimedCmd.Running]

theorem keepsOrder_disarm (h : InOrder s) (ok : TimerOk s (.disarm c)) :
    KeepsOrder (callDisarm c) s := by
  refine (wp_bind _ _).mpr (h.guarded fun hphase => ?_)
  have ok : ∀ d, ¬s.Relies d := ok
  obtain ⟨hheld, hdoomed⟩ := h.free (c := c) fun hw => nomatch hphase.symm.trans hw
  have hqueue : c ∉ s.alarmQ.toList := fun hm => by
    simpa [TimedCmd.Listed, hphase] using ((h.queued c).mp hm).1
  refine h.touch _ ⟨fun hm => absurd hm hqueue, fun hl => ?_⟩ hheld hdoomed nofun
    (fun hm => absurd hm hqueue) fun d _ hd => absurd hd (ok d)
  simp [TimedCmd.Listed] at hl

theorem keepsOrder_start (h : InOrder s) (timeout : Int32) (ok : TimerOk s (.start c timeout)) :
    KeepsOrder (callStart c timeout) s := by
  refine (wp_bind _ _).mpr (h.guarded fun hphase => ?_)
  cases hq : s.alarmQ.insert c with
  | none => exact h
  | some alarmQ =>
    obtain ⟨hlist, -⟩ := Fifo.insert_some hq
    obtain ⟨hheld, hdoomed⟩ := h.free (c := c) fun hw => nomatch hphase.symm.trans hw
    have hqueue : c ∉ s.alarmQ.toList := fun hm => by
      simpa [TimedCmd.Listed, hphase] using ((h.queued c).mp hm).1
    -- the new command is the oldest only in a queue for which no signal is raised
    have hhead : s.pending = true → alarmQ.toList.head? = s.alarmQ.toList.head? := fun hp => by
      rw [hlist, List.head?_append_of_ne_nil _ (ok hp)]
    have hit (d : Nat) : Timers.Doomed { s with alarmQ } d ↔ s.Doomed d :=
      and_congr_right fun hp => by rw [hhead hp]
    refine h.change (c := c) rfl rfl ?_ h.single (fun d hd => ?_) (fun _ _ => Iff.rfl)
      (fun d _ => hit d) ⟨fun _ => .inl rfl, fun _ => ?_⟩ hheld (fun hd => hdoomed ((hit c).mp hd))
      (fun _ => timeoutSeconds_pos timeout) (fun _ hr => ?_) fun d _ => h.covered d
    · change alarmQ.toList.Nodup
      rw [hlist]
      exact List.Nodup.append h.nodup (List.nodup_singleton c) (List.disjoint_singleton.mpr hqueue)
    · change d ∈ alarmQ.toList ↔ _
      rw [hlist, List.mem_append, List.mem_singleton, or_iff_left hd]
    · change c ∈ alarmQ.toList
      rw [hlist]
      exact List.mem_append_right _ List.mem_cons_self
    · exact hr.elim nofun fun hr => nomatch hr.1

/-- A second in which the alarm does not go off. -/
theorem keepsOrder_tick_silent (h : InOrder s) (hsilent : ∀ t, s.alarm = some t → ¬t ≤ s.now + 1) :
    KeepsOrder tick s := by
  have hoff : ¬s.alarm.any (· ≤ s.now + 1) = true := fun hany => by
    obtain ⟨t, ht, hle⟩ := (Option.any_eq_true _ _).mp hany
    exact hsilent t ht (of_decide_eq_true hle)
  refine (wp_modify _).mpr ?_
  rw [if_neg hoff]
  have later {d : Nat} (hd : (s.cmds d).deadline ≤ s.now) : (s.cmds d).deadline ≤ s.now + 1 :=
    Nat.le_succ_of_le hd
  exact { h with
    held := fun d hd => ⟨(h.held d hd).1, (h.held d hd).2.1, later (h.held d hd).2.2⟩
    doomed := fun d hd => ⟨(h.doomed d hd).1, (h.doomed d hd).2.1, later (h.doomed d hd).2.2⟩ }

theorem keepsOrder_tick (h : InOrder s) (ok : TimerOk s .tick) : KeepsOrder tick s := by
  by_cases hdue : ∃ t, s.alarm = some t ∧ t ≤ s.now + 1
  · obtain ⟨t, ht, hle⟩ := hdue
    obtain ⟨hpending, hoff⟩ := ok t ht hle
    have hrings : s.alarm.any (· ≤ s.now + 1) = true := by
      rw [ht]
      exact decide_eq_true hle
    refine (wp_modify _).mpr ?_
    rw [if_pos hrings]
    refine { h with
      held := fun d hd => ⟨(h.held d hd).1, (h.held d hd).2.1, Nat.le_succ_of_le (h.held d hd).2.2⟩
      doomed := fun d hd => ?_
      covered := fun d hd => ?_ }
    · obtain ⟨hphase, hdone, hlate, -⟩ := hoff d hd.2
      exact ⟨hphase, hdone, hlate⟩
    · -- only the oldest command needed the alarm, and the signal will hit it
      obtain ⟨hm, hrunning, hn⟩ := hd
      have hrelies : s.Relies d := ⟨hm, hrunning, fun hd => nomatch hpending.symm.trans hd.1⟩
      obtain ⟨e, he⟩ : ∃ e, s.alarmQ.toList.head? = some e :=
        ⟨_, List.head?_eq_some_head (List.ne_nil_of_mem hm)⟩
      obtain rfl := (hoff e he).2.2.2 d hrelies
      exact absurd ⟨rfl, he⟩ hn
  · exact keepsOrder_tick_silent h fun t ht hle => hdue ⟨t, ht, hle⟩

theorem keepsOrder_deliver (h : InOrder s) : KeepsOrder deliver s := by
  refine (wp_bind _ _).mpr (h.guarded fun hpending => ?_)
  cases hq : s.alarmQ.remove with
  | none =>
    have hnil := Fifo.remove_none hq
    refine { h with doomed := fun d hd => (nomatch hd.1), covered := fun d hd => ?_ }
    exact absurd hd.1 (by rw [hnil]; exact List.not_mem_nil)
  | some r =>
    obtain ⟨c, alarmQ⟩ := r
    have hlist := (Fifo.remove_some hq).1
    have hdoomed : s.Doomed c := ⟨hpending, by rw [hlist]; rfl⟩
    obtain ⟨hphase, hdone, hlate⟩ := h.doomed c hdoomed
    obtain ⟨hlisted, hheld⟩ := (h.queued c).mp (by rw [hlist]; exact List.mem_cons_self)
    have hnodup := h.nodup
    rw [hlist, List.nodup_cons] at hnodup
    refine ⟨hnodup.2, fun d => ?_, List.nodup_cons.mpr ⟨hheld, h.single⟩, fun d hd => ?_,
      h.timeouts, fun d hd => (nomatch hd.1), fun d hd => ?_⟩
    · by_cases hdc : d = c
      · subst hdc
        exact ⟨fun hm => absurd hm hnodup.1, fun hm => absurd List.mem_cons_self hm.2⟩
      · have := h.queued d
        rw [hlist, List.mem_cons, or_iff_right hdc] at this
        exact this.trans (and_congr_right fun _ => by rw [List.mem_cons, or_iff_right hdc])
    · rcases List.mem_cons.mp hd with rfl | hd
      · exact ⟨hphase, hdone, hlate⟩
      · exact h.held d hd
    · obtain ⟨hm, hrunning, -⟩ := hd
      have hm : d ∈ alarmQ.toList := hm
      refine h.covered d ⟨by rw [hlist]; exact List.mem_cons_of_mem _ hm, hrunning, fun hd => ?_⟩
      have hcd : c = d := Option.some.inj (hdoomed.2.symm.trans hd.2)
      exact hnodup.1 (hcd ▸ hm)

theorem keepsOrder_abort (h : InOrder s) : KeepsOrder (handlerAbort c) s := by
  refine (wp_bind _ _).mpr (h.guarded fun hmem => ?_)
  obtain ⟨hphase, hdone, -⟩ := h.held c hmem
  have hqueue : c ∉ s.alarmQ.toList := fun hm => ((h.queued c).mp hm).2 hmem
  refine h.change (c := c) rfl rfl h.nodup (h.single.erase c) (fun _ _ => Iff.rfl)
    (fun d hd => List.mem_erase_of_ne hd) (fun _ _ => Iff.rfl)
    ⟨fun hm => absurd hm hqueue, fun hl => ?_⟩ (h.single.not_mem_erase) (fun hd => ?_)
    (fun hi => nomatch hphase.symm.trans hi) (fun hm => absurd hm hqueue) fun d _ => h.covered d
  · simp [TimedCmd.Listed, hphase] at hl
  · exact hqueue (List.mem_of_mem_head? hd.2)

theorem keepsOrder_remove (h : InOrder s) (ok : TimerOk s (.remove c)) :
    KeepsOrder (callRemove c) s := by
  refine (wp_bind _ _).mpr (h.guarded fun hphase => ?_)
  obtain ⟨hheld, hdoomed⟩ := h.free (c := c) fun hw => nomatch hphase.symm.trans hw
  have hqueue : c ∈ s.alarmQ.toList := (h.queued c).mpr ⟨.inr (.inr (.inl hphase)), hheld⟩
  obtain ⟨alarmQ, hq, hlist⟩ := Fifo.removeThis_of_mem hqueue ok
  simp only [hq]
  -- the oldest command stays the oldest while a signal is raised
  have hit (d : Nat) : Timers.Doomed { s with alarmQ } d ↔ s.Doomed d := by
    refine and_congr_right fun hp => ?_
    rw [hlist]
    cases hl : s.alarmQ.toList with
    | nil => rfl
    | cons e l =>
      have hec : e ≠ c := fun he => hdoomed ⟨hp, by rw [hl, he]; rfl⟩
      rw [List.erase_cons_tail (by simpa using hec)]
      rfl
  refine h.change (c := c) rfl rfl ?_ h.single (fun d hd => ?_) (fun _ _ => Iff.rfl)
    (fun d _ => hit d) ⟨fun hm => ?_, fun hl => ?_⟩ hheld (fun hd => hdoomed ((hit c).mp hd))
    nofun (fun _ hr => ?_) fun d _ => h.covered d
  · exact hlist ▸ h.nodup.erase c
  · change d ∈ alarmQ.toList ↔ _
    rw [hlist, List.mem_erase_of_ne hd]
  · have hm : c ∈ alarmQ.toList := hm
    rw [hlist] at hm
    exact absurd hm h.nodup.not_mem_erase
  · simp [TimedCmd.Listed] at hl
  · exact hr.elim nofun fun hr => nomatch hr.1

/-- Every event that meets the condition keeps the invariant, and does not end the process. -/
theorem keepsOrder_timerNext (h : InOrder s) (e : TimerEvent) (ok : TimerOk s e) :
    KeepsOrder (timerNext e) s := by
  cases e with
  | start c timeout => exact keepsOrder_start h timeout ok
  | arm c => exact keepsOrder_arm h ok
  | enqueue c r => exact keepsOrder_enqueue h ok
  | complete c status => exact keepsOrder_complete h ok
  | tick => exact keepsOrder_tick h ok
  | deliver => exact keepsOrder_deliver h
  | abort c => exact keepsOrder_abort h
  | wake c => exact keepsOrder_wake h
  | remove c => exact keepsOrder_remove h ok
  | disarm c => exact keepsOrder_disarm h ok

end Steps

/-- The invariant holds at the start. -/
theorem inOrder_init (cmds : Nat → TimedCmd) : InOrder (.init cmds) := by
  have hnil : (Timers.init cmds).alarmQ.toList = [] := rfl
  refine ⟨hnil ▸ List.nodup_nil, fun c => ?_, List.nodup_nil, nofun, nofun,
    fun c hc => (nomatch hc.1), fun c hc => ?_⟩
  · rw [hnil]
    exact ⟨fun hm => absurd hm List.not_mem_nil, fun hm => by
      simp [TimedCmd.Listed, Timers.init] at hm⟩
  · exact absurd hc.1 (by rw [hnil]; exact List.not_mem_nil)

/-- In a run whose steps meet the condition, the timeouts hit the right commands, and no call takes
the `exit(1)`. -/
theorem timeouts_timely (cmds : Nat → TimedCmd) (s : Timers)
    (h : Reach timerNext TimerOk (.init cmds) s) :
    Timely s ∧ ∀ e k s', TimerOk s e → timerNext e s ≠ .halt k s' := by
  have inOrder : InOrder s := by
    refine h.invariant (P := InOrder) (inOrder_init cmds) fun s e hs ok => ?_
    exact wp_mono (keepsOrder_timerNext hs e ok) (fun _ _ => id) fun _ _ => False.elim
  exact ⟨inOrder.timely, fun e k s' ok hk => (keepsOrder_timerNext inOrder e ok).of_halt hk⟩

/-- Structures that have not been used yet. -/
def unusedCmds (_ : Nat) : TimedCmd :=
  { phase := .returned, status := 0, aborted := false, done := false, timeout := 0, deadline := 0 }

/-- Two calls overlap, the second with the shorter timeout.  It is aborted after the first has been
completed. -/
theorem timeouts_timely_two : ∃ s,
    Reach timerNext TimerOk (.init unusedCmds) s ∧ s.handlers = [8] ∧ Timely s := by
  have hrun : ∃ s, Reach timerNext TimerOk (.init unusedCmds) s ∧ s.handlers = [8] := exists_reach
    [.start 7 30, .arm 7, .enqueue 7 .queued, .start 8 1, .arm 8, .enqueue 8 .queued,
      .complete 7 0, .wake 7, .remove 7, .tick, .deliver] (by decide +kernel)
  obtain ⟨s, hs, hhandlers⟩ := hrun
  exact ⟨s, hs, hhandlers, (timeouts_timely unusedCmds s hs).1⟩

/-- A second call takes the alarm away from the first. -/
theorem timeouts_overtaken : ∃ s,
    Reach timerNext (fun _ _ => True) (.init unusedCmds) s ∧ ¬Timely s := by
  have hrun : ∃ s, Reach timerNext (fun _ _ => True) (.init unusedCmds) s ∧
      7 ∈ s.alarmQ.toList ∧ (s.cmds 7).done = false ∧ (s.cmds 7).phase = .waiting ∧
      s.pending = false ∧ s.alarm = some 30 ∧ (s.cmds 7).deadline = 10 := exists_reach
    [.start 7 10, .arm 7, .enqueue 7 .queued, .start 8 30, .arm 8] (by decide +kernel)
  obtain ⟨s, hs, hq, hinc, hphase, hpending, halarm, hdeadline⟩ := hrun
  refine ⟨s, hs, fun h => ?_⟩
  rcases h.covered 7 hq (.inr (.inr ⟨hphase, hinc⟩)) (by rw [hphase]; exact nofun) with
    hp | ⟨t, ht, hle⟩
  · exact nomatch hpending.symm.trans hp
  · obtain rfl := Option.some.inj (halarm.symm.trans ht)
    rw [hdeadline] at hle
    exact absurd hle (by decide)

end Ost.Initiator
