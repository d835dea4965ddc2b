import Mathlib.Data.List.Nodup
import Mathlib.Data.List.Perm.Basic
import Ost.Driver.Queue

/-!
# The host driver, statement by statement

`iscsi_queuecommand` takes a scatter list and a command structure from two free queues, and
`iscsi_done` puts them back.  Several calls are under way at a time, and the initiator may complete
a command twice, as it does when a response arrives for a command that is being aborted.

Here every access to what the calls share is a step.  A command of the midlayer is followed from
its `iscsi_queuecommand` to the call of its `scsi_done`: this is a `Flow`.  A second completion is
a flow of its own, and all it knows is the command structure.  The statistics, which the calls
update behind a lock, are those of `Ost.Driver.Queue`; a call that nothing comes between is the one
there.

Commands have numbers, and a command that is handed over again has a new one.
-/

namespace Ost.Driver

open Ost.Iscsi Ost.Prog

/-! ## Calls -/

/-- What matters of a command of the midlayer: whether it has a scatter list, the length of its
CDB, and whether the ramdisk serves it. -/
structure Submission where
  number : Nat
  useSg : Bool
  cmdLen : Nat
  ramdisk : Bool
deriving DecidableEq, Repr

/-- Where a call stands, or the command between its two calls.  `p` is the command that the call
of `iscsi_done` has found, `q` the one that it is made for; `i` is the structure and `iov` the
scatter list. -/
inductive Flow where
  | /-- At the beginning of `iscsi_queuecommand`. -/
    start (c : Submission)
  | /-- About to take a structure. -/
    needCmd (c : Submission) (iov : Option Nat)
  | /-- About to check the length of the CDB. -/
    checkLen (c : Submission) (iov : Option Nat) (i : Nat)
  | /-- In `initiator_enqueue`, before the `memset`. -/
    clearing (c : Submission) (iov : Option Nat) (i : Nat)
  | /-- In `initiator_enqueue`, after the `memset`. -/
    setting (c : Submission) (iov : Option Nat) (i : Nat)
  | /-- Handed to the initiator, which has not completed it yet. -/
    waiting (q : Nat) (iov : Option Nat) (i : Nat)
  | /-- In `iscsi_done`, about to read `host_scribble`. -/
    readScribble (q p : Nat) (iov : Option Nat) (i : Nat)
  | /-- About to clear `host_scribble`. -/
    clearScribble (q p hs i : Nat)
  | /-- About to put the scatter list back. -/
    putIov (q p hs i : Nat)
  | /-- About to put the structure back. -/
    putCmd (q p i : Nat)
  | /-- About to clear `callback_arg`. -/
    clearArg (q p i : Nat)
  | /-- About to call `scsi_done`. -/
    callDone (q p : Nat)
  | /-- `iscsi_done` has returned 0. -/
    completed (q p : Nat)
  | /-- `iscsi_queuecommand` has returned -1. -/
    refused (q : Nat)
  | /-- `iscsi_done` has returned -1. -/
    dropped (q : Nat)
deriving DecidableEq, Repr

namespace Flow

/-- The command that the call is made for. -/
def cmd : Flow → Nat
  | start c | needCmd c _ | checkLen c _ _ | clearing c _ _ | setting c _ _ => c.number
  | waiting q _ _ | readScribble q _ _ _ | clearScribble q _ _ _ | putIov q _ _ _ | putCmd q _ _
  | clearArg q _ _ | callDone q _ | completed q _ | refused q | dropped q => q

/-- The structure that is taken. -/
def struct? : Flow → Option Nat
  | checkLen _ _ i | clearing _ _ i | setting _ _ i | waiting _ _ i | readScribble _ _ _ i
  | clearScribble _ _ _ i | putIov _ _ _ i | putCmd _ _ i => some i
  | _ => none

/-- The scatter list that is taken. -/
def iov? : Flow → Option Nat
  | needCmd _ iov | checkLen _ iov _ | clearing _ iov _ | setting _ iov _ | waiting _ iov _
  | readScribble _ _ iov _ => iov
  | clearScribble _ _ hs _ | putIov _ _ hs _ => some hs
  | _ => none

/-- The command whose `scsi_done` has been called, and the one for which. -/
def completed? : Flow → Option (Nat × Nat)
  | completed q p => some (q, p)
  | _ => none

/-- A command that has been accepted. -/
def accepted? : Flow → Option Nat
  | waiting q _ _ | readScribble q _ _ _ | clearScribble q _ _ _ | putIov q _ _ _ | putCmd q _ _
  | clearArg q _ _ | callDone q _ | completed q _ | dropped q => some q
  | _ => none

/-- The command that a call of `iscsi_done` is completing. -/
def completing? : Flow → Option Nat
  | readScribble _ p _ _ | clearScribble _ p _ _ | putIov _ p _ _ | putCmd _ p _ | clearArg _ p _
  | callDone _ p => some p
  | _ => none

/-- Whether the initiator has the command and has not completed it. -/
def waits : Flow → Bool
  | waiting _ _ _ => true
  | _ => false

/-- Whether the next statement clears the `callback_arg` of a structure. -/
def clears (i : Nat) : Flow → Bool
  | clearArg _ _ j => i == j
  | _ => false

end Flow

/-- What the calls share.  The rest are ghosts: the commands for which 0 is returned; those handed
to the initiator, with their structures; the calls of `scsi_done`, with the command that
`iscsi_done` was called for; and what `iscsi_done` found in `callback_arg` when it cleared it. -/
structure Shared where
  cmdQ : List Nat
  iovQ : List Nat
  callbackArg : Nat → Option Nat
  hostScribble : Nat → Option Nat
  accepted : List Nat
  handed : List (Nat × Nat)
  completions : List (Nat × Nat)
  clears : List (Nat × Option Nat)

namespace Shared

variable (s : Shared)

/-- Set `callback_arg` of a structure. -/
def setArg (i : Nat) (a : Option Nat) : Shared :=
  { s with callbackArg := fun j => if j = i then a else s.callbackArg j }

/-- Set `host_scribble` of a command. -/
def setScribble (p : Nat) (a : Option Nat) : Shared :=
  { s with hostScribble := fun j => if j = p then a else s.hostScribble j }

end Shared

/-- The next statement of a call. -/
def Flow.next (e : Enqueue) (s : Shared) : Flow → Flow × Shared
  | start c =>
    if c.ramdisk then
      (completed c.number c.number, { s with
        accepted := s.accepted ++ [c.number]
        completions := s.completions ++ [(c.number, c.number)] })
    else if c.useSg then
      match s.iovQ with
      | [] => (refused c.number, s)
      | v :: iovQ => (needCmd c (some v), { s.setScribble c.number (some v) with iovQ := iovQ })
    else (needCmd c none, s.setScribble c.number none)
  | needCmd c iov =>
    match s.cmdQ with
    | [] => (refused c.number, s)
    | i :: cmdQ => (checkLen c iov i, { s with cmdQ := cmdQ })
  | checkLen c iov i =>
    if c.cmdLen > 16 ∧ c.cmdLen > configIscsiMaxAhsLen then (refused c.number, s)
    else (clearing c iov i, s)
  | clearing c iov i =>
    if e = .refused then (refused c.number, s) else (setting c iov i, s.setArg i none)
  | setting c iov i =>
    if e = .queued then
      (waiting c.number iov i, { s.setArg i (some c.number) with
        accepted := s.accepted ++ [c.number]
        handed := s.handed ++ [(c.number, i)] })
    else (refused c.number, s.setArg i (some c.number))
  | waiting q iov i =>
    match s.callbackArg i with
    | none => (dropped q, s)
    | some p => (readScribble q p iov i, s)
  | readScribble q p _ i =>
    match s.hostScribble p with
    | none => (putCmd q p i, s)
    | some hs => (clearScribble q p hs i, s)
  | clearScribble q p hs i => (putIov q p hs i, s.setScribble p none)
  | putIov q p hs i => (putCmd q p i, { s with iovQ := s.iovQ ++ [hs] })
  | putCmd q p i => (clearArg q p i, { s with cmdQ := s.cmdQ ++ [i] })
  | clearArg q p i =>
    (callDone q p, { s.setArg i none with clears := s.clears ++ [(q, s.callbackArg i)] })
  | callDone q p => (completed q p, { s with completions := s.completions ++ [(q, p)] })
  | completed q p => (completed q p, s)
  | refused q => (refused q, s)
  | dropped q => (dropped q, s)

/-- The driver. -/
structure Lines where
  shared : Shared
  flows : List Flow

/-- What can happen. -/
inductive LineEvent where
  | /-- The midlayer calls `iscsi_queuecommand`. -/
    submit (c : Submission)
  | /-- A call makes a step, or the initiator completes a command that waits for it. -/
    step (k : Nat) (e : Enqueue)
  | /-- The initiator completes the command `q` of the structure `i` once more. -/
    late (q i : Nat)
deriving DecidableEq, Repr

/-- A second completion. -/
def Lines.completeAgain (s : Lines) (q i : Nat) : Lines :=
  match s.shared.callbackArg i with
  | none => s
  | some p => { s with flows := s.flows ++ [.readScribble q p none i] }

/-- One event.  A second completion is one of a command whose first completion has begun. -/
def lineNext : LineEvent → Prog Empty Lines PUnit
  | .submit c => modify fun s =>
    if c.number ∈ s.flows.map Flow.cmd then s else { s with flows := s.flows ++ [.start c] }
  | .step k e => modify fun s =>
    match s.flows[k]? with
    | none => s
    | some f => { shared := (f.next e s.shared).2, flows := s.flows.set k (f.next e s.shared).1 }
  | .late q i => modify fun s =>
    if (q, i) ∈ s.shared.handed ∧ ∀ f ∈ s.flows, f.cmd = q → f.waits = false
    then s.completeAgain q i else s

/-- The driver after `iscsi_driver_init`. -/
def Lines.init : Lines :=
  { shared :=
      { cmdQ := List.range configInitiatorQueueDepth, iovQ := List.range configInitiatorQueueDepth
        callbackArg := fun _ => none, hostScribble := fun _ => none, accepted := [], handed := []
        completions := [], clears := [] }
    flows := [] }

/-! ## Nothing comes between -/

section Alone

variable {cfg : Config} {e : Enqueue} {s : Shared} {h : Host} {n : Nat}

/-- The next `k` statements of a call. -/
def Flow.run (e : Enqueue) : Nat → Flow × Shared → Flow × Shared
  | 0, x => x
  | k + 1, x => run e k (x.1.next e x.2)

/-- A command of the midlayer, with a number. -/
def ScsiCmnd.submission (cfg : Config) (n : Nat) (p : ScsiCmnd) : Submission :=
  ⟨n, p.useSg ≠ 0, p.cmdLen, cfg.isRamdisk p.tid⟩

/-- The same queues and structures, with numbers for the commands. -/
structure Shared.Shows (s : Shared) (h : Host) : Prop where
  cmdQ : s.cmdQ = h.cmdQ
  iovecs : s.iovQ.length = h.iovecs
  args : ∀ i, (s.callbackArg i).isSome = (h.cmds i).callbackArg.isSome
  scribbles : ∀ i q, s.callbackArg i = some q → (s.hostScribble q).isSome = (h.cmds i).hostScribble
  apart : ∀ i j q, s.callbackArg i = some q → s.callbackArg j = some q → i = j

/-- `host_scribble` of a command that no structure is for. -/
theorem Shared.Shows.setScribble (hs : s.Shows h) (hn : ∀ i, s.callbackArg i ≠ some n)
    (v : Option Nat) : (s.setScribble n v).Shows h := by
  refine ⟨hs.cmdQ, hs.iovecs, hs.args, fun i q hq => ?_, hs.apart⟩
  have hne : q ≠ n := fun heq => hn i (heq ▸ hq)
  rw [← hs.scribbles i q hq]
  exact congrArg Option.isSome (if_neg hne)

/-- The structure of a new command. -/
theorem Shared.Shows.setArg (hs : s.Shows h) (hn : ∀ i, s.callbackArg i ≠ some n) {i : Nat}
    {c : DriverCmd} (harg : c.callbackArg.isSome = true)
    (hscribble : (s.hostScribble n).isSome = c.hostScribble) :
    (s.setArg i (some n)).Shows { h with cmds := fun j => if j = i then c else h.cmds j } := by
  refine ⟨hs.cmdQ, hs.iovecs, fun j => ?_, fun j q hq => ?_, fun j k q hj hk => ?_⟩
  · simp only [Shared.setArg]
    split
    · exact harg.symm
    · exact hs.args j
  · simp only [Shared.setArg] at hq ⊢
    split at hq
    · rename_i hji
      obtain rfl := Option.some.inj hq
      rw [if_pos hji]
      exact hscribble
    · rename_i hji
      rw [if_neg hji]
      exact hs.scribbles j q hq
  · simp only [Shared.setArg] at hj hk
    split at hj <;> split at hk
    · exact ‹j = i›.trans ‹k = i›.symm
    · obtain rfl := Option.some.inj hj
      exact absurd hk (hn k)
    · obtain rfl := Option.some.inj hk
      exact absurd hj (hn j)
    · exact hs.apart j k q hj hk

/-- Other counters, and other ghosts. -/
theorem Shared.Shows.congr (hs : s.Shows h) {s' : Shared} {h' : Host}
    (hs' : (s'.cmdQ, s'.iovQ, s'.callbackArg, s'.hostScribble) =
      (s.cmdQ, s.iovQ, s.callbackArg, s.hostScribble))
    (hh' : (h'.cmds, h'.cmdQ, h'.iovecs) = (h.cmds, h.cmdQ, h.iovecs)) : s'.Shows h' := by
  simp only [Prod.mk.injEq] at hs' hh'
  obtain ⟨h₁, h₂, h₃, h₄⟩ := hs'
  obtain ⟨h₅, h₆, h₇⟩ := hh'
  obtain ⟨hcmdQ, hiovecs, hargs, hscribbles, hapart⟩ := hs
  constructor
  · rw [h₁, h₆, hcmdQ]
  · rw [h₂, h₇, hiovecs]
  · rwa [h₃, h₅]
  · rwa [h₃, h₄, h₅]
  · rwa [h₃]

theorem guarded_modify {c : Prop} [Decidable c] (f : Host → Host) :
    guarded c (modify f : Prog Empty Host PUnit) = modify fun h => if c then f h else h := by
  unfold guarded
  split <;> rfl

/-- The call has a scatter list, if it needs one. -/
theorem start_next (hs : s.Shows h) (hn : ∀ i, s.callbackArg i ≠ some n) {p : ScsiCmnd}
    (hram : cfg.isRamdisk p.tid = false) (hsome : ¬(p.useSg ≠ 0 ∧ h.iovecs = 0)) :
    ∃ s' iov, (Flow.start (p.submission cfg n)).next e s = (.needCmd (p.submission cfg n) iov, s') ∧
      s'.Shows { h with iovecs := if p.useSg ≠ 0 then h.iovecs - 1 else h.iovecs } ∧
      (∀ i, s'.callbackArg i ≠ some n) ∧ (s'.hostScribble n).isSome = decide (p.useSg ≠ 0) := by
  by_cases hsg : p.useSg = 0
  · refine ⟨s.setScribble n none, none, ?_, ?_, hn, ?_⟩
    · simp [Flow.next, ScsiCmnd.submission, hram, hsg]
    · simpa [hsg] using hs.setScribble hn none
    · simp [Shared.setScribble, hsg]
  · rcases hiovQ : s.iovQ with _ | ⟨v, iovQ⟩
    · exact absurd ⟨hsg, by simp [← hs.iovecs, hiovQ]⟩ hsome
    · refine ⟨{ s.setScribble n (some v) with iovQ := iovQ }, some v, ?_, ?_, hn, ?_⟩
      · simp [Flow.next, ScsiCmnd.submission, hram, hsg, hiovQ]
      · obtain ⟨hcmdQ, -, hargs, hscribbles, hapart⟩ := hs.setScribble hn (some v)
        refine ⟨hcmdQ, ?_, hargs, hscribbles, hapart⟩
        simp [hsg, ← hs.iovecs, hiovQ]
      · simp [Shared.setScribble, hsg]

/-- The call has a structure. -/
theorem needCmd_run {c : Submission} {iov : Option Nat} {i : Nat} {cmdQ : List Nat}
    (hq : s.cmdQ = i :: cmdQ) : Flow.run e 4 (.needCmd c iov, s) =
      if c.cmdLen > 16 ∧ c.cmdLen > configIscsiMaxAhsLen ∨ e = .refused then
        (.refused c.number, { s with cmdQ := cmdQ })
      else if e = .failed then
        (.refused c.number, ({ s with cmdQ := cmdQ } : Shared).setArg i (some c.number))
      else (.waiting c.number iov i,
        { ({ s with cmdQ := cmdQ } : Shared).setArg i (some c.number) with
        accepted := s.accepted ++ [c.number], handed := s.handed ++ [(c.number, i)] }) := by
  have hclear : ∀ t : Shared,
      (t.setArg i none).setArg i (some c.number) = t.setArg i (some c.number) :=
    fun t => by
      simp only [Shared.setArg]
      congr 1
      funext j
      split <;> rfl
  by_cases hlong : c.cmdLen > 16 ∧ c.cmdLen > configIscsiMaxAhsLen
  · rw [if_pos (.inl hlong)]
    simp [Flow.run, Flow.next, hq, hlong.1, hlong.2]
  have hrun : Flow.run e 4 (.needCmd c iov, s) =
      Flow.run e 2 (.clearing c iov i, { s with cmdQ := cmdQ }) := by
    simp only [Flow.run, Flow.next, hq, if_neg hlong]
  rw [hrun]
  cases e with
  | refused => simp [Flow.run, Flow.next]
  | failed => simp [Flow.run, Flow.next, hlong, hclear]
  | queued =>
    rw [if_neg (by simp [hlong]), if_neg (by simp)]
    simp only [Flow.run, Flow.next, hclear, reduceCtorEq, if_false, if_true]
    rfl

/-- A call of `iscsi_queuecommand` that nothing comes between is the one of `Ost.Driver.Queue`. -/
theorem iscsiQueuecommand_run (hs : s.Shows h) (hn : ∀ i, s.callbackArg i ≠ some n) (p : ScsiCmnd) :
    ensures (iscsiQueuecommand cfg p e) (fun rc h' =>
      (Flow.run e 5 (.start (p.submission cfg n), s)).2.Shows h' ∧
        (rc = 0 ↔ (Flow.run e 5 (.start (p.submission cfg n), s)).1.accepted? = some n)) h := by
  rw [iscsiQueuecommand]
  by_cases hram : cfg.isRamdisk p.tid = true
  · rw [if_pos hram]
    have hrun : Flow.run e 5 (.start (p.submission cfg n), s) = (.completed n n, { s with
        accepted := s.accepted ++ [n], completions := s.completions ++ [(n, n)] }) := by
      simp [Flow.run, Flow.next, ScsiCmnd.submission, hram]
    rw [hrun]
    exact ⟨hs.congr rfl rfl, by simp [Flow.accepted?]⟩
  rw [if_neg hram]
  have hram' := Bool.eq_false_iff.mpr hram
  set h₀ : Host := { h with stats := fun tid lun =>
    if tid = p.tid ∧ lun = p.lun then (h.stats tid lun).issue cfg p else h.stats tid lun }
  have hs₀ : s.Shows h₀ := hs.congr rfl rfl
  refine (wp_bind _ _).mpr ((wp_modify _).mpr ((wp_bind _ _).mpr (wp_get.mpr ?_)))
  refine (wp_ite _ _ _).mpr ⟨fun hnone => ?_, fun hsome => ?_⟩
  · simp only [Bool.and_eq_true, decide_eq_true_eq] at hnone
    have hempty : s.iovQ = [] := List.eq_nil_of_length_eq_zero (hs₀.iovecs.trans hnone.2)
    have hrun : Flow.run e 5 (.start (p.submission cfg n), s) = (.refused n, s) := by
      simp [Flow.run, Flow.next, ScsiCmnd.submission, hram', hnone.1, hempty]
    rw [hrun]
    exact ⟨hs₀, by simp [Flow.accepted?]⟩
  simp only [Bool.and_eq_true, decide_eq_true_eq] at hsome
  obtain ⟨s₁, iov, hstart, hs₁, hn₁, hscribble⟩ := start_next (e := e) hs₀ hn hram' hsome
  rw [Flow.run, hstart, guarded_modify]
  refine (wp_bind _ _).mpr ((wp_modify _).mpr ((wp_bind _ _).mpr (wp_get.mpr ?_)))
  obtain ⟨h₁, hh₁⟩ : ∃ h₁ : Host, h₁ =
      if p.useSg ≠ 0 then { h₀ with iovecs := h₀.iovecs - 1 } else h₀ := ⟨_, rfl⟩
  rw [← hh₁]
  replace hs₁ : s₁.Shows h₁ := by
    refine hs₁.congr rfl ?_
    rw [hh₁]
    split <;> rfl
  have hq := hs₁.cmdQ
  rcases hcmdQ : h₁.cmdQ with _ | ⟨i, cmdQ⟩ <;> rw [hcmdQ] at hq
  · have hend : Flow.run e 4 (.needCmd (p.submission cfg n) iov, s₁) = (.refused n, s₁) := by
      simp [Flow.run, Flow.next, hq, ScsiCmnd.submission]
    rw [hend]
    exact ⟨hs₁, by simp [Flow.accepted?]⟩
  have hs₂ : ({ s₁ with cmdQ := cmdQ } : Shared).Shows { h₁ with cmdQ } :=
    ⟨rfl, hs₁.iovecs, hs₁.args, hs₁.scribbles, hs₁.apart⟩
  rw [needCmd_run hq]
  refine (wp_bind _ _).mpr
    ((wp_modify _).mpr ((wp_ite _ _ _).mpr ⟨fun hlong => ?_, fun hlong => ?_⟩))
  · rw [if_pos (.inl (by simpa [ScsiCmnd.submission] using hlong))]
    exact ⟨hs₂, by simp [Flow.accepted?]⟩
  dsimp only
  refine (wp_ite _ _ _).mpr ⟨fun hrefused => ?_, fun hrefused => ?_⟩
  · rw [if_pos (.inr hrefused)]
    exact ⟨hs₂, by simp [Flow.accepted?]⟩
  rw [if_neg (not_or.mpr ⟨by simpa [ScsiCmnd.submission] using hlong, hrefused⟩)]
  refine (wp_bind _ _).mpr
    ((wp_modify _).mpr ((wp_ite _ _ _).mpr ⟨fun hfailed => ?_, fun hfailed => ?_⟩))
  · rw [if_pos hfailed]
    exact ⟨hs₂.setArg hn₁ rfl hscribble, by simp [Flow.accepted?]⟩
  · rw [if_neg hfailed]
    exact (wp_bind _ _).mpr ((wp_modify _).mpr
      ⟨(hs₂.setArg hn₁ rfl hscribble).congr rfl rfl, by simp [Flow.accepted?, ScsiCmnd.submission]⟩)

/-- The structure of a command is free again, and the command has no scatter list. -/
theorem Shared.Shows.putBack (hs : s.Shows h) {i q : Nat} (hq : s.callbackArg i = some q)
    {s' : Shared} {h' : Host} (hcmdQ : s'.cmdQ = s.cmdQ ++ [i]) (hcmdQ' : h'.cmdQ = h.cmdQ ++ [i])
    (hiovecs : s'.iovQ.length = h'.iovecs)
    (harg : ∀ j, s'.callbackArg j = if j = i then none else s.callbackArg j)
    (harg' : ∀ j, h'.cmds j = if j = i then { h.cmds j with callbackArg := none } else h.cmds j)
    (hscribble : ∀ p, p ≠ q → s'.hostScribble p = s.hostScribble p) : s'.Shows h' := by
  have old : ∀ {j p}, s'.callbackArg j = some p → j ≠ i ∧ s.callbackArg j = some p := by
    intro j p hp
    rw [harg] at hp
    split at hp
    · cases hp
    · exact ⟨‹_›, hp⟩
  refine ⟨?_, hiovecs, fun j => ?_, fun j p hp => ?_, fun j k p hj hk => ?_⟩
  · rw [hcmdQ, hcmdQ', hs.cmdQ]
  · rw [harg, harg']
    split
    · rfl
    · exact hs.args j
  · obtain ⟨hne, hp'⟩ := old hp
    have hpq : p ≠ q := fun heq => hne (hs.apart j i q (heq ▸ hp') hq)
    rw [hscribble p hpq, harg', if_neg hne]
    exact hs.scribbles j p hp'
  · exact hs.apart j k p (old hj).2 (old hk).2

/-- `iscsi_done`, from where it has read `host_scribble`. -/
theorem putCmd_run {q n i : Nat} (s : Shared) : Flow.run e 3 (.putCmd q n i, s) =
    (.completed q n, { s.setArg i none with
      cmdQ := s.cmdQ ++ [i], clears := s.clears ++ [(q, s.callbackArg i)]
      completions := s.completions ++ [(q, n)] }) := by
  simp only [Flow.run, Flow.next, Shared.setArg]

/-- A call of `iscsi_done` that nothing comes between is the one of `Ost.Driver.Queue`. -/
theorem iscsiDone_run (hs : s.Shows h) (r : Completion) (q : Nat) (iov : Option Nat) (i : Nat) :
    ensures (iscsiDone cfg i r) (fun rc h' => (Flow.run e 7 (.waiting q iov i, s)).2.Shows h' ∧
      (rc = 0 ↔ (Flow.run e 7 (.waiting q iov i, s)).1.completed?.isSome = true)) h := by
  have harg := hs.args i
  refine (wp_bind _ _).mpr (wp_get.mpr ?_)
  rcases hcmd : (h.cmds i).callbackArg with _ | p
  · rw [hcmd, Option.isSome_none, Option.isSome_eq_false_iff, Option.isNone_iff_eq_none] at harg
    have hrun : Flow.run e 7 (.waiting q iov i, s) = (.dropped q, s) := by
      simp [Flow.run, Flow.next, harg]
    rw [hrun]
    simp only [hcmd]
    exact ⟨hs, by simp [Flow.completed?]⟩
  rw [hcmd, Option.isSome_some] at harg
  obtain ⟨n, hn⟩ := Option.isSome_iff_exists.mp harg
  have hscribble := hs.scribbles i n hn
  simp only [hcmd]
  refine (wp_bind _ _).mpr ((wp_modify _).mpr ((wp_bind _ _).mpr ((wp_modify _).mpr ?_)))
  refine (wp_bind _ _).mpr ((wp_guarded _ _).mpr ⟨fun hsg => ?_, fun hsg => ?_⟩)
  · rw [hsg] at hscribble
    obtain ⟨v, hv⟩ := Option.isSome_iff_exists.mp hscribble
    have hrun : Flow.run e 7 (.waiting q iov i, s) =
        Flow.run e 3 (.putCmd q n i, { s.setScribble n none with iovQ := s.iovQ ++ [v] }) := by
      simp [Flow.run, Flow.next, hn, hv, Shared.setScribble]
    rw [hrun, putCmd_run]
    refine (wp_modify _).mpr ((wp_bind _ _).mpr ((wp_modify _).mpr ((wp_bind _ _).mpr
      ((wp_modify _).mpr ⟨hs.putBack hn rfl rfl ?_ (fun _ => rfl) (fun _ => rfl) ?_, ?_⟩))))
    · simp [Shared.setArg, Shared.setScribble, hs.iovecs]
    · intro p hp
      simp [Shared.setArg, Shared.setScribble, hp]
    · simp [Flow.completed?]
  · have hnone : s.hostScribble n = none := by
      rw [Bool.not_eq_true] at hsg
      rwa [hsg, Option.isSome_eq_false_iff, Option.isNone_iff_eq_none] at hscribble
    have hrun : Flow.run e 7 (.waiting q iov i, s) = Flow.run e 5 (.putCmd q n i, s) := by
      simp [Flow.run, Flow.next, hn, hnone]
    have hend : Flow.run e 5 (.putCmd q n i, s) = Flow.run e 3 (.putCmd q n i, s) := by
      simp only [Flow.run, Flow.next]
    rw [hrun, hend, putCmd_run]
    refine (wp_bind _ _).mpr ((wp_modify _).mpr ((wp_bind _ _).mpr
      ((wp_modify _).mpr ⟨hs.putBack hn rfl rfl ?_ (fun _ => rfl) (fun _ => rfl) ?_, ?_⟩)))
    · simp [Shared.setArg, hs.iovecs]
    · intro p hp
      simp [Shared.setArg]
    · simp [Flow.completed?]

end Alone
/-! ## Conservation -/

/-- Nothing is lost, and nothing is completed that should not be. -/
structure Lines.Conserved (s : Lines) : Prop where
  /-- Every structure is in the free queue or belongs to one command in flight, once.  A call that
  is over owns nothing. -/
  structures : (s.shared.cmdQ ++ s.flows.filterMap Flow.struct?).Perm
    (List.range configInitiatorQueueDepth)
  /-- So is every scatter list. -/
  scatterLists : (s.shared.iovQ ++ s.flows.filterMap Flow.iov?).Perm
    (List.range configInitiatorQueueDepth)
  /-- No command is completed twice. -/
  once : (s.shared.completions.map Prod.snd).Nodup
  /-- A completion completes the command that it is for, which was accepted. -/
  own : ∀ c ∈ s.shared.completions, c.1 = c.2 ∧ c.2 ∈ s.shared.accepted
  /-- A completion does not clear the argument of another command. -/
  cleared : ∀ c ∈ s.shared.clears, c.2 = none ∨ c.2 = some c.1
  /-- A command that was accepted has been completed, is being completed, or waits where its
  completion finds it. -/
  pending : ∀ q ∈ s.shared.accepted, (q, q) ∈ s.shared.completions ∨
    (∃ f ∈ s.flows, f.completing? = some q) ∨
    ∃ iov i, Flow.waiting q iov i ∈ s.flows ∧ s.shared.callbackArg i = some q

/-- What keeps a step of a call from going wrong. -/
def Flow.Orderly (s : Shared) (l : List Flow) (e : Enqueue) : Flow → Prop
  | needCmd _ iov => iov.isSome → s.cmdQ ≠ []
  | checkLen c _ _ => ¬(c.cmdLen > 16 ∧ c.cmdLen > configIscsiMaxAhsLen)
  | clearing _ _ _ => e ≠ .refused
  | setting _ _ i => e = .queued ∧ ∀ f ∈ l, f.clears i = false
  | _ => True

/-- The steps that do not go wrong.  No call of `iscsi_queuecommand` fails after it has taken
something; a structure is not handed over while an earlier completion is still to clear its
argument; and a second completion comes when the argument is clear. -/
def Orderly (s : Lines) : LineEvent → Prop
  | .submit _ => True
  | .step k e => ∀ f ∈ s.flows[k]?, f.Orderly s.shared s.flows e
  | .late _ i => s.shared.callbackArg i = none

instance (s : Shared) (l : List Flow) (e : Enqueue) (f : Flow) : Decidable (f.Orderly s l e) := by
  cases f <;> unfold Flow.Orderly <;> infer_instance

instance (s : Lines) (e : LineEvent) : Decidable (Orderly s e) := by
  cases e <;> unfold Orderly <;> infer_instance

/-! ## The invariant -/

/-- What a call knows of what is shared. -/
def Flow.Knows (s : Shared) : Flow → Prop
  | start _ | refused _ => True
  | needCmd c iov | checkLen c iov _ | clearing c iov _ | setting c iov _ =>
    s.hostScribble c.number = iov
  | waiting q iov i => s.callbackArg i = some q ∧ s.hostScribble q = iov
  | readScribble q p iov i => q = p ∧ s.callbackArg i = some p ∧ s.hostScribble p = iov
  | clearScribble q p _ i | putIov q p _ i | putCmd q p i => q = p ∧ s.callbackArg i = some p
  | clearArg q p i => q = p ∧ (s.callbackArg i = none ∨ s.callbackArg i = some p)
  | callDone q p | completed q p => q = p
  | dropped _ => False

/-- The invariant. -/
structure Tidy (s : Shared) (l : List Flow) : Prop where
  cmds : (s.cmdQ ++ l.filterMap Flow.struct?).Perm (List.range configInitiatorQueueDepth)
  iovs : (s.iovQ ++ l.filterMap Flow.iov?).Perm (List.range configInitiatorQueueDepth)
  distinct : (l.map Flow.cmd).Nodup
  knows : ∀ f ∈ l, f.Knows s
  completions : s.completions.Perm (l.filterMap Flow.completed?)
  accepted : s.accepted.Perm (l.filterMap Flow.accepted?)
  cleared : ∀ c ∈ s.clears, c.2 = none ∨ c.2 = some c.1

namespace Tidy

variable {s s' : Shared} {l l' : List Flow} {f f' : Flow}

theorem perm (h : Tidy s l) (hl : l.Perm l') : Tidy s l' where
  cmds := ((hl.filterMap _).symm.append_left _).trans h.cmds
  iovs := ((hl.filterMap _).symm.append_left _).trans h.iovs
  distinct := (hl.map _).nodup_iff.mp h.distinct
  knows f hf := h.knows f (hl.mem_iff.mpr hf)
  completions := h.completions.trans (hl.filterMap _)
  accepted := h.accepted.trans (hl.filterMap _)
  cleared := h.cleared

theorem owner {i : Nat} (h : Tidy s (f :: l)) (hf : f.struct? = some i) {g : Flow} (hg : g ∈ l) :
    g.struct? ≠ some i := by
  intro hgi
  have hnodup := h.cmds.nodup_iff.mpr List.nodup_range
  rw [List.filterMap_cons_some hf, List.nodup_append] at hnodup
  exact (List.nodup_cons.mp hnodup.2.1).1 (List.mem_filterMap.mpr ⟨g, hg, hgi⟩)

theorem cmd_ne (h : Tidy s (f :: l)) {g : Flow} (hg : g ∈ l) : g.cmd ≠ f.cmd := fun heq =>
  (List.nodup_cons.mp h.distinct).1 (heq ▸ List.mem_map_of_mem hg)

end Tidy

/-! ## What a call knows is kept -/

section Knows

variable {s s' : Shared} {g : Flow}

theorem Flow.Knows.congr (h : g.Knows s) (harg : s'.callbackArg = s.callbackArg)
    (hscribble : s'.hostScribble = s.hostScribble) : g.Knows s' := by
  cases g <;> simp only [Flow.Knows, harg, hscribble] at h ⊢ <;> exact h

theorem Flow.Knows.setScribble {q : Nat} (h : g.Knows s) (hq : g.cmd ≠ q) (a : Option Nat) :
    g.Knows (s.setScribble q a) := by
  have hother : ∀ p, p ≠ q → (s.setScribble q a).hostScribble p = s.hostScribble p :=
    fun p hp => if_neg hp
  cases g with
  | needCmd c iov => exact (hother _ hq).trans h
  | checkLen c iov i => exact (hother _ hq).trans h
  | clearing c iov i => exact (hother _ hq).trans h
  | setting c iov i => exact (hother _ hq).trans h
  | waiting p iov i => exact ⟨h.1, (hother _ hq).trans h.2⟩
  | readScribble p p' iov i =>
    obtain ⟨rfl, harg, hs⟩ := h
    exact ⟨rfl, harg, (hother _ hq).trans hs⟩
  | _ => exact h

/-- The `callback_arg` of a structure does not matter when it does not name the command of a call,
or the call does not own the structure, and when the call is not about to clear it. -/
theorem Flow.Knows.setArg {i : Nat} (h : g.Knows s)
    (hown : g.struct? = some i → s.callbackArg i ≠ some g.cmd) (a : Option Nat)
    (hclear : g.clears i = true → a = none) : g.Knows (s.setArg i a) := by
  have hother : ∀ j, g.struct? = some j → s.callbackArg j = some g.cmd →
      (s.setArg i a).callbackArg j = s.callbackArg j := fun j hj harg => by
    refine if_neg fun heq => ?_
    rw [heq] at hj harg
    exact hown hj harg
  cases g with
  | waiting p iov j => exact ⟨(hother j rfl h.1).trans h.1, h.2⟩
  | readScribble p p' iov j =>
    obtain ⟨rfl, harg, hs⟩ := h
    exact ⟨rfl, (hother j rfl harg).trans harg, hs⟩
  | clearScribble p p' hs j =>
    obtain ⟨rfl, harg⟩ := h
    exact ⟨rfl, (hother j rfl harg).trans harg⟩
  | putIov p p' hs j =>
    obtain ⟨rfl, harg⟩ := h
    exact ⟨rfl, (hother j rfl harg).trans harg⟩
  | putCmd p p' j =>
    obtain ⟨rfl, harg⟩ := h
    exact ⟨rfl, (hother j rfl harg).trans harg⟩
  | clearArg p p' j =>
    refine ⟨h.1, ?_⟩
    by_cases hj : j = i
    · refine .inl ?_
      rw [hj]
      change (if i = i then a else s.callbackArg i) = none
      rw [if_pos rfl]
      exact hclear (by rw [Flow.clears, hj]; exact beq_self_eq_true i)
    · exact h.2.imp (fun hn => (if_neg hj).trans hn) fun hs => (if_neg hj).trans hs
  | _ => exact h

end Knows

/-! ## Steps -/

section Steps

variable {s s' : Shared} {l : List Flow} {f f' : Flow}

theorem filterMap_cons_toList {α β : Type} (g : α → Option β) (a : α) (l : List α) :
    (a :: l).filterMap g = (g a).toList ++ l.filterMap g := by
  cases h : g a with
  | none => rw [List.filterMap_cons_none h]; rfl
  | some b => rw [List.filterMap_cons_some h]; rfl

theorem perm_balance {α : Type} {q q' a a' r t : List α} (h : (q ++ (a ++ r)).Perm t)
    (hbal : (q' ++ a').Perm (q ++ a)) : (q' ++ (a' ++ r)).Perm t := by
  rw [← List.append_assoc] at h ⊢
  exact (hbal.append_right r).trans h

theorem perm_grow {α : Type} {c c' a a' r : List α} (h : c.Perm (a ++ r))
    (hbal : (c' ++ a).Perm (c ++ a')) : c'.Perm (a' ++ r) := by
  refine (List.perm_append_right_iff a).mp ?_
  refine hbal.trans ((h.append_right a').trans ?_)
  rw [List.append_assoc a' r a]
  exact List.perm_append_comm.trans (List.perm_append_comm.append_left a')

/-- A step of one call. -/
theorem Tidy.move (h : Tidy s (f :: l))
    (hcmds : (s'.cmdQ ++ f'.struct?.toList).Perm (s.cmdQ ++ f.struct?.toList))
    (hiovs : (s'.iovQ ++ f'.iov?.toList).Perm (s.iovQ ++ f.iov?.toList))
    (hcmd : f'.cmd = f.cmd) (hknows : f'.Knows s') (hrest : ∀ g ∈ l, g.Knows s → g.Knows s')
    (hcompletions : (s'.completions ++ f.completed?.toList).Perm
      (s.completions ++ f'.completed?.toList))
    (haccepted : (s'.accepted ++ f.accepted?.toList).Perm (s.accepted ++ f'.accepted?.toList))
    (hcleared : ∀ c ∈ s'.clears, c.2 = none ∨ c.2 = some c.1) : Tidy s' (f' :: l) where
  cmds := by
    have hold := h.cmds
    rw [filterMap_cons_toList] at hold ⊢
    exact perm_balance hold hcmds
  iovs := by
    have hold := h.iovs
    rw [filterMap_cons_toList] at hold ⊢
    exact perm_balance hold hiovs
  distinct := by
    have hold := h.distinct
    rw [List.map_cons] at hold ⊢
    rw [hcmd]
    exact hold
  knows := List.forall_mem_cons.mpr
    ⟨hknows, fun g hg => hrest g hg (h.knows g (List.mem_cons_of_mem _ hg))⟩
  completions := by
    have hold := h.completions
    rw [filterMap_cons_toList] at hold ⊢
    exact perm_grow hold hcompletions
  accepted := by
    have hold := h.accepted
    rw [filterMap_cons_toList] at hold ⊢
    exact perm_grow hold haccepted
  cleared := hcleared

/-- `iscsi_queuecommand` takes a scatter list. -/
theorem Tidy.start {c : Submission} (h : Tidy s (.start c :: l)) (e : Enqueue) :
    Tidy ((Flow.start c).next e s).2 (((Flow.start c).next e s).1 :: l) := by
  have hcmd : ∀ g ∈ l, g.cmd ≠ c.number := fun g hg => h.cmd_ne hg
  rw [Flow.next]
  split
  · refine h.move (.refl _) (.refl _) rfl rfl (fun g _ hg => hg.congr rfl rfl) ?_ ?_ h.cleared
    · exact .of_eq (List.append_nil _)
    · exact .of_eq (List.append_nil _)
  · split
    · split
      · exact h.move (.refl _) (.refl _) rfl trivial (fun _ _ hg => hg) (.refl _)
          (.refl _) h.cleared
      · rename_i v iovQ hq
        refine h.move (.refl _) ?_ rfl ?_ (fun g hg hk => ?_) (.refl _) (.refl _) h.cleared
        · rw [hq]
          exact (List.perm_append_singleton v iovQ).trans (.of_eq (List.append_nil _).symm)
        · exact if_pos rfl
        · exact (hk.setScribble (hcmd g hg) (some v)).congr rfl rfl
    · exact h.move (.refl _) (.refl _) rfl (if_pos rfl)
        (fun g hg hk => hk.setScribble (hcmd g hg) _) (.refl _) (.refl _) h.cleared

theorem Tidy.needCmd {c : Submission} {iov : Option Nat} (h : Tidy s (.needCmd c iov :: l))
    (e : Enqueue) (hok : iov.isSome → s.cmdQ ≠ []) :
    Tidy ((Flow.needCmd c iov).next e s).2 (((Flow.needCmd c iov).next e s).1 :: l) := by
  rw [Flow.next]
  split
  · rename_i hq
    have hiov : iov = none := by
      cases iov with
      | none => rfl
      | some v => exact absurd hq (hok rfl)
    rw [hiov] at h
    exact h.move (.refl _) (.refl _) rfl trivial (fun _ _ hg => hg) (.refl _) (.refl _) h.cleared
  · rename_i i cmdQ hq
    refine h.move ?_ (.refl _) rfl ?_ (fun g _ hg => hg.congr rfl rfl) (.refl _) (.refl _) h.cleared
    · rw [hq]
      exact (List.perm_append_singleton i cmdQ).trans (.of_eq (List.append_nil _).symm)
    · exact h.knows _ List.mem_cons_self

theorem Tidy.setting {c : Submission} {iov : Option Nat} {i : Nat}
    (h : Tidy s (.setting c iov i :: l)) (hclear : ∀ g ∈ l, g.clears i = false) :
    Tidy ((Flow.setting c iov i).next .queued s).2
      (((Flow.setting c iov i).next .queued s).1 :: l) := by
  refine h.move (.refl _) (.refl _) rfl ⟨if_pos rfl, h.knows _ List.mem_cons_self⟩
    (fun g hg hk => ?_) (.refl _) (.of_eq (List.append_nil _)) h.cleared
  refine (hk.setArg (fun hown => absurd hown (h.owner rfl hg)) (some c.number) fun hc => ?_).congr
    rfl rfl
  rw [hclear g hg] at hc
  exact absurd hc (by decide)

theorem Tidy.clearArg {q p i : Nat} (h : Tidy s (.clearArg q p i :: l)) (e : Enqueue) :
    Tidy ((Flow.clearArg q p i).next e s).2 (((Flow.clearArg q p i).next e s).1 :: l) := by
  obtain ⟨hqp, harg⟩ := h.knows _ List.mem_cons_self
  refine h.move (.refl _) (.refl _) rfl hqp (fun g hg hk => ?_) (.refl _) (.refl _) ?_
  · refine (hk.setArg (fun _ heq => ?_) none fun _ => rfl).congr rfl rfl
    rcases harg with hnone | hsome
    · rw [hnone] at heq
      exact absurd heq (by simp)
    · rw [hsome, ← hqp] at heq
      exact h.cmd_ne hg (Option.some.inj heq).symm
  · refine List.forall_mem_append.mpr ⟨h.cleared, List.forall_mem_singleton.mpr ?_⟩
    rw [hqp]
    exact harg

/-- The initiator completes a command: its argument is still set. -/
theorem Tidy.waiting {q i : Nat} {iov : Option Nat} (h : Tidy s (.waiting q iov i :: l))
    (e : Enqueue) : Tidy ((Flow.waiting q iov i).next e s).2
      (((Flow.waiting q iov i).next e s).1 :: l) := by
  obtain ⟨harg, hs⟩ := h.knows _ List.mem_cons_self
  rw [Flow.next, harg]
  exact h.move (.refl _) (.refl _) rfl ⟨rfl, harg, hs⟩ (fun _ _ hk => hk) (.refl _) (.refl _)
    h.cleared

/-- `iscsi_done` takes the scatter list from the command. -/
theorem Tidy.readScribble {q p i : Nat} {iov : Option Nat}
    (h : Tidy s (.readScribble q p iov i :: l)) (e : Enqueue) :
    Tidy ((Flow.readScribble q p iov i).next e s).2
      (((Flow.readScribble q p iov i).next e s).1 :: l) := by
  obtain ⟨hqp, harg, hs⟩ := h.knows _ List.mem_cons_self
  rw [Flow.next, hs]
  cases iov with
  | none =>
    exact h.move (.refl _) (.refl _) rfl ⟨hqp, harg⟩ (fun _ _ hk => hk) (.refl _) (.refl _)
      h.cleared
  | some hs =>
    exact h.move (.refl _) (.refl _) rfl ⟨hqp, harg⟩ (fun _ _ hk => hk) (.refl _) (.refl _)
      h.cleared

/-- One step of a call. -/
theorem tidy_next {e : Enqueue} (h : Tidy s (f :: l)) (hok : f.Orderly s l e) :
    Tidy (f.next e s).2 ((f.next e s).1 :: l) := by
  cases f with
  | start c => exact h.start e
  | needCmd c iov => exact h.needCmd e hok
  | checkLen c iov i =>
    rw [Flow.next, if_neg hok]
    exact h.move (.refl _) (.refl _) rfl (h.knows (.checkLen c iov i) List.mem_cons_self)
      (fun _ _ hk => hk) (.refl _) (.refl _) h.cleared
  | clearing c iov i =>
    rw [Flow.next, if_neg hok]
    exact h.move (.refl _) (.refl _) rfl (h.knows (.clearing c iov i) List.mem_cons_self)
      (fun g hg hk => hk.setArg (fun hown => absurd hown (h.owner rfl hg)) none fun _ => rfl)
      (.refl _) (.refl _) h.cleared
  | setting c iov i =>
    obtain ⟨rfl, hclear⟩ := hok
    exact h.setting hclear
  | waiting q iov i => exact h.waiting e
  | readScribble q p iov i => exact h.readScribble e
  | clearScribble q p hs i =>
    obtain ⟨hqp, harg⟩ := h.knows _ List.mem_cons_self
    exact h.move (.refl _) (.refl _) rfl ⟨hqp, harg⟩
      (fun g hg hk => hk.setScribble (hqp ▸ h.cmd_ne hg) none) (.refl _) (.refl _) h.cleared
  | putIov q p hs i =>
    exact h.move (.refl _) (.of_eq (List.append_nil _)) rfl
      (h.knows (.putIov q p hs i) List.mem_cons_self)
      (fun _ _ hk => hk.congr rfl rfl) (.refl _) (.refl _) h.cleared
  | putCmd q p i =>
    obtain ⟨hqp, harg⟩ := h.knows _ List.mem_cons_self
    exact h.move (.of_eq (List.append_nil _)) (.refl _) rfl ⟨hqp, .inr harg⟩
      (fun _ _ hk => hk.congr rfl rfl) (.refl _) (.refl _) h.cleared
  | clearArg q p i => exact h.clearArg e
  | callDone q p =>
    exact h.move (.refl _) (.refl _) rfl (h.knows (.callDone q p) List.mem_cons_self)
      (fun _ _ hk => hk.congr rfl rfl) (.of_eq (List.append_nil _)) (.refl _) h.cleared
  | completed q p => exact h
  | refused q => exact h
  | dropped q => exact h

end Steps

/-! ## Runs -/

section Runs

variable {s : Lines}

theorem Tidy.submit {sh : Shared} {l : List Flow} (h : Tidy sh l) (c : Submission)
    (hnew : c.number ∉ l.map Flow.cmd) : Tidy sh (.start c :: l) where
  cmds := h.cmds
  iovs := h.iovs
  distinct := List.nodup_cons.mpr ⟨hnew, h.distinct⟩
  knows := List.forall_mem_cons.mpr ⟨trivial, h.knows⟩
  completions := h.completions
  accepted := h.accepted
  cleared := h.cleared

/-- One event. -/
theorem lineNext_tidy (h : Tidy s.shared s.flows) (e : LineEvent) (hok : Orderly s e) :
    ensures (lineNext e) (fun _ s' => Tidy s'.shared s'.flows) s := by
  cases e with
  | submit c =>
    change Tidy (Lines.shared (if _ then _ else _)) (Lines.flows (if _ then _ else _))
    split
    · exact h
    · exact (h.submit c ‹_›).perm (List.perm_append_singleton _ _).symm
  | step k e =>
    change Tidy (Lines.shared (match s.flows[k]? with | none => s | some f => _))
      (Lines.flows (match s.flows[k]? with | none => s | some f => _))
    cases hf : s.flows[k]? with
    | none => exact h
    | some f =>
      obtain ⟨hk, hget⟩ := List.getElem?_eq_some_iff.mp hf
      have hperm : (f :: s.flows.eraseIdx k).Perm s.flows := by
        rw [← hget]
        exact List.getElem_cons_eraseIdx_perm hk
      have hset : ((f.next e s.shared).1 :: s.flows.eraseIdx k).Perm
          (s.flows.set k (f.next e s.shared).1) := by
        exact (List.set_perm_cons_eraseIdx hk _).symm
      refine (tidy_next (h.perm hperm.symm) ?_).perm hset
      have hf' : f.Orderly s.shared s.flows e := hok f hf
      cases f with
      | setting c iov i => exact ⟨hf'.1, fun g hg => hf'.2 g (List.mem_of_mem_eraseIdx hg)⟩
      | needCmd c iov => exact hf'
      | checkLen c iov i => exact hf'
      | clearing c iov i => exact hf'
      | _ => trivial
  | late q i =>
    change Tidy (Lines.shared (if _ then _ else _)) (Lines.flows (if _ then _ else _))
    split
    · unfold Lines.completeAgain
      rw [show s.shared.callbackArg i = none from hok]
      exact h
    · exact h

theorem tidy_init : Tidy Lines.init.shared Lines.init.flows where
  cmds := .of_eq (List.append_nil _)
  iovs := .of_eq (List.append_nil _)
  distinct := List.nodup_nil
  knows := List.forall_mem_nil _
  completions := .nil
  accepted := .nil
  cleared := List.forall_mem_nil _

/-- A command that is accepted is somewhere. -/
theorem Flow.Knows.pending {f : Flow} {q : Nat} (h : f.Knows s.shared) (hf : f ∈ s.flows)
    (hq : f.accepted? = some q) : f.completed? = some (q, q) ∨ f.completing? = some q ∨
      ∃ iov i, Flow.waiting q iov i ∈ s.flows ∧ s.shared.callbackArg i = some q := by
  cases f with
  | waiting p iov i =>
    obtain rfl : p = q := Option.some.inj hq
    exact .inr (.inr ⟨iov, i, hf, h.1⟩)
  | readScribble p p' iov i => exact .inr (.inl (h.1 ▸ hq))
  | clearScribble p p' hs i => exact .inr (.inl (h.1 ▸ hq))
  | putIov p p' hs i => exact .inr (.inl (h.1 ▸ hq))
  | putCmd p p' i => exact .inr (.inl (h.1 ▸ hq))
  | clearArg p p' i => exact .inr (.inl (h.1 ▸ hq))
  | callDone p p' =>
    obtain rfl : p = p' := h
    exact .inr (.inl hq)
  | completed p p' =>
    obtain rfl : p = p' := h
    obtain rfl : p = q := Option.some.inj hq
    exact .inl rfl
  | dropped p => exact h.elim
  | start c => exact absurd hq (by simp [Flow.accepted?])
  | needCmd c iov => exact absurd hq (by simp [Flow.accepted?])
  | checkLen c iov i => exact absurd hq (by simp [Flow.accepted?])
  | clearing c iov i => exact absurd hq (by simp [Flow.accepted?])
  | setting c iov i => exact absurd hq (by simp [Flow.accepted?])
  | refused p => exact absurd hq (by simp [Flow.accepted?])

theorem completed_sublist {sh : Shared} {l : List Flow} (h : ∀ f ∈ l, f.Knows sh) :
    ((l.filterMap Flow.completed?).map Prod.snd).Sublist (l.map Flow.cmd) := by
  induction l with
  | nil => exact .slnil
  | cons f l ih =>
    obtain ⟨hf, hl⟩ := List.forall_mem_cons.mp h
    rw [filterMap_cons_toList, List.map_append, List.map_cons]
    cases hc : f.completed? with
    | none => exact (ih hl).cons _
    | some c =>
      have hcmd : c.2 = f.cmd := by
        cases f with
        | completed q p =>
          obtain rfl : (q, p) = c := Option.some.inj hc
          exact hf.symm
        | _ => exact absurd hc (by simp [Flow.completed?])
      rw [← hcmd]
      exact (ih hl).cons_cons _

/-- The invariant says what it should. -/
theorem Tidy.conserved (h : Tidy s.shared s.flows) : s.Conserved where
  structures := h.cmds
  scatterLists := h.iovs
  once := (h.completions.map Prod.snd).nodup_iff.mpr ((completed_sublist h.knows).nodup h.distinct)
  own c hc := by
    obtain ⟨f, hf, hfc⟩ := List.mem_filterMap.mp (h.completions.mem_iff.mp hc)
    have hk := h.knows f hf
    cases f with
    | completed q p =>
      obtain rfl : (q, p) = c := Option.some.inj hfc
      obtain rfl : q = p := hk
      exact ⟨rfl, h.accepted.mem_iff.mpr (List.mem_filterMap.mpr ⟨_, hf, rfl⟩)⟩
    | _ => exact absurd hfc (by simp [Flow.completed?])
  cleared := h.cleared
  pending q hq := by
    obtain ⟨f, hf, hfq⟩ := List.mem_filterMap.mp (h.accepted.mem_iff.mp hq)
    rcases (h.knows f hf).pending hf hfq with hdone | hcompleting | hwaiting
    · exact .inl (h.completions.mem_iff.mpr (List.mem_filterMap.mpr ⟨f, hf, hdone⟩))
    · exact .inr (.inl ⟨f, hf, hcompleting⟩)
    · exact .inr (.inr hwaiting)

/-- In every run whose steps do not go wrong, the driver conserves what it has. -/
theorem lines_conserved (hs : Reach lineNext Orderly .init s) : s.Conserved := by
  have htidy : Tidy s.shared s.flows :=
    hs.invariant (P := fun s => Tidy s.shared s.flows) tidy_init
      fun s e h hok => lineNext_tidy h e hok
  exact htidy.conserved

/-- A command with a scatter list goes through the driver, and is completed once more. -/
theorem lines_conserved_one :
    ∃ s, (Reach lineNext Orderly .init s ∧ s.shared.completions = [(7, 7)]) ∧ s.Conserved := by
  have hrun : ∃ s, Reach lineNext Orderly .init s ∧ s.shared.completions = [(7, 7)] :=
    exists_reach ([.submit ⟨7, true, 10, false⟩] ++ List.replicate 12 (.step 0 .queued) ++
      [.late 7 0]) (by decide +kernel)
  obtain ⟨s, hs, hdone⟩ := hrun
  exact ⟨s, ⟨hs, hdone⟩, lines_conserved hs⟩

/-- The driver refuses a command with a CDB of 200 bytes and keeps the structure and the scatter
list that it has taken for it. -/
theorem lines_leak :
    ¬∀ s, Reach lineNext (fun _ _ => True) .init s → s.Conserved := by
  intro h
  have hrun : ∃ s, Reach lineNext (fun _ _ => True) .init s ∧
      s.flows = [.refused 7] ∧ s.shared.cmdQ.length = 63 :=
    exists_reach ([.submit ⟨7, true, 200, false⟩] ++ List.replicate 3 (.step 0 .queued))
      (by decide +kernel)
  obtain ⟨s, hs, hflows, hlen⟩ := hrun
  have hperm := (h s hs).structures.length_eq
  rw [hflows, List.length_append, hlen, List.length_range] at hperm
  exact absurd hperm (by decide)

end Runs

end Ost.Driver
