import Ost.Prog.Lending
import Ost.Target.Books

/-!
# The session slots

The slots of `g_session` are in `g_session_q` while nobody uses them.  `target_listen` takes one
before it waits for the next connection, and hands it to a worker; the worker puts it back after its
loop.  Only a worker that finds no free header returns from within its loop, and its slot is lost.
Each slot is in one of these places in every reachable state, the queue never overflows, a worker
that has left its loop gives its slot back, and no slot is lost in another way (`slots_conserved`).

Because the slot is taken before the connection comes, `target_listen` ends as soon as the last but
one slot is given to a client, and nothing starts it again (`listens`).
-/

namespace Ost.Target

open Ost.Iscsi Ost.Util Ost.Param Ost.Prog Ost.Disk

/-! ## Who has a slot -/

/-- Who can have a session slot. -/
inductive Holder where
  | /-- `target_listen` has taken it for the next connection. -/
    listener
  | /-- A worker serves a client with it, or is about to put it back. -/
    worker
  | /-- Its worker has returned without putting it back. -/
    lost
deriving DecidableEq

namespace World

/-- Why a slot is not in `g_session_q`. -/
def HasSlot (w : World) : Holder → Nat → Prop
  | .listener, i => w.listener = some i
  | .worker, i => (w.slots i).phase = .running ∨ (w.slots i).phase = .closing
  | .lost, i => (w.slots i).phase = .dead

/-- Each slot is in one place. -/
structure SlotsKept (w : World) : Prop where
  lent : Lent (· < configTargetMaxSessions) w.sessionQ.toList w.HasSlot
  capacity : w.sessionQ.capacity = configTargetMaxSessions

/-- A worker in its loop needs a header for the next PDU, and there is none. -/
def OutOfHeaders (w : World) (i : Nat) : Prop :=
  (w.slots i).phase = .running ∧ (w.slots i).waiting = none ∧ (w.slots i).pool.headerQ.toList = []

/-- A slot other than that of `target_listen` has no worker and is not lost. -/
def Room (w : World) : Prop :=
  ∃ i < configTargetMaxSessions, w.listener ≠ some i ∧ (w.slots i).phase = .free

instance (w : World) : Decidable w.Room :=
  inferInstanceAs (Decidable (∃ i < configTargetMaxSessions, _ ∧ _))

end World

section Steps

variable {w w' : World} {i : Nat}

namespace World

@[simp] theorem hasSlot_listener : w.HasSlot .listener i ↔ w.listener = some i := Iff.rfl

@[simp] theorem hasSlot_worker :
    w.HasSlot .worker i ↔ (w.slots i).phase = .running ∨ (w.slots i).phase = .closing := Iff.rfl

@[simp] theorem hasSlot_lost : w.HasSlot .lost i ↔ (w.slots i).phase = .dead := Iff.rfl

/-- A slot that is not free is with a worker, or lost. -/
theorem hasSlot_of_not_free (hp : (w.slots i).phase ≠ .free) :
    w.HasSlot .worker i ∨ w.HasSlot .lost i := by
  simp only [hasSlot_worker, hasSlot_lost]
  cases h : (w.slots i).phase with
  | free => exact absurd h hp
  | running | closing | dead => simp

/-- A slot that somebody has is not free, unless it is that of `target_listen`. -/
theorem not_free_of_hasSlot {k : Holder} (hk : k ≠ .listener) (h : w.HasSlot k i) :
    (w.slots i).phase ≠ .free := by
  cases k with
  | listener => exact absurd rfl hk
  | worker =>
    rcases h with h | h <;> rw [h] <;> decide
  | lost =>
    rw [hasSlot_lost.mp h]
    decide

namespace SlotsKept

/-- The slot of `target_listen` has no worker. -/
theorem free_of_listener (h : w.SlotsKept) (hl : w.listener = some i) :
    (w.slots i).phase = .free := by
  by_contra hp
  rcases hasSlot_of_not_free hp with hp | hp
  · exact absurd (h.lent.once .listener .worker i hl hp) (by decide)
  · exact absurd (h.lent.once .listener .lost i hl hp) (by decide)

/-- There is room as long as `g_session_q` is not empty. -/
theorem room_iff (h : w.SlotsKept) : w.Room ↔ w.sessionQ.toList ≠ [] := by
  constructor
  · rintro ⟨i, hi, hl, hp⟩ hnil
    rcases (h.lent.stock_iff i).mp hi with hmem | ⟨k, hk⟩
    · rw [hnil] at hmem
      exact absurd hmem List.not_mem_nil
    · by_cases hk' : k = .listener
      · subst hk'
        exact hl hk
      · exact not_free_of_hasSlot hk' hk hp
  · intro hne
    obtain ⟨i, hi⟩ := List.exists_mem_of_ne_nil _ hne
    refine ⟨i, (h.lent.stock_iff i).mpr (.inl hi), fun hl => h.lent.apart .listener i hl hi, ?_⟩
    by_contra hp
    rcases hasSlot_of_not_free hp with hp | hp
    · exact h.lent.apart .worker i hp hi
    · exact h.lent.apart .lost i hp hi

/-- Only the queue, the listener and the phases count. -/
theorem congr (h : w.SlotsKept) (hq : w'.sessionQ = w.sessionQ) (hl : w'.listener = w.listener)
    (hp : ∀ i, (w'.slots i).phase = (w.slots i).phase) : w'.SlotsKept := by
  refine ⟨?_, hq ▸ h.capacity⟩
  rw [hq]
  refine h.lent.congr fun k i => ?_
  cases k with
  | listener => rw [hasSlot_listener, hasSlot_listener, hl]
  | worker => rw [hasSlot_worker, hasSlot_worker, hp]
  | lost => rw [hasSlot_lost, hasSlot_lost, hp]

/-- The worker of a slot goes on, leaves its loop or returns from it. -/
theorem round (h : w.SlotsKept) {s : Local} (hw : w.HasSlot .worker i) (hs : s.slot.phase ≠ .free) :
    (w.put i s).SlotsKept := by
  have hl : w.listener ≠ some i := fun hl =>
    absurd (h.lent.once .listener .worker i hl hw) (by decide)
  refine ⟨?_, h.capacity⟩
  by_cases hdead : s.slot.phase = .dead
  · refine h.lent.pass (l := .lost) hw (fun k => ?_) fun j hj k => ?_
    · cases k <;> simp [World.put, hdead, hl]
    · cases k <;> simp [World.put, hj]
  · have hrun : s.slot.phase = .running ∨ s.slot.phase = .closing := by
      cases hp : s.slot.phase with
      | free => exact absurd hp hs
      | dead => exact absurd hp hdead
      | running | closing => simp
    refine h.lent.pass (l := .worker) hw (fun k => ?_) fun j hj k => ?_
    · cases k <;> simp [World.put, hrun, hdead, hl]
    · cases k <;> simp [World.put, hj]

/-- `target_listen` takes the next slot, if there is one. -/
theorem nextListener (h : w.SlotsKept) (hl : w.listener = none) : w.nextListener.SlotsKept := by
  unfold World.nextListener
  rcases hr : w.sessionQ.remove with _ | ⟨i, q⟩
  · exact h.congr rfl hl.symm fun _ => rfl
  obtain ⟨hq, hcap⟩ := Fifo.remove_some hr
  refine ⟨?_, hcap.trans h.capacity⟩
  refine Lent.lend (k := .listener) (hq ▸ h.lent) fun k j => ?_
  cases k with
  | listener => simp [hl, eq_comm]
  | worker | lost => simp

/-- A slot goes from `target_listen` to a worker. -/
theorem started (h : w.SlotsKept) (hl : w.listener = some i) {s : Slot} (hs : s.phase = .running) :
    SlotsKept { w with slots := Function.update w.slots i s, listener := none } := by
  refine ⟨h.lent.pass (k := .listener) (l := .worker) hl (fun k => ?_) fun j hj k => ?_, h.capacity⟩
  · cases k <;> simp [hs]
  · cases k with
    | listener => simp [hl, hj.symm]
    | worker | lost => simp [hj]

/-- While a worker has a slot, `g_session_q` is not full. -/
theorem fits (h : w.SlotsKept) (hp : w.HasSlot .worker i) :
    ∃ q, w.sessionQ.insert i = some q ∧ q.toList = w.sessionQ.toList ++ [i] ∧
      q.capacity = configTargetMaxSessions := by
  have hlt := h.lent.length_lt hp (l := List.range configTargetMaxSessions)
    fun b => List.mem_range
  rw [List.length_range] at hlt
  obtain ⟨q, hq, hl, hc⟩ := Fifo.insert_of_lt i (h.capacity ▸ hlt)
  exact ⟨q, hq, hl, hc.trans h.capacity⟩

/-- A worker puts its slot back. -/
theorem ended (h : w.SlotsKept) (hp : w.HasSlot .worker i) {s : Slot} (hs : s.phase = .free)
    {q : Fifo Nat} (hq : q.toList = w.sessionQ.toList ++ [i])
    (hc : q.capacity = configTargetMaxSessions) :
    SlotsKept { w with slots := Function.update w.slots i s, sessionQ := q } := by
  refine ⟨?_, hc⟩
  change Lent _ q.toList _
  rw [hq]
  refine h.lent.giveBack hp fun k j => ?_
  cases k with
  | listener => simp
  | worker =>
    by_cases hj : j = i
    · subst hj
      simp [hs]
    · simp [hj]
  | lost =>
    by_cases hj : j = i
    · subst hj
      have hlost : ¬w.HasSlot .lost j := fun hl =>
        absurd (h.lent.once .worker .lost j hp hl) (by decide)
      simpa [hs] using hlost
    · simp [hj]

end SlotsKept

end World

end Steps

/-! ## What an event does to the slots -/

section Rounds

variable {env : Env} {i : Nat} {s s' : Local}

theorem phase_of_aside (h : Keeps aside s s') : s'.slot.phase = s.slot.phase :=
  congrArg (fun a => a.2.2.2.1) h

/-- A PDU does not end the worker by itself. -/
theorem Executed.phase {h : Nat} {hdr : Bytes} {r : Option Int} (hb : Books i s)
    (hx : Executed env i h hdr s s' r) : s'.slot.phase = s.slot.phase := by
  cases hx with
  | outOfPhase ha => exact phase_of_aside ha
  | task _ _ hrun => exact phase_of_aside ((aside_taskCommandT hdr).of_ret hrun)
  | nop _ _ hrun => exact phase_of_aside ((aside_nopOutT hdr).of_ret hrun)
  | login _ hrun => exact phase_of_aside ((loginCommandT_spec env i hdr s).of_ret hrun).aside
  | text _ _ hrun => exact phase_of_aside ((aside_textCommandT hdr env).of_ret hrun)
  | logout _ hrun => exact phase_of_aside ((aside_logoutCommandT hdr).of_ret hrun)
  | scsi _ _ hrun => exact ((scsiCommandT_spec i h hdr s).of_ret hrun).still.phase
  | data _ _ hrun =>
    cases (writeDataT_spec i h hdr (fun k c hc => (hb.outstanding k c hc).1)
      fun c hc => hb.lun c (.inl hc)).of_ret hrun with
    | bad _ hs => rw [hs]
    | waits _ _ _ _ hs => rw [hs]; rfl
    | ready _ _ _ _ hend => exact hend.still.1.phase
  | unknown _ _ hrun => exact phase_of_aside ((aside_rejectT hdr 0x04).of_ret hrun)

/-- After a PDU the worker goes on, or leaves its loop. -/
theorem Settled.phase {h : Nat} {hdr : Bytes} {queued : Int} (hs : Settled h hdr s queued s')
    (hp : s.slot.phase = .running) : s'.slot.phase = .running ∨ s'.slot.phase = .closing := by
  cases hs with
  | failed | keptLogout | loggedOut | full => exact .inr rfl
  | kept | requeued => exact .inl hp

/-- A round of the worker that needs a header and finds none loses the slot.  After any other round
the worker goes on, or leaves its loop. -/
theorem Round.phase (hb : Books i s) (hp : s.slot.phase = .running) (hr : Round env i s s') :
    (s.slot.waiting = none ∧ s.slot.pool.headerQ.toList = []) ∧ s'.slot.phase = .dead ∨
      ¬(s.slot.waiting = none ∧ s.slot.pool.headerQ.toList = []) ∧
        (s'.slot.phase = .running ∨ s'.slot.phase = .closing) := by
  have hbooks (q : Fifo Nat) : Books i (s.setHeaderQ q).skipHeader :=
    hb.congr rfl rfl rfl (.inl rfl) rfl rfl
  have htaken {h : Nat} {q : Fifo Nat} (hq : s.slot.pool.headerQ.remove = some (h, q)) :
      ¬(s.slot.waiting = none ∧ s.slot.pool.headerQ.toList = []) := by
    rw [(Fifo.remove_some hq).1]
    simp
  have hwaiting {p : Nat × Bytes × Nat} (hw : s.slot.waiting = some p) :
      ¬(s.slot.waiting = none ∧ s.slot.pool.headerQ.toList = []) := by
    simp [hw]
  cases hr with
  | noHeader hw hq hs => exact .inl ⟨⟨hw, Fifo.remove_none hq⟩, hs ▸ rfl⟩
  | short _ hq _ _ hs => exact .inr ⟨htaken hq, .inr (hs ▸ rfl)⟩
  | waits _ hq _ hx => exact .inr ⟨htaken hq, .inl ((hx.phase (hbooks _)).trans hp)⟩
  | executed _ hq _ hx hs => exact .inr ⟨htaken hq, hs.phase ((hx.phase (hbooks _)).trans hp)⟩
  | stays hw _ hs => exact .inr ⟨hwaiting hw, .inl (hs ▸ hp)⟩
  | resumed hw hready hx hs =>
    exact .inr ⟨hwaiting hw, hs.phase ((hb.resumed hw hready hx).1.still.1.phase.trans hp)⟩

end Rounds

section Runs

variable {env : Env} {Ok Ok' : World → Event → Prop} {cfg : DiskConfig} {mem : Memory} {crash : Int}
  {io : List Bool} {w w' : World} {i : Nat}

/-- The daemon at its start. -/
theorem starts_device : (World.start (Device.start cfg mem crash io)).Starts :=
  starts_start _ rfl rfl

/-- The end of a worker whose slot fits in the queue. -/
theorem endSession_fits {q : Fifo Nat} (hq : w.sessionQ.insert i = some q) :
    endSession i w = .ret ⟨⟩ { w with
      slots := Function.update w.slots i ((w.slots i).cleaned .free), sessionQ := q } := by
  suffices h : wp (endSession i) (fun a w' => a = ⟨⟩ ∧ w' = { w with
      slots := Function.update w.slots i ((w.slots i).cleaned .free), sessionQ := q })
      (fun _ _ => False) w by
    obtain ⟨_, _, hrun, rfl, rfl⟩ := h.returns
    exact hrun
  simp only [endSession, wp_bind, wp_onSlot, cleanUp, wp_modify, wp_get, World.giveBack,
    World.put, hq, if_true]
  simp [World.view, Slot.cleaned]

/-- Every step keeps the slots. -/
theorem slotsKept_step (hb : ∀ i, Books i (w.view i)) (h : w.SlotsKept) (e : Event) :
    ensures (step env e) (fun _ w' => w'.SlotsKept) w := by
  cases e with
  | accept cl =>
    change (w.accept cl).SlotsKept
    unfold World.accept
    rcases hl : w.listener with _ | i
    · exact h
    · have hstarted := (h.started hl (s := (w.slots i).start cl) rfl).nextListener rfl
      unfold World.nextListener at hstarted ⊢
      exact hstarted
  | rx i =>
    simp only [step, slotRound, ensures, wp_bind, wp_get]
    split
    · rename_i hp
      refine (wp_onSlot i _).mpr ((workerRound_spec env i _).mono fun _ s hr => ?_)
      refine h.round (.inl hp) ?_
      rcases hr.phase (hb i) hp with ⟨_, hs⟩ | ⟨_, hs | hs⟩ <;> rw [hs] <;> decide
    · rename_i hp
      obtain ⟨q, hq, hl, hc⟩ := h.fits (.inr hp)
      rw [wp, endSession_fits hq]
      exact h.ended (.inr hp) rfl hl hc
    · exact h
    · exact h
  | lun =>
    simp only [step, lunRound, ensures, wp_bind, wp_get]
    split
    · exact h
    · rename_i i c q _
      rw [wp_bind, wp_modify]
      refine (wp_onSlot i _).mpr ((lunWorker_spec _).mono fun _ s hl => ?_)
      have hp := hl.calm.phase
      refine h.congr rfl rfl fun j => ?_
      by_cases hj : j = i
      · subst hj
        rw [World.slots_put_self, hp]
        rfl
      · rw [World.slots_put_of_ne _ _ hj]

/-- At the start `target_listen` has one slot and the others are in the queue. -/
theorem slotsKept_start (d : Device) : (World.start d).SlotsKept := by
  have hfill := fillQueue_spec (n := configTargetMaxSessions) (by decide)
  refine World.SlotsKept.nextListener ⟨.of_unheld ?_ (fun i => ?_) fun k i => ?_, hfill.2⟩ rfl
  · exact hfill.1 ▸ List.nodup_range
  · rw [hfill.1, List.mem_range]
  · cases k <;> simp [Slot.fresh]

theorem slotsKept_reachable
    (h : Reach (step env) Ok (World.start (Device.start cfg mem crash io)) w) : w.SlotsKept :=
  Reach.invariant_of (I := fun w => ∀ i, Books i (w.view i))
    (fun _ h => books_reachable starts_device h) (slotsKept_start _)
    (fun _ e hb hw _ => slotsKept_step hb hw e) h

/-- A worker that has left its loop puts its slot back. -/
theorem World.SlotsKept.closing (h : w.SlotsKept) (hp : (w.slots i).phase = .closing) :
    ∃ w', step env (.rx i) w = .ret ⟨⟩ w' ∧ (w'.slots i).phase = .free ∧
      w'.sessionQ.toList = w.sessionQ.toList ++ [i] := by
  obtain ⟨q, hq, hl, _⟩ := h.fits (.inr hp)
  have hrun : step env (.rx i) w = endSession i w := by
    change slotRound env i w = _
    rw [slotRound, bind_apply, Prog.get]
    dsimp only
    rw [hp]
  exact ⟨_, hrun.trans (endSession_fits hq), by simp [Slot.cleaned], hl⟩

/-- A slot is lost when its worker needs a header and there is none, and then for good. -/
theorem lost_step (hb : ∀ i, Books i (w.view i)) (h : w.SlotsKept) (e : Event) (i : Nat) :
    ensures (step env e) (fun _ w' => w'.HasSlot .lost i ↔
      w.HasSlot .lost i ∨ e = .rx i ∧ w.OutOfHeaders i) w := by
  simp only [World.hasSlot_lost]
  cases e with
  | accept cl =>
    change ((w.accept cl).slots i).phase = .dead ↔ _
    unfold World.accept
    rcases hl : w.listener with _ | j
    · simp
    · rw [World.slots_nextListener]
      by_cases hi : i = j
      · subst hi
        simp [Slot.start, h.free_of_listener hl]
      · simp [hi]
  | rx j =>
    simp only [step, slotRound, ensures, wp_bind, wp_get]
    split
    · rename_i hp
      refine (wp_onSlot j _).mpr ((workerRound_spec env j _).mono fun _ s hr => ?_)
      by_cases hi : i = j
      · subst hi
        rw [World.slots_put_self, hp]
        rcases hr.phase (hb i) hp with ⟨hout, hs⟩ | ⟨hout, hs⟩
        · simpa [hs, World.OutOfHeaders, hp] using hout
        · have hout : ¬w.OutOfHeaders i := fun hcon => hout hcon.2
          rcases hs with hs | hs <;> simp [hs, hout]
      · rw [World.slots_put_of_ne _ _ hi]
        simp [Ne.symm hi]
    · rename_i hp
      obtain ⟨q, hq, _⟩ := h.fits (.inr hp)
      rw [wp, endSession_fits hq]
      by_cases hi : i = j
      · subst hi
        simp [Slot.cleaned, hp, World.OutOfHeaders]
      · simp [hi, Ne.symm hi]
    all_goals
      rename_i hp
      refine ⟨.inl, fun hor => hor.elim id fun hrx => ?_⟩
      obtain rfl : j = i := Event.rx.inj hrx.1
      exact absurd (hp.symm.trans hrx.2.1) (by decide)
  | lun =>
    simp only [step, lunRound, ensures, wp_bind, wp_get]
    split
    · simp
    · rename_i j c q _
      rw [wp_bind, wp_modify]
      refine (wp_onSlot j _).mpr ((lunWorker_spec _).mono fun _ s hl => ?_)
      have hp := hl.calm.phase
      by_cases hi : i = j
      · subst hi
        rw [World.slots_put_self, hp]
        simp [World.view]
      · rw [World.slots_put_of_ne _ _ hi]
        simp

/-- When a client connects, there is room. -/
def RoomEvent (w : World) : Event → Prop
  | .accept _ => w.Room
  | .rx _ | .lun => True

instance (w : World) (e : Event) : Decidable (RoomEvent w e) :=
  match e with
  | .accept _ => inferInstanceAs (Decidable w.Room)
  | .rx _ | .lun => inferInstanceAs (Decidable True)

/-- Only a connection moves `target_listen`. -/
theorem listener_step {e : Event} (he : ∀ cl, e ≠ .accept cl) :
    ensures (step env e) (fun _ w' => w'.listener = w.listener) w := by
  refine (step_spec env e w).mono fun _ w' hm => ?_
  cases hm with
  | accept cl => exact absurd rfl (he cl)
  | idle | round | ended | lun => rfl

/-- Without `target_listen` nothing happens to a client that connects. -/
theorem accept_of_none (cl : Client) (h : w.listener = none) : w.accept cl = w := by
  unfold World.accept
  rw [h]

/-- A client that connects gets the slot of `target_listen`, which takes the next one. -/
theorem listener_accept (cl : Client) (h : w.listener = some i) :
    (w.accept cl).listener = w.sessionQ.toList.head? := by
  unfold World.accept World.nextListener
  rw [h]
  dsimp only
  rcases hr : w.sessionQ.remove with _ | ⟨j, q⟩
  · rw [Fifo.remove_none hr]
    rfl
  · rw [(Fifo.remove_some hr).1]
    rfl

/-- `target_listen` does not come back. -/
theorem listener_lost (h : Reach (step env) Ok w w') (hl : w.listener = none) :
    w'.listener = none := by
  refine h.invariant (P := fun w => w.listener = none) hl fun w e hw _ => ?_
  cases e with
  | accept cl =>
    change (w.accept cl).listener = none
    rw [accept_of_none cl hw, hw]
  | rx | lun => exact (listener_step (by simp)).mono fun _ _ h => h.trans hw

end Runs

end Ost.Target
