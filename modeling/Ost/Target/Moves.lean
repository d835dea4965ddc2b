import Ost.Prog.Run
import Ost.Target.World

/-!
# What a step of the daemon does

`World.Move` says once what an event can do to the daemon.  Two invariant rules follow from
it: `invariant_views` for a property of every slot together with the device, and
`invariant_slots` for a property of every slot alone.  Each asks what a client, a round of
the worker, a round of the LUN worker and the end of a session do to one slot.
-/

namespace Ost.Target

open Ost.Iscsi Ost.Util Ost.Param Ost.Prog Ost.Disk

variable (env : Env)

/-- A slot after `cleanUp`, with its worker in phase `p`. -/
def Slot.cleaned (s : Slot) (p : Phase) : Slot :=
  { s with
    phase := p
    conn := { s.conn with isOpen := false }
    login := { s.login with
      isLoggedIn := false, ps := { s.login.ps with params := [], cookie := none } }
    pool := { s.pool with cmds := s.pool.cmds.destroy } }

/-- A filled queue holds the indices, and no more. -/
theorem fillQueue_spec {n : Nat} (hn : 0 < n) :
    (fillQueue n).toList = List.range n ∧ (fillQueue n).capacity = n := by
  obtain ⟨q, hq, hl, hc⟩ := Fifo.insertAll_of_le (r := Fifo.init (n - 1)) (l := List.range n)
    (by simp; omega)
  rw [fillQueue, hq]
  refine ⟨by simpa using hl, hc.trans ?_⟩
  rw [Fifo.capacity_init]
  omega

theorem toList_fillQueue {n : Nat} (hn : 0 < n) : (fillQueue n).toList = List.range n :=
  (fillQueue_spec hn).1

namespace World

/-- The daemon after the LUN worker has removed a command from the queue. -/
def popped (w : World) (q : Fifo (Nat × Nat)) : World :=
  { w with dev := { w.dev with cmdQueue := q } }

@[simp] theorem slots_popped (w : World) (q : Fifo (Nat × Nat)) :
    (w.popped q).slots = w.slots := rfl

@[simp] theorem slot_view (w : World) (i : Nat) : (w.view i).slot = w.slots i := rfl

@[simp] theorem dev_view (w : World) (i : Nat) : (w.view i).dev = w.dev := rfl

@[simp] theorem slots_put_self (w : World) (i : Nat) (s : Local) : (w.put i s).slots i = s.slot :=
  Function.update_self ..

theorem slots_put_of_ne (w : World) {i j : Nat} (s : Local) (h : j ≠ i) :
    (w.put i s).slots j = w.slots j := Function.update_of_ne h ..

@[simp] theorem view_put_self (w : World) (i : Nat) (s : Local) : (w.put i s).view i = s := by
  simp [view, put]

theorem view_put_of_ne (w : World) {i j : Nat} (s : Local) (h : j ≠ i) :
    (w.put i s).view j = { w.view j with dev := s.dev, nopFlag := s.nopFlag } := by
  simp [view, put, Function.update_of_ne h]

/-- What an event can do. -/
inductive Move (w : World) : Event → World → Prop where
  | idle {e : Event} (h : ∀ i, e = .rx i → (w.slots i).phase ≠ .running) : Move w e w
  | accept (cl : Client) {i : Nat} (h : w.listener = some i) :
    Move w (.accept cl)
      (nextListener { w with slots := Function.update w.slots i ((w.slots i).start cl) })
  | round {i : Nat} {s : Local} (hp : (w.slots i).phase = .running)
    (h : workerRound env i (w.view i) = .ret ⟨⟩ s) : Move w (.rx i) (w.put i s)
  | ended {i : Nat} {p : Phase} (q : Fifo Nat) (hp : (w.slots i).phase = .closing)
    (hend : p = .free ∨ p = .dead) :
    Move w (.rx i)
      { w with slots := Function.update w.slots i ((w.slots i).cleaned p), sessionQ := q }
  | lun {i c : Nat} {q : Fifo (Nat × Nat)} {s : Local}
    (hq : w.dev.cmdQueue.remove = some ((i, c), q))
    (h : lunWorker i c ((w.popped q).view i) = .ret ⟨⟩ s) : Move w .lun ((w.popped q).put i s)

@[simp] theorem slots_nextListener (w : World) : w.nextListener.slots = w.slots := by
  unfold nextListener
  split <;> rfl

@[simp] theorem dev_nextListener (w : World) : w.nextListener.dev = w.dev := by
  unfold nextListener
  split <;> rfl

@[simp] theorem nopFlag_nextListener (w : World) : w.nextListener.nopFlag = w.nopFlag := by
  unfold nextListener
  split <;> rfl

theorem view_nextListener (w : World) (i : Nat) : w.nextListener.view i = w.view i := by
  simp [view]

end World

/-- A handler on a slot moves the slot. -/
@[simp] theorem wp_onSlot {α : Type} (i : Nat) (x : Handler α) {Q : α → World → Prop}
    {E : Halt → World → Prop} {w : World} :
    wp (onSlot i x) Q E w ↔
      wp x (fun a s => Q a (w.put i s)) (fun e s => E e (w.put i s)) (w.view i) := by
  unfold wp onSlot
  cases x (w.view i) <;> rfl

/-- A handler on a slot returns into the slot. -/
theorem onSlot_spec {α : Type} (i : Nat) (x : Handler α) (w : World) :
    ensures (onSlot i x) (fun a w' => ∃ s, x (w.view i) = .ret a s ∧ w' = w.put i s) w :=
  (wp_onSlot i x).mpr <| wp_intro (fun _ s h => ⟨s, h, rfl⟩) fun _ _ _ => trivial

/-- The end of a session. -/
theorem endSession_spec (i : Nat) (w : World) :
    ensures (endSession i) (fun _ w' => ∃ p q, (p = .free ∨ p = .dead) ∧ w' = { w with
      slots := Function.update w.slots i ((w.slots i).cleaned p), sessionQ := q }) w := by
  simp only [endSession, ensures, wp_bind, wp_onSlot, cleanUp, wp_modify, wp_get, wp_ite, setPhase]
  refine ⟨fun h => ?_, fun _ => ⟨.dead, w.sessionQ, .inr rfl, ?_⟩⟩
  · refine ⟨.free, (w.sessionQ.insert i).getD w.sessionQ, .inl rfl, ?_⟩
    unfold World.giveBack at h ⊢
    simp only [World.put] at h ⊢
    cases hq : w.sessionQ.insert i <;> simp_all [World.view, Slot.cleaned]
  · simp [World.put, World.view, Slot.cleaned]

/-- Every step is a move. -/
theorem step_spec (e : Event) (w : World) :
    ensures (step env e) (fun _ w' => World.Move env w e w') w := by
  cases e with
  | accept cl =>
    change World.Move env w _ (w.accept cl)
    unfold World.accept
    split
    · exact .idle fun j hj => by cases hj
    · exact .accept cl ‹_›
  | rx i =>
    simp only [step, slotRound, ensures, wp_bind, wp_get]
    split
    · refine (onSlot_spec i _ w).mono ?_
      rintro ⟨⟩ _ ⟨s, hs, rfl⟩
      exact .round ‹_› hs
    · refine (endSession_spec i w).mono ?_
      rintro _ _ ⟨p, q, hend, rfl⟩
      exact .ended q ‹_› hend
    all_goals
      refine .idle fun j hj => ?_
      obtain rfl := Event.rx.inj hj
      simp [*]
  | lun =>
    simp only [step, lunRound, ensures, wp_bind, wp_get]
    split
    · exact .idle fun j hj => by cases hj
    · rw [wp_bind, wp_modify]
      refine (onSlot_spec _ _ (w.popped _)).mono ?_
      rintro ⟨⟩ _ ⟨s, hs, rfl⟩
      exact .lun ‹_› hs

/-! ## Invariant rules -/

section Rules

variable {env} {Ok : World → Event → Prop} {w₀ : World} {P : Nat → Local → Prop}

/-- The property `P` after a handler on the slot `i` has run: of this slot, and of the others with
the device as it is now. -/
def World.Holds (P : Nat → Local → Prop) (w : World) (i : Nat) (s : Local) : Prop :=
  P i s ∧ ∀ j, j ≠ i → P j { w.view j with dev := s.dev, nopFlag := s.nopFlag }

theorem World.Holds.put {w : World} {i : Nat} {s : Local} (h : w.Holds P i s) (j : Nat) :
    P j ((w.put i s).view j) := by
  by_cases hj : j = i
  · subst hj
    rw [view_put_self]
    exact h.1
  · rw [view_put_of_ne w s hj]
    exact h.2 j hj

/-- The invariant rule for a property of every slot together with the device. -/
theorem invariant_views (start : ∀ i, P i (w₀.view i))
    (accept : ∀ i s cl, P i s → P i { s with slot := s.slot.start cl })
    (ended : ∀ w i p, Reach (step env) Ok w₀ w → Ok w (.rx i) → (w.slots i).phase = .closing →
      (p = .free ∨ p = .dead) →
      P i (w.view i) → P i { w.view i with slot := (w.slots i).cleaned p })
    (round : ∀ w i, Reach (step env) Ok w₀ w → Ok w (.rx i) → (w.slots i).phase = .running →
      (∀ j, P j (w.view j)) → ensures (workerRound env i) (fun _ s => w.Holds P i s) (w.view i))
    (lun : ∀ w i c q, Reach (step env) Ok w₀ w → Ok w .lun →
      w.dev.cmdQueue.remove = some ((i, c), q) → (∀ j, P j (w.view j)) →
      ensures (lunWorker i c) (fun _ s => (w.popped q).Holds P i s) ((w.popped q).view i))
    {w : World} (h : Reach (step env) Ok w₀ w) (i : Nat) : P i (w.view i) := by
  suffices ∀ i, P i (w.view i) from this i
  refine Reach.invariant_of (P := fun w => ∀ i, P i (w.view i)) (fun _ h => h) start ?_ h
  intro w e hreach hw ok
  refine (step_spec env e w).mono fun _ w' hmove => ?_
  cases hmove with
  | idle => exact hw
  | @accept cl i hl =>
    intro j
    rw [World.view_nextListener]
    by_cases hj : j = i
    · subst hj
      simpa [World.view] using accept _ _ cl (hw j)
    · simpa [World.view, Function.update_of_ne hj] using hw j
  | round hp hs => exact ((round _ _ hreach ok hp hw).of_ret hs).put
  | @ended i p q hp hend =>
    intro j
    by_cases hj : j = i
    · subst hj
      simpa [World.view] using ended _ _ p hreach ok hp hend (hw j)
    · simpa [World.view, Function.update_of_ne hj] using hw j
  | lun hq hs => exact ((lun _ _ _ _ hreach ok hq hw).of_ret hs).put

/-- The invariant rule for a property of every slot alone. -/
theorem invariant_slots {P : Nat → Slot → Prop} (start : ∀ i, P i (w₀.slots i))
    (accept : ∀ i s cl, P i s → P i (s.start cl))
    (ended : ∀ w i p, Reach (step env) Ok w₀ w → Ok w (.rx i) → (w.slots i).phase = .closing →
      (p = .free ∨ p = .dead) →
      P i (w.slots i) → P i ((w.slots i).cleaned p))
    (round : ∀ w i, Reach (step env) Ok w₀ w → Ok w (.rx i) → (w.slots i).phase = .running →
      P i (w.slots i) → ensures (workerRound env i) (fun _ s => P i s.slot) (w.view i))
    (lun : ∀ w i c q, Reach (step env) Ok w₀ w → Ok w .lun →
      w.dev.cmdQueue.remove = some ((i, c), q) → P i (w.slots i) →
      ensures (lunWorker i c) (fun _ s => P i s.slot) ((w.popped q).view i))
    {w : World} (h : Reach (step env) Ok w₀ w) (i : Nat) : P i (w.slots i) := by
  refine invariant_views (P := fun i s => P i s.slot) start (fun i s cl h => accept i _ cl h) ended
    (fun w i hr ok hp hw => ?_) (fun w i c q hr ok hq hw => ?_) h i
  · exact (round w i hr ok hp (hw i)).mono fun _ s hs => ⟨hs, fun j _ => hw j⟩
  · exact (lun w i c q hr ok hq (hw i)).mono fun _ s hs => ⟨hs, fun j _ => hw j⟩

end Rules

/-! ## Runs on a small daemon

The runs that show a property to fail, or a theorem to apply, are those of a daemon with a disk of
sixteen blocks in memory, whose clients use an empty password scheme. -/

/-- An environment with a digest that does not depend on what it digests. -/
def smallEnv : Env :=
  { md5 := fun _ => List.replicate 16 0, md5_length := length_zeroDigest, hostname := cstr "tgt1"
    targetAddress := cstr "a", staleKey := [] }

/-- A disk of sixteen blocks. -/
def smallDisk : DiskConfig :=
  { type := .ram, numBlocks := 16, blockLen := 512, numLuns := 1, direct := false
    blockLen_mem := blockLen_mem_512, numLuns_le := le_refl 1, size_lt := by decide }

/-- The daemon at its start. -/
def smallWorld : World := World.start (Device.start smallDisk (fun _ _ => 1) (-1) [])

/-- A client that sends some bytes. -/
def client (input : Bytes) : Client :=
  { input, tx := [], heap := [], heapCookie := ⟨0, [], []⟩, rand := fun _ => 0 }

/-- A request header: two bytes, the length of the data, the tag, a word and the CmdSN. -/
def request (b₀ b₁ : UInt8) (len : Nat) (tag word cmdSN : UInt32) : Bytes :=
  put32 (put32 (put32 (put32 (put8 (put8 zeroHeader 0 b₀) 1 b₁) 4 (UInt32.ofNat len)) 16 tag) 20
    word) 24 cmdSN

/-- A login request that goes straight to the full feature phase, with its text. -/
def smallLogin : Bytes :=
  request 0x43 0x87 32 1 0 0 ++ cstr "InitiatorName=i" ++ [0] ++ cstr "TargetName=tgt1" ++ [0]

end Ost.Target
