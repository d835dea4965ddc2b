import Ost.Prog.Trace

/-!
# Locks

A lock is a flag of the state.  A program that takes a lock which is held is blocked, and it halts
for a reason of its own.  `Frees l x` says that the lock is free whenever `x` returns, and
`l.Stays x` that `x` does not take it away: what follows the taking of a lock frees it when every
way through it ends with a release.  Instance search finds this along the text of a program.
-/

universe u

namespace Ost.Prog

/-- A flag of the state that says whether a lock is held. -/
structure Lock (σ : Type u) where
  /-- Whether it is held. -/
  held : σ → Bool
  /-- Take or release it. -/
  set : Bool → σ → σ
  held_set : ∀ b s, held (set b s) = b

variable {ε σ α β : Type u}

namespace Lock

variable (l : Lock σ)

attribute [simp] held_set

/-- Take the lock.  It is never free again for one who finds it held. -/
def acquire (e : ε) : Prog ε σ PUnit := do
  if l.held (← get) then halt e else modify (l.set true)

/-- Release the lock. -/
def release : Prog ε σ PUnit := modify (l.set false)

/-- The lock is free afterwards if it was before. -/
def Kept (s s' : σ) : Prop := l.held s = false → l.held s' = false

instance instIsPreorderKept : IsPreorder σ l.Kept where
  refl _ := id
  trans _ _ _ h h' := h' ∘ h

/-- The program leaves a free lock free. -/
abbrev Stays (x : Prog ε σ α) : Prop := Within l.Kept x

/-- The lock is free when the program returns. -/
class Frees (x : Prog ε σ α) : Prop where
  /-- One run. -/
  run : ∀ s, ensures x (fun _ s' => l.held s' = false) s

instance frees_halt (e : ε) : l.Frees (halt e : Prog ε σ α) := ⟨fun _ => trivial⟩

instance frees_release : l.Frees (l.release : Prog ε σ PUnit) := ⟨fun s => l.held_set false s⟩

/-- What comes after the release leaves the lock free. -/
instance frees_bind_stays (x : Prog ε σ β) (k : β → Prog ε σ α) [hx : l.Frees x]
    [hk : ∀ b, l.Stays (k b)] : l.Frees (x >>= k) where
  run s := (hx.run s).bind fun b s' h => ((hk b).run s').mono fun _ _ h' => h' h

/-- What comes before the release is free to do anything. -/
instance frees_bind (x : Prog ε σ β) (k : β → Prog ε σ α) [hk : ∀ b, l.Frees (k b)] :
    l.Frees (x >>= k) where
  run s := (ensures_true x s).bind fun b s' _ => (hk b).run s'

instance frees_ite (c : Prop) [Decidable c] (x y : Prog ε σ α) [hx : l.Frees x]
    [hy : l.Frees y] : l.Frees (if c then x else y) := by
  split <;> assumption

/-- A lock that is taken and freed. -/
instance stays_acquire_bind (e : ε) (k : PUnit → Prog ε σ α) [hk : l.Frees (k ⟨⟩)] :
    l.Stays (l.acquire e >>= k) where
  run s := (ensures_true _ s).bind fun _ s' _ => (hk.run s').mono fun _ _ h _ => h

/-- The rule of sequencing, for a second stage that instance search does not find to free the
lock. -/
theorem Frees.bind {x : Prog ε σ β} {k : β → Prog ε σ α} (hk : ∀ b, l.Frees (k b)) :
    l.Frees (x >>= k) := frees_bind l x k

/-- The rule of a lock that is taken. -/
theorem stays_acquire {e : ε} {k : PUnit → Prog ε σ α} (hk : l.Frees (k ⟨⟩)) :
    l.Stays (l.acquire e >>= k) := stays_acquire_bind l e k

/-- A program that frees the lock leaves it free. -/
theorem Frees.stays {x : Prog ε σ α} (h : l.Frees x) : l.Stays x :=
  ⟨fun s => (h.run s).mono fun _ _ h' _ => h'⟩

/-- A free lock can be taken. -/
theorem acquire_bind {e : ε} {s : σ} (h : l.held s = false) (k : PUnit → Prog ε σ α) :
    (l.acquire e >>= k) s = k ⟨⟩ (l.set true s) := by
  rw [acquire, bind_assoc, get_bind, h]
  rfl

/-- A lock that is held blocks whoever wants to take it. -/
theorem acquire_bind_held {e : ε} {s : σ} (h : l.held s = true) (k : PUnit → Prog ε σ α) :
    (l.acquire e >>= k) s = .halt e s := by
  rw [acquire, bind_assoc, get_bind, h]
  rfl

/-- What follows the taking of a lock runs with the lock held. -/
theorem ensures_acquire {e : ε} {k : PUnit → Prog ε σ α} {Q : α → σ → Prop} {s : σ}
    (h : l.held s = false → ensures (k ⟨⟩) Q (l.set true s)) :
    ensures (l.acquire e >>= k) Q s := by
  cases hs : l.held s with
  | false =>
    rw [ensures, wp, l.acquire_bind hs]
    exact h hs
  | true =>
    rw [ensures, wp, l.acquire_bind_held hs]
    trivial

/-- A release goes through. -/
theorem release_bind (k : PUnit → Prog ε σ α) (s : σ) :
    (l.release >>= k) s = k ⟨⟩ (l.set false s) := rfl

/-! ## Calls -/

section Calls

variable {ι ρ : Type u} {call : ι → Prog ε σ ρ}

/-- Every call finds the lock free, and it is free when they have all returned. -/
def FreeThroughout (call : ι → Prog ε σ ρ) (ops : List ι) (s : σ) : Prop :=
  Along (fun _ s => l.held s = false) call ops s ∧
    ensures (calls call ops) (fun _ s' => l.held s' = false) s

/-- What each call that is made in a state with `P` does to a free lock. -/
theorem freeThroughout_of_along {P : ι → σ → Prop} {ops : List ι} {s : σ}
    (h : ∀ i s, P i s → l.held s = false → ensures (call i) (fun _ s' => l.held s' = false) s)
    (hP : Along P call ops s) (hs : l.held s = false) : l.FreeThroughout call ops s :=
  along_calls h hP hs

end Calls

end Lock

end Ost.Prog
