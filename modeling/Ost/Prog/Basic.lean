import Mathlib.Order.Defs.Unbundled
import Mathlib.Tactic.TypeStar

/-!
# Stateful programs that may stop the whole process

`Prog ε σ α` is the type of programs that read and write a state `σ` and either
return a value or halt for a reason in `ε`.  A halt is not an exception: nothing
catches it, and it keeps the state in which it happened, because the properties
proved with this library are about what the world looks like when a daemon dies
as much as about what it looks like when a handler returns.

## Contents

* `Prog`, its monad structure, and the primitive programs;
* `Prog.wp`, the weakest precondition for a pair of postconditions, one for
  returns and one for halts, with one rewriting rule per construct;
* `Prog.Within R x`, "every run of `x` that returns moves the state along `R`", for a
  preorder `R`.  Frame conditions, invariants and monotone logs are all instances
  of it, and instance search composes them along the text of a program.
-/

universe u

namespace Ost

/-- How a run ends: it returns a value, or the process halts. -/
inductive Outcome (ε σ α : Type u) : Type u where
  | /-- The program returned `a` in state `s`. -/
    ret (a : α) (s : σ)
  | /-- The process halted for reason `e` in state `s`. -/
    halt (e : ε) (s : σ)
deriving DecidableEq, Repr

/-- The state in which a run ended. -/
def Outcome.state {ε σ α : Type u} : Outcome ε σ α → σ
  | .ret _ s | .halt _ s => s

/-- The value that a run returned. -/
def Outcome.value? {ε σ α : Type u} : Outcome ε σ α → Option α
  | .ret a _ => some a
  | .halt _ _ => none

/-- A run that has a value returned it. -/
theorem Outcome.exists_ret {ε σ α : Type u} {o : Outcome ε σ α} {a : α} (h : o.value? = some a) :
    ∃ s, o = .ret a s := by
  cases o with
  | ret b s => exact ⟨s, by rw [Option.some.inj h]⟩
  | halt e s => exact absurd h (Option.some_ne_none a).symm

/-- A program over the state `σ` that may halt for a reason in `ε`. -/
def Prog (ε σ α : Type u) : Type u := σ → Outcome ε σ α

namespace Prog

variable {ε σ α β : Type u}

/-- Programs form a monad: a halt skips whatever comes after it. -/
instance instMonad : Monad (Prog ε σ) where
  pure a := fun s => .ret a s
  bind x k := fun s =>
    match x s with
    | .ret a s' => k a s'
    | .halt e s' => .halt e s'

/-- A bind runs its first stage and then the continuation, unless that halted. -/
theorem bind_apply (x : Prog ε σ α) (k : α → Prog ε σ β) (s : σ) :
    (x >>= k) s = match x s with
      | .ret a s' => k a s'
      | .halt e s' => .halt e s' := rfl

/-- A first stage that returns. -/
theorem bind_ret {x : Prog ε σ α} {k : α → Prog ε σ β} {s s' : σ} {a : α} (h : x s = .ret a s') :
    (x >>= k) s = k a s' := by
  rw [bind_apply, h]

/-- A first stage that halts. -/
theorem bind_halt {x : Prog ε σ α} {k : α → Prog ε σ β} {s s' : σ} {e : ε}
    (h : x s = .halt e s') : (x >>= k) s = .halt e s' := by
  rw [bind_apply, h]

/-- The monad laws hold on the nose. -/
instance instLawfulMonad : LawfulMonad (Prog ε σ) := by
  apply LawfulMonad.mk' (Prog ε σ)
  · intro α x
    funext s
    change (match x s with | .ret a s' => .ret a s' | .halt e s' => .halt e s') = x s
    cases x s <;> rfl
  · intros
    rfl
  · intro α β γ x f g
    funext s
    simp only [bind_apply]
    cases x s <;> rfl

/-- Read the state. -/
def get : Prog ε σ σ := fun s => .ret s s

/-- Read a part of the state. -/
def gets (f : σ → α) : Prog ε σ α := fun s => .ret (f s) s

/-- Update the state. -/
def modify (f : σ → σ) : Prog ε σ PUnit := fun s => .ret ⟨⟩ (f s)

/-- Stop the process. -/
def halt (e : ε) : Prog ε σ α := fun s => .halt e s

/-- Run `x` only when `c` holds. -/
def guarded (c : Prop) [Decidable c] (x : Prog ε σ PUnit) : Prog ε σ PUnit :=
  if c then x else pure ⟨⟩

/-- Reading the state first. -/
theorem get_bind (k : σ → Prog ε σ α) (s : σ) : (get >>= k) s = k s s := rfl

/-- Reading a part of it first. -/
theorem gets_bind (f : σ → α) (k : α → Prog ε σ β) (s : σ) : (gets f >>= k) s = k (f s) s := rfl

/-- Updating the state first. -/
theorem modify_bind (f : σ → σ) (k : PUnit → Prog ε σ α) (s : σ) :
    (modify f >>= k) s = k ⟨⟩ (f s) := rfl

/-! ## Weakest preconditions -/

/-- `wp x Q E s`: the run of `x` from `s` returns with `Q` or halts with `E`. -/
def wp (x : Prog ε σ α) (Q : α → σ → Prop) (E : ε → σ → Prop) (s : σ) : Prop :=
  match x s with
  | .ret a s' => Q a s'
  | .halt e s' => E e s'

variable {Q Q' : α → σ → Prop} {E E' : ε → σ → Prop} {s : σ}

@[simp] theorem wp_pure (a : α) : wp (pure a) Q E s ↔ Q a s := Iff.rfl

@[simp] theorem wp_get {Q : σ → σ → Prop} : wp get Q E s ↔ Q s s := Iff.rfl

@[simp] theorem wp_gets (f : σ → α) : wp (gets f) Q E s ↔ Q (f s) s := Iff.rfl

@[simp] theorem wp_modify {Q : PUnit → σ → Prop} (f : σ → σ) :
    wp (modify f) Q E s ↔ Q ⟨⟩ (f s) := Iff.rfl

@[simp] theorem wp_halt (e : ε) : wp (halt e) Q E s ↔ E e s := Iff.rfl

/-- The rule of sequencing. -/
@[simp] theorem wp_bind (x : Prog ε σ β) (k : β → Prog ε σ α) :
    wp (x >>= k) Q E s ↔ wp x (fun b s' => wp (k b) Q E s') E s := by
  unfold wp
  rw [bind_apply]
  cases x s <;> rfl

@[simp] theorem wp_map (f : β → α) (x : Prog ε σ β) :
    wp (f <$> x) Q E s ↔ wp x (fun b s' => Q (f b) s') E s := by
  rw [← bind_pure_comp]
  exact wp_bind _ _

/-- The rule of conditionals. -/
theorem wp_ite (c : Prop) [Decidable c] (x y : Prog ε σ α) :
    wp (if c then x else y) Q E s ↔ (c → wp x Q E s) ∧ (¬c → wp y Q E s) := by
  by_cases h : c <;> simp [h]

theorem wp_guarded (c : Prop) [Decidable c] (x : Prog ε σ PUnit) {Q : PUnit → σ → Prop} :
    wp (guarded c x) Q E s ↔ (c → wp x Q E s) ∧ (¬c → Q ⟨⟩ s) :=
  wp_ite c x (pure ⟨⟩)

/-- The rule of consequence. -/
theorem wp_mono {x : Prog ε σ α} (h : wp x Q E s)
    (hQ : ∀ a s', Q a s' → Q' a s') (hE : ∀ e s', E e s' → E' e s') : wp x Q' E' s := by
  unfold wp at h ⊢
  split at h
  · exact hQ _ _ h
  · exact hE _ _ h

/-- Two facts about one run are one fact. -/
theorem wp_and {x : Prog ε σ α} (h : wp x Q E s) (h' : wp x Q' E' s) :
    wp x (fun a t => Q a t ∧ Q' a t) (fun e t => E e t ∧ E' e t) s := by
  unfold wp at h h' ⊢
  split <;> simp_all

/-- A run that returns satisfies the first postcondition. -/
theorem wp.of_ret {x : Prog ε σ α} (h : wp x Q E s) {a : α} {s' : σ}
    (hx : x s = .ret a s') : Q a s' := by
  unfold wp at h
  rwa [hx] at h

/-- A run that halts satisfies the second postcondition. -/
theorem wp.of_halt {x : Prog ε σ α} (h : wp x Q E s) {e : ε} {s' : σ}
    (hx : x s = .halt e s') : E e s' := by
  unfold wp at h
  rwa [hx] at h

/-- A run that cannot halt returns. -/
theorem wp.returns {x : Prog ε σ α} (h : wp x Q (fun _ _ => False) s) :
    ∃ a s', x s = .ret a s' ∧ Q a s' := by
  unfold wp at h
  split at h
  · exact ⟨_, _, ‹_›, h⟩
  · exact h.elim

/-- A weakest precondition holds as soon as both kinds of ending satisfy it. -/
theorem wp_intro {x : Prog ε σ α} (hQ : ∀ a s', x s = .ret a s' → Q a s')
    (hE : ∀ e s', x s = .halt e s' → E e s') : wp x Q E s := by
  unfold wp
  split
  · exact hQ _ _ ‹_›
  · exact hE _ _ ‹_›

/-- Every run of `x` from `s` that returns satisfies `Q`. -/
abbrev ensures (x : Prog ε σ α) (Q : α → σ → Prop) (s : σ) : Prop := wp x Q (fun _ _ => True) s

/-- The rule of consequence for runs that return. -/
theorem ensures.mono {x : Prog ε σ α} (h : ensures x Q s) (hQ : ∀ a s', Q a s' → Q' a s') :
    ensures x Q' s :=
  wp_mono h hQ fun _ _ => id

/-- The rule of sequencing for runs that return. -/
theorem ensures.bind {x : Prog ε σ β} {k : β → Prog ε σ α} {P : β → σ → Prop}
    (h : ensures x P s) (hk : ∀ b s', P b s' → ensures (k b) Q s') : ensures (x >>= k) Q s :=
  (wp_bind _ _).mpr (h.mono hk)

/-- A run that is known to return. -/
theorem ensures_of_ret {x : Prog ε σ α} {a : α} {s' : σ} (h : x s = .ret a s') (hQ : Q a s') :
    ensures x Q s := by
  rw [ensures, wp, h]
  exact hQ

theorem ensures_true (x : Prog ε σ α) (s : σ) : ensures x (fun _ _ => True) s :=
  wp_intro (fun _ _ _ => trivial) fun _ _ _ => trivial

/-- A family of facts about the runs that return is one fact. -/
theorem ensures_forall {ι : Sort*} {x : Prog ε σ α} {Q : ι → α → σ → Prop}
    (h : ∀ i, ensures x (Q i) s) : ensures x (fun a s' => ∀ i, Q i a s') s :=
  wp_intro (fun _ _ hx i => (h i).of_ret hx) fun _ _ _ => trivial

/-! ## Moving along a preorder -/

/-- Every run of `x` that returns moves the state along `R`. -/
class Within (R : σ → σ → Prop) (x : Prog ε σ α) : Prop where
  /-- One run. -/
  run : ∀ s, ensures x (fun _ s' => R s s') s

variable {R : σ → σ → Prop} [IsPreorder σ R]

instance within_pure (a : α) : Within R (pure a : Prog ε σ α) := ⟨fun s => refl s⟩

instance within_get : Within R (get : Prog ε σ σ) := ⟨fun s => refl s⟩

instance within_gets (f : σ → α) : Within R (gets f : Prog ε σ α) := ⟨fun s => refl s⟩

omit [IsPreorder σ R] in
instance within_halt (e : ε) : Within R (halt e : Prog ε σ α) := ⟨fun _ => trivial⟩

/-- Sequencing composes moves. -/
instance within_bind (x : Prog ε σ β) (k : β → Prog ε σ α) [hx : Within R x]
    [hk : ∀ b, Within R (k b)] : Within R (x >>= k) where
  run s := by
    rw [ensures, wp_bind]
    exact (hx.run s).mono fun b s' h => ((hk b).run s').mono fun _ _ => Trans.trans h

omit [IsPreorder σ R] in
instance within_ite (c : Prop) [Decidable c] (x y : Prog ε σ α) [hx : Within R x]
    [hy : Within R y] : Within R (if c then x else y) := by
  split <;> assumption

instance within_guarded (c : Prop) [Decidable c] (x : Prog ε σ PUnit) [hx : Within R x] :
    Within R (guarded c x) := within_ite c x (pure ⟨⟩)

omit [IsPreorder σ R] in
/-- The rule of a choice, for a second branch whose moves are not found by instance search. -/
theorem Within.ite (c : Prop) [Decidable c] {x y : Prog ε σ α} [Within R x] (h : Within R y) :
    Within R (if c then x else y) := within_ite c x y

/-- The rule of a guard. -/
theorem Within.guarded (c : Prop) [Decidable c] {x : Prog ε σ PUnit} (h : Within R x) :
    Within R (guarded c x) := within_guarded c x

/-- The rule of sequencing, for stages whose moves are not found by instance search. -/
theorem Within.bind {x : Prog ε σ β} {k : β → Prog ε σ α} (hx : Within R x)
    (hk : ∀ b, Within R (k b)) : Within R (x >>= k) := within_bind x k

omit [IsPreorder σ R]

/-- A program that only updates the state moves along `R` when the update does. -/
theorem within_modify {f : σ → σ} (h : ∀ s, R s (f s)) :
    Within R (modify f : Prog ε σ PUnit) := ⟨h⟩

/-- A move along `R` is a move along every coarser relation. -/
theorem Within.mono {R' : σ → σ → Prop} {x : Prog ε σ α} (h : Within R x)
    (hR : ∀ s s', R s s' → R' s s') : Within R' x :=
  ⟨fun s => (h.run s).mono fun _ _ => hR _ _⟩

/-- A move inside a weakest precondition. -/
theorem Within.and_wp {x : Prog ε σ α} (h : Within R x) (hx : wp x Q E s) :
    wp x (fun a s' => Q a s' ∧ R s s') E s :=
  wp_mono (wp_and hx (h.run s)) (fun _ _ => id) fun _ _ h => h.1

/-- A move of a run that returned. -/
theorem Within.of_ret {x : Prog ε σ α} (h : Within R x) {a : α} {s' : σ}
    (hx : x s = .ret a s') : R s s' := (h.run s).of_ret hx

/-- `f` has the same value before and after. -/
def Keeps (f : σ → β) : σ → σ → Prop := fun s s' => f s' = f s

instance instIsPreorderKeeps (f : σ → β) : IsPreorder σ (Keeps f) where
  refl _ := rfl
  trans _ _ _ h h' := Eq.trans h' h

/-! ## A part of the state -/

/-- Run a program on a part of the state. -/
def zoom {τ ε' : Type u} (part : τ → σ) (put : τ → σ → τ) (stop : ε → ε') (x : Prog ε σ α) :
    Prog ε' τ α := fun t =>
  match x (part t) with
  | .ret a s' => .ret a (put t s')
  | .halt e s' => .halt (stop e) (put t s')

/-- The rule of a program on a part of the state. -/
theorem wp_zoom {τ ε' : Type u} {part : τ → σ} {put : τ → σ → τ} {stop : ε → ε'} {x : Prog ε σ α}
    {Q : α → τ → Prop} {E : ε' → τ → Prop} {t : τ} :
    wp (zoom part put stop x) Q E t ↔
      wp x (fun a s' => Q a (put t s')) (fun e s' => E (stop e) (put t s')) (part t) := by
  simp only [wp, zoom]
  cases x (part t) <;> rfl

end Prog

end Ost
