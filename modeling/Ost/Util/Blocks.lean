import Mathlib.Data.List.Induction

/-!
# Taking in a stream block by block

A consumer that works on blocks of `n` elements collects what it is given until it has a whole block
(`Intake`).  How the stream was cut when it was handed over does not matter (`Intake.feed_append`),
and a stream of whole blocks is a fold over them (`Intake.feed_flatten`).

If a fold over blocks gives the same for two streams that differ, then two of the calls that it has
made collide (`Collide.of_foldl`).
-/

universe u v

namespace Ost.Util

variable {σ : Type u} {α : Type v}

/-- What a consumer has made of the whole blocks, and the beginning of the next one. -/
@[ext] structure Intake (σ : Type u) (α : Type v) where
  state : σ
  pending : List α

namespace Intake

variable (f : σ → List α → σ) (n : Nat)

/-- Take one element. -/
def push (s : Intake σ α) (a : α) : Intake σ α :=
  if s.pending.length + 1 = n then ⟨f s.state (s.pending ++ [a]), []⟩
  else ⟨s.state, s.pending ++ [a]⟩

/-- Take the elements of a list. -/
def feed (s : Intake σ α) (l : List α) : Intake σ α := l.foldl (push f n) s

variable {f n} {s : Intake σ α} {l l' : List α}

@[simp] theorem feed_nil : feed f n s [] = s := rfl

@[simp] theorem feed_cons {a : α} : feed f n s (a :: l) = feed f n (push f n s a) l := rfl

/-- It does not matter how a stream is cut. -/
theorem feed_append : feed f n s (l ++ l') = feed f n (feed f n s l) l' := List.foldl_append

/-- What does not fill a block is kept for later. -/
theorem feed_of_lt (h : s.pending.length + l.length < n) :
    feed f n s l = ⟨s.state, s.pending ++ l⟩ := by
  induction l generalizing s with
  | nil => simp
  | cons a l ih =>
    rw [List.length_cons] at h
    rw [feed_cons, push, if_neg (by omega), ih, List.append_assoc]
    · rfl
    · rw [List.length_append, List.length_singleton]
      omega

/-- What fills a block is worked on. -/
theorem feed_of_eq (hs : s.pending.length < n) (h : s.pending.length + l.length = n) :
    feed f n s l = ⟨f s.state (s.pending ++ l), []⟩ := by
  induction l generalizing s with
  | nil =>
    rw [List.length_nil] at h
    omega
  | cons a l ih =>
    rw [List.length_cons] at h
    rw [feed_cons, push]
    split
    · obtain rfl : l = [] := List.length_eq_zero_iff.mp (by omega)
      rfl
    · rw [ih, List.append_assoc]
      · rfl
      · rw [List.length_append, List.length_singleton]
        omega
      · rw [List.length_append, List.length_singleton]
        omega

/-- A block that begins where one ended. -/
theorem feed_block {t : σ} (hn : 0 < n) (h : l.length = n) : feed f n ⟨t, []⟩ l = ⟨f t l, []⟩ :=
  feed_of_eq hn ((Nat.zero_add _).trans h)

/-- A stream of whole blocks. -/
theorem feed_flatten {t : σ} {bs : List (List α)} (hn : 0 < n) (h : ∀ b ∈ bs, b.length = n) :
    feed f n ⟨t, []⟩ bs.flatten = ⟨bs.foldl f t, []⟩ := by
  induction bs generalizing t with
  | nil => rfl
  | cons b bs ih =>
    rw [List.flatten_cons, feed_append, feed_block hn (h b List.mem_cons_self), List.foldl_cons]
    exact ih fun b hb => h b (List.mem_cons_of_mem _ hb)

theorem length_push {a : α} (hs : s.pending.length < n) :
    (push f n s a).pending.length = (s.pending.length + 1) % n := by
  rw [push]
  split
  · rename_i h
    rw [h, Nat.mod_self]
    rfl
  · rw [List.length_append, List.length_singleton, Nat.mod_eq_of_lt (by omega)]

/-- How much is kept for later. -/
theorem length_pending (hs : s.pending.length < n) :
    (feed f n s l).pending.length = (s.pending.length + l.length) % n := by
  induction l generalizing s with
  | nil => rw [feed_nil, List.length_nil, Nat.add_zero, Nat.mod_eq_of_lt hs]
  | cons a l ih =>
    have hpush := length_push (f := f) (a := a) hs
    rw [feed_cons, ih (hpush ▸ Nat.mod_lt _ (by omega)), hpush, Nat.mod_add_mod, List.length_cons,
      Nat.add_right_comm, Nat.add_assoc]

end Intake

/-! ## The blocks of a list -/

/-- The first `k` blocks of a list. -/
def blocksOf (n : Nat) : Nat → List α → List (List α)
  | 0, _ => []
  | k + 1, l => l.take n :: blocksOf n k (l.drop n)

section Blocks

variable {n k : Nat} {l : List α}

@[simp] theorem length_blocksOf : (blocksOf n k l).length = k := by
  induction k generalizing l with
  | zero => rfl
  | succ k ih => rw [blocksOf, List.length_cons, ih]

/-- All blocks of a list whose length is a multiple of `n` are whole. -/
theorem length_of_mem_blocksOf (h : l.length = n * k) : ∀ b ∈ blocksOf n k l, b.length = n := by
  induction k generalizing l with
  | zero => exact fun _ hb => absurd hb List.not_mem_nil
  | succ k ih =>
    rw [Nat.mul_succ] at h
    refine List.forall_mem_cons.mpr ⟨?_, ih ?_⟩
    · rw [List.length_take]
      omega
    · rw [List.length_drop]
      omega

theorem flatten_blocksOf (h : l.length = n * k) : (blocksOf n k l).flatten = l := by
  induction k generalizing l with
  | zero => exact (List.length_eq_zero_iff.mp h).symm
  | succ k ih =>
    rw [Nat.mul_succ] at h
    rw [blocksOf, List.flatten_cons, ih (by rw [List.length_drop]; omega), List.take_append_drop]

end Blocks

/-! ## Collisions -/

section Collide

variable {β : Type v}

/-- The arguments with which a fold calls its function. -/
def foldCalls (f : σ → β → σ) : σ → List β → List (σ × β)
  | _, [] => []
  | s, x :: l => (s, x) :: foldCalls f (f s x) l

variable {f : σ → β → σ} {s s' : σ} {l l' : List β}

theorem foldCalls_append :
    foldCalls f s (l ++ l') = foldCalls f s l ++ foldCalls f (l.foldl f s) l' := by
  induction l generalizing s with
  | nil => rfl
  | cons x l ih =>
    rw [List.cons_append, foldCalls, ih]
    rfl

/-- Two folds have called their function with different arguments and the same result. -/
def Collide (f : σ → β → σ) (s : σ) (l l' : List β) : Prop :=
  ∃ c ∈ foldCalls f s l, ∃ c' ∈ foldCalls f s l', c ≠ c' ∧ f c.1 c.2 = f c'.1 c'.2

/-- The last calls collide. -/
theorem Collide.of_last {x x' : β} (hne : (l.foldl f s, x) ≠ (l'.foldl f s, x'))
    (h : (l ++ [x]).foldl f s = (l' ++ [x']).foldl f s) : Collide f s (l ++ [x]) (l' ++ [x']) := by
  rw [List.foldl_append, List.foldl_append] at h
  refine ⟨_, ?_, _, ?_, hne, h⟩
  · rw [foldCalls_append]
    exact List.mem_append_right _ List.mem_cons_self
  · rw [foldCalls_append]
    exact List.mem_append_right _ List.mem_cons_self

/-- What has collided stays so when more follows. -/
theorem Collide.append {m m' : List β} (h : Collide f s l l') :
    Collide f s (l ++ m) (l' ++ m') := by
  obtain ⟨c, hc, c', hc', h⟩ := h
  refine ⟨c, ?_, c', ?_, h⟩
  · rw [foldCalls_append]
    exact List.mem_append_left _ hc
  · rw [foldCalls_append]
    exact List.mem_append_left _ hc'

/-- Two streams of the same length. -/
theorem Collide.of_foldl (hlen : l.length = l'.length) (hne : l ≠ l')
    (h : l.foldl f s = l'.foldl f s) : Collide f s l l' := by
  induction l using List.reverseRecOn generalizing l' with
  | nil => exact absurd (List.length_eq_zero_iff.mp hlen.symm).symm hne
  | append_singleton l x ih =>
    rcases List.eq_nil_or_concat l' with rfl | ⟨l', x', hl'⟩
    · simp at hlen
    rw [List.concat_eq_append] at hl'
    subst hl'
    rw [List.length_append, List.length_append, List.length_singleton,
      List.length_singleton] at hlen
    by_cases hc : (l.foldl f s, x) = (l'.foldl f s, x')
    · -- the last calls are the same, so that the streams differ before them
      obtain ⟨hs, hx⟩ := Prod.mk.inj hc
      subst hx
      exact (ih (Nat.add_right_cancel hlen) (fun he => hne (he ▸ rfl)) hs).append
    · exact .of_last hc h

end Collide

end Ost.Util
