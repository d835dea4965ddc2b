import Mathlib.Data.List.Basic
import Mathlib.Algebra.BigOperators.Group.List.Basic
import Mathlib.Algebra.Order.Ring.Nat
import Mathlib.Order.Interval.Finset.Nat

/-!
# Tilings

A transfer is cut into pieces, each with an offset and a length.  `Tiles a l b` says that the pieces
of `l` follow one another without a gap or an overlap, from `a` up to `b`.  `segments` is the
tiling that a loop produces which takes as much as a limit allows in each of its rounds.
-/

namespace Ost.Util

/-- The pieces `l` lead from `a` to `b`. -/
inductive Tiles : Nat → List (Nat × Nat) → Nat → Prop
  | /-- No piece leads nowhere. -/
    nil (a : Nat) : Tiles a [] a
  | /-- The first piece begins at `a`. -/
    cons {a n b : Nat} {l : List (Nat × Nat)} (h : Tiles (a + n) l b) : Tiles a ((a, n) :: l) b

namespace Tiles

variable {a b c n : Nat} {l l' : List (Nat × Nat)}

/-- Tilings compose. -/
theorem append (h : Tiles a l b) (h' : Tiles b l' c) : Tiles a (l ++ l') c := by
  induction h with
  | nil a => exact h'
  | cons _ ih => exact .cons (ih h')

/-- The lengths add up. -/
theorem sum_eq (h : Tiles a l b) : a + (l.map Prod.snd).sum = b := by
  induction h with
  | nil a => rfl
  | cons _ ih => rw [List.map_cons, List.sum_cons, ← Nat.add_assoc, ih]

/-- A tiling leads forward. -/
theorem le (h : Tiles a l b) : a ≤ b := h.sum_eq ▸ Nat.le_add_right _ _

/-- The pieces determine the end. -/
theorem unique (h : Tiles a l b) (h' : Tiles a l c) : b = c := h.sum_eq.symm.trans h'.sum_eq

/-- Every piece lies inside. -/
theorem mem_bounds (h : Tiles a l b) : ∀ p ∈ l, a ≤ p.1 ∧ p.1 + p.2 ≤ b := by
  induction h with
  | nil a => simp
  | cons h ih =>
    rintro p hp
    rcases List.mem_cons.mp hp with rfl | hp
    · exact ⟨Nat.le_refl _, h.le⟩
    · exact ⟨Nat.le_of_add_right_le (ih p hp).1, (ih p hp).2⟩

/-- Every place between the ends is in a piece. -/
theorem covers (h : Tiles a l b) {j : Nat} (ha : a ≤ j) (hb : j < b) :
    ∃ p ∈ l, p.1 ≤ j ∧ j < p.1 + p.2 := by
  induction h with
  | nil a => exact absurd ha (Nat.not_le.mpr hb)
  | @cons a n b l _ ih =>
    rcases Nat.lt_or_ge j (a + n) with hj | hj
    · exact ⟨_, List.mem_cons_self, ha, hj⟩
    · obtain ⟨p, hp, hin⟩ := ih hj hb
      exact ⟨p, List.mem_cons_of_mem _ hp, hin⟩

end Tiles

/-! ## Segments -/

/-- The length of the next of the pieces up to `stop`, where a limit of zero is none. -/
def segmentLength (limit stop a : Nat) : Nat :=
  if limit = 0 then stop - a else min limit (stop - a)

/-- At most `n` pieces from `a` up to `stop`, each as long as possible. -/
def segments (limit stop : Nat) : Nat → Nat → List (Nat × Nat)
  | 0, _ => []
  | n + 1, a =>
    if a < stop then
      (a, segmentLength limit stop a) :: segments limit stop n (a + segmentLength limit stop a)
    else []

section Segments

variable {limit stop a n : Nat}

theorem segmentLength_pos (h : a < stop) : 0 < segmentLength limit stop a := by
  unfold segmentLength
  split <;> omega

theorem segmentLength_le : a ≤ stop → a + segmentLength limit stop a ≤ stop := by
  unfold segmentLength
  split <;> omega

theorem segmentLength_le_limit : limit = 0 ∨ segmentLength limit stop a ≤ limit := by
  unfold segmentLength
  split <;> omega

/-- A segment that is not the last has the length of the limit. -/
theorem segmentLength_of_lt (h : a + segmentLength limit stop a < stop) :
    limit ≠ 0 ∧ segmentLength limit stop a = limit := by
  revert h
  unfold segmentLength
  split <;> omega

/-- At the end there is nothing left. -/
theorem segments_stop : segments limit stop n stop = [] := by
  cases n with
  | zero => rfl
  | succ n => rw [segments, if_neg (Nat.lt_irrefl _)]

theorem segments_cons (h : a < stop) : segments limit stop (n + 1) a =
    (a, segmentLength limit stop a) :: segments limit stop n (a + segmentLength limit stop a) :=
  if_pos h

/-- There are segments as long as something is left. -/
theorem segments_eq_nil_iff (ha : a ≤ stop) (hn : stop ≤ a + n) :
    segments limit stop n a = [] ↔ a = stop := by
  cases n with
  | zero => exact ⟨fun _ => Nat.le_antisymm ha hn, fun _ => rfl⟩
  | succ n =>
    rcases Nat.eq_or_lt_of_le ha with rfl | hlt
    · exact ⟨fun _ => rfl, fun _ => segments_stop⟩
    · rw [segments_cons hlt]
      exact ⟨fun h => absurd h (List.cons_ne_nil _ _), fun h => absurd h (Nat.ne_of_lt hlt)⟩

/-- One segment is enough when the limit does not cut it. -/
theorem segmentLength_eq_iff (ha : a < stop) :
    a + segmentLength limit stop a = stop ↔ limit = 0 ∨ stop - a ≤ limit := by
  unfold segmentLength
  split <;> omega

/-- With enough pieces the segments tile the whole. -/
theorem tiles_segments (ha : a ≤ stop) (hn : stop ≤ a + n) :
    Tiles a (segments limit stop n a) stop := by
  induction n generalizing a with
  | zero =>
    obtain rfl : a = stop := by omega
    exact .nil _
  | succ n ih =>
    rcases Nat.eq_or_lt_of_le ha with rfl | hlt
    · rw [segments_stop]
      exact .nil _
    · rw [segments_cons hlt]
      have := @segmentLength_pos limit _ _ hlt
      exact .cons (ih (segmentLength_le ha) (by omega))

/-- There are at most as many segments as asked for. -/
theorem length_segments_le (n a : Nat) : (segments limit stop n a).length ≤ n := by
  induction n generalizing a with
  | zero => exact Nat.le_refl _
  | succ n ih =>
    rw [segments]
    split
    · exact Nat.succ_le_succ (ih _)
    · exact Nat.zero_le _

/-- No segment exceeds the limit. -/
theorem segments_le_limit (n a : Nat) :
    ∀ x ∈ segments limit stop n a, limit = 0 ∨ x.2 ≤ limit := by
  induction n generalizing a with
  | zero => simp [segments]
  | succ n ih =>
    rw [segments]
    split
    · exact List.forall_mem_cons.mpr ⟨segmentLength_le_limit, ih _⟩
    · simp

/-- No segment is empty. -/
theorem segments_pos (n a : Nat) : ∀ x ∈ segments limit stop n a, 0 < x.2 := by
  induction n generalizing a with
  | zero => simp [segments]
  | succ n ih =>
    rw [segments]
    split
    · exact List.forall_mem_cons.mpr ⟨segmentLength_pos ‹_›, ih _⟩
    · simp

/-- No segment begins before the first. -/
theorem le_segments (n a : Nat) : ∀ x ∈ segments limit stop n a, a ≤ x.1 := by
  induction n generalizing a with
  | zero => simp [segments]
  | succ n ih =>
    rw [segments]
    split
    · exact List.forall_mem_cons.mpr ⟨Nat.le_refl _, fun x hx => Nat.le_of_add_right_le (ih _ x hx)⟩
    · simp

/-- The segment at the beginning is the first. -/
theorem segments_first {x : Nat × Nat} (ha : a < stop) (hx : x ∈ segments limit stop n a)
    (hfirst : x.1 = a) : x.2 = segmentLength limit stop a := by
  cases n with
  | zero => exact absurd hx List.not_mem_nil
  | succ n =>
    rw [segments_cons ha] at hx
    rcases List.mem_cons.mp hx with rfl | hx
    · rfl
    · have hpos := @segmentLength_pos limit _ _ ha
      have hle := le_segments n _ x hx
      omega

end Segments

/-! ## Pieces in any order -/

/-- The piece `p` has the place `x`. -/
def InPiece (x : Nat) (p : Nat × Nat) : Prop := p.1 ≤ x ∧ x < p.1 + p.2

/-- One of two pieces ends before the other begins. -/
def Apart (p q : Nat × Nat) : Prop := p.1 + p.2 ≤ q.1 ∨ q.1 + q.2 ≤ p.1

/-- Pieces that lie below `n` and do not overlap, in whatever order they came. -/
structure Scattered (n : Nat) (l : List (Nat × Nat)) : Prop where
  within : ∀ p ∈ l, p.1 + p.2 ≤ n
  apart : l.Pairwise Apart

instance (x : Nat) (p : Nat × Nat) : Decidable (InPiece x p) := inferInstanceAs (Decidable (_ ∧ _))

instance (p q : Nat × Nat) : Decidable (Apart p q) := inferInstanceAs (Decidable (_ ∨ _))

/-- The places of some pieces. -/
def places (l : List (Nat × Nat)) : Finset Nat :=
  l.foldr (fun p t => Finset.Ico p.1 (p.1 + p.2) ∪ t) ∅

section Scattered

variable {n x : Nat} {p : Nat × Nat} {l : List (Nat × Nat)}

@[simp] theorem places_nil : places [] = ∅ := rfl

@[simp] theorem places_cons : places (p :: l) = Finset.Ico p.1 (p.1 + p.2) ∪ places l := rfl

theorem mem_places : x ∈ places l ↔ ∃ p ∈ l, InPiece x p := by
  induction l with
  | nil => simp
  | cons p l ih => simp [ih, InPiece]

/-- Pieces that are apart have no place in common. -/
theorem disjoint_places (h : ∀ q ∈ l, Apart p q) :
    Disjoint (Finset.Ico p.1 (p.1 + p.2)) (places l) := by
  rw [Finset.disjoint_left]
  intro x hp hl
  obtain ⟨hlo, hhi⟩ := Finset.mem_Ico.mp hp
  obtain ⟨q, hq, hqlo, hqhi⟩ := mem_places.mp hl
  rcases h q hq with h | h <;> omega

/-- The lengths of pieces that do not overlap count their places. -/
theorem card_places (h : l.Pairwise Apart) : (places l).card = (l.map Prod.snd).sum := by
  induction h with
  | nil => rfl
  | @cons p l hp _ ih =>
    rw [places_cons, Finset.card_union_of_disjoint (disjoint_places hp), Nat.card_Ico, ih,
      List.map_cons, List.sum_cons, Nat.add_sub_cancel_left]

namespace Scattered

theorem places_subset (h : Scattered n l) : places l ⊆ Finset.range n := by
  intro x hx
  obtain ⟨p, hp, _, hlt⟩ := mem_places.mp hx
  exact Finset.mem_range.mpr (Nat.lt_of_lt_of_le hlt (h.within p hp))

/-- No more than the whole. -/
theorem sum_le (h : Scattered n l) : (l.map Prod.snd).sum ≤ n := by
  rw [← card_places h.apart, ← Finset.card_range n]
  exact Finset.card_le_card h.places_subset

/-- Pieces that add up to the whole leave no gap. -/
theorem covers (h : Scattered n l) (hsum : (l.map Prod.snd).sum = n) (hx : x < n) :
    ∃ p ∈ l, InPiece x p := by
  have hall : places l = Finset.range n := by
    refine Finset.eq_of_subset_of_card_le h.places_subset ?_
    rw [card_places h.apart, hsum, Finset.card_range]
  exact mem_places.mp (hall ▸ Finset.mem_range.mpr hx)

theorem nil : Scattered n [] := ⟨by simp, .nil⟩

/-- A piece from the beginning. -/
theorem single {k : Nat} (h : k ≤ n) : Scattered n [(0, k)] := ⟨by simpa using h, by simp⟩

/-- Another piece. -/
theorem concat (h : Scattered n l) (hin : p.1 + p.2 ≤ n) (hp : ∀ q ∈ l, Apart q p) :
    Scattered n (l ++ [p]) := by
  refine ⟨?_, List.pairwise_append.mpr ⟨h.apart, by simp, by simpa using hp⟩⟩
  intro q hq
  rcases List.mem_append.mp hq with hq | hq
  · exact h.within q hq
  · exact List.mem_singleton.mp hq ▸ hin

end Scattered

end Scattered

end Ost.Util
