import Mathlib.Data.List.GetD
import Ost.Util.Iov
import Ost.Util.Tiling

/-!
# Contents that are overwritten piece by piece

A medium is a function from places to values.  A patch stores a list of values from a place on, and
patches are stored one after the other (`patches`).  Where none of them has stored anything the
medium is as it was (`patches_of_not_hit`), and where one has, it does not matter what was there
before (`patches_of_hit`).
-/

universe u

namespace Ost.Util

variable {α : Type u}

/-- Store `l` from the place `off` on. -/
def patch (off : Nat) (l : List α) (f : Nat → α) : Nat → α := fun x =>
  if off ≤ x then l.getD (x - off) (f x) else f x

/-- Store pieces one after the other, at their offsets from `base`. -/
def patches (base : Nat) (ps : List (Nat × List α)) (f : Nat → α) : Nat → α :=
  ps.foldl (fun f p => patch (base + p.1) p.2 f) f

/-- One of the pieces has the place `x`. -/
def Hit (base : Nat) (ps : List (Nat × List α)) (x : Nat) : Prop :=
  ∃ p ∈ ps, InPiece x (base + p.1, p.2.length)

instance (base : Nat) (ps : List (Nat × List α)) (x : Nat) : Decidable (Hit base ps x) :=
  inferInstanceAs (Decidable (∃ p ∈ ps, _))

variable {base off x : Nat} {l : List α} {p : Nat × List α} {ps qs : List (Nat × List α)}
  {f g : Nat → α}

theorem patch_of_not_mem (h : ¬InPiece x (off, l.length)) : patch off l f x = f x := by
  unfold patch
  split
  · have hle : l.length ≤ x - off := by
      by_contra hlt
      exact h ⟨by assumption, by dsimp only; omega⟩
    exact List.getD_eq_default _ _ hle
  · rfl

theorem patch_of_mem (h : InPiece x (off, l.length)) : patch off l f x = patch off l g x := by
  obtain ⟨hle, hlt⟩ := h
  have hi : x - off < l.length := by
    dsimp only at hle hlt
    omega
  unfold patch
  rw [if_pos hle, if_pos hle, List.getD_eq_getElem _ _ hi, List.getD_eq_getElem _ _ hi]

@[simp] theorem patches_cons :
    patches base (p :: ps) f = patches base ps (patch (base + p.1) p.2 f) := rfl

theorem patches_append : patches base (ps ++ qs) f = patches base qs (patches base ps f) :=
  List.foldl_append

theorem not_hit_nil : ¬Hit base ([] : List (Nat × List α)) x := fun ⟨_, hp, _⟩ =>
  List.not_mem_nil hp

theorem hit_append : Hit base (ps ++ qs) x ↔ Hit base ps x ∨ Hit base qs x := by
  simp only [Hit, List.mem_append, or_and_right, exists_or]

theorem hit_cons : Hit base (p :: ps) x ↔ InPiece x (base + p.1, p.2.length) ∨ Hit base ps x := by
  simp only [Hit, List.mem_cons, or_and_right, exists_or, exists_eq_left]

/-- Where nothing was stored nothing has changed. -/
theorem patches_of_not_hit (h : ¬Hit base ps x) : patches base ps f x = f x := by
  induction ps generalizing f with
  | nil => rfl
  | cons p ps ih =>
    rw [hit_cons, not_or] at h
    rw [patches_cons, ih h.2, patch_of_not_mem h.1]

/-- The patches see only what is at the place itself. -/
theorem patches_congr (h : f x = g x) : patches base ps f x = patches base ps g x := by
  induction ps generalizing f g with
  | nil => exact h
  | cons p ps ih =>
    rw [patches_cons, patches_cons]
    refine ih ?_
    by_cases hp : InPiece x (base + p.1, p.2.length)
    · exact patch_of_mem hp
    · rw [patch_of_not_mem hp, patch_of_not_mem hp, h]

/-- Where something was stored it does not matter what was there before. -/
theorem patches_of_hit (h : Hit base ps x) : patches base ps f x = patches base ps g x := by
  induction ps generalizing f g with
  | nil => exact absurd h not_hit_nil
  | cons p ps ih =>
    rw [patches_cons, patches_cons]
    rcases hit_cons.mp h with hp | hps
    · exact patches_congr (patch_of_mem hp)
    · exact ih hps

/-- Pieces that end before `n` are stored within `n` places of the base. -/
theorem Hit.lt {n : Nat} (h : Hit base ps x) (hps : ∀ p ∈ ps, p.1 + p.2.length ≤ n) :
    InPiece x (base, n) := by
  obtain ⟨p, hp, hle, hlt⟩ := h
  have hn := hps p hp
  dsimp only at hle hlt
  exact ⟨by dsimp only; omega, by dsimp only; omega⟩

/-! ## Memory -/

namespace Memory

open Ost.Iscsi

variable {m : Memory} {r r' : Region} {bs : Bytes}

/-- A store into a region patches it. -/
theorem write_self : m.write r off bs r = patch off bs (m r) := by
  funext x
  by_cases h : InPiece x (off, bs.length)
  · obtain ⟨hle, hlt⟩ := h
    have hi : x - off < bs.length := by
      dsimp only at hle hlt
      omega
    rw [write, patch, if_pos ⟨rfl, hle, hlt⟩, if_pos hle, List.getD_eq_getElem _ _ hi,
      List.getD_eq_getElem _ _ hi]
  · rw [patch_of_not_mem h, write_of_not_mem fun hx => h hx.2]

/-- A store leaves the other regions alone. -/
theorem write_of_ne (h : r' ≠ r) : m.write r off bs r' = m r' := by
  funext x
  exact write_of_not_mem fun hx => h hx.1

end Memory

end Ost.Util
