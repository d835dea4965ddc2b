import Mathlib.Data.List.Nodup
import Mathlib.Data.List.Perm.Subperm

/-!
# Things that are lent out

A stock of things is kept as a list of those that are there, and a relation says who holds the
others.  `Lent` says that each thing of the stock is in one place: it is there once, or one holder
has it.  Lending takes the first thing of the list, and a thing that is given back goes to its end.

## Contents

* `Lent`, each thing is in one place;
* `Lent.lend`, `Lent.pass` and `Lent.giveBack`, the moves;
* `Lent.perm_of_unheld`, when nobody holds anything, everything is there.
-/

universe u v

namespace Ost.Prog

variable {κ : Type u} {β : Type v} {stock : β → Prop} {there : List β}
  {holds holds' : κ → β → Prop} {k : κ} {b : β}

/-- Each thing of the stock is there once and held by nobody, or not there and held by one. -/
structure Lent (stock : β → Prop) (there : List β) (holds : κ → β → Prop) : Prop where
  nodup : there.Nodup
  stock_iff : ∀ b, stock b ↔ b ∈ there ∨ ∃ k, holds k b
  apart : ∀ k b, holds k b → b ∉ there
  once : ∀ k k' b, holds k b → holds k' b → k = k'

namespace Lent

theorem congr (h : Lent stock there holds) (hholds : ∀ k b, holds' k b ↔ holds k b) :
    Lent stock there holds' where
  nodup := h.nodup
  stock_iff b := by simp only [h.stock_iff b, hholds]
  apart k b hb := h.apart k b ((hholds k b).mp hb)
  once k k' b hb hb' := h.once k k' b ((hholds k b).mp hb) ((hholds k' b).mp hb')

/-- At first everything is there. -/
theorem of_unheld (hnodup : there.Nodup) (hstock : ∀ b, stock b ↔ b ∈ there)
    (hnone : ∀ k b, ¬holds k b) : Lent stock there holds where
  nodup := hnodup
  stock_iff b := (hstock b).trans ⟨.inl, fun hor => hor.resolve_right fun hk =>
    hk.elim fun k hk => hnone k b hk⟩
  apart k b hb := absurd hb (hnone k b)
  once k _ b hb _ := absurd hb (hnone k b)

/-- The first thing is lent. -/
theorem lend (h : Lent stock (b :: there) holds)
    (hholds : ∀ k' b', holds' k' b' ↔ holds k' b' ∨ k' = k ∧ b' = b) : Lent stock there holds' := by
  obtain ⟨hb, hnodup⟩ := List.nodup_cons.mp h.nodup
  have hnot : ∀ k', ¬holds k' b := fun k' hk => h.apart k' b hk List.mem_cons_self
  constructor
  · exact hnodup
  · intro b'
    rw [h.stock_iff b', List.mem_cons]
    constructor
    · rintro ((rfl | hmem) | ⟨k', hk⟩)
      · exact .inr ⟨k, (hholds k b').mpr (.inr ⟨rfl, rfl⟩)⟩
      · exact .inl hmem
      · exact .inr ⟨k', (hholds k' b').mpr (.inl hk)⟩
    · rintro (hmem | ⟨k', hk⟩)
      · exact .inl (.inr hmem)
      · rcases (hholds k' b').mp hk with hk | ⟨-, rfl⟩
        · exact .inr ⟨k', hk⟩
        · exact .inl (.inl rfl)
  · intro k' b' hk hmem
    rcases (hholds k' b').mp hk with hk | ⟨-, rfl⟩
    · exact h.apart k' b' hk (List.mem_cons_of_mem _ hmem)
    · exact hb hmem
  · intro k₁ k₂ b' h₁ h₂
    rcases (hholds k₁ b').mp h₁ with h₁ | ⟨rfl, rfl⟩
    · rcases (hholds k₂ b').mp h₂ with h₂ | ⟨-, rfl⟩
      · exact h.once k₁ k₂ b' h₁ h₂
      · exact absurd h₁ (hnot k₁)
    · rcases (hholds k₂ b').mp h₂ with h₂ | ⟨rfl, -⟩
      · exact absurd h₂ (hnot k₂)
      · rfl

/-- A thing goes from one holder to another. -/
theorem pass {l : κ} (h : Lent stock there holds) (hb : holds k b)
    (hself : ∀ k', holds' k' b ↔ k' = l)
    (hother : ∀ b', b' ≠ b → ∀ k', holds' k' b' ↔ holds k' b') : Lent stock there holds' := by
  refine ⟨h.nodup, fun b' => ?_, fun k' b' hk => ?_, fun k₁ k₃ b' h₁ h₃ => ?_⟩
  · by_cases heq : b' = b
    · rw [heq, h.stock_iff b]
      exact ⟨fun _ => .inr ⟨l, (hself l).mpr rfl⟩, fun _ => .inr ⟨k, hb⟩⟩
    · simp only [h.stock_iff b', hother b' heq]
  · by_cases heq : b' = b
    · exact heq ▸ h.apart k b hb
    · exact h.apart k' b' ((hother b' heq k').mp hk)
  · by_cases heq : b' = b
    · rw [heq] at h₁ h₃
      exact ((hself k₁).mp h₁).trans ((hself k₃).mp h₃).symm
    · exact h.once k₁ k₃ b' ((hother b' heq k₁).mp h₁) ((hother b' heq k₃).mp h₃)

/-- A thing is given back. -/
theorem giveBack (h : Lent stock there holds) (hb : holds k b)
    (hholds : ∀ k' b', holds' k' b' ↔ holds k' b' ∧ ¬(k' = k ∧ b' = b)) :
    Lent stock (there ++ [b]) holds' := by
  constructor
  · exact List.nodup_append'.mpr ⟨h.nodup, List.nodup_singleton b, fun b' hmem hmem' =>
      h.apart k b hb (List.mem_singleton.mp hmem' ▸ hmem)⟩
  · intro b'
    rw [h.stock_iff b', List.mem_append, List.mem_singleton]
    constructor
    · rintro (hmem | ⟨k', hk⟩)
      · exact .inl (.inl hmem)
      · by_cases heq : b' = b
        · exact .inl (.inr heq)
        · exact .inr ⟨k', (hholds k' b').mpr ⟨hk, fun hcon => heq hcon.2⟩⟩
    · rintro ((hmem | rfl) | ⟨k', hk⟩)
      · exact .inl hmem
      · exact .inr ⟨k, hb⟩
      · exact .inr ⟨k', ((hholds k' b').mp hk).1⟩
  · intro k' b' hk hmem
    obtain ⟨hk, hne⟩ := (hholds k' b').mp hk
    rcases List.mem_append.mp hmem with hmem | hmem
    · exact h.apart k' b' hk hmem
    · obtain rfl := List.mem_singleton.mp hmem
      exact hne ⟨h.once k' k b' hk hb, rfl⟩
  · intro k₁ k₂ b' h₁ h₂
    exact h.once k₁ k₂ b' ((hholds k₁ b').mp h₁).1 ((hholds k₂ b').mp h₂).1

/-- When nobody holds anything, everything is there. -/
theorem perm_of_unheld (h : Lent stock there holds) (hnone : ∀ k b, ¬holds k b) {l : List β}
    (hl : l.Nodup) (hmem : ∀ b, b ∈ l ↔ stock b) : there.Perm l := by
  refine (List.perm_ext_iff_of_nodup h.nodup hl).mpr fun b => ?_
  rw [hmem, h.stock_iff]
  exact ⟨.inl, fun hor => hor.resolve_right fun ⟨k, hk⟩ => hnone k b hk⟩

/-- While something is held, not everything is there. -/
theorem length_lt (h : Lent stock there holds) (hb : holds k b) {l : List β}
    (hmem : ∀ b, b ∈ l ↔ stock b) : there.length < l.length := by
  have hnodup : (b :: there).Nodup := List.nodup_cons.mpr ⟨h.apart k b hb, h.nodup⟩
  refine (List.subperm_of_subset hnodup fun b' hb' => ?_).length_le
  rw [hmem, h.stock_iff]
  rcases List.mem_cons.mp hb' with rfl | hb'
  · exact .inr ⟨k, hb⟩
  · exact .inl hb'

end Lent

end Ost.Prog
