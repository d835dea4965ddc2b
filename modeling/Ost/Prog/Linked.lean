import Mathlib.Data.List.Basic
import Mathlib.Logic.Function.Basic

/-!
# Linked lists in memory

The elements of a list that is linked by pointers are named by their addresses; `next` is what is
stored in them.  `Linked next p l` says that the addresses from the pointer `p` on, up to the null
pointer, are `l`.  Such a list has no address twice, so that a store to one of its elements changes
it at one place.
-/

universe u

namespace Ost.Prog

variable {α : Type u} {next next' : α → Option α} {p : Option α} {a b : α} {l l₁ l₂ : List α}

/-- The pointer leads to an element, in a list that may be circular. -/
inductive Reaches (next : α → Option α) : Option α → α → Prop
  | head (a : α) : Reaches next (some a) a
  | next {a b : α} (h : Reaches next (next a) b) : Reaches next (some a) b

/-- The addresses from a pointer on. -/
def Linked (next : α → Option α) : Option α → List α → Prop
  | p, [] => p = none
  | p, a :: l => p = some a ∧ Linked next (next a) l

namespace Linked

/-- The pointer is the first address. -/
theorem head (h : Linked next p l) : p = l.head? := by
  cases l with
  | nil => exact h
  | cons a l => exact h.1

/-- The list is determined by the pointer. -/
theorem unique (h : Linked next p l₁) (h' : Linked next p l₂) : l₁ = l₂ := by
  induction l₁ generalizing p l₂ with
  | nil =>
    cases l₂ with
    | nil => rfl
    | cons b l₂ => exact absurd (h.symm.trans h'.1) (Option.some_ne_none b).symm
  | cons a l₁ ih =>
    cases l₂ with
    | nil => exact absurd (h.1.symm.trans h') (Option.some_ne_none a)
    | cons b l₂ =>
      obtain rfl := Option.some.inj (h.1.symm.trans h'.1)
      rw [ih h.2 h'.2]

/-- What follows an element. -/
theorem of_append (h : Linked next p (l₁ ++ a :: l₂)) : Linked next (next a) l₂ := by
  induction l₁ generalizing p with
  | nil => exact h.2
  | cons b l₁ ih => exact ih h.2

/-- No address occurs twice, since it would be followed by two lists. -/
theorem nodup (h : Linked next p l) : l.Nodup := by
  induction l generalizing p with
  | nil => exact List.nodup_nil
  | cons a l ih =>
    refine List.nodup_cons.mpr ⟨fun hmem => ?_, ih h.2⟩
    obtain ⟨l₁, l₂, rfl⟩ := List.append_of_mem hmem
    have hlen := congrArg List.length (h.2.unique h.2.of_append)
    rw [List.length_append, List.length_cons] at hlen
    omega

/-- No element leads back to the first one. -/
theorem next_ne (h : Linked next p l) (ha : a ∈ l) : next a ≠ p := by
  rintro rfl
  obtain ⟨l₁, l₂, rfl⟩ := List.append_of_mem ha
  have hlen := congrArg List.length (h.unique h.of_append)
  rw [List.length_append, List.length_cons] at hlen
  omega

/-- Only the elements of the list matter. -/
theorem congr (h : Linked next p l) (hsame : ∀ a ∈ l, next' a = next a) : Linked next' p l := by
  induction l generalizing p with
  | nil => exact h
  | cons a l ih =>
    refine ⟨h.1, ?_⟩
    rw [hsame a List.mem_cons_self]
    exact ih h.2 fun b hb => hsame b (List.mem_cons_of_mem _ hb)

/-- An element that is put in front of the list. -/
theorem push [DecidableEq α] (h : Linked next p l) (ha : a ∉ l) :
    Linked (Function.update next a p) (some a) (a :: l) := by
  refine ⟨rfl, ?_⟩
  rw [Function.update_self]
  refine h.congr fun b hb => Function.update_of_ne ?_ _ _
  rintro rfl
  exact ha hb

/-- An element that is taken out behind another one. -/
theorem unlink [DecidableEq α] (h : Linked next p (l₁ ++ b :: a :: l₂)) :
    Linked (Function.update next b (next a)) p (l₁ ++ b :: l₂) := by
  induction l₁ generalizing p with
  | nil =>
    refine ⟨h.1, ?_⟩
    rw [Function.update_self]
    have hb := (List.nodup_cons.mp h.nodup).1
    refine h.2.2.congr fun c hc => Function.update_of_ne ?_ _ _
    rintro rfl
    exact hb (List.mem_cons_of_mem _ hc)
  | cons c l₁ ih =>
    have hc := (List.nodup_cons.mp h.nodup).1
    have hne : c ≠ b := by
      rintro rfl
      exact hc (List.mem_append_right _ List.mem_cons_self)
    refine ⟨h.1, ?_⟩
    rw [Function.update_of_ne hne]
    exact ih h.2

end Linked

end Ost.Prog
