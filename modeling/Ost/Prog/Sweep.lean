import Mathlib.Data.List.Chain
import Mathlib.Data.List.Infix

/-!
# Cutting pieces out of a list

A cutter finds the first piece of a list that has to go.  A sweep cuts the pieces out from left to
right and goes on behind each of them.  A rescan puts together what is before and behind the piece
it has cut out and starts over.  The two agree as long as no cut joins what then has to go as well.

## Contents

* `firstIdx`, the index at which a pattern first occurs in a list, for patterns of one item and of
  two;
* `Cutter`, `Cutter.pieces` and `Cutter.rest`, the sweep of a cutter;
* `Rescan`, what starting over cuts out, and `rescan_exact_iff`, when that is the sweep.
-/

universe u

namespace Ost.Prog

variable {α : Type u}

/-! ## The first place of a pattern -/

/-- No item `x` is followed by an item `y`. -/
def Apart (x y : α) (l : List α) : Prop := l.IsChain fun a b => ¬(a = x ∧ b = y)

/-- An item that is not `y` does not complete a pair. -/
theorem Apart.concat {x y z : α} {l : List α} (h : Apart x y l) (hz : z ≠ y) :
    Apart x y (l ++ [z]) :=
  List.isChain_append.mpr ⟨h, .singleton z, fun _ _ _ hb hab =>
    hz (Option.some.inj hb ▸ hab.2)⟩

section FirstIdx

variable [DecidableEq α]

instance instDecidableApart (x y : α) (l : List α) : Decidable (Apart x y l) :=
  inferInstanceAs (Decidable (l.IsChain fun a b => ¬(a = x ∧ b = y)))

/-- The index at which a pattern first occurs. -/
def firstIdx (pat l : List α) : Option Nat := l.tails.findIdx? fun t => pat.isPrefixOf t

theorem firstIdx_cons (pat l : List α) (a : α) : firstIdx pat (a :: l) =
    if pat.isPrefixOf (a :: l) then some 0 else (firstIdx pat l).map (· + 1) := by
  rw [firstIdx, List.tails_cons, List.findIdx?_cons, firstIdx]

/-- A pattern that occurs nowhere. -/
theorem firstIdx_eq_none {pat l : List α} : firstIdx pat l = none ↔ ¬pat <:+: l := by
  rw [firstIdx, List.findIdx?_eq_none_iff, List.infix_iff_prefix_suffix, not_exists]
  refine forall_congr' fun t => ?_
  rw [List.mem_tails, Bool.eq_false_iff, ne_eq, List.isPrefixOf_iff_prefix, not_and',
    imp_iff_not_or]

/-- Where a pair first occurs. -/
theorem firstIdx_pair {x y : α} {a b : List α} (h : Apart x y (a ++ [x])) :
    firstIdx [x, y] (a ++ x :: y :: b) = some a.length := by
  induction a with
  | nil =>
    rw [List.nil_append, firstIdx_cons, if_pos (by simp), List.length_nil]
  | cons c a ih =>
    have htail : Apart x y (a ++ [x]) := List.IsChain.tail h
    have hne : ¬[x, y].isPrefixOf (c :: (a ++ x :: y :: b)) = true := by
      rw [List.isPrefixOf_iff_prefix, List.cons_prefix_cons]
      rintro ⟨rfl, hy⟩
      cases a with
      | nil =>
        obtain rfl := (List.cons_prefix_cons.mp hy).1
        exact (List.isChain_cons_cons.mp h).1 ⟨rfl, rfl⟩
      | cons d a =>
        obtain rfl := (List.cons_prefix_cons.mp hy).1
        exact (List.isChain_cons_cons.mp h).1 ⟨rfl, rfl⟩
    rw [List.cons_append, firstIdx_cons, if_neg hne, ih htail, Option.map_some, List.length_cons]

/-- What is before a pair and what is behind it. -/
theorem firstIdx_pair_split {x y : α} {l : List α} {p : Nat} (h : firstIdx [x, y] l = some p) :
    ∃ a b, l = a ++ x :: y :: b ∧ a.length = p ∧ Apart x y (a ++ [x]) := by
  induction l generalizing p with
  | nil => simp [firstIdx] at h
  | cons c l ih =>
    rw [firstIdx_cons] at h
    split at h
    · rename_i hpre
      obtain ⟨b, hb⟩ := List.isPrefixOf_iff_prefix.mp hpre
      exact ⟨[], b, hb.symm, Option.some.inj h, .singleton x⟩
    · rename_i hpre
      obtain ⟨q, hq, rfl⟩ := Option.map_eq_some_iff.mp h
      obtain ⟨a, b, rfl, rfl, hapart⟩ := ih hq
      refine ⟨c :: a, b, rfl, rfl, List.isChain_cons.mpr ⟨?_, hapart⟩⟩
      rintro d hd ⟨rfl, rfl⟩
      refine hpre (List.isPrefixOf_iff_prefix.mpr (List.cons_prefix_cons.mpr ⟨rfl, ?_⟩))
      cases a with
      | nil =>
        obtain rfl := Option.some.inj hd
        exact List.cons_prefix_cons.mpr ⟨rfl, List.nil_prefix⟩
      | cons e a =>
        obtain rfl := Option.some.inj hd
        exact List.cons_prefix_cons.mpr ⟨rfl, List.nil_prefix⟩

/-- A pair occurs nowhere just when its items are apart. -/
theorem firstIdx_pair_eq_none {x y : α} {l : List α} :
    firstIdx [x, y] l = none ↔ Apart x y l := by
  rw [firstIdx_eq_none, Apart, List.isChain_iff_forall_rel_of_append_cons_cons]
  constructor
  · rintro h _ _ a b rfl ⟨rfl, rfl⟩
    exact h ⟨a, b, by simp⟩
  · rintro h ⟨a, b, rfl⟩
    exact h (List.append_assoc a [x, y] b) ⟨rfl, rfl⟩

/-- Where an item first occurs. -/
theorem firstIdx_item {x : α} {a b : List α} (h : x ∉ a) :
    firstIdx [x] (a ++ x :: b) = some a.length := by
  induction a with
  | nil =>
    rw [List.nil_append, firstIdx_cons, if_pos (by simp), List.length_nil]
  | cons c a ih =>
    obtain ⟨hc, ha⟩ := List.ne_and_not_mem_of_not_mem_cons h
    have hne : ¬[x].isPrefixOf (c :: (a ++ x :: b)) = true := by
      rw [List.isPrefixOf_iff_prefix, List.cons_prefix_cons]
      exact fun hpre => hc hpre.1
    rw [List.cons_append, firstIdx_cons, if_neg hne, ih ha, Option.map_some, List.length_cons]

/-- What is before an item and what is behind it. -/
theorem firstIdx_item_split {x : α} {l : List α} {p : Nat} (h : firstIdx [x] l = some p) :
    ∃ a b, l = a ++ x :: b ∧ a.length = p ∧ x ∉ a := by
  induction l generalizing p with
  | nil => simp [firstIdx] at h
  | cons c l ih =>
    rw [firstIdx_cons] at h
    split at h
    · rename_i hpre
      obtain ⟨b, hb⟩ := List.isPrefixOf_iff_prefix.mp hpre
      exact ⟨[], b, hb.symm, Option.some.inj h, List.not_mem_nil⟩
    · rename_i hpre
      obtain ⟨q, hq, rfl⟩ := Option.map_eq_some_iff.mp h
      obtain ⟨a, b, rfl, rfl, hx⟩ := ih hq
      refine ⟨c :: a, b, rfl, rfl, List.not_mem_cons_of_ne_of_not_mem ?_ hx⟩
      rintro rfl
      exact hpre (by simp)

/-- An item that is not there. -/
theorem firstIdx_item_eq_none {x : α} {l : List α} : firstIdx [x] l = none ↔ x ∉ l := by
  rw [firstIdx_eq_none, List.singleton_infix_iff]

end FirstIdx

/-! ## Sweeps -/

/-- A way to find the first piece of a list that has to go: what is before it, the piece, and what
is behind it. -/
structure Cutter (α : Type u) where
  cut : List α → Option (List α × List α × List α)
  split : ∀ {l a c b : List α}, cut l = some (a, c, b) → l = a ++ c ++ b
  ne_nil : ∀ {l a c b : List α}, cut l = some (a, c, b) → c ≠ []

namespace Cutter

/-- A cutter that says where the piece starts and how long it is. -/
def ofRange (f : List α → Option (Nat × Nat))
    (hf : ∀ {l p m}, f l = some (p, m) → p < l.length ∧ 0 < m) : Cutter α where
  cut l := (f l).map fun r => (l.take r.1, (l.drop r.1).take r.2, l.drop (r.1 + r.2))
  split := by
    intro l a c b h
    obtain ⟨⟨p, m⟩, -, hr⟩ := Option.map_eq_some_iff.mp h
    cases hr
    rw [List.append_assoc, ← List.drop_drop, List.take_append_drop, List.take_append_drop]
  ne_nil := by
    intro l a c b h
    obtain ⟨⟨p, m⟩, hf', hr⟩ := Option.map_eq_some_iff.mp h
    cases hr
    obtain ⟨hp, hm⟩ := hf hf'
    refine List.ne_nil_of_length_pos ?_
    rw [List.length_take, List.length_drop]
    omega

variable (κ : Cutter α) {l a c b : List α}

/-- What is behind a piece is shorter. -/
theorem length_behind {κ : Cutter α} (h : κ.cut l = some (a, c, b)) : b.length < l.length := by
  have hc := List.length_pos_of_ne_nil (κ.ne_nil h)
  rw [κ.split h, List.length_append, List.length_append]
  omega

/-- The pieces, each with the number of items behind it, and what is left.  The sweep ends before
the number runs out if it is at least the length of the list. -/
def sweep : Nat → List α → List (List α × Nat) × List α
  | 0, l => ([], l)
  | n + 1, l =>
    match κ.cut l with
    | none => ([], l)
    | some (a, c, b) => ((c, b.length) :: (sweep n b).1, a ++ (sweep n b).2)

theorem sweep_of_none (n : Nat) (h : κ.cut l = none) : κ.sweep n l = ([], l) := by
  cases n with
  | zero => rfl
  | succ n => rw [sweep, h]

theorem sweep_of_some (n : Nat) (h : κ.cut l = some (a, c, b)) :
    κ.sweep (n + 1) l = ((c, b.length) :: (κ.sweep n b).1, a ++ (κ.sweep n b).2) := by
  rw [sweep, h]

/-- Induction along a sweep. -/
theorem induction {motive : List α → Prop} (none : ∀ l, κ.cut l = none → motive l)
    (some : ∀ l a c b, κ.cut l = some (a, c, b) → motive b → motive l) (l : List α) : motive l := by
  induction hn : l.length using Nat.strong_induction_on generalizing l with
  | h n ih =>
    cases hcut : κ.cut l with
    | none => exact none l hcut
    | some r => exact some l r.1 r.2.1 r.2.2 hcut (ih _ (hn ▸ length_behind hcut) _ rfl)

/-- A number that is large enough is as good as any other. -/
theorem sweep_eq {n m : Nat} (hn : l.length ≤ n) (hm : l.length ≤ m) :
    κ.sweep n l = κ.sweep m l := by
  induction l using κ.induction generalizing n m with
  | none l hcut => rw [κ.sweep_of_none n hcut, κ.sweep_of_none m hcut]
  | some l a c b hcut ih =>
    have hb := length_behind hcut
    obtain ⟨n, rfl⟩ := Nat.exists_eq_add_one_of_ne_zero (by omega : n ≠ 0)
    obtain ⟨m, rfl⟩ := Nat.exists_eq_add_one_of_ne_zero (by omega : m ≠ 0)
    rw [κ.sweep_of_some n hcut, κ.sweep_of_some m hcut, ih (n := n) (m := m) (by omega) (by omega)]

/-- The pieces of a list, each with the number of items behind it. -/
def pieces (l : List α) : List (List α × Nat) := (κ.sweep l.length l).1

/-- What is left of a list. -/
def rest (l : List α) : List α := (κ.sweep l.length l).2

theorem pieces_of_none (h : κ.cut l = none) : κ.pieces l = [] := by
  rw [pieces, κ.sweep_of_none _ h]

theorem rest_of_none (h : κ.cut l = none) : κ.rest l = l := by
  rw [rest, κ.sweep_of_none _ h]

theorem sweep_cons (h : κ.cut l = some (a, c, b)) :
    κ.sweep l.length l = ((c, b.length) :: κ.pieces b, a ++ κ.rest b) := by
  have hb := length_behind h
  obtain ⟨n, hn⟩ := Nat.exists_eq_add_one_of_ne_zero (by omega : l.length ≠ 0)
  rw [hn, κ.sweep_of_some n h, κ.sweep_eq (n := n) (m := b.length) (by omega) le_rfl, pieces, rest]

theorem pieces_of_some (h : κ.cut l = some (a, c, b)) :
    κ.pieces l = (c, b.length) :: κ.pieces b := by
  rw [pieces, κ.sweep_cons h]

theorem rest_of_some (h : κ.cut l = some (a, c, b)) : κ.rest l = a ++ κ.rest b := by
  rw [rest, κ.sweep_cons h]

end Cutter

/-! ## Starting over -/

/-- What a loop cuts out, and what it leaves, when it looks for a piece from the start each time.
It stops at a list that is `Done`, and it cuts out a piece only if that is `Ok`. -/
inductive Rescan (look : Cutter α) (Done : List α → Prop) (Ok : List α → Nat → Prop) :
    List α → List (List α) → List α → Prop where
  | done {l : List α} (h : Done l) : Rescan look Done Ok l [] l
  | cut {l a c b w : List α} {cs : List (List α)} (h : look.cut l = some (a, c, b))
    (ok : Ok c b.length) (rest : Rescan look Done Ok (a ++ b) cs w) :
    Rescan look Done Ok l (c :: cs) w

/-- A cutter that finds what another one finds in a list, also behind what is left of the list
before, if the piece is `Plain`; otherwise it finds something else. -/
structure Agrees (look cut : Cutter α) (Done Plain : List α → Prop) : Prop where
  done : ∀ {l}, Done l → look.cut l = none
  plain : ∀ {pre l a c b}, cut.cut l = some (a, c, b) → Done (pre ++ (a ++ cut.rest b)) → Plain c →
    look.cut (pre ++ l) = some (pre ++ a, c, b)
  other : ∀ {pre l a c b}, cut.cut l = some (a, c, b) → Done (pre ++ (a ++ cut.rest b)) → ¬Plain c →
    ∃ a' c' b', look.cut (pre ++ l) = some (a', c', b') ∧ c' ≠ c

namespace Rescan

variable {look cut : Cutter α} {Done Plain : List α → Prop} {Ok : List α → Nat → Prop}
  {pre l a c b w : List α} {cs : List (List α)}

/-- A loop ends where it may stop. -/
theorem done_end (h : Rescan look Done Ok l cs w) : Done w := by
  induction h with
  | done h => exact h
  | cut _ _ _ ih => exact ih

/-- Where it may stop it stops. -/
theorem done_iff (hagrees : Agrees look cut Done Plain) (hl : Done l) :
    Rescan look Done Ok l cs w ↔ cs = [] ∧ w = l := by
  constructor
  · intro h
    cases h with
    | done => exact ⟨rfl, rfl⟩
    | cut h => exact absurd ((hagrees.done hl).symm.trans h) (Option.some_ne_none _).symm
  · rintro ⟨rfl, rfl⟩
    exact .done hl

/-- Otherwise it cuts out what it finds. -/
theorem cut_iff (hagrees : Agrees look cut Done Plain) (hl : look.cut l = some (a, c, b)) :
    Rescan look Done Ok l cs w ↔
      Ok c b.length ∧ ∃ cs', cs = c :: cs' ∧ Rescan look Done Ok (a ++ b) cs' w := by
  constructor
  · intro h
    cases h with
    | done h => exact absurd ((hagrees.done h).symm.trans hl) (Option.some_ne_none _).symm
    | cut h ok rest =>
      cases Option.some.inj (hl.symm.trans h)
      exact ⟨ok, _, rfl, rest⟩
  · rintro ⟨ok, cs', rfl, rest⟩
    exact .cut hl ok rest

/-- **Starting over** behind what is left of the list before cuts out the pieces of a sweep, when
they are plain and nothing is left that has to go. -/
theorem sweep_iff (hagrees : Agrees look cut Done Plain) (hdone : Done (pre ++ cut.rest l))
    (hplain : ∀ p ∈ cut.pieces l, Plain p.1) : Rescan look Done Ok (pre ++ l) cs w ↔
      (∀ p ∈ cut.pieces l, Ok p.1 p.2) ∧ cs = (cut.pieces l).map Prod.fst ∧
      w = pre ++ cut.rest l := by
  induction l using cut.induction generalizing pre cs with
  | none l hcut =>
    rw [cut.rest_of_none hcut] at hdone ⊢
    rw [cut.pieces_of_none hcut, done_iff hagrees hdone]
    simp
  | some l a c b hcut ih =>
    rw [cut.pieces_of_some hcut, List.forall_mem_cons] at hplain
    rw [cut.rest_of_some hcut] at hdone
    rw [cut_iff hagrees (hagrees.plain hcut hdone hplain.1), cut.pieces_of_some hcut,
      cut.rest_of_some hcut, List.forall_mem_cons, List.map_cons]
    rw [← List.append_assoc] at hdone ⊢
    simp only [ih hdone hplain.2]
    constructor
    · rintro ⟨ok, _, rfl, hok, rfl, hw⟩
      exact ⟨⟨ok, hok⟩, rfl, hw⟩
    · rintro ⟨⟨ok, hok⟩, rfl, hw⟩
      exact ⟨ok, _, rfl, hok, rfl, hw⟩

/-- What cuts out the pieces of a sweep, one by one, has found them plain. -/
theorem plain (hagrees : Agrees look cut Done Plain) (hdone : Done (pre ++ cut.rest l))
    (h : Rescan look Done Ok (pre ++ l) ((cut.pieces l).map Prod.fst) w) :
    ∀ p ∈ cut.pieces l, Plain p.1 := by
  induction l using cut.induction generalizing pre with
  | none l hcut =>
    rw [cut.pieces_of_none hcut]
    exact fun p hp => absurd hp List.not_mem_nil
  | some l a c b hcut ih =>
    rw [cut.rest_of_some hcut] at hdone
    rw [cut.pieces_of_some hcut, List.map_cons] at h
    rw [cut.pieces_of_some hcut, List.forall_mem_cons]
    have hc : Plain c := by
      by_contra hc
      obtain ⟨a', c', b', hlook, hne⟩ := hagrees.other hcut hdone hc
      obtain ⟨-, _, hcs, -⟩ := (cut_iff hagrees hlook).mp h
      exact hne (List.cons.inj hcs).1.symm
    obtain ⟨-, _, hcs, hrest⟩ := (cut_iff hagrees (hagrees.plain hcut hdone hc)).mp h
    obtain rfl := (List.cons.inj hcs).2
    rw [← List.append_assoc] at hdone
    exact ⟨hc, ih hdone hrest⟩

/-- Starting over is a sweep just when nothing is left that has to go and all pieces are plain, and
may be cut out. -/
theorem exact_iff (hagrees : Agrees look cut Done Plain) :
    Rescan look Done Ok l ((cut.pieces l).map Prod.fst) (cut.rest l) ↔
      Done (cut.rest l) ∧ (∀ p ∈ cut.pieces l, Plain p.1) ∧ ∀ p ∈ cut.pieces l, Ok p.1 p.2 := by
  have hsweep := @sweep_iff α look cut Done Plain Ok [] l (cut.rest l)
    ((cut.pieces l).map Prod.fst) hagrees
  constructor
  · intro h
    have hplain := @plain α look cut Done Plain Ok [] l (cut.rest l) hagrees h.done_end h
    exact ⟨h.done_end, hplain, ((hsweep h.done_end hplain).mp h).1⟩
  · rintro ⟨hdone, hplain, hok⟩
    exact (hsweep hdone hplain).mpr ⟨hok, rfl, rfl⟩

end Rescan

end Ost.Prog
