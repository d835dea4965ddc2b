import Ost.Util.Queue
import Ost.Prog.Trace

/-!
# Runs of the bounded queue

The operations of the queue as a component that answers them one after another.  The array comes
from `malloc`, so that a queue begins with any pointers in its slots.  Insertions and removals are
those of a list of bounded length.  `iscsi_queue_remove_this` looks at one slot too many, or at one
alone: its loop compares the slot at `tail` before it stops there, which is a stale one, and in a
full queue the first.
-/

namespace Ost.Util

open Ost.Prog

variable {α : Type}

/-- `iscsi_queue_init`, with what `malloc` returns for the slots. -/
def iscsiQueueMake (heap : Nat → α) (depth : Nat) : IscsiQueue α :=
  { head := 0, tail := 0, count := 0, depth, elem := heap }

theorem IscsiQueue.wf_make (heap : Nat → α) {depth : Nat} (h : 1 ≤ depth) :
    (iscsiQueueMake heap depth).WF :=
  ⟨h, Nat.zero_le _, by simp [iscsiQueueMake]⟩

/-! ## First in, first out -/

/-- The calls. -/
inductive QueueOp (α : Type) where
  | insert (ptr : α)
  | remove
  | depth
  | full
deriving Repr

/-- What they return. -/
inductive QueueResult (α : Type) where
  | /-- The status of `iscsi_queue_insert`. -/
    status (rc : Int)
  | /-- A pointer, or `NULL`. -/
    ptr (p : Option α)
  | /-- A number. -/
    num (n : Nat)
  | /-- A truth value. -/
    bool (b : Bool)
deriving Repr

/-- One call. -/
def iscsiQueueStep : QueueOp α → IscsiQueue α → QueueResult α × IscsiQueue α
  | .insert ptr, q =>
    match iscsiQueueInsert q ptr with
    | none => (.status (-1), q)
    | some q' => (.status 0, q')
  | .remove, q =>
    match iscsiQueueRemove q with
    | none => (.ptr none, q)
    | some (p, q') => (.ptr (some p), q')
  | .depth, q => (.num (iscsiQueueDepth q), q)
  | .full, q => (.bool (iscsiQueueFull q), q)

/-- A list with at most `depth` elements, the oldest first, that answers the calls. -/
inductive BoundedFifo (depth : Nat) : List α → QueueOp α → QueueResult α → List α → Prop
  | insert {l : List α} {ptr : α} (h : l.length < depth) :
    BoundedFifo depth l (.insert ptr) (.status 0) (l ++ [ptr])
  | insertFull {l : List α} {ptr : α} (h : l.length = depth) :
    BoundedFifo depth l (.insert ptr) (.status (-1)) l
  | remove {l : List α} {ptr : α} : BoundedFifo depth (ptr :: l) .remove (.ptr (some ptr)) l
  | removeEmpty : BoundedFifo depth [] .remove (.ptr none) []
  | depth {l : List α} : BoundedFifo depth l .depth (.num l.length) l
  | full {l : List α} : BoundedFifo depth l .full (.bool (l.length = depth)) l

/-- The queue stores a list. -/
structure IscsiQueue.Stores (depth : Nat) (q : IscsiQueue α) (l : List α) : Prop where
  wf : q.WF
  depth_eq : q.depth = depth
  toList_eq : q.toList = l

/-- A call is answered as the list answers it. -/
theorem IscsiQueue.Stores.step {depth : Nat} {q : IscsiQueue α} {l : List α} (h : q.Stores depth l)
    (op : QueueOp α) : ∃ l', BoundedFifo depth l op (iscsiQueueStep op q).1 l' ∧
      (iscsiQueueStep op q).2.Stores depth l' := by
  obtain ⟨hwf, rfl, rfl⟩ := h
  have hlen := q.length_toList
  cases op with
  | insert ptr =>
    rw [iscsiQueueStep]
    cases hins : iscsiQueueInsert q ptr with
    | none =>
      exact ⟨_, .insertFull (hlen.trans (IscsiQueue.insert_eq_none.mp hins)), hwf, rfl, rfl⟩
    | some q' =>
      obtain ⟨hwf', hdepth, hlist⟩ := IscsiQueue.insert_some hwf hins
      have hne : q.count ≠ q.depth := by
        intro he
        rw [IscsiQueue.insert_eq_none.mpr he] at hins
        exact absurd hins (by simp)
      exact ⟨_, .insert (hlen ▸ lt_of_le_of_ne hwf.count_le hne), hwf', hdepth, hlist⟩
  | remove =>
    rw [iscsiQueueStep]
    cases hrem : iscsiQueueRemove q with
    | none =>
      have hnil := IscsiQueue.remove_eq_none.mp hrem
      rw [hnil]
      exact ⟨[], .removeEmpty, hwf, rfl, hnil⟩
    | some pq =>
      obtain ⟨p, q'⟩ := pq
      obtain ⟨hwf', hdepth, hlist⟩ := IscsiQueue.remove_some hwf hrem
      rw [hlist]
      exact ⟨q'.toList, .remove, hwf', hdepth, rfl⟩
  | depth =>
    rw [iscsiQueueStep, iscsiQueueDepth, ← hlen]
    exact ⟨_, .depth, hwf, rfl, rfl⟩
  | full =>
    have hfull : iscsiQueueFull q = decide (q.toList.length = q.depth) := by
      rw [iscsiQueueFull, hlen]
      rfl
    rw [iscsiQueueStep, hfull]
    exact ⟨_, .full, hwf, rfl, rfl⟩

/-- The indices of the slots that the next call reads and writes. -/
def IscsiQueue.InBounds (q : IscsiQueue α) : Prop := q.head < q.depth ∧ q.tail < q.depth

theorem IscsiQueue.WF.inBounds {q : IscsiQueue α} (h : q.WF) : q.InBounds :=
  ⟨h.head_lt, h.tail_eq ▸ Nat.mod_lt _ (Nat.lt_of_le_of_lt (Nat.zero_le _) h.head_lt)⟩

namespace IscsiQueue

variable {q : IscsiQueue α} {p : α}

/-- A stored element is in one of the slots from the head on. -/
theorem mem_toList : p ∈ q.toList ↔ ∃ k < q.count, q.elem ((q.head + k) % q.depth) = p := by
  simp [toList]

theorem head_mem (hq : q.WF) (hne : q.count ≠ 0) : q.elem q.head ∈ q.toList := by
  refine mem_toList.mpr ⟨0, Nat.pos_of_ne_zero hne, ?_⟩
  rw [Nat.add_zero, Nat.mod_eq_of_lt hq.head_lt]

theorem tail_of_full (hq : q.WF) (hfull : q.count = q.depth) : q.head = q.tail := by
  rw [hq.tail_eq, hfull, Nat.add_mod_right, Nat.mod_eq_of_lt hq.head_lt]

variable [DecidableEq α]

/-- The loop ends at the tail without the element. -/
theorem removeAt_none (hq : q.WF) (hfull : q.count < q.depth)
    (hnot : ∀ k ≤ q.count, q.elem ((q.head + k) % q.depth) ≠ p) {fuel k pos : Nat}
    (hk : k ≤ q.count) (hpos : (if pos = q.depth then 0 else pos) = (q.head + k) % q.depth) :
    iscsiQueueRemoveAt q p fuel pos = none := by
  induction fuel generalizing k pos with
  | zero => rfl
  | succ fuel ih =>
    rw [iscsiQueueRemoveAt, hpos, if_neg (hnot k hk)]
    rcases Nat.eq_or_lt_of_le hk with rfl | hlt
    · rw [if_pos hq.tail_eq.symm]
    have hslot := slot_eq (m := k) hq.head_lt (by omega)
    have htail := slot_eq hq.head_lt hfull
    rw [← hq.tail_eq] at htail
    rw [if_neg (by omega)]
    refine ih (k := k + 1) hlt ?_
    have hnext := slot_eq (m := k + 1) hq.head_lt (by omega)
    have hmod : (q.head + (k + 1)) % q.depth < q.depth := Nat.mod_lt _ (by omega)
    split <;> omega

/-- `iscsi_queue_remove_this` takes out one occurrence of an element that is stored, and returns
`NULL` for any other. -/
def RemovesThis (q : IscsiQueue α) (p : α) : Prop :=
  (p ∈ q.toList → ∃ q' i, iscsiQueueRemoveThis q p = some q' ∧ q.toList[i]? = some p ∧
    q'.toList = q.toList.eraseIdx i) ∧
  (p ∉ q.toList → iscsiQueueRemoveThis q p = none)

/-- An element that is stored is the oldest, or the queue is not full; and of any other there is no
copy in the slot behind the stored ones, unless the queue is empty or full. -/
def Removable (q : IscsiQueue α) (p : α) : Prop :=
  (p ∈ q.toList → iscsiQueueFull q = false ∨ q.elem q.head = p) ∧
  (p ∉ q.toList → iscsiQueueDepth q = 0 ∨ iscsiQueueFull q = true ∨ q.elem q.tail ≠ p)

theorem removesThis_of_mem (hq : q.WF) (hmem : p ∈ q.toList) :
    (∃ q' i, iscsiQueueRemoveThis q p = some q' ∧ q.toList[i]? = some p ∧
      q'.toList = q.toList.eraseIdx i) ↔ iscsiQueueFull q = false ∨ q.elem q.head = p := by
  have hne : q.count ≠ 0 := by
    obtain ⟨k, hk, -⟩ := mem_toList.mp hmem
    omega
  have hfirst : q.toList[q.toList.idxOf p]? = some p := List.getElem?_idxOf hmem
  by_cases hfull : q.count = q.depth
  · have hflag : iscsiQueueFull q = true := by rw [iscsiQueueFull, hfull, beq_self_eq_true]
    rw [hflag]
    by_cases hhead : q.elem q.head = p
    · refine iff_of_true ?_ (.inr hhead)
      obtain ⟨⟨a, q'⟩, hrem⟩ : ∃ r, iscsiQueueRemove q = some r := by
        refine Option.ne_none_iff_exists'.mp fun h => ?_
        rw [remove_eq_none.mp h] at hmem
        exact absurd hmem List.not_mem_nil
      obtain ⟨-, -, hlist⟩ := remove_some hq hrem
      refine ⟨q', 0, ?_, ?_, ?_⟩
      · rw [← hhead, removeThis_head hq hne, hrem]
        rfl
      · rw [← hhead]
        have ha : a = q.elem q.head := by
          rw [iscsiQueueRemove, if_neg (show iscsiQueueDepth q ≠ 0 from hne)] at hrem
          exact (Prod.mk.inj (Option.some.inj hrem)).1.symm
        rw [hlist, ha]
        rfl
      · rw [hlist]
        rfl
    · refine iff_of_false ?_ (by simp [hhead])
      rintro ⟨q', i, hthis, -⟩
      rw [removeThis_succ hq hne, if_neg hhead, if_pos (tail_of_full hq hfull)] at hthis
      exact absurd hthis (by simp)
  · have hlt : q.count < q.depth := lt_of_le_of_ne hq.count_le hfull
    have hflag : iscsiQueueFull q = false := beq_eq_false_iff_ne.mpr hfull
    obtain ⟨q', hthis, hlist⟩ := removeThis_of_mem hq hlt hmem
    refine iff_of_true ⟨q', _, hthis, hfirst, ?_⟩ (.inl hflag)
    rw [hlist, List.erase_eq_eraseIdx_of_idxOf rfl]

theorem removeThis_eq_none_iff (hq : q.WF) (hmem : p ∉ q.toList) :
    iscsiQueueRemoveThis q p = none ↔
      iscsiQueueDepth q = 0 ∨ iscsiQueueFull q = true ∨ q.elem q.tail ≠ p := by
  by_cases hne : q.count = 0
  · refine iff_of_true ?_ (.inl hne)
    rw [iscsiQueueRemoveThis, if_pos (show iscsiQueueDepth q = 0 from hne)]
  have hhead : q.elem q.head ≠ p := fun h => hmem (h ▸ head_mem hq hne)
  have hslot (k : Nat) (hk : k < q.count) : q.elem ((q.head + k) % q.depth) ≠ p :=
    fun h => hmem (mem_toList.mpr ⟨k, hk, h⟩)
  by_cases hfull : q.count = q.depth
  · have hflag : iscsiQueueFull q = true := by rw [iscsiQueueFull, hfull, beq_self_eq_true]
    refine iff_of_true ?_ (.inr (.inl hflag))
    rw [removeThis_succ hq hne, if_neg hhead, if_pos (tail_of_full hq hfull)]
  have hlt : q.count < q.depth := lt_of_le_of_ne hq.count_le hfull
  have hflag : iscsiQueueFull q = false := beq_eq_false_iff_ne.mpr hfull
  have hstart : (if q.head = q.depth then 0 else q.head) = (q.head + 0) % q.depth := by
    rw [Nat.add_zero, Nat.mod_eq_of_lt hq.head_lt, if_neg (Nat.ne_of_lt hq.head_lt)]
  by_cases hstale : q.elem q.tail = p
  · refine iff_of_false ?_ (by simp [hflag, hstale, iscsiQueueDepth, hne])
    rw [hq.tail_eq] at hstale
    rw [iscsiQueueRemoveThis, if_neg (show iscsiQueueDepth q ≠ 0 from hne),
      removeAt_first hq hlt (Nat.le_refl _) hstale hslot (Nat.zero_le _) (by omega) hstart]
    exact Option.some_ne_none _
  · refine iff_of_true ?_ (.inr (.inr hstale))
    rw [iscsiQueueRemoveThis, if_neg (show iscsiQueueDepth q ≠ 0 from hne)]
    refine removeAt_none hq hlt (fun k hk => ?_) (Nat.zero_le _) hstart
    rcases Nat.eq_or_lt_of_le hk with rfl | hk
    · rwa [← hq.tail_eq]
    · exact hslot k hk

end IscsiQueue

/-- The queues that the calls lead to. -/
inductive ReachableQueue [DecidableEq α] (depth : Nat) : IscsiQueue α → Prop
  | init (heap : Nat → α) : ReachableQueue depth (iscsiQueueMake heap depth)
  | insert {q q' : IscsiQueue α} {ptr : α} (h : ReachableQueue depth q)
    (hq : iscsiQueueInsert q ptr = some q') : ReachableQueue depth q'
  | remove {q q' : IscsiQueue α} {ptr : α} (h : ReachableQueue depth q)
    (hq : iscsiQueueRemove q = some (ptr, q')) : ReachableQueue depth q'
  | removeThis {q q' : IscsiQueue α} {ptr : α} (h : ReachableQueue depth q)
    (hq : iscsiQueueRemoveThis q ptr = some q') : ReachableQueue depth q'

/-- Every queue that is reached is well formed, even where a removal has taken out the wrong
element. -/
theorem ReachableQueue.wf [DecidableEq α] {depth : Nat} {q : IscsiQueue α} (hdepth : 1 ≤ depth)
    (h : ReachableQueue depth q) : q.WF := by
  induction h with
  | init heap => exact IscsiQueue.wf_make heap hdepth
  | insert _ hq ih => exact (IscsiQueue.insert_some ih hq).1
  | remove _ hq ih => exact (IscsiQueue.remove_some ih hq).1
  | removeThis _ hq ih => exact IscsiQueue.wf_removeThis ih hq

/-- When `iscsi_queue_remove_this` does what its name says. -/
theorem removesThis_iff [DecidableEq α] {depth : Nat} (hdepth : 1 ≤ depth) {q : IscsiQueue α}
    (h : ReachableQueue depth q) (p : α) : q.RemovesThis p ↔ q.Removable p := by
  have hwf := h.wf hdepth
  constructor
  · rintro ⟨hin, hout⟩
    exact ⟨fun hmem => (IscsiQueue.removesThis_of_mem hwf hmem).mp (hin hmem),
      fun hmem => (IscsiQueue.removeThis_eq_none_iff hwf hmem).mp (hout hmem)⟩
  · rintro ⟨hin, hout⟩
    exact ⟨fun hmem => (IscsiQueue.removesThis_of_mem hwf hmem).mpr (hin hmem),
      fun hmem => (IscsiQueue.removeThis_eq_none_iff hwf hmem).mpr (hout hmem)⟩

/-- In a queue of three slots the newer of two elements is taken out. -/
theorem removesThis_three :
    (trace iscsiQueueStep [.insert 5, .insert 6]
      (iscsiQueueMake (fun _ => 0) 3)).2.RemovesThis 6 :=
  (removesThis_iff (show 1 ≤ 3 by decide) (.insert (.insert (.init _) rfl) rfl) 6).mpr
    ⟨by decide, by decide⟩

/-- In a queue of two slots with two elements the newer one is not found.  And after a removal the
element that is gone is found in its slot, and taken out once more. -/
theorem removesThis_fails :
    ¬(trace iscsiQueueStep [.insert 5, .insert 6]
        (iscsiQueueMake (fun _ => 0) 2)).2.RemovesThis 6 ∧
      ¬(trace iscsiQueueStep [.insert 5, .insert 6, .remove]
        (iscsiQueueMake (fun _ => 0) 2)).2.RemovesThis 5 := by
  refine ⟨fun h => ?_, fun h => ?_⟩
  · obtain ⟨q', i, hq', -⟩ := h.1 (by decide)
    have hnone : (iscsiQueueRemoveThis (trace iscsiQueueStep [.insert 5, .insert 6]
        (iscsiQueueMake (fun _ => 0) 2)).2 6).isSome = false := by decide
    rw [hq'] at hnone
    exact absurd hnone (by simp)
  · have hnone := h.2 (by decide)
    have hsome : (iscsiQueueRemoveThis (trace iscsiQueueStep [.insert 5, .insert 6, .remove]
        (iscsiQueueMake (fun _ => 0) 2)).2 5).isSome = true := by decide
    rw [hnone] at hsome
    exact absurd hsome (by simp)

end Ost.Util
