import Mathlib.Data.Nat.ModEq
import Mathlib.Data.List.Perm.Basic
import Mathlib.Logic.Function.Basic

/-!
# The bounded queue of `util.c`

`IscsiQueue` transcribes `ISCSI_QUEUE_T`: a ring of `depth` slots with a head, a
tail and a count.  `iscsiQueueInsert` and `iscsiQueueRemove` are the two
operations as the code has them, wrap-around included.

A queue made by `iscsi_queue_init` with a positive depth stays well formed, so
the rest of the development works with `Fifo`, which carries `IscsiQueue.WF` as a
field.  Everything else is said about `Fifo.toList`, the stored elements from the
oldest to the newest: an insertion appends to it and a removal takes its head.
-/

namespace Ost.Util

variable {α : Type}

/-- `ISCSI_QUEUE_T`.  The slots outside the stored range hold stale pointers. -/
structure IscsiQueue (α : Type) where
  /-- Index of the oldest element. -/
  head : Nat
  /-- Index of the next free slot. -/
  tail : Nat
  /-- Number of stored elements. -/
  count : Nat
  /-- Number of slots. -/
  depth : Nat
  /-- The slots. -/
  elem : Nat → α

/-- `iscsi_queue_init`. -/
def iscsiQueueInit [Inhabited α] (depth : Nat) : IscsiQueue α :=
  { head := 0, tail := 0, count := 0, depth, elem := fun _ => default }

/-- `iscsi_queue_full`. -/
def iscsiQueueFull (q : IscsiQueue α) : Bool := q.count == q.depth

/-- `iscsi_queue_depth`, which despite its name returns the number of elements. -/
def iscsiQueueDepth (q : IscsiQueue α) : Nat := q.count

/-- The successor of an index: `x++; if (x == depth) x = 0;`. -/
def IscsiQueue.next (q : IscsiQueue α) (i : Nat) : Nat := if i + 1 = q.depth then 0 else i + 1

/-- `iscsi_queue_insert`: `none` is the return value -1, which leaves the queue alone. -/
def iscsiQueueInsert (q : IscsiQueue α) (ptr : α) : Option (IscsiQueue α) :=
  if iscsiQueueFull q then none
  else some { q with
    elem := Function.update q.elem q.tail ptr
    tail := q.next q.tail
    count := q.count + 1 }

/-- `iscsi_queue_remove`: `none` is the return value `NULL`. -/
def iscsiQueueRemove (q : IscsiQueue α) : Option (α × IscsiQueue α) :=
  if iscsiQueueDepth q = 0 then none
  else some (q.elem q.head, { q with count := q.count - 1, head := q.next q.head })

/-- The part of `iscsi_queue_remove_this` that takes out the element at `pos`: what is older moves
up by one slot. -/
def iscsiQueueStrike (q : IscsiQueue α) (pos : Nat) : IscsiQueue α :=
  let q := { q with count := q.count - 1 }
  if q.head = pos then { q with head := q.next q.head }
  else if q.head < q.tail then
    { q with
      elem := fun i => if q.head < i ∧ i ≤ pos then q.elem (i - 1) else q.elem i
      head := q.next q.head }
  else if q.head = q.tail then q
  else if pos < q.head then
    { q with
      elem := fun i =>
        if i = 0 then q.elem (q.depth - 1)
        else if i ≤ pos ∨ (q.head < i ∧ i < q.depth) then q.elem (i - 1) else q.elem i
      head := q.next q.head }
  else
    { q with
      elem := fun i => if q.head < i ∧ i ≤ pos then q.elem (i - 1) else q.elem i
      head := q.next q.head }

/-- The loop of `iscsi_queue_remove_this`.  It compares the slot behind the stored ones too. -/
def iscsiQueueRemoveAt [DecidableEq α] (q : IscsiQueue α) (this : α) :
    Nat → Nat → Option (IscsiQueue α)
  | 0, _ => none
  | fuel + 1, pos =>
    let pos := if pos = q.depth then 0 else pos
    if q.elem pos = this then some (iscsiQueueStrike q pos)
    else if pos = q.tail then none
    else iscsiQueueRemoveAt q this fuel (pos + 1)

/-- `iscsi_queue_remove_this`: `none` is the return value `NULL`.  The tail is reached before the
loop has seen more than `depth` slots. -/
def iscsiQueueRemoveThis [DecidableEq α] (q : IscsiQueue α) (this : α) : Option (IscsiQueue α) :=
  if iscsiQueueDepth q = 0 then none
  else iscsiQueueRemoveAt q this (q.depth + 1) q.head

namespace IscsiQueue

/-- What `iscsi_queue_init` establishes and every operation keeps. -/
structure WF (q : IscsiQueue α) : Prop where
  head_lt : q.head < q.depth
  count_le : q.count ≤ q.depth
  tail_eq : q.tail = (q.head + q.count) % q.depth

/-- The stored elements, oldest first. -/
def toList (q : IscsiQueue α) : List α :=
  (List.range q.count).map fun i => q.elem ((q.head + i) % q.depth)

@[simp] theorem length_toList (q : IscsiQueue α) : q.toList.length = q.count := by
  simp [toList]

/-- Taking the successor of an index is adding one modulo the depth. -/
theorem next_eq {q : IscsiQueue α} {i : Nat} (h : i < q.depth) :
    q.next i = (i + 1) % q.depth := by
  unfold next
  split
  · rename_i he
    simp [he]
  · exact (Nat.mod_eq_of_lt (by omega)).symm

theorem slot_inj {d h i j : Nat} (hi : i < d) (hj : j < d)
    (he : (h + i) % d = (h + j) % d) : i = j := by
  have : i % d = j % d := Nat.ModEq.add_left_cancel' h he
  rwa [Nat.mod_eq_of_lt hi, Nat.mod_eq_of_lt hj] at this

theorem wf_init [Inhabited α] {depth : Nat} (h : 0 < depth) :
    (iscsiQueueInit depth : IscsiQueue α).WF :=
  ⟨h, Nat.zero_le _, by simp [iscsiQueueInit]⟩

@[simp] theorem toList_init [Inhabited α] (depth : Nat) :
    (iscsiQueueInit depth : IscsiQueue α).toList = [] := rfl

/-- An insertion fails exactly when the queue is full. -/
theorem insert_eq_none {q : IscsiQueue α} {a : α} :
    iscsiQueueInsert q a = none ↔ q.count = q.depth := by
  simp [iscsiQueueInsert, iscsiQueueFull]

/-- A successful insertion keeps the queue well formed and appends the element. -/
theorem insert_some {q q' : IscsiQueue α} {a : α} (hq : q.WF)
    (h : iscsiQueueInsert q a = some q') :
    q'.WF ∧ q'.depth = q.depth ∧ q'.toList = q.toList ++ [a] := by
  have hne : q.count ≠ q.depth := by
    intro he
    rw [insert_eq_none.mpr he] at h
    exact nomatch h
  have hlt : q.count < q.depth := lt_of_le_of_ne hq.count_le hne
  have hpos : 0 < q.depth := lt_of_le_of_lt (Nat.zero_le _) hlt
  simp only [iscsiQueueInsert, iscsiQueueFull, beq_iff_eq, hne, if_false,
    Option.some.injEq] at h
  subst h
  have htail : q.tail < q.depth := by rw [hq.tail_eq]; exact Nat.mod_lt _ hpos
  refine ⟨⟨hq.head_lt, hlt, ?_⟩, rfl, ?_⟩
  · change q.next q.tail = (q.head + (q.count + 1)) % q.depth
    rw [next_eq htail, hq.tail_eq, Nat.mod_add_mod, Nat.add_assoc]
  · change (List.range (q.count + 1)).map _ = _
    rw [List.range_succ, List.map_append]
    congr 1
    · refine List.map_congr_left fun i hi => ?_
      have hi' : i < q.count := List.mem_range.mp hi
      refine Function.update_of_ne ?_ _ _
      rw [hq.tail_eq]
      intro he
      exact absurd (slot_inj (hi'.trans hlt) hlt he) (Nat.ne_of_lt hi')
    · simp [hq.tail_eq]

/-- A removal fails exactly when the queue is empty. -/
theorem remove_eq_none {q : IscsiQueue α} : iscsiQueueRemove q = none ↔ q.toList = [] := by
  unfold iscsiQueueRemove
  split <;> simp_all [iscsiQueueDepth, toList]

/-- A successful removal keeps the queue well formed and takes the oldest element. -/
theorem remove_some {q q' : IscsiQueue α} {a : α} (hq : q.WF)
    (h : iscsiQueueRemove q = some (a, q')) :
    q'.WF ∧ q'.depth = q.depth ∧ q.toList = a :: q'.toList := by
  have hne : q.count ≠ 0 := by
    intro he
    simp [iscsiQueueRemove, iscsiQueueDepth, he] at h
  simp only [iscsiQueueRemove, iscsiQueueDepth, hne, if_false, Option.some.injEq,
    Prod.mk.injEq] at h
  obtain ⟨rfl, rfl⟩ := h
  obtain ⟨n, hn⟩ := Nat.exists_eq_succ_of_ne_zero hne
  have hpos : 0 < q.depth := lt_of_le_of_lt (Nat.zero_le _) hq.head_lt
  have hnext : q.next q.head = (q.head + 1) % q.depth := next_eq hq.head_lt
  refine ⟨⟨?_, ?_, ?_⟩, rfl, ?_⟩
  · change q.next q.head < q.depth
    rw [hnext]
    exact Nat.mod_lt _ hpos
  · exact (Nat.sub_le _ _).trans hq.count_le
  · change q.tail = (q.next q.head + (q.count - 1)) % q.depth
    rw [hnext, hq.tail_eq, Nat.mod_add_mod]
    congr 1
    omega
  · unfold toList
    simp only [hn, Nat.succ_eq_add_one, Nat.add_sub_cancel]
    rw [List.range_succ_eq_map, List.map_cons, List.map_map]
    congr 1
    · rw [Nat.add_zero, Nat.mod_eq_of_lt hq.head_lt]
    · refine List.map_congr_left fun i _ => ?_
      change q.elem ((q.head + (i + 1)) % q.depth) = q.elem ((q.next q.head + i) % q.depth)
      rw [hnext, Nat.mod_add_mod]
      congr 2
      omega

/-- Taking out an element keeps the queue well formed, unless the queue is full and the element is
not the oldest. -/
theorem wf_strike {q : IscsiQueue α} (hq : q.WF) (hne : q.count ≠ 0) {pos : Nat}
    (hpos : q.head = pos ∨ q.head ≠ q.tail) : (iscsiQueueStrike q pos).WF := by
  have hdepth : 0 < q.depth := lt_of_le_of_lt (Nat.zero_le _) hq.head_lt
  have hnext : q.next q.head = (q.head + 1) % q.depth := next_eq hq.head_lt
  have moved (elem : Nat → α) :
      WF { q with count := q.count - 1, elem := elem, head := q.next q.head } := by
    refine ⟨?_, (Nat.sub_le _ _).trans hq.count_le, ?_⟩
    · exact hnext ▸ Nat.mod_lt _ hdepth
    · change q.tail = (q.next q.head + (q.count - 1)) % q.depth
      rw [hnext, hq.tail_eq, Nat.mod_add_mod]
      congr 1
      omega
  unfold iscsiQueueStrike
  dsimp only
  split_ifs with h₁ h₂ h₃ h₄
  · exact moved _
  · exact moved _
  · exact absurd h₃ (hpos.resolve_left h₁)
  · exact moved _
  · exact moved _

theorem wf_removeAt [DecidableEq α] {q q' : IscsiQueue α} (hq : q.WF) (hne : q.count ≠ 0) {this : α}
    (hfull : q.head ≠ q.tail) {fuel pos : Nat} (h : iscsiQueueRemoveAt q this fuel pos = some q') :
    q'.WF := by
  induction fuel generalizing pos with
  | zero => exact nomatch h
  | succ fuel ih =>
    rw [iscsiQueueRemoveAt] at h
    generalize (if pos = q.depth then 0 else pos) = p at h
    split_ifs at h
    · exact Option.some.inj h ▸ wf_strike hq hne (.inr hfull)
    · exact ih h

theorem removeThis_succ [DecidableEq α] {q : IscsiQueue α} (hq : q.WF) (hne : q.count ≠ 0)
    (this : α) : iscsiQueueRemoveThis q this =
      if q.elem q.head = this then some (iscsiQueueStrike q q.head)
      else if q.head = q.tail then none
      else iscsiQueueRemoveAt q this q.depth (q.head + 1) := by
  rw [iscsiQueueRemoveThis, if_neg (show iscsiQueueDepth q ≠ 0 from hne), iscsiQueueRemoveAt,
    if_neg (Nat.ne_of_lt hq.head_lt)]

theorem wf_removeThis [DecidableEq α] {q q' : IscsiQueue α} (hq : q.WF) {this : α}
    (h : iscsiQueueRemoveThis q this = some q') : q'.WF := by
  have hne : q.count ≠ 0 := by
    intro he
    rw [iscsiQueueRemoveThis, if_pos (show iscsiQueueDepth q = 0 from he)] at h
    exact nomatch h
  rw [removeThis_succ hq hne] at h
  split_ifs at h with h₁ h₂
  · exact Option.some.inj h ▸ wf_strike hq hne (.inl rfl)
  · exact wf_removeAt hq hne h₂ h

/-- The slot at an offset from the head, in front of the end of the ring or behind it. -/
theorem slot_eq {d h m : Nat} (hh : h < d) (hm : m < d) :
    (h + m) % d = h + m ∧ h + m < d ∨ (h + m) % d + d = h + m := by
  by_cases hlt : h + m < d
  · exact .inl ⟨Nat.mod_eq_of_lt hlt, hlt⟩
  · right
    rw [Nat.mod_eq_sub_mod (by omega), Nat.mod_eq_of_lt (by omega)]
    omega

/-- What `iscsi_queue_remove_this` leaves when it takes out the element at an offset: the head
moves, and what is older moves up by one slot. -/
structure Struck (q q' : IscsiQueue α) (j : Nat) : Prop where
  head : q'.head = (q.head + 1) % q.depth
  count : q'.count = q.count - 1
  depth : q'.depth = q.depth
  elem : ∀ m, 0 < m → m < q.count →
    q'.elem ((q.head + m) % q.depth) = q.elem ((q.head + if m ≤ j then m - 1 else m) % q.depth)

/-- Taking out the element at an offset. -/
theorem struck_strike {q : IscsiQueue α} (hq : q.WF) (hfull : q.count < q.depth) {j : Nat}
    (hj : j < q.count) : Struck q (iscsiQueueStrike q ((q.head + j) % q.depth)) j := by
  have hh := hq.head_lt
  have hnext : q.next q.head = (q.head + 1) % q.depth := next_eq hh
  have htail := slot_eq hh hfull
  rw [← hq.tail_eq] at htail
  rcases Nat.eq_zero_or_pos j with rfl | hj0
  · -- the oldest element
    rw [Nat.add_zero, Nat.mod_eq_of_lt hh, iscsiQueueStrike]
    dsimp only
    rw [if_pos rfl]
    exact ⟨hnext, rfl, rfl, fun m h0 _ => by rw [if_neg (by omega)]⟩
  have hpos := slot_eq hh (hj.trans hfull)
  generalize (q.head + j) % q.depth = pos at hpos ⊢
  -- in every layout of the ring, both sides read the same slot
  have moved {elem : Nat → α} (h : ∀ m x y, 0 < m → m < q.count →
        (x = q.head + m ∧ q.head + m < q.depth ∨ x + q.depth = q.head + m) →
        (y = q.head + (if m ≤ j then m - 1 else m) ∧
            q.head + (if m ≤ j then m - 1 else m) < q.depth ∨
          y + q.depth = q.head + if m ≤ j then m - 1 else m) → elem x = q.elem y) :
      Struck q { q with count := q.count - 1, elem, head := q.next q.head } j :=
    ⟨hnext, rfl, rfl, fun m h0 hm => h m _ _ h0 hm (slot_eq hh (hm.trans hfull))
      (slot_eq hh (by split <;> omega))⟩
  unfold iscsiQueueStrike
  dsimp only
  rw [if_neg (by omega)]
  split_ifs with h₁ h₂ h₃
  · exact moved fun m x y h0 hm hx hy => by split_ifs at hy ⊢ <;> (congr 1; omega)
  · omega
  · exact moved fun m x y h0 hm hx hy => by split_ifs at hy ⊢ <;> (congr 1; omega)
  · exact moved fun m x y h0 hm hx hy => by split_ifs at hy ⊢ <;> (congr 1; omega)

/-- Taking out the element at an offset erases it from the stored elements. -/
theorem Struck.toList {q q' : IscsiQueue α} {j : Nat} (h : Struck q q' j) (hj : j < q.count) :
    q'.toList = q.toList.eraseIdx j := by
  apply List.ext_getElem
  · rw [List.length_eraseIdx, if_pos (by rwa [length_toList]), length_toList,
      length_toList, h.count]
  · intro i hi hi'
    rw [length_toList, h.count] at hi
    have hslot : (q'.head + i) % q'.depth = (q.head + (i + 1)) % q.depth := by
      rw [h.head, h.depth, Nat.mod_add_mod, Nat.add_assoc, Nat.add_comm 1 i]
    rw [List.getElem_eraseIdx]
    simp only [IscsiQueue.toList, List.getElem_map, List.getElem_range]
    rw [hslot, h.elem (i + 1) (by omega) (by omega)]
    simp only [Nat.add_sub_cancel]
    split_ifs <;> first | rfl | omega

/-- The loop finds the first slot with the element. -/
theorem removeAt_first [DecidableEq α] {q : IscsiQueue α} {this : α} (hq : q.WF)
    (hfull : q.count < q.depth) {j : Nat} (hj : j ≤ q.count)
    (hthis : q.elem ((q.head + j) % q.depth) = this)
    (first : ∀ k < j, q.elem ((q.head + k) % q.depth) ≠ this) {fuel k pos : Nat} (hk : k ≤ j)
    (hfuel : j < k + fuel) (hpos : (if pos = q.depth then 0 else pos) = (q.head + k) % q.depth) :
    iscsiQueueRemoveAt q this fuel pos = some (iscsiQueueStrike q ((q.head + j) % q.depth)) := by
  induction fuel generalizing k pos with
  | zero => omega
  | succ fuel ih =>
    rw [iscsiQueueRemoveAt, hpos]
    rcases Nat.eq_or_lt_of_le hk with rfl | hlt
    · rw [if_pos hthis]
    have hslot := slot_eq (m := k) hq.head_lt (by omega)
    have htail := slot_eq hq.head_lt hfull
    rw [← hq.tail_eq] at htail
    rw [if_neg (first k hlt), if_neg (by omega)]
    refine ih (k := k + 1) hlt (by omega) ?_
    have hnext := slot_eq (m := k + 1) hq.head_lt (by omega)
    have hmod : (q.head + (k + 1)) % q.depth < q.depth := Nat.mod_lt _ (by omega)
    split <;> omega

/-- In a queue that is not full, an element is erased. -/
theorem removeThis_of_mem [DecidableEq α] {q : IscsiQueue α} (hq : q.WF) (hfull : q.count < q.depth)
    {this : α} (h : this ∈ q.toList) :
    ∃ q', iscsiQueueRemoveThis q this = some q' ∧ q'.toList = q.toList.erase this := by
  have hidx : q.toList.idxOf this < q.count := by
    have := List.idxOf_lt_length_of_mem h
    rwa [length_toList] at this
  have hget (k : Nat) (hk : k < q.count) :
      q.toList[k]? = some (q.elem ((q.head + k) % q.depth)) := by
    simp [toList, hk]
  have hthis : q.elem ((q.head + q.toList.idxOf this) % q.depth) = this := by
    have hfound := List.getElem?_idxOf h
    rw [hget _ hidx] at hfound
    exact Option.some.inj hfound
  have first (k : Nat) (hk : k < q.toList.idxOf this) :
      q.elem ((q.head + k) % q.depth) ≠ this := by
    have hlen : k < q.toList.length := by
      rw [length_toList]
      omega
    have hne := List.not_of_lt_findIdx (p := (· == this)) hk
    have hk' := hget k (by omega)
    rw [List.getElem?_eq_getElem hlen] at hk'
    rw [← Option.some.inj hk']
    simpa using hne
  refine ⟨iscsiQueueStrike q ((q.head + q.toList.idxOf this) % q.depth), ?_, ?_⟩
  rotate_left
  · rw [(struck_strike hq hfull hidx).toList hidx, List.erase_eq_eraseIdx_of_idxOf rfl]
  · rw [iscsiQueueRemoveThis, if_neg (show iscsiQueueDepth q ≠ 0 by unfold iscsiQueueDepth; omega)]
    refine removeAt_first hq hfull hidx.le hthis first (Nat.zero_le _) (by omega) ?_
    rw [Nat.add_zero, Nat.mod_eq_of_lt hq.head_lt, if_neg (Nat.ne_of_lt hq.head_lt)]

/-- The oldest element is taken out as `iscsi_queue_remove` does. -/
theorem removeThis_head [DecidableEq α] {q : IscsiQueue α} (hq : q.WF) (hne : q.count ≠ 0) :
    iscsiQueueRemoveThis q (q.elem q.head) = (iscsiQueueRemove q).map Prod.snd := by
  rw [removeThis_succ hq hne, if_pos rfl, iscsiQueueRemove,
    if_neg (show iscsiQueueDepth q ≠ 0 from hne), iscsiQueueStrike]
  dsimp only
  rw [if_pos rfl]
  rfl

end IscsiQueue

/-! ## Well-formed queues -/

/-- A queue together with its invariant. -/
structure Fifo (α : Type) where
  /-- The queue as the code sees it. -/
  queue : IscsiQueue α
  /-- Its invariant. -/
  wf : queue.WF

namespace Fifo

/-- The stored elements, oldest first. -/
def toList (r : Fifo α) : List α := r.queue.toList

/-- The number of slots. -/
def capacity (r : Fifo α) : Nat := r.queue.depth

/-- A fresh queue with `d + 1` slots. -/
def init [Inhabited α] (d : Nat) : Fifo α :=
  ⟨iscsiQueueInit (d + 1), IscsiQueue.wf_init (Nat.succ_pos d)⟩

/-- `iscsi_queue_insert` on a well-formed queue. -/
def insert (r : Fifo α) (a : α) : Option (Fifo α) :=
  match h : iscsiQueueInsert r.queue a with
  | none => none
  | some q => some ⟨q, (IscsiQueue.insert_some r.wf h).1⟩

/-- `iscsi_queue_remove` on a well-formed queue. -/
def remove (r : Fifo α) : Option (α × Fifo α) :=
  match h : iscsiQueueRemove r.queue with
  | none => none
  | some (a, q) => some (a, ⟨q, (IscsiQueue.remove_some r.wf h).1⟩)

@[simp] theorem toList_init [Inhabited α] (d : Nat) : (init d : Fifo α).toList = [] := rfl

@[simp] theorem capacity_init [Inhabited α] (d : Nat) : (init d : Fifo α).capacity = d + 1 := rfl

theorem length_toList_le (r : Fifo α) : r.toList.length ≤ r.capacity := by
  simpa [toList, capacity] using r.wf.count_le

/-- An insertion into a queue that is not full succeeds, appends, and keeps the capacity. -/
theorem insert_of_lt {r : Fifo α} (a : α) (h : r.toList.length < r.capacity) :
    ∃ r', r.insert a = some r' ∧ r'.toList = r.toList ++ [a] ∧ r'.capacity = r.capacity := by
  have hne : iscsiQueueInsert r.queue a ≠ none := by
    rw [Ne, IscsiQueue.insert_eq_none]
    simp only [toList, IscsiQueue.length_toList, capacity] at h
    omega
  unfold insert
  split
  · rename_i hn
    exact absurd hn hne
  · rename_i q hq
    obtain ⟨_, hd, hl⟩ := IscsiQueue.insert_some r.wf hq
    exact ⟨_, rfl, hl, hd⟩

/-- An insertion that succeeds appends and keeps the capacity. -/
theorem insert_some {r r' : Fifo α} {a : α} (h : r.insert a = some r') :
    r'.toList = r.toList ++ [a] ∧ r'.capacity = r.capacity := by
  unfold insert at h
  split at h
  · exact nomatch h
  · rename_i q hq
    obtain rfl := Option.some.inj h
    obtain ⟨_, hd, hl⟩ := IscsiQueue.insert_some r.wf hq
    exact ⟨hl, hd⟩

/-- An insertion fails only on a full queue. -/
theorem insert_none {r : Fifo α} {a : α} (h : r.insert a = none) :
    r.toList.length = r.capacity := by
  by_contra hne
  obtain ⟨r', h', _⟩ := insert_of_lt a (lt_of_le_of_ne r.length_toList_le hne)
  rw [h] at h'
  exact nomatch h'

/-- A removal that succeeds takes the oldest element and keeps the capacity. -/
theorem remove_some {r r' : Fifo α} {a : α} (h : r.remove = some (a, r')) :
    r.toList = a :: r'.toList ∧ r'.capacity = r.capacity := by
  unfold remove at h
  split at h
  · exact nomatch h
  · rename_i b q hq
    obtain ⟨rfl, rfl⟩ := Prod.mk.inj (Option.some.inj h)
    obtain ⟨_, hd, hl⟩ := IscsiQueue.remove_some r.wf hq
    exact ⟨hl, hd⟩

/-- A removal fails only on an empty queue. -/
theorem remove_none {r : Fifo α} (h : r.remove = none) : r.toList = [] := by
  unfold remove at h
  split at h
  · rename_i hn
    exact IscsiQueue.remove_eq_none.mp hn
  · exact nomatch h

/-- `iscsi_queue_remove_this` on a well-formed queue. -/
def removeThis [DecidableEq α] (r : Fifo α) (this : α) : Option (Fifo α) :=
  match h : iscsiQueueRemoveThis r.queue this with
  | none => none
  | some q => some ⟨q, IscsiQueue.wf_removeThis r.wf h⟩

/-- A removal on the queue of the code is one on the well-formed queue. -/
theorem removeThis_eq_some [DecidableEq α] {r : Fifo α} {this : α} {q : IscsiQueue α}
    (h : iscsiQueueRemoveThis r.queue this = some q) :
    ∃ r', r.removeThis this = some r' ∧ r'.queue = q := by
  unfold removeThis
  split
  · rename_i hn
    exact nomatch hn.symm.trans h
  · rename_i q' hq'
    exact ⟨_, rfl, Option.some.inj (hq'.symm.trans h)⟩

/-- The oldest element can be taken out. -/
theorem removeThis_cons [DecidableEq α] {r : Fifo α} {a : α} {l : List α} (h : r.toList = a :: l) :
    ∃ r', r.removeThis a = some r' ∧ r'.toList = l := by
  have hne : iscsiQueueRemove r.queue ≠ none := by
    rw [Ne, IscsiQueue.remove_eq_none]
    intro hnil
    exact nomatch h.symm.trans hnil
  obtain ⟨⟨b, q⟩, hq⟩ := Option.ne_none_iff_exists'.mp hne
  have hlist : r.toList = b :: q.toList := (IscsiQueue.remove_some r.wf hq).2.2
  obtain ⟨rfl, rfl⟩ := List.cons.inj (h.symm.trans hlist)
  have hcount : r.queue.count ≠ 0 := by
    intro he
    simp [iscsiQueueRemove, iscsiQueueDepth, he] at hq
  have hhead : r.queue.elem r.queue.head = a := by
    rw [iscsiQueueRemove, if_neg (show iscsiQueueDepth r.queue ≠ 0 from hcount)] at hq
    exact (Prod.mk.inj (Option.some.inj hq)).1
  have hthis : iscsiQueueRemoveThis r.queue a = some q := by
    rw [← hhead, IscsiQueue.removeThis_head r.wf hcount, hq]
    rfl
  obtain ⟨r', hr', rfl⟩ := removeThis_eq_some hthis
  exact ⟨r', hr', rfl⟩

/-- An element can be taken out of a queue that is not full, and the oldest out of any. -/
theorem removeThis_of_mem [DecidableEq α] {r : Fifo α} {a : α} (h : a ∈ r.toList)
    (hroom : r.toList.length < r.capacity ∨ r.toList.head? = some a) :
    ∃ r', r.removeThis a = some r' ∧ r'.toList = r.toList.erase a := by
  rcases hroom with hroom | hhead
  · rw [toList, IscsiQueue.length_toList] at hroom
    obtain ⟨q, hq, hlist⟩ := IscsiQueue.removeThis_of_mem r.wf hroom h
    obtain ⟨r', hr', rfl⟩ := removeThis_eq_some hq
    exact ⟨r', hr', hlist⟩
  · obtain ⟨l, hl⟩ : ∃ l, r.toList = a :: l := List.head?_eq_some_iff.mp hhead
    obtain ⟨r', hr', hlist⟩ := removeThis_cons hl
    exact ⟨r', hr', by rw [hlist, hl, List.erase_cons_head]⟩

/-- Insert the elements of a list one after the other, as the initialisation loops do. -/
def insertAll (r : Fifo α) (l : List α) : Option (Fifo α) :=
  l.foldlM insert r

/-- Filling a queue with a list that fits appends the list. -/
theorem insertAll_of_le {l : List α} {r : Fifo α} (h : r.toList.length + l.length ≤ r.capacity) :
    ∃ r', r.insertAll l = some r' ∧ r'.toList = r.toList ++ l ∧ r'.capacity = r.capacity := by
  induction l generalizing r with
  | nil => exact ⟨r, rfl, by simp, rfl⟩
  | cons a l ih =>
    simp only [List.length_cons] at h
    obtain ⟨r₁, h₁, hl₁, hc₁⟩ := insert_of_lt a (show r.toList.length < r.capacity by omega)
    obtain ⟨r₂, h₂, hl₂, hc₂⟩ := ih (r := r₁) (by simp [hl₁, hc₁]; omega)
    refine ⟨r₂, ?_, ?_, hc₂.trans hc₁⟩
    · change (r.insert a).bind (fun r' => r'.insertAll l) = _
      rw [h₁]
      exact h₂
    · simp [hl₂, hl₁]

end Fifo

end Ost.Util
