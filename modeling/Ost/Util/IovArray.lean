import Ost.Util.Iov

/-!
# `modify_iov` in place

`modify_iov` works on an array of the caller: it moves the caller's pointer to the buffer with the
offset, trims that buffer and the one where the slice ends, and shortens the caller's count.
`IovArray.modify` is the call with all its effects.  What the caller sees through its pointer and
count afterwards is the list of `modifyIov`.
-/

namespace Ost.Util

/-- An array of buffers with `*iov_ptr` as an index into it, and `*iov_len`. -/
structure IovArray where
  entries : List Iov
  start : Nat
  count : Nat
deriving DecidableEq

namespace IovArray

/-- The list that the pointer and the count stand for. -/
def window (a : IovArray) : List Iov := (a.entries.drop a.start).take a.count

/-- A list of which nothing was cut yet. -/
def ofList (iov : List Iov) : IovArray := ⟨iov, 0, iov.length⟩

@[simp] theorem window_ofList (iov : List Iov) : (ofList iov).window = iov := List.take_length

end IovArray

/-- `iov[i].iov_len -= disp; iov[i].iov_base += disp`. -/
def Iov.advance (v : Iov) (disp : Int) : Iov :=
  { v with len := (((v.len : Int) - disp) % 18446744073709551616).toNat
           off := ((v.off : Int) + disp).toNat }

/-- `iov[i].iov_len -= excess`. -/
def Iov.shorten (v : Iov) (excess : Int) : Iov :=
  { v with len := (((v.len : Int) - excess) % 18446744073709551616).toNat }

/-- The first loop: the index of the buffer with the offset, and `disp`. -/
def findOffset (offset : Nat) : Nat → Int → List Iov → Option (Nat × Int)
  | _, _, [] => none
  | len, disp, v :: vs =>
    let len' := (len + v.len) % 4294967296
    if offset < len' then some (0, disp)
    else (findOffset offset len' (wrapInt (disp - v.len)) vs).map fun r => (r.1 + 1, r.2)

/-- The second loop: the index of the last buffer, and `len - length`. -/
def findLength (length : Nat) : Nat → List Iov → Option (Nat × Int)
  | _, [] => none
  | len, v :: vs =>
    let len' := (len + v.len) % 4294967296
    if length ≤ len' then some (0, (len' : Int) - length)
    else (findLength length len' vs).map fun r => (r.1 + 1, r.2)

/-- The array after the buffer with the offset is found. -/
def IovArray.seek (a : IovArray) (i : Nat) (disp : Int) : IovArray :=
  { entries := a.entries.modify (a.start + i) (·.advance disp)
    start := a.start + i, count := a.count - i }

/-- The array after the last buffer is found. -/
def IovArray.cut (a : IovArray) (i : Nat) (excess : Int) : IovArray :=
  { a with entries := a.entries.modify (a.start + i) (·.shorten excess), count := i + 1 }

/-- `modify_iov`: whether it returned 0, and what it left in the array, the pointer and the
count. -/
def IovArray.modify (a : IovArray) (offset length : Nat) : Bool × IovArray :=
  match findOffset offset 0 (wrapInt offset) a.window with
  | none => (false, a)
  | some (i, disp) =>
    match findLength length 0 (a.seek i disp).window with
    | none => (false, a.seek i disp)
    | some (j, excess) => (true, (a.seek i disp).cut j excess)

/-! ## The two loops -/

section Loops

variable {offset length len i : Nat} {disp d : Int} {vs : List Iov}

/-- The first loop leaves what `seekIov` returns. -/
theorem seekIov_eq_findOffset (offset len : Nat) (disp : Int) (vs : List Iov) :
    seekIov offset len disp vs =
      (findOffset offset len disp vs).map fun r => (vs.drop r.1).modify 0 (·.advance r.2) := by
  induction vs generalizing len disp with
  | nil => rfl
  | cons v vs ih =>
    rw [seekIov, findOffset]
    split
    · rfl
    · rw [ih, Option.map_map]
      rfl

/-- The second loop leaves what `cutIov` returns. -/
theorem cutIov_eq_findLength (length len : Nat) (vs : List Iov) :
    cutIov length len vs =
      (findLength length len vs).map fun r => (vs.take (r.1 + 1)).modify r.1 (·.shorten r.2) := by
  induction vs generalizing len with
  | nil => rfl
  | cons v vs ih =>
    rw [cutIov, findLength]
    split
    · rfl
    · rw [ih, Option.map_map, Option.map_map]
      rfl

theorem findLength_lt (h : findLength length len vs = some (i, d)) : i < vs.length := by
  induction vs generalizing len i with
  | nil => exact absurd h.symm (Option.some_ne_none _)
  | cons v vs ih =>
    rw [findLength] at h
    split at h
    · obtain ⟨rfl, -⟩ := Prod.mk.inj (Option.some.inj h)
      exact Nat.succ_pos _
    · obtain ⟨⟨j, e⟩, hj, hi⟩ := Option.map_eq_some_iff.mp h
      obtain ⟨rfl, rfl⟩ := Prod.mk.inj hi
      exact Nat.succ_lt_succ (ih hj)

end Loops

/-! ## What the caller sees -/

namespace IovArray

variable {a : IovArray} {i : Nat}

theorem length_window (a : IovArray) :
    a.window.length = min a.count (a.entries.length - a.start) := by
  rw [window, List.length_take, List.length_drop]

theorem window_seek (a : IovArray) (i : Nat) (disp : Int) :
    (a.seek i disp).window = (a.window.drop i).modify 0 (·.advance disp) := by
  refine List.ext_getElem? fun k => ?_
  simp only [window, seek, List.getElem?_take, List.getElem?_drop, List.getElem?_modify]
  have hfirst : a.start + i = a.start + (i + k) ↔ 0 = k := by omega
  have hin : k < a.count - i ↔ i + k < a.count := by omega
  simp only [Nat.add_assoc, hfirst, hin]
  split <;> rfl

theorem window_cut (a : IovArray) (i : Nat) (excess : Int) (hi : i < a.window.length) :
    (a.cut i excess).window = (a.window.take (i + 1)).modify i (·.shorten excess) := by
  rw [length_window] at hi
  refine List.ext_getElem? fun k => ?_
  simp only [window, cut, List.getElem?_take, List.getElem?_drop, List.getElem?_modify]
  have hlast : a.start + i = a.start + k ↔ i = k := by omega
  simp only [hlast]
  by_cases hk : k < i + 1
  · rw [if_pos hk, if_pos hk, if_pos (show k < a.count by omega)]
  · rw [if_neg hk, if_neg hk]
    rfl

/-- The call succeeds just when `modifyIov` does, and then the caller sees its list. -/
theorem modify_window (a : IovArray) (offset length : Nat) :
    modifyIov a.window offset length =
      if (a.modify offset length).1 then some (a.modify offset length).2.window else none := by
  rw [modifyIov, seekIov_eq_findOffset]
  rcases (findOffset offset 0 (wrapInt offset) a.window).eq_none_or_eq_some with
    hi | ⟨⟨i, disp⟩, hi⟩
  · have hm : a.modify offset length = (false, a) := by
      rw [modify, hi]
    rw [hi, hm]
    rfl
  rw [hi, Option.map_some, Option.bind_some, ← window_seek a i disp, cutIov_eq_findLength]
  rcases (findLength length 0 (a.seek i disp).window).eq_none_or_eq_some with
    hj | ⟨⟨j, excess⟩, hj⟩
  · have hm : a.modify offset length = (false, a.seek i disp) := by
      simp only [modify, hi, hj]
    rw [hj, hm]
    rfl
  · have hm : a.modify offset length = (true, (a.seek i disp).cut j excess) := by
      simp only [modify, hi, hj]
    rw [hj, hm, Option.map_some, ← window_cut _ j excess (findLength_lt hj)]
    rfl

theorem modify_eq_cut {offset length : Nat} (h : (a.modify offset length).1 = true) :
    ∃ i disp j excess, a.modify offset length = (true, (a.seek i disp).cut j excess) := by
  revert h
  unfold modify
  split
  · exact fun h => absurd h Bool.false_ne_true
  · split
    · exact fun h => absurd h Bool.false_ne_true
    · exact fun _ => ⟨_, _, _, _, rfl⟩

/-- Only the first and the last of the buffers that the caller then sees were touched. -/
theorem modify_frame {offset length k : Nat} (h : (a.modify offset length).1 = true)
    (hfirst : k ≠ (a.modify offset length).2.start)
    (hlast : k + 1 ≠ (a.modify offset length).2.start + (a.modify offset length).2.count) :
    (a.modify offset length).2.entries[k]? = a.entries[k]? := by
  obtain ⟨i, disp, j, excess, hm⟩ := modify_eq_cut h
  rw [hm] at hfirst hlast ⊢
  replace hfirst : k ≠ a.start + i := hfirst
  replace hlast : k + 1 ≠ a.start + i + (j + 1) := hlast
  simp only [cut, seek, List.getElem?_modify, Ne.symm hfirst,
    show ¬a.start + i + j = k by omega, if_false]
  exact (congrArg _ (id_map _)).trans (id_map _)

/-- The caller's list after a cut: it stands for the bytes of the slice, and no other buffer than
its first and its last has changed. -/
structure Cut (a : IovArray) (offset length : Nat) (b : IovArray) : Prop where
  cells : iovCells b.window = ((iovCells a.window).drop offset).take length
  entries : b.entries.length = a.entries.length
  frame : ∀ k, k ≠ b.start → k + 1 ≠ b.start + b.count → b.entries[k]? = a.entries[k]?

/-- The call returns 0 when the slice begins inside the buffers and does not reach past their
end. -/
theorem modify_ok_iff (a : IovArray) {offset length : Nat}
    (hbound : iovTotal a.window < 2147483648) (hoffset : offset < 2147483648) :
    (a.modify offset length).1 = true ↔
      offset < iovTotal a.window ∧ offset + length ≤ iovTotal a.window := by
  have hslice := @modifyIov_slice a.window offset length (by omega)
    (Nat.lt_of_le_of_lt (displacement_le _ _) hoffset)
  rw [modify_window] at hslice
  by_cases hok : (a.modify offset length).1 = true
  · rw [if_pos hok] at hslice
    refine ⟨fun _ => ?_, fun _ => hok⟩
    by_contra hin
    rw [if_neg hin] at hslice
    exact Option.some_ne_none _ hslice
  · rw [if_neg hok] at hslice
    refine ⟨fun h => absurd h hok, fun hin => ?_⟩
    rw [if_pos hin] at hslice
    obtain ⟨l, hl, -⟩ := hslice
    exact absurd hl.symm (Option.some_ne_none _)

/-- A call for a slice of the buffers leaves the slice. -/
theorem modify_some (a : IovArray) {offset length : Nat} (hoff : offset < iovTotal a.window)
    (hle : offset + length ≤ iovTotal a.window) (hbound : iovTotal a.window < 2147483648) :
    ∃ b, a.modify offset length = (true, b) ∧ a.Cut offset length b := by
  have hok := (modify_ok_iff a hbound (hoff.trans hbound)).mpr ⟨hoff, hle⟩
  refine ⟨_, Prod.ext hok rfl, ?_, ?_, fun k => modify_frame hok⟩
  · have hslice := @modifyIov_slice a.window offset length (by omega)
      (Nat.lt_of_le_of_lt (displacement_le _ _) (hoff.trans hbound))
    rw [modify_window, if_pos hok, if_pos ⟨hoff, hle⟩] at hslice
    obtain ⟨l, hl, hcells⟩ := hslice
    obtain rfl := Option.some.inj hl
    exact hcells
  · obtain ⟨i, disp, j, excess, hm⟩ := modify_eq_cut hok
    rw [hm]
    exact (List.length_modify ..).trans (List.length_modify ..)

/-- **`modify_iov` cuts exactly.**  On buffers of less than 2 GiB together it returns 0 just when
the slice begins inside them and does not reach past their end, and then the slice is what the
caller sees. -/
theorem modify_exact (a : IovArray) {offset length : Nat}
    (hbound : iovTotal a.window < 2147483648) (hoffset : offset < 2147483648) :
    ((a.modify offset length).1 = true ↔
      offset < iovTotal a.window ∧ offset + length ≤ iovTotal a.window) ∧
    ((a.modify offset length).1 = true → a.Cut offset length (a.modify offset length).2) := by
  have hiff := @modify_ok_iff a offset length hbound hoffset
  refine ⟨hiff, fun h => ?_⟩
  obtain ⟨b, hb, hcut⟩ := modify_some a (hiff.mp h).1 (hiff.mp h).2 hbound
  rw [hb]
  exact hcut

/-- Two bytes, from the last one of the first buffer on. -/
theorem modify_exact_two :
    (ofList [⟨.staging 0, 0, 4⟩, ⟨.staging 1, 0, 4⟩]).Cut 3 2
      ⟨[⟨.staging 0, 3, 1⟩, ⟨.staging 1, 0, 1⟩], 0, 2⟩ :=
  (modify_exact (ofList [⟨.staging 0, 0, 4⟩, ⟨.staging 1, 0, 4⟩]) (by decide) (by decide)).2
    (by decide)

end IovArray

end Ost.Util
