import Mathlib.Data.Int.Init
import Ost.Iscsi.Bytes

/-!
# Memory, I/O vectors and `modify_iov`

How the daemon can stop (`Halt`), the memory that commands point into (`Region`,
`Memory`), and the list of buffers that a transfer scatters into or gathers from.

`modifyIov` transcribes `modify_iov` of `util.c`, with its 32-bit running sums: it cuts
a list of buffers down to the bytes `[offset, offset + length)`.  The disk always hands
it a list with one buffer, and `modifyIov_singleton` is all that is needed about it there.
-/

namespace Ost.Util

open Ost.Iscsi

/-- Why the daemon stopped. -/
inductive Halt where
  | /-- A call of `exit`. -/
    exit
  | /-- A failed `assert`. -/
    abort
  | /-- Undefined behaviour: a null or wild access, an overrun, a division by zero. -/
    fault
  | /-- A loop or a lock that never ends. -/
    hang
deriving DecidableEq, Repr

/-! ## Memory -/

/-- The memory a transfer may touch. -/
inductive Region where
  | /-- The RAM disk, the mapped file or the raw device. -/
    media
  | /-- A staging buffer. -/
    staging (i : Nat)
  | /-- `g_tracefile`. -/
    tracefile
  | /-- The array `data` on the stack of `device_command`, and the stack behind it. -/
    reply
  | /-- A command structure, from its array `gather_list` on. -/
    command
  | /-- The array `padding` on the stack of `iscsi_sock_msg`. -/
    padding
deriving DecidableEq, Repr

/-- The contents of the regions. -/
def Memory := Region → Nat → UInt8

/-- The memory after `bs` is stored at `off` in region `r`. -/
def Memory.write (m : Memory) (r : Region) (off : Nat) (bs : Bytes) : Memory := fun r' i =>
  if r' = r ∧ off ≤ i ∧ i < off + bs.length then bs.getD (i - off) 0 else m r' i

/-- The `n` bytes at `off` in region `r`. -/
def Memory.read (m : Memory) (r : Region) (off n : Nat) : Bytes :=
  (List.range n).map fun i => m r (off + i)

namespace Memory

@[simp] theorem length_read (m : Memory) (r : Region) (off n : Nat) :
    (m.read r off n).length = n := by simp [read]

theorem write_of_not_mem {m : Memory} {r r' : Region} {off i : Nat} {bs : Bytes}
    (h : ¬(r' = r ∧ off ≤ i ∧ i < off + bs.length)) : m.write r off bs r' i = m r' i := by
  simp [write, h]

/-- A store puts each of its bytes at its place. -/
theorem write_at {m : Memory} {r : Region} {off i : Nat} {bs : Bytes} (h : i < bs.length) :
    m.write r off bs r (off + i) = bs.getD i 0 := by
  simp [write, h]

end Memory

/-! ## I/O vectors -/

/-- What `scatter_type` and `gather_type` say about a buffer. -/
inductive MemType where
  | /-- The zero that `memset` leaves, used for RAM disk buffers. -/
    unset
  | /-- `MEM_STACK`. -/
    stack
  | /-- `MEM_MAPPED`. -/
    mapped
  | /-- `MEM_STAGING`. -/
    staging
deriving DecidableEq, Repr

/-- A `struct iovec`: `len` bytes at `off` in region `base`. -/
structure Iov where
  base : Region
  off : Nat
  len : Nat
deriving DecidableEq, Repr

/-- Wrap a value to a signed 32-bit integer. -/
def wrapInt (x : Int) : Int := Int.bmod x 4294967296

theorem wrapInt_of_lt {n : Nat} (h : n < 2147483648) : wrapInt n = n := by
  unfold wrapInt
  rw [Int.bmod_eq_of_le] <;> omega

/-- First loop of `modify_iov`: drop the buffers before `offset` and shorten the one that
contains it.  `len` is the running sum, `disp` what is left of the offset. -/
def seekIov (offset : Nat) : Nat → Int → List Iov → Option (List Iov)
  | _, _, [] => none
  | len, disp, v :: vs =>
    let len' := (len + v.len) % 4294967296
    if offset < len' then
      some ({ v with len := (((v.len : Int) - disp) % 18446744073709551616).toNat
                     off := ((v.off : Int) + disp).toNat } :: vs)
    else seekIov offset len' (wrapInt (disp - v.len)) vs

/-- Second loop of `modify_iov`: keep the buffers up to `length` and shorten the last. -/
def cutIov (length : Nat) : Nat → List Iov → Option (List Iov)
  | _, [] => none
  | len, v :: vs =>
    let len' := (len + v.len) % 4294967296
    if length ≤ len' then
      some [{ v with len := (((v.len : Int) - ((len' : Int) - length)) %
        18446744073709551616).toNat }]
    else (cutIov length len' vs).map (v :: ·)

/-- `modify_iov`: `none` is the return value -1. -/
def modifyIov (iov : List Iov) (offset length : Nat) : Option (List Iov) :=
  (seekIov offset 0 (wrapInt offset) iov).bind (cutIov length 0)

/-- The total size of a list of buffers. -/
def iovTotal (iov : List Iov) : Nat := (iov.map (·.len)).sum

/-- The bytes that a list of buffers stands for. -/
def iovCells (iov : List Iov) : List (Region × Nat) :=
  iov.flatMap fun v => (List.range v.len).map fun i => (v.base, v.off + i)

@[simp] theorem iovCells_nil : iovCells [] = [] := rfl

theorem iovCells_cons (v : Iov) (vs : List Iov) : iovCells (v :: vs) =
    ((List.range v.len).map fun i => (v.base, v.off + i)) ++ iovCells vs := rfl

theorem iovTotal_cons (v : Iov) (vs : List Iov) : iovTotal (v :: vs) = v.len + iovTotal vs := rfl

theorem length_iovCells (iov : List Iov) : (iovCells iov).length = iovTotal iov := by
  induction iov with
  | nil => rfl
  | cons v vs ih => rw [iovCells_cons, List.length_append, ih, iovTotal_cons]; simp

/-- How far the byte at `offset` is from the start of its buffer. -/
def displacement : Nat → List Iov → Nat
  | offset, [] => offset
  | offset, v :: vs => if offset < v.len then offset else displacement (offset - v.len) vs

theorem displacement_le (offset : Nat) (vs : List Iov) : displacement offset vs ≤ offset := by
  induction vs generalizing offset with
  | nil => exact le_rfl
  | cons v vs ih =>
    rw [displacement]
    split
    · exact le_rfl
    · exact (ih _).trans (Nat.sub_le _ _)

/-- The wrapped differences of the first loop are those of one subtraction. -/
theorem wrapInt_wrapInt_sub (x y : Int) : wrapInt (wrapInt x - y) = wrapInt (x - y) :=
  Int.bmod_sub_bmod

/-- The first loop of `modify_iov` finds the buffer with the offset.  It takes the displacement
from the length of the buffer and adds it to its start, as a value of type `int`. -/
theorem seekIov_eq {offset len : Nat} {vs : List Iov} (hlen : len ≤ offset)
    (hoff : offset < len + iovTotal vs) (hbound : len + iovTotal vs < 4294967296) :
    ∃ v post, displacement (offset - len) vs < v.len ∧ v.len < 4294967296 ∧
      seekIov offset len (wrapInt ((offset : Int) - len)) vs =
        some ({ v with
          len := (((v.len : Int) - wrapInt (displacement (offset - len) vs)) %
            18446744073709551616).toNat
          off := ((v.off : Int) + wrapInt (displacement (offset - len) vs)).toNat } :: post) ∧
      (iovCells vs).drop (offset - len) =
        ((iovCells [v]).drop (displacement (offset - len) vs)) ++ iovCells post := by
  induction vs generalizing len with
  | nil => exact absurd hoff (by simp only [iovTotal, List.map_nil, List.sum_nil]; omega)
  | cons v vs ih =>
    rw [iovTotal_cons] at hoff hbound
    rw [seekIov, Nat.mod_eq_of_lt (show len + v.len < 4294967296 by omega), displacement]
    have hv : (iovCells [v]).length = v.len := by rw [length_iovCells]; rfl
    have hcells : iovCells (v :: vs) = iovCells [v] ++ iovCells vs := by
      rw [iovCells_cons, iovCells_cons, iovCells_nil, List.append_nil]
    by_cases ho : offset < len + v.len
    · rw [if_pos ho, if_pos (show offset - len < v.len by omega)]
      refine ⟨v, vs, by omega, by omega, ?_, ?_⟩
      · rw [Int.ofNat_sub hlen]
      · rw [hcells, List.drop_append_of_le_length (by rw [hv]; omega)]
    · rw [if_neg ho, if_neg (show ¬offset - len < v.len by omega), wrapInt_wrapInt_sub]
      obtain ⟨u, post, hd, hu, hs, hc⟩ := @ih (len + v.len) (by omega) (by omega) (by omega)
      rw [← Nat.sub_sub] at hd hs hc
      refine ⟨u, post, hd, hu, ?_, ?_⟩
      · rw [← hs]
        congr 2
        push_cast
        omega
      · rw [← hc, hcells, List.drop_append, hv,
          List.drop_eq_nil_of_le (hv.trans_le (show v.len ≤ offset - len by omega)),
          List.nil_append]

/-- The first loop of `modify_iov` drops the bytes before the offset, unless it is 2 GiB into a
buffer. -/
theorem seekIov_cells {offset len : Nat} {vs : List Iov} (hlen : len ≤ offset)
    (hoff : offset < len + iovTotal vs) (hbound : len + iovTotal vs < 4294967296)
    (hd : displacement (offset - len) vs < 2147483648) :
    ∃ l, seekIov offset len (wrapInt ((offset : Int) - len)) vs = some l ∧
      iovCells l = (iovCells vs).drop (offset - len) := by
  obtain ⟨v, post, hlt, hv, hs, hc⟩ := seekIov_eq hlen hoff hbound
  refine ⟨_, hs, ?_⟩
  generalize displacement (offset - len) vs = d at *
  have hw : wrapInt d = (d : Int) := by
    unfold wrapInt
    rw [Int.bmod_eq_of_le] <;> omega
  have hl : (((v.len : Int) - d) % 18446744073709551616).toNat = v.len - d := by
    rw [Int.emod_eq_of_lt (by omega) (by omega)]
    omega
  have hb : ((v.off : Int) + d).toNat = v.off + d := by omega
  rw [hc]
  simp only [hw, hl, hb, iovCells_cons, iovCells_nil, List.append_nil]
  refine congrArg (· ++ _) (List.ext_getElem (by simp) fun i h₁ h₂ => ?_)
  simp [Nat.add_assoc]

/-- When the offset is 2 GiB into a buffer, its start is moved the other way, and its length grows
by 4 GiB. -/
theorem seekIov_far {offset len : Nat} {vs : List Iov} (hlen : len ≤ offset)
    (hoff : offset < len + iovTotal vs) (hbound : len + iovTotal vs < 4294967296)
    (hd : 2147483648 ≤ displacement (offset - len) vs) :
    ∃ v post n, seekIov offset len (wrapInt ((offset : Int) - len)) vs = some (v :: post) ∧
      n < 4294967296 ∧ v.len = n + 4294967296 := by
  obtain ⟨v, post, hlt, hv, hs, -⟩ := seekIov_eq hlen hoff hbound
  refine ⟨_, post, v.len - displacement (offset - len) vs, hs, by omega, ?_⟩
  generalize displacement (offset - len) vs = d at *
  have hw : wrapInt d = (d : Int) - 4294967296 := by
    unfold wrapInt
    rw [Int.bmod_def]
    omega
  simp only [hw, Int.emod_eq_of_lt (show 0 ≤ (v.len : Int) - (d - 4294967296) by omega)
    (show (v.len : Int) - (d - 4294967296) < 18446744073709551616 by omega)]
  omega

/-- The second loop keeps as many bytes as asked for. -/
theorem cutIov_cells {length len : Nat} {vs : List Iov} (hlen : len ≤ length)
    (hle : length ≤ len + iovTotal vs) (hbound : len + iovTotal vs < 4294967296)
    (hne : len < length ∨ vs ≠ []) :
    ∃ l, cutIov length len vs = some l ∧ iovCells l = (iovCells vs).take (length - len) := by
  induction vs generalizing len with
  | nil =>
    simp only [iovTotal, List.map_nil, List.sum_nil, Nat.add_zero] at hle
    exact absurd (hne.resolve_right fun h => h rfl) (Nat.not_lt.mpr hle)
  | cons v vs ih =>
    rw [iovTotal_cons] at hle hbound
    rw [cutIov, Nat.mod_eq_of_lt (show len + v.len < 4294967296 by omega)]
    by_cases hl : length ≤ len + v.len
    · have hc : ((((v.len : Int) - (((len + v.len : Nat) : Int) - length)) %
          18446744073709551616).toNat) = length - len := by
        rw [Int.emod_eq_of_lt (by omega) (by omega)]
        omega
      refine ⟨_, if_pos hl, ?_⟩
      rw [hc, iovCells_cons, iovCells_cons, iovCells_nil, List.append_nil,
        List.take_append_of_le_length (by simp; omega), ← List.map_take, List.take_range,
        Nat.min_eq_left (by omega)]
    · obtain ⟨l, hl', hc⟩ := ih (Nat.le_of_lt (Nat.lt_of_not_le hl)) (by omega) (by omega)
        (.inl (Nat.lt_of_not_le hl))
      have hv : ((List.range v.len).map fun i => (v.base, v.off + i)).length = v.len := by simp
      refine ⟨v :: l, by rw [if_neg hl, hl']; rfl, ?_⟩
      rw [iovCells_cons, iovCells_cons, hc, List.take_append, hv,
        List.take_of_length_le (hv.trans_le (show v.len ≤ length - len by omega)), Nat.sub_sub]

theorem cutIov_far {length n : Nat} {v : Iov} {vs l : List Iov} (hn : n < 4294967296)
    (hv : v.len = n + 4294967296) (h : cutIov length 0 (v :: vs) = some l) :
    4294967296 ≤ iovTotal l := by
  rw [cutIov, hv, Nat.zero_add, Nat.add_mod_right, Nat.mod_eq_of_lt hn] at h
  split at h
  · rename_i hl
    obtain rfl := Option.some.inj h
    have hkeep : (((n + 4294967296 : Nat) : Int) - ((n : Int) - length)) % 18446744073709551616 =
        length + 4294967296 := by
      rw [Int.emod_eq_of_lt (by omega) (by omega)]
      omega
    rw [iovTotal_cons, hkeep]
    show 4294967296 ≤ ((length : Int) + 4294967296).toNat + _
    omega
  · obtain ⟨l', -, rfl⟩ := Option.map_eq_some_iff.mp h
    rw [iovTotal_cons, hv]
    omega

theorem seekIov_eq_none {offset len : Nat} {disp : Int} {vs : List Iov}
    (hle : len + iovTotal vs ≤ offset) (hbound : len + iovTotal vs < 4294967296) :
    seekIov offset len disp vs = none := by
  induction vs generalizing len disp with
  | nil => rfl
  | cons v vs ih =>
    rw [iovTotal_cons] at hle hbound
    rw [seekIov, Nat.mod_eq_of_lt (show len + v.len < 4294967296 by omega),
      if_neg (show ¬offset < len + v.len by omega)]
    exact ih (by omega) (by omega)

theorem cutIov_eq_none {length len : Nat} {vs : List Iov} (hlt : len + iovTotal vs < length)
    (hbound : len + iovTotal vs < 4294967296) : cutIov length len vs = none := by
  induction vs generalizing len with
  | nil => rfl
  | cons v vs ih =>
    rw [iovTotal_cons] at hlt hbound
    rw [cutIov, Nat.mod_eq_of_lt (show len + v.len < 4294967296 by omega),
      if_neg (show ¬length ≤ len + v.len by omega), ih (by omega) (by omega)]
    rfl

theorem wrapInt_offset (offset : Nat) : wrapInt offset = wrapInt ((offset : Int) - (0 : Nat)) := by
  rw [Int.natCast_zero, Int.sub_zero]

/-- On buffers of less than 4 GiB together, `modify_iov` fails when the slice begins past the end or
reaches past it.  Otherwise it returns the slice that it is asked for, unless the slice begins
2 GiB into a buffer. -/
theorem modifyIov_slice {iov : List Iov} {offset length : Nat}
    (hbound : iovTotal iov < 4294967296) (hd : displacement offset iov < 2147483648) :
    if offset < iovTotal iov ∧ offset + length ≤ iovTotal iov then
      ∃ l, modifyIov iov offset length = some l ∧
        iovCells l = ((iovCells iov).drop offset).take length
    else modifyIov iov offset length = none := by
  by_cases hoff : offset < iovTotal iov
  swap
  · rw [if_neg fun h => hoff h.1, modifyIov, seekIov_eq_none (by omega) (by omega)]
    rfl
  obtain ⟨l₁, h₁, hc₁⟩ := seekIov_cells (Nat.zero_le offset)
    (show offset < 0 + iovTotal iov by omega) (by omega) hd
  have htotal : iovTotal l₁ = iovTotal iov - offset := by
    rw [← length_iovCells, hc₁, List.length_drop, length_iovCells, Nat.sub_zero]
  have hne : l₁ ≠ [] := by
    rintro rfl
    exact absurd htotal (by rw [iovTotal, List.map_nil, List.sum_nil]; omega)
  rw [modifyIov, wrapInt_offset, h₁, Option.bind_some]
  by_cases hle : offset + length ≤ iovTotal iov
  · obtain ⟨l, h₂, hc₂⟩ := cutIov_cells (Nat.zero_le length)
      (show length ≤ 0 + iovTotal l₁ by omega) (by omega) (.inr hne)
    rw [if_pos ⟨hoff, hle⟩]
    exact ⟨l, h₂, by rw [hc₂, hc₁, Nat.sub_zero, Nat.sub_zero]⟩
  · rw [if_neg fun h => hle h.2]
    exact cutIov_eq_none (by omega) (by omega)

/-- On buffers of less than 4 GiB together, `modify_iov` returns the slice that it is asked for,
unless the slice begins 2 GiB into a buffer. -/
theorem modifyIov_cells {iov : List Iov} {offset length : Nat} (hlength : 0 < length)
    (hle : offset + length ≤ iovTotal iov) (hbound : iovTotal iov < 4294967296)
    (hd : displacement offset iov < 2147483648) :
    ∃ l, modifyIov iov offset length = some l ∧
      iovCells l = ((iovCells iov).drop offset).take length := by
  have h := @modifyIov_slice iov offset length hbound hd
  rwa [if_pos ⟨by omega, hle⟩] at h

/-- A slice that begins 2 GiB into a buffer comes out too long. -/
theorem modifyIov_far {iov l : List Iov} {offset length : Nat} (hoff : offset < iovTotal iov)
    (hbound : iovTotal iov < 4294967296) (hd : 2147483648 ≤ displacement offset iov)
    (h : modifyIov iov offset length = some l) : 4294967296 ≤ iovTotal l := by
  obtain ⟨v, post, n, hs, hn, hv⟩ := seekIov_far (Nat.zero_le offset)
    (show offset < 0 + iovTotal iov by omega) (by omega) hd
  rw [modifyIov, wrapInt_offset, hs, Option.bind_some] at h
  exact cutIov_far hn hv h

/-- On buffers of less than 4 GiB together, `modify_iov` returns the slice that it is asked for
just when the slice does not begin 2 GiB into a buffer. -/
theorem modifyIov_cells_iff {iov : List Iov} {offset length : Nat} (hlength : 0 < length)
    (hle : offset + length ≤ iovTotal iov) (hbound : iovTotal iov < 4294967296) :
    (∃ l, modifyIov iov offset length = some l ∧
      iovCells l = ((iovCells iov).drop offset).take length) ↔
      displacement offset iov < 2147483648 := by
  refine ⟨fun ⟨l, h, hc⟩ => ?_, modifyIov_cells hlength hle hbound⟩
  by_contra hd
  have hfar := modifyIov_far (by omega) hbound (Nat.le_of_not_lt hd) h
  have htotal := congrArg List.length hc
  rw [List.length_take, List.length_drop, length_iovCells, length_iovCells] at htotal
  omega

/-- Whether the second loop finds an end depends on the lengths modulo 2^32. -/
theorem cutIov_isSome_congr {length len : Nat} {v w : Iov} {vs : List Iov}
    (h : v.len % 4294967296 = w.len % 4294967296) :
    (cutIov length len (v :: vs)).isSome = (cutIov length len (w :: vs)).isSome := by
  have hsum : (len + v.len) % 4294967296 = (len + w.len) % 4294967296 := by
    rw [Nat.add_mod, h, ← Nat.add_mod]
  rw [cutIov, cutIov, hsum]
  split
  · rfl
  · rw [Option.isSome_map, Option.isSome_map]

/-- On buffers of less than 4 GiB together, `modify_iov` succeeds when the slice begins inside them
and does not reach past their end. -/
theorem modifyIov_isSome_iff {iov : List Iov} {offset length : Nat}
    (hbound : iovTotal iov < 4294967296) : (modifyIov iov offset length).isSome ↔
      offset < iovTotal iov ∧ offset + length ≤ iovTotal iov := by
  by_cases hoff : offset < iovTotal iov
  swap
  · rw [modifyIov, seekIov_eq_none (by omega) (by omega)]
    exact ⟨fun h => absurd h Bool.false_ne_true, fun h => absurd h.1 hoff⟩
  obtain ⟨v, post, hd, hv, hs, hc⟩ := seekIov_eq (Nat.zero_le offset)
    (show offset < 0 + iovTotal iov by omega) (by omega)
  rw [Nat.sub_zero] at hd hs hc
  have hdlt := displacement_le offset iov
  generalize displacement offset iov = d at *
  obtain ⟨u, hu, hs⟩ : ∃ u : Iov, u.len = (((v.len : Int) - wrapInt d) %
      18446744073709551616).toNat ∧ seekIov offset 0 (wrapInt ((offset : Int) - (0 : Nat))) iov =
        some (u :: post) := ⟨_, by dsimp only, hs⟩
  obtain ⟨w, hwlen⟩ : ∃ w : Iov, w.len = v.len - d := ⟨{ v with len := v.len - d }, rfl⟩
  rw [modifyIov, wrapInt_offset, hs, Option.bind_some]
  -- The first buffer is cut to the length it should have, or to 4 GiB more.
  have hcong : u.len % 4294967296 = w.len % 4294967296 := by
    have hw : wrapInt d = d ∨ wrapInt d = (d : Int) - 4294967296 := by
      unfold wrapInt
      rw [Int.bmod_def]
      omega
    rcases hw with hw | hw <;> rw [hu, hw, hwlen] <;> omega
  rw [cutIov_isSome_congr hcong]
  have htotal : v.len - d + iovTotal post = iovTotal iov - offset := by
    have h := congrArg List.length hc
    rw [List.length_append, List.length_drop, List.length_drop, length_iovCells, length_iovCells,
      length_iovCells, iovTotal_cons] at h
    simpa [iovTotal] using h.symm
  constructor
  · intro h
    refine ⟨hoff, ?_⟩
    by_contra hle
    rw [cutIov_eq_none (by rw [iovTotal_cons]; omega) (by rw [iovTotal_cons]; omega)] at h
    exact Bool.false_ne_true h
  · rintro ⟨-, hle⟩
    obtain ⟨l, hl, -⟩ := @cutIov_cells length 0 (w :: post) (Nat.zero_le length)
      (by rw [iovTotal_cons]; omega) (by rw [iovTotal_cons]; omega) (.inr (List.cons_ne_nil _ _))
    rw [hl]
    rfl

/-- On one buffer of less than 2 GiB, `modify_iov` succeeds when the slice is not past the
end of the buffer, and returns the slice. -/
theorem modifyIov_singleton {v : Iov} {offset length : Nat} (hv : v.len < 2147483648) :
    modifyIov [v] offset length =
      if offset < v.len ∧ offset + length ≤ v.len then
        some [{ v with off := v.off + offset, len := length }]
      else none := by
  unfold modifyIov
  simp only [seekIov, Nat.zero_add, Nat.mod_eq_of_lt (show v.len < 4294967296 by omega)]
  by_cases ho : offset < v.len
  · have hw : wrapInt offset = offset := by
      unfold wrapInt
      rw [Int.bmod_eq_of_le] <;> omega
    have hlen : (((v.len : Int) - offset) % 18446744073709551616).toNat = v.len - offset := by
      rw [Int.emod_eq_of_lt (by omega) (by omega)]
      omega
    have hoff : ((v.off : Int) + offset).toNat = v.off + offset := by omega
    have hsum : (v.len - offset) % 4294967296 = v.len - offset := Nat.mod_eq_of_lt (by omega)
    rw [if_pos ho, hw, hlen, hoff, Option.bind_some]
    simp only [cutIov, Nat.zero_add, hsum, Option.map_none]
    by_cases hl : length ≤ v.len - offset
    · have hcut : ((((v.len - offset : Nat) : Int) - (((v.len - offset : Nat) : Int) - length)) %
          18446744073709551616).toNat = length := by
        rw [Int.emod_eq_of_lt (by omega) (by omega)]
        omega
      rw [if_pos hl, if_pos ⟨ho, by omega⟩, hcut]
    · rw [if_neg hl, if_neg (by omega)]
  · simp [ho]

end Ost.Util
