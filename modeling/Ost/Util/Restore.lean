import Ost.Util.SockMsg

/-!
# The caller's list after `iscsi_sock_msg`

A transfer that needs no padding works on the caller's own list.  After a part of it `modify_iov`
trims the list in place and moves the pointer to the buffer where the rest begins, and at the end as
many buffers as are left are copied from the snapshot, from its first one on, to where the pointer
is.  The list is what it was when the pointer has not moved; otherwise the buffers it has passed
stay as they were trimmed, and those behind it are taken for the first ones.

The buffers are told apart by the sum of the lengths in front of them, `iovSum`.
-/

namespace Ost.Util

open Ost.Iscsi Ost.Prog

/-- The length of the first `m` buffers together. -/
def iovSum (l : List Iov) (m : Nat) : Nat := iovTotal (l.take m)

@[simp] theorem iovSum_zero (l : List Iov) : iovSum l 0 = 0 := rfl

/-- One buffer more. -/
theorem iovSum_succ {l : List Iov} {m : Nat} {v : Iov} (h : l[m]? = some v) :
    iovSum l (m + 1) = iovSum l m + v.len := by
  rw [iovSum, List.take_add_one, h, Option.toList_some, iovTotal_append]
  rfl

theorem iovSum_cons (v : Iov) (vs : List Iov) (m : Nat) :
    iovSum (v :: vs) (m + 1) = v.len + iovSum vs m := by
  rw [iovSum, List.take_succ_cons, iovTotal_cons]
  rfl

theorem iovSum_mono (l : List Iov) {m n : Nat} (h : m ≤ n) : iovSum l m ≤ iovSum l n := by
  rw [iovSum, iovSum, ← List.take_append_drop m (l.take n), iovTotal_append, List.take_take,
    Nat.min_eq_left h]
  exact Nat.le_add_right _ _

theorem iovSum_le (l : List Iov) (m : Nat) : iovSum l m ≤ iovTotal l := by
  refine (iovSum_mono l (Nat.le_max_left m l.length)).trans (Nat.le_of_eq ?_)
  rw [iovSum, List.take_of_length_le (Nat.le_max_right _ _)]

/-- Past the end of the list nothing is added. -/
theorem lt_length_of_iovSum_lt {l : List Iov} {m : Nat} (h : iovSum l m < iovTotal l) :
    m < l.length := by
  by_contra hle
  rw [iovSum, List.take_of_length_le (Nat.not_lt.mp hle)] at h
  exact Nat.lt_irrefl _ h

/-! ## The two loops of `modify_iov` -/

section Loops

variable {offset len i : Nat} {disp : Int} {vs : List Iov}

/-- The first loop finds the buffer with the offset. -/
theorem findOffset_spec (hlen : len ≤ offset) (hoff : offset < len + iovTotal vs)
    (hbound : len + iovTotal vs < 2147483648) :
    ∃ i d : Nat, findOffset offset len (wrapInt ((offset : Int) - len)) vs = some (i, (d : Int)) ∧
      len + iovSum vs i + d = offset ∧ offset < len + iovSum vs (i + 1) := by
  induction vs generalizing len with
  | nil => exact absurd hoff (by simp only [iovTotal, List.map_nil, List.sum_nil]; omega)
  | cons v vs ih =>
    rw [iovTotal_cons] at hoff hbound
    rw [findOffset, Nat.mod_eq_of_lt (show len + v.len < 4294967296 by omega)]
    by_cases ho : offset < len + v.len
    · refine ⟨0, offset - len, ?_, by rw [iovSum_zero]; omega,
        by rw [iovSum_cons, iovSum_zero]; omega⟩
      rw [if_pos ho, ← Int.ofNat_sub hlen, wrapInt_of_lt (by omega)]
    · rw [if_neg ho, wrapInt_wrapInt_sub]
      obtain ⟨i, d, hfind, heq, hlt⟩ := @ih (len + v.len) (by omega) (by omega) (by omega)
      refine ⟨i + 1, d, ?_, by rw [iovSum_cons]; omega, by rw [iovSum_cons]; omega⟩
      have harg : (offset : Int) - len - v.len = (offset : Int) - (len + v.len : Nat) := by
        push_cast
        omega
      rw [harg, hfind]
      rfl

/-- The second loop, asked for all that is left, finds the last buffer with a byte. -/
theorem findLength_spec {length : Nat} (hlen : len < length) (hsum : length = len + iovTotal vs)
    (hbound : length < 2147483648) :
    ∃ j : Nat, findLength length len vs = some (j, 0) ∧ len + iovSum vs j < length ∧
      len + iovSum vs (j + 1) = length := by
  induction vs generalizing len with
  | nil => exact absurd hsum (by simp only [iovTotal, List.map_nil, List.sum_nil]; omega)
  | cons v vs ih =>
    rw [iovTotal_cons] at hsum
    rw [findLength, Nat.mod_eq_of_lt (show len + v.len < 4294967296 by omega)]
    by_cases hl : length ≤ len + v.len
    · refine ⟨0, ?_, by rw [iovSum_zero]; omega, by rw [iovSum_cons, iovSum_zero]; omega⟩
      rw [if_pos hl, show ((len + v.len : Nat) : Int) - length = 0 by omega]
    · rw [if_neg hl]
      obtain ⟨j, hfind, hlt, heq⟩ := @ih (len + v.len) (by omega) (by omega)
      refine ⟨j + 1, ?_, by rw [iovSum_cons]; omega, by rw [iovSum_cons]; omega⟩
      rw [hfind]
      rfl

end Loops

/-! ## The list while it is trimmed -/

/-- The list after partial transfers that have moved `ps` bytes altogether, `n` at the last. -/
structure Trimmed (l : List Iov) (ps : List Nat) (n : Nat) (a : IovArray) : Prop where
  length : a.entries.length = l.length
  /-- The rest begins in the buffer that the pointer leads to. -/
  head : iovSum l a.start ≤ n
  /-- It ends with the last buffer that has a byte, or behind it. -/
  stop : ∀ m, a.start ≤ m → iovSum l m < iovTotal l → m < a.start + a.count
  fits : a.start + a.count ≤ l.length
  /-- The first buffer of the rest. -/
  first : a.entries[a.start]? = l[a.start]?.map (·.advance ((n - iovSum l a.start : Nat) : Int))
  /-- The buffers behind it were not touched. -/
  rest : ∀ m, a.start < m → a.entries[m]? = l[m]?
  /-- A buffer that the pointer has passed was touched if a part ended inside it. -/
  past : ∀ m < a.start, a.entries[m]? = l[m]? ↔ ∀ q ∈ ps, ¬(iovSum l m < q ∧ q < iovSum l (m + 1))
  last : n = 0 ∨ n ∈ ps
  le : ∀ q ∈ ps, q ≤ n

theorem Iov.advance_eq {v : Iov} {d : Nat} (h : v.len < 2147483648) (hd : d ≤ v.len) :
    v.advance (d : Int) = ⟨v.base, v.off + d, v.len - d⟩ := by
  have hlen : (((v.len : Int) - d) % 18446744073709551616).toNat = v.len - d := by
    rw [Int.emod_eq_of_lt (by omega) (by omega)]
    omega
  have hoff : ((v.off : Int) + d).toNat = v.off + d := by omega
  rw [Iov.advance, hlen, hoff]

theorem Iov.advance_zero {v : Iov} (h : v.len < 2147483648) : v.advance ((0 : Nat) : Int) = v :=
  Iov.advance_eq h (Nat.zero_le _)

theorem Iov.advance_advance {v : Iov} {d e : Nat} (h : v.len < 2147483648) (hd : d + e ≤ v.len) :
    (v.advance (d : Int)).advance (e : Int) = v.advance ((d + e : Nat) : Int) := by
  rw [Iov.advance_eq h (by omega), Iov.advance_eq h hd,
    Iov.advance_eq (show v.len - d < 2147483648 by omega) (show e ≤ v.len - d by omega)]
  simp only [Nat.add_assoc, Nat.sub_sub]

/-- A trimmed buffer is another one. -/
theorem Iov.advance_ne {v : Iov} {d : Nat} (h : v.len < 2147483648) (hd : d ≤ v.len) (h0 : 0 < d) :
    v.advance (d : Int) ≠ v := by
  rw [Iov.advance_eq h hd]
  intro heq
  have hlen := congrArg Iov.len heq
  dsimp only at hlen
  omega

theorem Iov.shorten_zero {v : Iov} (h : v.len < 2147483648) : v.shorten 0 = v := by
  have hlen : (((v.len : Int) - 0) % 18446744073709551616).toNat = v.len := by
    rw [Int.emod_eq_of_lt (by omega) (by omega)]
    omega
  rw [Iov.shorten, hlen]

/-- Each buffer is smaller than all of them. -/
theorem len_le_iovTotal {l : List Iov} {m : Nat} {v : Iov} (h : l[m]? = some v) :
    v.len ≤ iovTotal l := by
  have := iovSum_le l (m + 1)
  rw [iovSum_succ h] at this
  omega

section Trim

variable {l : List Iov} {ps : List Nat} {n k : Nat} {a : IovArray}

/-- What is seen of the list. -/
theorem Trimmed.getElem?_window (h : Trimmed l ps n a) (i : Nat) :
    a.window[i]? = if i < a.count then
      (if i = 0 then l[a.start]?.map (·.advance ((n - iovSum l a.start : Nat) : Int))
        else l[a.start + i]?) else none := by
  rw [IovArray.window, List.getElem?_take, List.getElem?_drop]
  split
  · split
    · subst i
      exact h.first
    · exact h.rest _ (by omega)
  · rfl

/-- The sums of the lengths of what is seen. -/
theorem Trimmed.iovSum_window (h : Trimmed l ps n a) (hl : iovTotal l < 2147483648)
    (hn : n ≤ iovSum l (a.start + 1)) {i : Nat} (hi : i < a.count) :
    n + iovSum a.window (i + 1) = iovSum l (a.start + (i + 1)) := by
  have hin : a.start + i < l.length := by
    have := h.fits
    omega
  induction i with
  | zero =>
    obtain ⟨v, hv⟩ : ∃ v, l[a.start]? = some v := ⟨_, List.getElem?_eq_getElem hin⟩
    have hw : a.window[0]? = some (v.advance ((n - iovSum l a.start : Nat) : Int)) := by
      rw [h.getElem?_window, if_pos hi, if_pos rfl, hv]
      rfl
    have hlt := len_le_iovTotal hv
    have hhead := h.head
    rw [iovSum_succ hv] at hn ⊢
    rw [iovSum_succ hw, iovSum_zero, Iov.advance_eq (by omega) (by omega)]
    dsimp only
    omega
  | succ i ih =>
    obtain ⟨v, hv⟩ : ∃ v, l[a.start + (i + 1)]? = some v := ⟨_, List.getElem?_eq_getElem hin⟩
    have hw : a.window[i + 1]? = some v := by
      rw [h.getElem?_window, if_pos hi, if_neg (Nat.succ_ne_zero i), hv]
    have := ih (by omega) (by omega)
    rw [iovSum_succ hw, ← Nat.add_assoc, this, ← iovSum_succ hv]
    rfl

/-- The bytes of what is seen. -/
theorem Trimmed.iovTotal_window (h : Trimmed l ps n a) (hl : iovTotal l < 2147483648)
    (hn : n ≤ iovSum l (a.start + 1)) (hlt : n < iovTotal l) :
    n + iovTotal a.window = iovTotal l := by
  have hpos : 0 < a.count := by
    have := h.stop a.start (Nat.le_refl _) (Nat.lt_of_le_of_lt h.head hlt)
    omega
  obtain ⟨c, hc⟩ := Nat.exists_eq_succ_of_ne_zero (Nat.ne_of_gt hpos)
  have hall : iovSum a.window (c + 1) = iovTotal a.window := by
    rw [iovSum, List.take_of_length_le]
    rw [IovArray.length_window]
    omega
  have hsum := h.iovSum_window hl hn (i := c) (by omega)
  rw [hall] at hsum
  rw [hsum]
  refine Nat.le_antisymm (iovSum_le _ _) (Nat.not_lt.mp fun hend => ?_)
  have := h.stop _ (by omega) hend
  omega

/-- Which buffers are as in the list: those in which no transfer has ended. -/
theorem Trimmed.whole_iff (h : Trimmed l ps n a) (hl : iovTotal l < 2147483648)
    (hin : n = 0 ∨ n < iovSum l (a.start + 1)) {m : Nat} (hm : m < l.length) :
    a.entries[m]? = l[m]? ↔ ∀ q ∈ ps, ¬(iovSum l m < q ∧ q < iovSum l (m + 1)) := by
  rcases Nat.lt_trichotomy m a.start with hlt | rfl | hgt
  · exact h.past m hlt
  · -- the buffer that the pointer leads to
    obtain ⟨v, hv⟩ : ∃ v, l[a.start]? = some v := ⟨_, List.getElem?_eq_getElem hm⟩
    have hvlen := len_le_iovTotal hv
    have hhead := h.head
    rw [h.first, hv, iovSum_succ hv]
    rw [iovSum_succ hv] at hin
    change some (v.advance _) = some v ↔ _
    rcases Nat.eq_zero_or_pos (n - iovSum l a.start) with hzero | hpos
    · refine iff_of_true ?_ fun q hq => ?_
      · rw [hzero, Iov.advance_zero (by omega)]
      · have := h.le q hq
        omega
    · refine iff_of_false ?_ fun hall => ?_
      · exact fun heq => Iov.advance_ne (by omega) (by omega) hpos (Option.some.inj heq)
      · exact hall n (h.last.resolve_left (by omega)) ⟨by omega, by omega⟩
  · refine iff_of_true (h.rest m hgt) fun q hq => ?_
    have := h.le q hq
    have := iovSum_mono l (show a.start + 1 ≤ m by omega)
    omega

/-- The buffer in which the next transfer ends, `d` bytes into what is seen of it. -/
theorem Trimmed.advance_first (h : Trimmed l ps n a) (hl : iovTotal l < 2147483648) {i d : Nat}
    {v : Iov} (hv : l[a.start + i]? = some v) (hend : n + k < iovSum l (a.start + i + 1))
    (hbegin : i = 0 ∧ d = k ∨ 0 < i ∧ n + k = iovSum l (a.start + i) + d) :
    (a.entries.modify (a.start + i) (·.advance (d : Int)))[a.start + i]? =
      l[a.start + i]?.map (·.advance ((n + k - iovSum l (a.start + i) : Nat) : Int)) := by
  have hvlen := len_le_iovTotal hv
  rw [iovSum_succ hv] at hend
  rw [List.getElem?_modify_eq, hv]
  rcases hbegin with ⟨rfl, rfl⟩ | ⟨hpos, hsum⟩
  · have hfirst := h.first
    have hhead := h.head
    rw [Nat.add_zero] at hv hend ⊢
    rw [hv] at hfirst
    rw [hfirst]
    change some ((v.advance _).advance _) = some (v.advance _)
    rw [Iov.advance_advance (by omega) (by omega)]
    congr 3
    omega
  · rw [h.rest _ (by omega), hv]
    change some (v.advance (d : Int)) = some (v.advance _)
    congr 3
    omega

/-- The first loop leaves the rest of the list. -/
theorem Trimmed.seek (h : Trimmed l ps n a) (hl : iovTotal l < 2147483648)
    (hin : n = 0 ∨ n < iovSum l (a.start + 1)) (hk : 0 < k) (hnk : n + k < iovTotal l) :
    ∃ i d : Nat, findOffset k 0 (wrapInt k) a.window = some (i, (d : Int)) ∧
      Trimmed l (ps ++ [n + k]) (n + k) (a.seek i d) ∧
      n + k < iovSum l ((a.seek i d).start + 1) := by
  have hn : n ≤ iovSum l (a.start + 1) := by omega
  have htotal := h.iovTotal_window hl hn (by omega)
  obtain ⟨i, d, hfind, heq, hlt⟩ := @findOffset_spec k 0 a.window
    (Nat.zero_le _) (by omega) (by omega)
  rw [← wrapInt_offset] at hfind
  rw [Nat.zero_add] at heq hlt
  have hi : i < a.count := by
    have hlen := lt_length_of_iovSum_lt (l := a.window) (m := i) (by omega)
    rw [IovArray.length_window] at hlen
    omega
  have hnext := h.iovSum_window hl hn hi
  have hend : n + k < iovSum l (a.start + i + 1) := by
    rw [Nat.add_assoc, ← hnext]
    omega
  have hbegin : i = 0 ∧ d = k ∨ 0 < i ∧ n + k = iovSum l (a.start + i) + d := by
    rcases Nat.eq_zero_or_pos i with rfl | hpos
    · rw [iovSum_zero, Nat.zero_add] at heq
      exact .inl ⟨rfl, heq⟩
    · obtain ⟨c, rfl⟩ : ∃ c, i = c + 1 := ⟨i - 1, by omega⟩
      have hsum := h.iovSum_window hl hn (i := c) (by omega)
      exact .inr ⟨hpos, by omega⟩
  have hhead : iovSum l (a.start + i) ≤ n + k := by
    rcases hbegin with ⟨rfl, -⟩ | ⟨-, hsum⟩
    · exact h.head.trans (Nat.le_add_right _ _)
    · omega
  have hlength : a.start + i < l.length := by
    have := h.fits
    omega
  obtain ⟨v, hv⟩ : ∃ v, l[a.start + i]? = some v := ⟨_, List.getElem?_eq_getElem hlength⟩
  refine ⟨i, d, hfind,
    ⟨?_, hhead, ?_, ?_, h.advance_first hl hv hend hbegin, ?_, ?_, ?_, ?_⟩, hend⟩
  · exact (List.length_modify ..).trans h.length
  · intro m hm hlt
    have := h.stop m (Nat.le_trans (Nat.le_add_right _ _) hm) hlt
    change m < a.start + i + (a.count - i)
    omega
  · change a.start + i + (a.count - i) ≤ l.length
    have := h.fits
    omega
  · intro m hm
    change (a.entries.modify (a.start + i) _)[m]? = _
    change a.start + i < m at hm
    rw [List.getElem?_modify_ne _ _ (show a.start + i ≠ m by omega)]
    exact h.rest m (by omega)
  · -- the buffers that it has passed
    intro m hm
    change m < a.start + i at hm
    change (a.entries.modify (a.start + i) _)[m]? = _ ↔ _
    rw [List.getElem?_modify_ne _ _ (show a.start + i ≠ m by omega)]
    have hnew : ¬(iovSum l m < n + k ∧ n + k < iovSum l (m + 1)) := by
      have := iovSum_mono l (show m + 1 ≤ a.start + i by omega)
      omega
    have hsplit : (∀ q ∈ ps ++ [n + k], ¬(iovSum l m < q ∧ q < iovSum l (m + 1))) ↔
        ∀ q ∈ ps, ¬(iovSum l m < q ∧ q < iovSum l (m + 1)) := by
      refine ⟨fun hall q hq => hall q (List.mem_append_left _ hq), fun hall q hq => ?_⟩
      rcases List.mem_append.mp hq with hq | hq
      · exact hall q hq
      · rwa [List.mem_singleton.mp hq]
    rw [hsplit]
    exact h.whole_iff hl hin (by omega)
  · exact .inr (List.mem_append_right _ (List.mem_singleton_self _))
  · intro q hq
    rcases List.mem_append.mp hq with hq | hq
    · have := h.le q hq
      omega
    · exact Nat.le_of_eq (List.mem_singleton.mp hq)

/-- A partial transfer trims the list. -/
theorem Trimmed.modify (h : Trimmed l ps n a) (hl : iovTotal l < 2147483648)
    (hin : n = 0 ∨ n < iovSum l (a.start + 1)) (hk : 0 < k) (hnk : n + k < iovTotal l) :
    ∃ a', a.modify k (iovTotal l - (n + k)) = (true, a') ∧
      Trimmed l (ps ++ [n + k]) (n + k) a' ∧ n + k < iovSum l (a'.start + 1) ∧
      ∀ m < a'.start + a'.count, a'.start ≤ m → iovSum l m < iovTotal l := by
  obtain ⟨i, d, hfind, hseek, hlt⟩ := h.seek hl hin hk hnk
  have htotal := hseek.iovTotal_window hl hlt.le hnk
  generalize hb : a.seek i d = b at hseek hlt htotal
  obtain ⟨j, hlength, hj, hend⟩ := @findLength_spec 0 b.window
    (iovTotal l - (n + k)) (by omega) (by omega) (by omega)
  rw [Nat.zero_add] at hj hend
  have hjcount : j < b.count := by
    have := lt_length_of_iovSum_lt (l := b.window) (m := j) (by omega)
    rw [IovArray.length_window] at this
    omega
  have hstop := hseek.iovSum_window hl hlt.le hjcount
  -- nothing is cut off the last buffer
  have hkeep : b.entries.modify (b.start + j) (·.shorten 0) = b.entries := by
    refine List.ext_getElem? fun m => ?_
    by_cases hm : b.start + j = m
    · subst hm
      rw [List.getElem?_modify_eq]
      have hshort (v : Iov) (hv : b.entries[b.start + j]? = some v) : v.len < 2147483648 := by
        have hw : b.window[j]? = some v := by
          rw [IovArray.window, List.getElem?_take, if_pos hjcount, List.getElem?_drop, hv]
        have := len_le_iovTotal hw
        omega
      cases hv : b.entries[b.start + j]? with
      | none => rfl
      | some v => exact congrArg some (Iov.shorten_zero (hshort v hv))
    · exact List.getElem?_modify_ne _ _ hm
  have hcut : b.cut j 0 = { b with count := j + 1 } := by
    rw [IovArray.cut, hkeep]
  refine ⟨{ b with count := j + 1 }, ?_, { hseek with stop := ?_, fits := ?_ }, hlt, ?_⟩
  · rw [IovArray.modify, hfind]
    dsimp only
    rw [hb, hlength]
    dsimp only
    rw [hcut]
  · intro m hm hm'
    by_contra hge
    have := iovSum_mono l (show b.start + (j + 1) ≤ m from Nat.not_lt.mp hge)
    omega
  · have := hseek.fits
    change b.start + (j + 1) ≤ l.length
    omega
  · intro m hm hm'
    change m < b.start + (j + 1) at hm
    have hle := iovSum_mono l (show m ≤ b.start + j by omega)
    rcases Nat.eq_zero_or_pos j with rfl | hpos
    · have := hseek.head
      rw [Nat.add_zero] at hle
      omega
    · obtain ⟨c, rfl⟩ := Nat.exists_eq_succ_of_ne_zero (Nat.ne_of_gt hpos)
      have hsum := hseek.iovSum_window hl hlt.le (i := c) (by omega)
      change n + k + iovSum b.window c.succ = iovSum l (b.start + c.succ) at hsum
      omega

end Trim

/-! ## The parts of a transfer -/

/-- How many bytes have been moved after each call of `writev` or `readv` that moves a part, but not
all that is left.  Of `total` bytes, `room` can be moved. -/
def partialsFrom (room total : Nat) : Nat → (Nat → Int) → Nat → List Nat
  | 0, _, _ => []
  | fuel + 1, counts, n =>
    let n' := min (n + (counts 0).toNat) room
    if n < n' ∧ n' < total then
      n' :: partialsFrom room total fuel (fun i => counts (i + 1)) n'
    else []

/-- How many bytes of a transfer have been moved after each part. -/
def Sock.partials (s : Sock) (send : Bool) (total : Nat) : List Nat :=
  partialsFrom (s.room send total) total (total + 4) s.counts 0

/-- What a part of a transfer leaves can be copied back in its place: every part that ended inside a
buffer ended in the one in which the last did, and from that one on, up to the last buffer with a
byte, the buffers are those from the first one on. -/
def Intact (l : List Iov) (ps : List Nat) : Prop :=
  ∀ p, ps.getLast? = some p →
    (∀ m, ∀ q ∈ ps, iovSum l m < q → q < iovSum l (m + 1) → p < iovSum l (m + 1)) ∧
    ∀ i m, iovSum l i ≤ p → p < iovSum l (i + 1) → i ≤ m → iovSum l m < iovTotal l →
      l[m - i]? = l[m]?

/-- The list when the loop tests its condition: it was not touched yet, or it was trimmed. -/
def Between (l : List Iov) (ps : List Nat) (n : Nat) (a : IovArray) : Prop :=
  Trimmed l ps n a ∧ n + iovTotal a.window = iovTotal l ∧
    (ps = [] ∧ n = 0 ∧ a = .ofList l ∨
      ps.getLast? = some n ∧ n < iovTotal l ∧ n < iovSum l (a.start + 1) ∧
        ∀ m < a.start + a.count, a.start ≤ m → iovSum l m < iovTotal l)

section Parts

variable {l : List Iov} {ps : List Nat} {n : Nat} {a : IovArray}

/-- The list before the first call. -/
theorem between_ofList (hl : iovTotal l < 2147483648) : Between l [] 0 (.ofList l) := by
  refine ⟨⟨rfl, Nat.le_refl _, ?_, ?_, ?_, fun _ _ => rfl, ?_, .inl rfl, ?_⟩, ?_,
    .inl ⟨rfl, rfl, rfl⟩⟩
  · intro m _ hm
    exact (Nat.zero_add l.length).symm ▸ lt_length_of_iovSum_lt hm
  · exact Nat.le_of_eq (Nat.zero_add _)
  · change l[0]? = l[0]?.map fun v => v.advance ((0 : Nat) : Int)
    cases hv : l[0]? with
    | none => rfl
    | some v =>
      have := len_le_iovTotal hv
      exact congrArg some (Iov.advance_zero (by omega)).symm
  · exact fun m hm => absurd hm (Nat.not_lt_zero m)
  · exact fun q hq => absurd hq List.not_mem_nil
  · rw [IovArray.window_ofList, Nat.zero_add]

/-- The result of a call of `writev` or `readv`. -/
theorem transfer_min (send : Bool) (iov : List Iov) (s : Sock)
    (hbound : iovTotal iov < 2147483648) :
    (s.counts 0 ≤ 0 ∧ transfer send iov s = .ret (s.counts 0) (s.skip 1)) ∨
    ∃ k, k = min (s.counts 0).toNat (s.room send (iovTotal iov)) ∧
      transfer send iov s = .ret (k : Int) (s.moved send (iovCells iov) k 1) := by
  by_cases hw : s.counts 0 ≤ 0
  · exact .inl ⟨hw, if_pos hw⟩
  refine .inr ⟨_, rfl, ?_⟩
  have hle := s.room_le send (iovTotal iov)
  rw [transfer, if_neg hw, Sock.moved, ← Sock.move_skip]
  dsimp only
  rw [wrapInt_of_lt (by omega)]
  rfl

/-- The loop ends with the list as the parts of the transfer have left it. -/
theorem sockMsgLoop_between {send : Bool} (hl : iovTotal l < 2147483648) {fuel : Nat} {s : Sock}
    (h : Between l ps n a) (hfuel : iovTotal l - n < fuel) :
    ∃ r n' a' s', sockMsgLoop send (iovTotal l) fuel a n s = .ret (some r, a') s' ∧
      Between l (ps ++ partialsFrom (n + s.room send (iovTotal l - n)) (iovTotal l) fuel s.counts n)
        n' a' := by
  induction fuel generalizing n ps a s with
  | zero => exact absurd hfuel (Nat.not_lt_zero _)
  | succ fuel ih =>
    obtain ⟨htrim, htotal, hcase⟩ := h
    have hn : n ≤ iovTotal l := by omega
    have hwindow : iovTotal a.window = iovTotal l - n := by omega
    have hsum : totalLen a.window = wrapInt ((iovTotal l : Int) - n) := by
      rw [totalLen_eq, hwindow, Int.ofNat_sub hn]
    have hdone {rc : Int} {s' : Sock} (ht : transfer send a.window s = .ret rc s') (hrc : rc ≤ 0)
        (hmin : min (s.counts 0).toNat (s.room send (iovTotal l - n)) = 0) :
        ∃ r n' a' s', sockMsgLoop send (iovTotal l) (fuel + 1) a n s = .ret (some r, a') s' ∧
          Between l (ps ++ partialsFrom (n + s.room send (iovTotal l - n)) (iovTotal l) (fuel + 1)
            s.counts n) n' a' := by
      refine ⟨n, n, a, s', ?_, ?_⟩
      · rw [sockMsgLoop, if_neg (not_not.mpr hsum), bind_apply, ht]
        exact congrFun (if_pos hrc) _
      · rw [partialsFrom, if_neg (by omega), List.append_nil]
        exact ⟨htrim, htotal, hcase⟩
    rcases transfer_min send a.window s (by omega) with ⟨hc, ht⟩ | ⟨k, hk, ht⟩
    · exact hdone ht hc (by omega)
    rw [hwindow] at hk
    rcases Nat.eq_zero_or_pos k with rfl | hpos
    · exact hdone ht (Int.le_refl _) hk.symm
    have hroom := s.room_le send (iovTotal l - n)
    have hmin : min (n + (s.counts 0).toNat) (n + s.room send (iovTotal l - n)) = n + k := by omega
    have hnext : wrapInt ((n : Int) + k) = ((n + k : Nat) : Int) := by
      rw [← Int.natCast_add, wrapInt_of_lt (by omega)]
    rcases Nat.eq_or_lt_of_le (show n + k ≤ iovTotal l by omega) with hend | hlt
    · refine ⟨(n + k : Nat), n, a, s.moved send (iovCells a.window) k 1, ?_, ?_⟩
      · rw [sockMsgLoop, if_neg (not_not.mpr hsum), bind_apply, ht]
        dsimp only
        rw [if_neg (by omega), hnext, if_neg (by omega)]
        rfl
      · rw [partialsFrom, hmin, if_neg (by omega), List.append_nil]
        exact ⟨htrim, htotal, hcase⟩
    · have hrest : ¬((k : Int) ≤ 0) ∧ ((n + k : Nat) : Int) < (iovTotal l : Int) :=
        ⟨not_le.mpr (Int.natCast_pos.mpr hpos), Int.ofNat_lt.mpr hlt⟩
      have hless : n < n + k := Nat.lt_add_of_pos_right hpos
      have hfuel' : iovTotal l - (n + k) < fuel :=
        (Nat.sub_lt_sub_left (hless.trans hlt) hless).trans_le (Nat.le_of_lt_succ hfuel)
      have hbound : iovTotal l - (n + k) < 2147483648 := Nat.lt_of_le_of_lt (Nat.sub_le ..) hl
      have hin : n = 0 ∨ n < iovSum l (a.start + 1) :=
        hcase.imp (fun h => h.2.1) fun h => h.2.2.1
      obtain ⟨a₁, hmodify, htrim₁, hin₁, hstop₁⟩ := htrim.modify hl hin hpos hlt
      have hnext₁ : Between l (ps ++ [n + k]) (n + k) a₁ :=
        ⟨htrim₁, htrim₁.iovTotal_window hl hin₁.le hlt,
        .inr ⟨List.getLast?_concat, hlt, hin₁, hstop₁⟩⟩
      obtain ⟨r, n', a', s', hrun, hbetween⟩ :=
        ih (s := s.moved send (iovCells a.window) k 1) hnext₁ hfuel'
      have hcells : k ≤ (iovCells a.window).length := by
        rw [length_iovCells]
        omega
      refine ⟨r, n', a', s', ?_, ?_⟩
      · rw [sockMsgLoop, if_neg (not_not.mpr hsum), bind_apply, ht]
        dsimp only
        rw [if_neg hrest.1, hnext, if_pos hrest.2, ← Int.ofNat_sub hlt.le,
          wrapInt_of_lt hbound, Int.toNat_natCast, Int.toNat_natCast, hmodify]
        dsimp only
        rw [if_pos rfl, hrun]
      · rw [← Nat.sub_sub, Sock.room_moved hcells, List.append_assoc] at hbetween
        rw [partialsFrom, hmin, if_pos ⟨hless, hlt⟩]
        have hsame : n + k + (s.room send (iovTotal l - n) - k) =
            n + s.room send (iovTotal l - n) := by
          rw [Nat.add_assoc, Nat.add_sub_cancel' (hk ▸ Nat.min_le_right _ _)]
        rw [hsame] at hbetween
        have hcounts : (s.moved send (iovCells a.window) k 1).counts =
            fun i => s.counts (i + 1) := by
          rw [Sock.moved, Sock.skip, Sock.counts_move]
        rw [hcounts] at hbetween
        exact hbetween

/-- What is in the list after the snapshot has been copied back. -/
theorem getElem?_restore (htrim : Trimmed l ps n a) (m : Nat) :
    (a.restore l)[m]? = if m < a.start then a.entries[m]?
      else if m < a.start + a.count then l[m - a.start]? else a.entries[m]? := by
  have hfits := htrim.fits
  have hlength := htrim.length
  have hpre : (a.entries.take a.start).length = a.start := by
    rw [List.length_take, hlength]
    omega
  have hmid : (l.take a.count).length = a.count := by
    rw [List.length_take]
    omega
  rw [IovArray.restore]
  split
  · rw [List.getElem?_append_left (by rw [List.length_append, hpre, hmid]; omega),
      List.getElem?_append_left (by omega), List.getElem?_take, if_pos ‹_›]
  split
  · rw [List.getElem?_append_left (by rw [List.length_append, hpre, hmid]; omega),
      List.getElem?_append_right (by omega), hpre, List.getElem?_take, if_pos (by omega)]
  · rw [List.getElem?_append_right (by rw [List.length_append, hpre, hmid]; omega),
      List.length_append, hpre, hmid, List.getElem?_drop]
    congr 1
    omega

/-- When the list is restored. -/
theorem restore_eq_iff (h : Between l ps n a) : a.restore l = l ↔ Intact l ps := by
  obtain ⟨htrim, -, ⟨rfl, rfl, rfl⟩ | ⟨hlast, hlt, hin, hstop⟩⟩ := h
  · refine iff_of_true ?_ fun p hp => absurd hp (by simp)
    rw [IovArray.restore, IovArray.ofList, List.take_zero, List.take_length, Nat.zero_add,
      List.drop_length, List.append_nil]
    rfl
  have hunique {i : Nat} (hi : iovSum l i ≤ n) (hi' : n < iovSum l (i + 1)) : i = a.start := by
    have hhead := htrim.head
    rcases Nat.lt_trichotomy i a.start with hlt | rfl | hgt
    · have := iovSum_mono l (show i + 1 ≤ a.start from hlt)
      omega
    · rfl
    · have := iovSum_mono l (show a.start + 1 ≤ i from hgt)
      omega
  constructor
  · intro hsame p hp
    obtain rfl := Option.some.inj (hlast.symm.trans hp)
    have hget (m : Nat) := (getElem?_restore htrim m).symm.trans (congrArg (·[m]?) hsame)
    refine ⟨fun m q hq hlo hhi => ?_, fun i m hi hi' him hm => ?_⟩
    · by_cases hm : m < a.start
      · have hkept := hget m
        rw [if_pos hm] at hkept
        exact absurd ⟨hlo, hhi⟩ ((htrim.past m hm).mp hkept q hq)
      · have := iovSum_mono l (show a.start + 1 ≤ m + 1 by omega)
        omega
    · obtain rfl := hunique hi hi'
      have hmoved := hget m
      rwa [if_neg (by omega), if_pos (htrim.stop m him hm)] at hmoved
  · intro hintact
    obtain ⟨hparts, hshift⟩ := hintact n hlast
    refine List.ext_getElem? fun m => ?_
    rw [getElem?_restore htrim]
    have hhead := htrim.head
    split
    · refine (htrim.past m ‹_›).mpr fun q hq ⟨hlo, hhi⟩ => ?_
      have := hparts m q hq hlo hhi
      have := iovSum_mono l (show m + 1 ≤ a.start by omega)
      omega
    split
    · exact hshift _ m hhead hin (by omega) (hstop m ‹_› (by omega))
    · have := htrim.stop a.start (Nat.le_refl _) (by omega)
      exact htrim.rest m (by omega)

end Parts

/-! ## Restoring the caller's list -/

/-- The caller's list is what it was when the call returns. -/
def Restores (send : Bool) (len : Nat) (v : Iov) (vs : List Iov) (s : Sock) : Prop :=
  ensures (iscsiSockMsg send len (.list v vs)) (fun r _ => r.2 = v :: vs) s

/-- The call works on a copy, or it refuses the list because of its length, or what the parts of the
transfer leave of the list can be copied back in its place. -/
def Restorable (send : Bool) (len : Nat) (l : List Iov) (s : Sock) : Prop :=
  len % 4 ≠ 0 ∨ wrapInt (iovTotal l) ≠ len ∨
    (iovTotal l = len ∧ Intact l (s.partials send len))

section Call

variable {send : Bool} {len : Nat} {v : Iov} {vs : List Iov} {s : Sock}

/-- A call that needs padding works on a copy. -/
theorem restores_of_padding (h : len % 4 ≠ 0) : Restores send len v vs s := by
  rw [Restores, iscsiSockMsg]
  refine (wp_bind _ _).mpr ((wp_modify _).mpr ?_)
  refine (ensures_true _ _).bind fun r s' _ => ?_
  obtain ⟨_ | n, iov⟩ := r
  · exact if_neg h
  · exact if_neg h

/-- A call that needs none works on the list itself. -/
theorem iscsiSockMsg_list (h : len % 4 = 0) (hlen : len < 2147483648) :
    iscsiSockMsg send len (.list v vs) s =
      (do
        let (n, iov) ← sockMsgLoop send len (len + 4) (.ofList (v :: vs)) ((0 : Nat) : Int)
        match n with
        | none => return (-1, iov.entries)
        | some n => return (wrapInt (n - paddingLen len), iov.restore (v :: vs)))
        (s.padded len) := by
  have hpad : paddingLen len = 0 := if_pos h
  have horig : SockData.iov len (.list v vs) ++ paddingIov len = v :: vs := by
    rw [paddingIov, if_pos h, List.append_nil]
    rfl
  have hafter (entries : List Iov) : SockData.after len (.list v vs) entries = entries := if_pos h
  rw [iscsiSockMsg, bind_apply, horig]
  simp only [hafter]
  change ((sockMsgLoop send (wrapInt ((len : Int) + paddingLen len)) (len + 4) _ 0) >>= _)
    (s.padded len) = _
  have htotal : wrapInt ((len : Int) + paddingLen len) = len := by
    rw [hpad, Int.natCast_zero, Int.add_zero, wrapInt_of_lt hlen]
  generalize wrapInt ((len : Int) + paddingLen len) = total at htotal ⊢
  subst htotal
  rfl

/-- A call that refuses the list has not touched it. -/
theorem restores_of_refused (h : wrapInt (iovTotal (v :: vs)) ≠ len) (hlen : len < 2147483648) :
    Restores send len v vs s := by
  by_cases hpad : len % 4 = 0
  · have hrefuse :
        totalLen (IovArray.ofList (v :: vs)).window ≠ wrapInt ((len : Int) - (0 : Nat)) := by
      rw [totalLen_eq, IovArray.window_ofList, Int.natCast_zero, Int.sub_zero, wrapInt_of_lt hlen]
      exact h
    rw [Restores, ensures, wp, iscsiSockMsg_list hpad hlen, bind_apply, sockMsgLoop,
      if_pos hrefuse]
    rfl
  · exact restores_of_padding hpad

/-- A call that transfers the list restores it just when its parts leave it intact. -/
theorem restores_iff_intact (h : len % 4 = 0) (hlen : len < 2147483648)
    (htotal : iovTotal (v :: vs) = len) :
    Restores send len v vs s ↔ Intact (v :: vs) (s.partials send len) := by
  subst htotal
  obtain ⟨r, n, a, s', hrun, hbetween⟩ := @sockMsgLoop_between _ [] 0 _ send hlen
    (iovTotal (v :: vs) + 4) (s.padded (iovTotal (v :: vs))) (between_ofList hlen)
    (Nat.lt_of_le_of_lt (Nat.sub_le _ 0) (Nat.lt_add_of_pos_right (show 0 < 4 by decide)))
  rw [Restores, ensures, wp, iscsiSockMsg_list h hlen, bind_apply, hrun]
  rw [Nat.zero_add, List.nil_append] at hbetween
  exact restore_eq_iff hbetween

end Call

/-- The list is restored in every call that does not move the pointer in vain; and where the buffers
hold less than 4 GiB, in no other. -/
theorem iscsiSockMsg_restores_iff (send : Bool) (len : Nat) (v : Iov) (vs : List Iov) (s : Sock)
    (hlen : len < 2147483648) :
    (Restorable send len (v :: vs) s → Restores send len v vs s) ∧
      (iovTotal (v :: vs) < 4294967296 → Restores send len v vs s →
        Restorable send len (v :: vs) s) := by
  refine ⟨fun h => ?_, fun hsmall h => ?_⟩
  · rcases h with hpad | hrefused | ⟨htotal, hintact⟩
    · exact restores_of_padding hpad
    · exact restores_of_refused hrefused hlen
    · by_cases hpad : len % 4 = 0
      · exact (restores_iff_intact hpad hlen htotal).mpr hintact
      · exact restores_of_padding hpad
  · by_cases hpad : len % 4 = 0
    · refine .inr ?_
      by_cases hrefused : wrapInt (iovTotal (v :: vs)) = len
      · have htotal : iovTotal (v :: vs) = len := by
          unfold wrapInt at hrefused
          rw [Int.bmod_def] at hrefused
          split at hrefused <;> omega
        exact .inr ⟨htotal, (restores_iff_intact hpad hlen htotal).mp h⟩
      · exact .inl hrefused
    · exact .inl hpad

/-- A transfer whose parts end in the first buffer restores the list. -/
theorem iscsiSockMsg_restores_two :
    Restores true 8 ⟨.staging 0, 0, 4⟩ [⟨.staging 1, 0, 4⟩]
      ⟨fun _ _ => 0, fun i => if i = 0 then 2 else 6, [], []⟩ := by
  refine (iscsiSockMsg_restores_iff true 8 _ _ _ (by decide)).1 (.inr (.inr ⟨rfl, fun p hp => ?_⟩))
  obtain rfl : 2 = p := Option.some.inj hp
  refine ⟨fun m q hq _ hhi => ?_, fun i m hi _ him _ => ?_⟩
  · obtain rfl := List.mem_singleton.mp (show q ∈ [2] from hq)
    exact hhi
  · rcases Nat.eq_zero_or_pos i with rfl | hpos
    · rfl
    · exact absurd ((iovSum_mono _ hpos).trans hi) (by decide)

/-- A list of two buffers, of which two bytes are moved, then four and then the last two: the first
buffer stays as it was trimmed, and the second has become the first. -/
theorem iscsiSockMsg_loses :
    ∃ s s' : Sock, iscsiSockMsg true 8 (.list ⟨.staging 0, 0, 4⟩ [⟨.staging 1, 0, 4⟩]) s =
        .ret (8, [⟨.staging 0, 2, 2⟩, ⟨.staging 0, 0, 4⟩]) s' ∧
      ¬Restores true 8 ⟨.staging 0, 0, 4⟩ [⟨.staging 1, 0, 4⟩] s := by
  obtain ⟨s', hrun⟩ := Outcome.exists_ret (show (iscsiSockMsg true 8
      (.list ⟨.staging 0, 0, 4⟩ [⟨.staging 1, 0, 4⟩])
      ⟨fun _ _ => 0, fun i => if i = 1 then 4 else 2, [], []⟩).value? =
        some (8, [⟨.staging 0, 2, 2⟩, ⟨.staging 0, 0, 4⟩]) by decide +kernel)
  refine ⟨_, s', hrun, fun h => ?_⟩
  rw [Restores, ensures, wp, hrun] at h
  exact absurd (congrArg Iov.off (List.cons.inj h).1) (by decide)

end Ost.Util
