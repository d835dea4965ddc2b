import Mathlib.Data.List.Nodup
import Mathlib.Order.MinMax
import Ost.Prog.Basic
import Ost.Util.IovArray

/-!
# `iscsi_sock_msg`

Every transfer over a connection goes through `iscsi_sock_msg`, which pads it to a multiple of four
bytes and calls `writev` or `readv` again as long as they have moved only a part.  A call of either
moves a prefix of the list it is given; how much of it, the environment decides.

A part that was moved is cut off the list in place, and at the end the list is restored from a
copy, at the place that the pointer has reached by then.
-/

namespace Ost.Util

open Ost.Iscsi Ost.Prog

/-! ## The connection -/

/-- A connection, and the memory of the process that holds this end of it. -/
structure Sock where
  mem : Memory
  /-- How many bytes the coming calls of `writev` and `readv` move at most; they fail with what is
  not positive. -/
  counts : Nat → Int
  /-- What was sent. -/
  sent : Bytes
  /-- What is there to be received. -/
  incoming : Bytes

/-- Store bytes in the cells of a list of buffers. -/
def Memory.scatter (m : Memory) : List (Region × Nat) → Bytes → Memory
  | (r, i) :: cs, b :: bs => (m.write r i [b]).scatter cs bs
  | _, _ => m

/-- The bytes in the cells of a list of buffers. -/
def Memory.gather (m : Memory) (cs : List (Region × Nat)) : Bytes := cs.map fun c => m c.1 c.2

/-- The bytes of the cells `cs` go out, or as many come in. -/
def Sock.move (s : Sock) (send : Bool) (cs : List (Region × Nat)) : Sock :=
  if send then { s with sent := s.sent ++ s.mem.gather cs }
  else { s with
    mem := s.mem.scatter cs (s.incoming.take cs.length), incoming := s.incoming.drop cs.length }

/-- How many bytes can be moved at most. -/
def Sock.room (s : Sock) (send : Bool) (total : Nat) : Nat :=
  if send then total else min total s.incoming.length

/-- `writev` or `readv`: the return value, as an `int`. -/
def transfer (send : Bool) (iov : List Iov) : Prog Halt Sock Int := fun s =>
  let next := { s with counts := fun i => s.counts (i + 1) }
  if s.counts 0 ≤ 0 then .ret (s.counts 0) next
  else
    let k := min (s.counts 0).toNat (s.room send (iovTotal iov))
    .ret (wrapInt k) (next.move send ((iovCells iov).take k))

/-! ## The loop -/

/-- The sum of the lengths, as an `int`. -/
def totalLen (iov : List Iov) : Int := iov.foldl (fun t v => wrapInt (t + v.len)) 0

/-- The loop of `iscsi_sock_msg`, with `len` and `n` as the code has them: `none` when it returns
-1 at once, and otherwise `n`.  The array is what it has made of the list. -/
def sockMsgLoop (send : Bool) (len : Int) :
    Nat → IovArray → Int → Prog Halt Sock (Option Int × IovArray)
  | 0, _, _ => halt .hang
  | fuel + 1, iov, n => do
    if totalLen iov.window ≠ wrapInt (len - n) then return (none, iov)
    let rc ← transfer send iov.window
    if rc ≤ 0 then return (some n, iov)
    let n := wrapInt (n + rc)
    if n < len then
      let (ok, iov) := iov.modify rc.toNat (wrapInt (len - n)).toNat
      if ok then sockMsgLoop send len fuel iov n else return (some n, iov)
    else return (some n, iov)

/-- `memcpy(iov, iov_orig, iov_len * sizeof(struct iovec))`. -/
def IovArray.restore (iov : IovArray) (orig : List Iov) : List Iov :=
  iov.entries.take iov.start ++ orig.take iov.count ++ iov.entries.drop (iov.start + iov.count)

/-- What a caller passes: a plain buffer, or a scatter list, which is not empty. -/
inductive SockData where
  | plain (base : Region) (off : Nat)
  | list (v : Iov) (vs : List Iov)
deriving DecidableEq

/-- The buffers of a transfer of `len` bytes. -/
def SockData.iov (len : Nat) : SockData → List Iov
  | .plain base off => [⟨base, off, len⟩]
  | .list v vs => v :: vs

/-- The number of bytes of padding. -/
def paddingLen (len : Nat) : Nat := if len % 4 = 0 then 0 else 4 - len % 4

/-- The buffer for the padding, which is added to a copy of the list. -/
def paddingIov (len : Nat) : List Iov :=
  if len % 4 = 0 then [] else [⟨.padding, 0, paddingLen len⟩]

/-- The caller's list after the call.  The code has worked on a copy when there is padding. -/
def SockData.after (len : Nat) (data : SockData) (entries : List Iov) : List Iov :=
  if len % 4 = 0 then
    match data with
    | .plain _ _ => data.iov len
    | .list _ _ => entries
  else data.iov len

/-- `iscsi_sock_msg`, for a length that is not negative: the return value, and the buffers of the
caller.  Every round but the last moves a byte. -/
def iscsiSockMsg (send : Bool) (len : Nat) (data : SockData) :
    Prog Halt Sock (Int × List Iov) := do
  let orig := data.iov len ++ paddingIov len
  modify fun s => { s with mem := s.mem.write .padding 0 (List.replicate (paddingLen len) 0) }
  let (n, iov) ← sockMsgLoop send (wrapInt (len + paddingLen len)) (len + 4) (.ofList orig) 0
  match n with
  | none => return (-1, data.after len iov.entries)
  | some n => return (wrapInt (n - paddingLen len), data.after len (iov.restore orig))

/-! ## Moving bytes -/

theorem totalLen_eq (iov : List Iov) : totalLen iov = wrapInt (iovTotal iov) := by
  have hfold : ∀ x : Int, iov.foldl (fun t v => wrapInt (t + v.len)) (wrapInt x) =
      wrapInt (x + iovTotal iov) := by
    induction iov with
    | nil => exact fun x => by rw [iovTotal, List.map_nil, List.sum_nil]; simp
    | cons v vs ih =>
      intro x
      have hstep : wrapInt (wrapInt x + v.len) = wrapInt (x + v.len) := Int.bmod_add_bmod
      rw [List.foldl_cons, hstep, ih, iovTotal_cons]
      push_cast
      rw [Int.add_assoc]
  have h := hfold 0
  rwa [Int.zero_add] at h

namespace Memory

theorem scatter_nil (m : Memory) (bs : Bytes) : m.scatter [] bs = m := by
  cases bs <;> rfl

theorem scatter_append {cs cs' : List (Region × Nat)} {bs bs' : Bytes} (m : Memory)
    (h : cs.length = bs.length) :
    m.scatter (cs ++ cs') (bs ++ bs') = (m.scatter cs bs).scatter cs' bs' := by
  induction cs generalizing bs m with
  | nil =>
    obtain rfl := List.eq_nil_of_length_eq_zero h.symm
    rfl
  | cons c cs ih =>
    rcases bs with _ | ⟨b, bs⟩
    · exact absurd h (Nat.succ_ne_zero _)
    · exact ih _ (Nat.succ.inj h)

theorem scatter_of_not_mem {cs : List (Region × Nat)} {bs : Bytes} (m : Memory) {r : Region}
    {i : Nat} (h : (r, i) ∉ cs) : m.scatter cs bs r i = m r i := by
  induction cs generalizing bs m with
  | nil => rw [scatter_nil]
  | cons c cs ih =>
    rcases bs with _ | ⟨b, bs⟩
    · rfl
    obtain ⟨hne, hrest⟩ := not_or.mp (mt List.mem_cons.mpr h)
    refine (ih _ hrest).trans (write_of_not_mem ?_)
    rintro ⟨rfl, hle, hlt⟩
    exact hne (Prod.ext rfl (Nat.le_antisymm (Nat.le_of_lt_succ hlt) hle))

/-- What was stored in distinct cells can be read there. -/
theorem gather_scatter {cs : List (Region × Nat)} {bs : Bytes} (m : Memory) (hnew : cs.Nodup)
    (h : cs.length = bs.length) : (m.scatter cs bs).gather cs = bs := by
  induction cs generalizing bs m with
  | nil => exact (List.eq_nil_of_length_eq_zero h.symm).symm
  | cons c cs ih =>
    rcases bs with _ | ⟨b, bs⟩
    · exact absurd h (Nat.succ_ne_zero _)
    obtain ⟨hc, hnew⟩ := List.nodup_cons.mp hnew
    have hfirst : (m.write c.1 c.2 [b]).scatter cs bs c.1 c.2 = b :=
      (scatter_of_not_mem _ hc).trans (write_at (i := 0) Nat.one_pos)
    exact congrArg₂ List.cons hfirst (ih _ hnew (Nat.succ.inj h))

/-- A store into a slice of distinct cells. -/
theorem scatter_slice {cs : List (Region × Nat)} (m : Memory) {bs : Bytes} {o n : Nat}
    (hnew : cs.Nodup) (hlen : bs.length = n) (hle : o + n ≤ cs.length) (j : Nat) :
    (cs[j]?.map fun c => m.scatter ((cs.drop o).take n) bs c.1 c.2) =
      if o ≤ j ∧ j < o + n then bs[j - o]? else cs[j]?.map fun c => m c.1 c.2 := by
  have hsub : ((cs.drop o).take n).length = n := by
    rw [List.length_take, List.length_drop]
    omega
  split
  · rename_i hj
    have hgather := gather_scatter m (hnew.sublist
      ((List.take_sublist n _).trans (List.drop_sublist o _))) (hsub.trans hlen.symm)
    have hat : ((cs.drop o).take n)[j - o]? = cs[j]? := by
      rw [List.getElem?_take, if_pos (by omega), List.getElem?_drop, Nat.add_sub_cancel' hj.1]
    rw [← hat, ← List.getElem?_map]
    exact congrArg (·[j - o]?) hgather
  · rename_i hj
    rcases hc : cs[j]? with _ | c
    · rfl
    refine congrArg some (scatter_of_not_mem m fun hm => hj ?_)
    obtain ⟨i, hi⟩ := List.getElem?_of_mem hm
    rw [List.getElem?_take] at hi
    split at hi
    · rw [List.getElem?_drop] at hi
      obtain ⟨hlt, hget⟩ := List.getElem?_eq_some_iff.mp hc
      obtain ⟨hlt', hget'⟩ := List.getElem?_eq_some_iff.mp hi
      have := (hnew.getElem_inj_iff).mp (hget'.trans hget.symm)
      omega
    · exact absurd hi.symm (Option.some_ne_none _)

end Memory

namespace Sock

variable {send : Bool} {s : Sock}

/-- The connection after `j` calls. -/
def skip (s : Sock) (j : Nat) : Sock := { s with counts := fun i => s.counts (i + j) }

@[simp] theorem skip_skip (s : Sock) (i j : Nat) : (s.skip i).skip j = s.skip (j + i) := by
  simp [skip, Nat.add_assoc]

theorem move_skip (s : Sock) (send : Bool) (cs : List (Region × Nat)) (j : Nat) :
    (s.skip j).move send cs = (s.move send cs).skip j := by
  cases send <;> rfl

@[simp] theorem move_nil (s : Sock) (send : Bool) : s.move send [] = s := by
  cases send
  · simp [move, Memory.scatter_nil]
  · simp [move, Memory.gather]

theorem move_append {cs cs' : List (Region × Nat)} (h : cs.length ≤ s.room send cs.length) :
    s.move send (cs ++ cs') = (s.move send cs).move send cs' := by
  cases send
  · have hlen : cs.length ≤ s.incoming.length := h.trans (Nat.min_le_right _ _)
    simp only [move, Bool.false_eq_true, if_false, List.length_append, List.take_add,
      List.drop_drop]
    rw [Memory.scatter_append _ (by rw [List.length_take, Nat.min_eq_left hlen])]
  · simp [move, Memory.gather]

@[simp] theorem counts_move (s : Sock) (send : Bool) (cs : List (Region × Nat)) :
    (s.move send cs).counts = s.counts := by
  cases send <;> rfl

theorem room_le (s : Sock) (send : Bool) (total : Nat) : s.room send total ≤ total := by
  cases send
  · exact Nat.min_le_left _ _
  · exact Nat.le_refl _

end Sock

/-! ## The loop moves a prefix -/

/-- What a transfer from `s` that moves the first `k` of the bytes `cs`, in `j` calls, leads to. -/
def Sock.moved (s : Sock) (send : Bool) (cs : List (Region × Nat)) (k j : Nat) : Sock :=
  (s.move send (cs.take k)).skip j

/-- The calls of `writev` and `readv` succeed, and there is something to receive. -/
def Sock.Flows (s : Sock) (send : Bool) (total : Nat) : Prop :=
  (∀ i, 0 < s.counts i) ∧ s.room send total = total

/-- A call moves a prefix of the list; it fails, or returns how many bytes those were. -/
theorem transfer_eq (send : Bool) (iov : List Iov) (s : Sock)
    (hbound : iovTotal iov < 2147483648) :
    (s.counts 0 ≤ 0 ∧ transfer send iov s = .ret (s.counts 0) (s.skip 1)) ∨
    ∃ k ≤ s.room send (iovTotal iov),
      transfer send iov s = .ret (k : Int) (s.moved send (iovCells iov) k 1) ∧
        (k = 0 → s.room send (iovTotal iov) = 0) := by
  by_cases hw : s.counts 0 ≤ 0
  · exact .inl ⟨hw, if_pos hw⟩
  refine .inr ⟨min (s.counts 0).toNat (s.room send (iovTotal iov)), Nat.min_le_right _ _, ?_,
    fun h => by omega⟩
  have hle := s.room_le send (iovTotal iov)
  rw [transfer, if_neg hw, Sock.moved, ← Sock.move_skip]
  dsimp only
  rw [wrapInt_of_lt (by omega)]
  rfl

/-- The bytes that a transfer has moved in two goes. -/
theorem Sock.moved_moved {s : Sock} {send : Bool} {cs : List (Region × Nat)} {k l : Nat}
    (hk : k ≤ s.room send cs.length) (i j : Nat) :
    (s.moved send cs k i).moved send (cs.drop k) l j = s.moved send cs (k + l) (j + i) := by
  have hroom : (cs.take k).length ≤ s.room send (cs.take k).length := by
    rw [List.length_take, Nat.min_eq_left (hk.trans (s.room_le send _))]
    cases send
    · exact Nat.le_min.mpr ⟨Nat.le_refl _, hk.trans (Nat.min_le_right _ _)⟩
    · exact Nat.le_refl _
  rw [moved, moved, move_skip, skip_skip, ← move_append hroom, ← List.take_add]
  rfl

theorem Sock.room_moved {s : Sock} {send : Bool} {cs : List (Region × Nat)} {k : Nat}
    (hk : k ≤ cs.length) (total j : Nat) :
    (s.moved send cs k j).room send (total - k) = s.room send total - k := by
  cases send
  · simp only [moved, skip, move, room, Bool.false_eq_true, if_false, List.length_drop,
      List.length_take, Nat.min_eq_left hk]
    exact (Nat.sub_min_sub_right ..)
  · rfl

theorem Sock.Flows.moved {s : Sock} {send : Bool} {cs : List (Region × Nat)} {k total : Nat}
    (h : s.Flows send total) (hk : k ≤ cs.length) (j : Nat) :
    (s.moved send cs k j).Flows send (total - k) := by
  refine ⟨fun i => ?_, by rw [room_moved hk, h.2]⟩
  rw [Sock.moved, skip, counts_move]
  exact h.1 _

/-- The loop moves a prefix of what is left, and all of it when the calls succeed. -/
theorem sockMsgLoop_moves {send : Bool} {len : Nat} (hlen : len < 2147483648) {fuel n : Nat}
    {iov : IovArray} {s : Sock} (hn : n ≤ len) (htotal : iovTotal iov.window = len - n)
    (hfuel : len - n < fuel) :
    ∃ iov' k j, sockMsgLoop send len fuel iov n s =
        .ret (some ((n + k : Nat) : Int), iov') (s.moved send (iovCells iov.window) k j) ∧
      n + k ≤ len ∧ k ≤ s.room send (len - n) ∧ (s.Flows send (len - n) → n + k = len) := by
  induction fuel generalizing n iov s with
  | zero => exact absurd hfuel (Nat.not_lt_zero _)
  | succ fuel ih =>
    have hsum : totalLen iov.window = wrapInt ((len : Int) - n) := by
      rw [totalLen_eq, htotal, Int.ofNat_sub hn]
    have hstop : s.moved send (iovCells iov.window) 0 1 = s.skip 1 := by
      rw [Sock.moved, List.take_zero, Sock.move_nil]
    rcases transfer_eq send iov.window s (by omega) with ⟨hc, ht⟩ | ⟨k, hk, ht, hzero⟩
    · refine ⟨iov, 0, 1, ?_, hn, Nat.zero_le _, fun h => absurd (h.1 0) (by omega)⟩
      rw [sockMsgLoop, if_neg (not_not.mpr hsum), bind_apply, ht, hstop]
      exact congrFun (if_pos hc) _
    rw [htotal] at hk hzero
    have hkn : n + k ≤ len := by
      have := s.room_le send (len - n)
      omega
    rcases Nat.eq_zero_or_pos k with rfl | hpos
    · refine ⟨iov, 0, 1, ?_, hn, Nat.zero_le _, fun h => ?_⟩
      · rw [sockMsgLoop, if_neg (not_not.mpr hsum), bind_apply, ht]
        exact congrFun (if_pos (Int.le_refl _)) _
      · have := h.2
        have := hzero rfl
        omega
    have hnext : wrapInt ((n : Int) + k) = ((n + k : Nat) : Int) := by
      rw [← Int.natCast_add, wrapInt_of_lt (by omega)]
    rcases Nat.eq_or_lt_of_le hkn with hend | hlt
    · refine ⟨iov, k, 1, ?_, hkn, hk, fun _ => hend⟩
      rw [sockMsgLoop, if_neg (not_not.mpr hsum), bind_apply, ht]
      dsimp only
      rw [if_neg (by omega), hnext, if_neg (by omega)]
      rfl
    obtain ⟨iov₁, hm, hcut⟩ := iov.modify_some (show k < iovTotal iov.window by omega)
      (show k + (len - (n + k)) ≤ iovTotal iov.window by omega) (by omega)
    have hcells : iovCells iov₁.window = (iovCells iov.window).drop k := by
      rw [hcut.cells]
      refine List.take_of_length_le ?_
      rw [List.length_drop, length_iovCells]
      omega
    have htotal₁ : iovTotal iov₁.window = len - (n + k) := by
      rw [← length_iovCells, hcells, List.length_drop, length_iovCells]
      omega
    have hk' : k ≤ s.room send (iovCells iov.window).length := by
      rwa [length_iovCells, htotal]
    obtain ⟨iov', l, j, hrun, hle, hroom, hflow⟩ :=
      ih (s := s.moved send (iovCells iov.window) k 1) hkn htotal₁ (by omega)
    refine ⟨iov', k + l, j + 1, ?_, by omega, ?_, fun h => ?_⟩
    · rw [sockMsgLoop, if_neg (not_not.mpr hsum), bind_apply, ht]
      dsimp only
      rw [if_neg (by omega), hnext, if_pos (by omega), ← Int.ofNat_sub hkn,
        wrapInt_of_lt (by omega), Int.toNat_natCast, Int.toNat_natCast, hm]
      dsimp only
      rw [if_pos rfl, hrun, hcells, Sock.moved_moved hk', Nat.add_assoc]
    · rw [← Nat.sub_sub, Sock.room_moved (hk'.trans (s.room_le _ _))] at hroom
      omega
    · have hmoved := h.moved (hk'.trans (s.room_le _ _)) 1
      rw [Nat.sub_sub] at hmoved
      rw [← Nat.add_assoc]
      exact hflow hmoved

/-! ## One call -/

/-- The bytes of a caller's buffers. -/
abbrev SockData.cells (len : Nat) (data : SockData) : List (Region × Nat) := iovCells (data.iov len)

/-- The connection, with zeros in the padding. -/
def Sock.padded (s : Sock) (len : Nat) : Sock :=
  { s with mem := s.mem.write .padding 0 (List.replicate (paddingLen len) 0) }

theorem paddingLen_lt (len : Nat) : paddingLen len < 4 := by
  unfold paddingLen
  split <;> omega

theorem iovTotal_append (iov iov' : List Iov) :
    iovTotal (iov ++ iov') = iovTotal iov + iovTotal iov' := by
  rw [iovTotal, List.map_append, List.sum_append]
  rfl

theorem iovCells_append (iov iov' : List Iov) :
    iovCells (iov ++ iov') = iovCells iov ++ iovCells iov' := List.flatMap_append

theorem iovTotal_paddingIov (len : Nat) : iovTotal (paddingIov len) = paddingLen len := by
  unfold paddingIov paddingLen
  split <;> rfl

theorem iovCells_paddingIov (len : Nat) : iovCells (paddingIov len) =
    (List.range (paddingLen len)).map fun i => (Region.padding, i) := by
  unfold paddingIov paddingLen
  split
  · rfl
  · rw [iovCells_cons, iovCells_nil, List.append_nil]
    exact List.map_congr_left fun i _ => by rw [Nat.zero_add]

/-- A call moves a prefix of the buffers and of the padding, and all of it when the calls of
`writev` or `readv` succeed. -/
theorem iscsiSockMsg_moves (send : Bool) {len : Nat} {data : SockData} (s : Sock)
    (hdata : iovTotal (data.iov len) = len) (hfit : len + paddingLen len < 2147483648) :
    ∃ out, ∃ k j : Nat, iscsiSockMsg send len data s = .ret
        (wrapInt ((k : Int) - paddingLen len), out)
        ((s.padded len).moved send (data.cells len ++ iovCells (paddingIov len)) k j) ∧
      k ≤ len + paddingLen len ∧ k ≤ s.room send (len + paddingLen len) ∧
      (s.Flows send (len + paddingLen len) → k = len + paddingLen len) := by
  have htotal : iovTotal (IovArray.ofList (data.iov len ++ paddingIov len)).window =
      len + paddingLen len - 0 := by
    rw [IovArray.window_ofList, iovTotal_append, hdata, iovTotal_paddingIov, Nat.sub_zero]
  have hpad := paddingLen_lt len
  obtain ⟨iov, k, j, hrun, hle, hroom, hflow⟩ := @sockMsgLoop_moves send _ hfit (len + 4) 0 _
    (s.padded len) (Nat.zero_le _) htotal (by omega)
  rw [Nat.zero_add] at hrun hle hflow
  refine ⟨data.after len (iov.restore (data.iov len ++ paddingIov len)), k, j, ?_,
    hle, hroom, hflow⟩
  rw [IovArray.window_ofList, iovCells_append] at hrun
  rw [iscsiSockMsg, bind_apply]
  change ((sockMsgLoop send (wrapInt ((len : Int) + paddingLen len)) (len + 4) _ 0) >>= _)
    (s.padded len) = _
  rw [← Int.natCast_add, wrapInt_of_lt hfit, bind_apply,
    show (0 : Int) = ((0 : Nat) : Int) from rfl, hrun]
  rfl

/-- The first `k` bytes of a transfer were moved: those of the caller's buffers, in order, and then
zeros. -/
structure Transferred (send : Bool) (len : Nat) (data : SockData) (s : Sock) (k : Nat)
    (s' : Sock) : Prop where
  sent : s'.sent = if send then s.sent ++
    (s.mem.gather (data.cells len) ++ List.replicate (paddingLen len) 0).take k else s.sent
  incoming : s'.incoming = if send then s.incoming else s.incoming.drop k
  mem : ∀ r i, r ≠ .padding → s'.mem r i =
    (if send then s.mem else s.mem.scatter ((data.cells len).take k) (s.incoming.take k)) r i

/-- A call moves the first bytes of the transfer and returns the length just when those were all of
them, which they are when the calls of `writev` or `readv` succeed. -/
def Transfers (send : Bool) (len : Nat) (data : SockData) (s : Sock) : Prop :=
  ∃ rc out s' k, iscsiSockMsg send len data s = .ret (rc, out) s' ∧
    k ≤ len + paddingLen len ∧ Transferred send len data s k s' ∧
    (rc = len ↔ k = len + paddingLen len) ∧
    (s.Flows send (len + paddingLen len) → k = len + paddingLen len)

theorem Memory.write_padding (m : Memory) (off : Nat) (bs : Bytes) {r : Region} (i : Nat)
    (h : r ≠ .padding) : m.write .padding off bs r i = m r i :=
  write_of_not_mem fun hr => h hr.1

/-- Buffers outside the padding hold the same bytes in memories that agree outside it. -/
theorem Memory.gather_congr {m m' : Memory} {cs : List (Region × Nat)}
    (hm : ∀ r i, r ≠ .padding → m' r i = m r i) (hcs : ∀ c ∈ cs, c.1 ≠ .padding) :
    m'.gather cs = m.gather cs :=
  List.map_congr_left fun c hc => hm _ _ (hcs c hc)

/-- Stores behave the same on memories that agree outside the padding. -/
theorem Memory.scatter_congr {m m' : Memory} (cs : List (Region × Nat)) (bs : Bytes)
    (hm : ∀ r i, r ≠ .padding → m' r i = m r i) (r : Region) (i : Nat) (h : r ≠ .padding) :
    m'.scatter cs bs r i = m.scatter cs bs r i := by
  induction cs generalizing bs m m' with
  | nil => rw [scatter_nil, scatter_nil, hm r i h]
  | cons c cs ih =>
    rcases bs with _ | ⟨b, bs⟩
    · exact hm r i h
    · refine ih _ fun r' i' h' => ?_
      unfold write
      rw [hm r' i' h']

/-- What is stored in the padding is not seen outside it. -/
theorem Memory.scatter_append_padding {m : Memory} (cs : List (Region × Nat))
    {cs' : List (Region × Nat)} (bs : Bytes) (hcs' : ∀ c ∈ cs', c.1 = .padding) {r : Region}
    {i : Nat} (h : r ≠ .padding) : m.scatter (cs ++ cs') bs r i = m.scatter cs bs r i := by
  induction cs generalizing bs m with
  | nil =>
    rw [List.nil_append, scatter_nil]
    exact scatter_of_not_mem _ fun hm => h (hcs' _ hm)
  | cons c cs ih =>
    rcases bs with _ | ⟨b, bs⟩
    · rfl
    · exact ih _

/-- The padding is sent as zeros. -/
theorem gather_padded (s : Sock) (len : Nat) :
    (s.padded len).mem.gather (iovCells (paddingIov len)) = List.replicate (paddingLen len) 0 := by
  rw [iovCells_paddingIov, Memory.gather, List.map_map]
  refine List.eq_replicate_iff.mpr ⟨by simp, fun b hb => ?_⟩
  obtain ⟨i, hi, rfl⟩ := List.mem_map.mp hb
  have hlt : i < (List.replicate (paddingLen len) (0 : UInt8)).length := by
    simpa using List.mem_range.mp hi
  have hat := @Memory.write_at s.mem .padding 0 i _ hlt
  rw [Nat.zero_add, List.getD, List.getElem?_eq_getElem hlt, List.getElem_replicate] at hat
  exact hat

theorem transferred_moved {send : Bool} {len : Nat} {data : SockData} {s : Sock} {k : Nat}
    (hown : ∀ c ∈ data.cells len, c.1 ≠ .padding) (hdata : iovTotal (data.iov len) = len)
    (hroom : k ≤ s.room send (len + paddingLen len)) (j : Nat) :
    Transferred send len data s k
      ((s.padded len).moved send (data.cells len ++ iovCells (paddingIov len)) k j) := by
  have hpadded : ∀ r i, r ≠ .padding → (s.padded len).mem r i = s.mem r i :=
    fun r i h => s.mem.write_padding _ _ i h
  have hlen : (data.cells len ++ iovCells (paddingIov len)).length = len + paddingLen len := by
    rw [List.length_append, length_iovCells, length_iovCells, hdata, iovTotal_paddingIov]
  have hk : ((data.cells len ++ iovCells (paddingIov len)).take k).length = k := by
    rw [List.length_take, hlen, Nat.min_eq_left (hroom.trans (s.room_le _ _))]
  cases send
  · refine ⟨rfl, ?_, fun r i h => ?_⟩
    · simp only [Sock.moved, Sock.skip, Sock.move, Bool.false_eq_true, if_false, hk]
      rfl
    · simp only [Sock.moved, Sock.skip, Sock.move, Bool.false_eq_true, if_false, hk]
      rw [List.take_append, Memory.scatter_append_padding _ _ (fun c hc => ?_) h]
      · exact Memory.scatter_congr _ _ hpadded r i h
      · rw [iovCells_paddingIov] at hc
        obtain ⟨j, -, rfl⟩ := List.mem_map.mp (List.mem_of_mem_take hc)
        rfl
  · refine ⟨?_, rfl, fun r i h => hpadded r i h⟩
    have hbytes : (s.padded len).mem.gather (data.cells len ++ iovCells (paddingIov len)) =
        s.mem.gather (data.cells len) ++ List.replicate (paddingLen len) 0 := by
      rw [← gather_padded s len, ← Memory.gather_congr hpadded hown]
      exact List.map_append
    rw [if_pos rfl, ← hbytes, Memory.gather, ← List.map_take]
    rfl

/-- When the padded length is an `int`, every call transfers as it should. -/
theorem transfers_of_fits (send : Bool) {len : Nat} {data : SockData} (s : Sock)
    (hdata : iovTotal (data.iov len) = len) (hown : ∀ c ∈ data.cells len, c.1 ≠ .padding)
    (hfit : len + paddingLen len < 2147483648) : Transfers send len data s := by
  obtain ⟨out, k, j, hrun, hle, hroom, hflow⟩ := iscsiSockMsg_moves send s hdata hfit
  refine ⟨_, out, _, k, hrun, hle, transferred_moved hown hdata hroom j, ?_, hflow⟩
  have hwrap : wrapInt ((k : Int) - paddingLen len) = (k : Int) - paddingLen len := by
    unfold wrapInt
    have := paddingLen_lt len
    rw [Int.bmod_eq_of_le] <;> omega
  rw [hwrap]
  omega

/-- When it is not, the loop ends after the first part. -/
theorem not_transfers_of_overflow {len : Nat} {data : SockData} {s : Sock}
    (hdata : iovTotal (data.iov len) = len) (hlen : len < 2147483648)
    (hover : 2147483648 ≤ len + paddingLen len) (hcounts : ∀ i, s.counts i = 1) :
    ¬Transfers true len data s := by
  have hpad := paddingLen_lt len
  have htotal : iovTotal (IovArray.ofList (data.iov len ++ paddingIov len)).window =
      len + paddingLen len := by
    rw [IovArray.window_ofList, iovTotal_append, hdata, iovTotal_paddingIov]
  have hneg : wrapInt ((len : Int) + paddingLen len) =
      (len : Int) + paddingLen len - 4294967296 := by
    unfold wrapInt
    rw [Int.bmod_def]
    omega
  have hloop : ∃ iov s', sockMsgLoop true (wrapInt ((len : Int) + paddingLen len)) (len + 4)
      (.ofList (data.iov len ++ paddingIov len)) 0 (s.padded len) = .ret (some 1, iov) s' ∧
      s'.sent.length = s.sent.length + 1 := by
    have hsum : totalLen (IovArray.ofList (data.iov len ++ paddingIov len)).window =
        wrapInt (wrapInt ((len : Int) + paddingLen len) - 0) := by
      rw [totalLen_eq, htotal, Int.sub_zero, Int.natCast_add]
      exact Int.bmod_bmod.symm
    have ht : transfer true (IovArray.ofList (data.iov len ++ paddingIov len)).window
        (s.padded len) = .ret 1 ((s.padded len).moved true
          (iovCells (IovArray.ofList (data.iov len ++ paddingIov len)).window) 1 1) := by
      have hone : (s.padded len).counts 0 = 1 := hcounts 0
      have hmin : min (1 : Int).toNat (len + paddingLen len) = 1 := Nat.min_eq_left (by omega)
      rw [transfer, hone, if_neg (by omega), Sock.moved, ← Sock.move_skip]
      dsimp only [Sock.room]
      rw [if_pos rfl, htotal, hmin]
      rfl
    rw [sockMsgLoop, if_neg (not_not.mpr hsum), bind_apply, ht]
    dsimp only
    rw [if_neg (by omega), show wrapInt (0 + 1) = 1 from rfl, hneg, if_neg (by omega)]
    refine ⟨_, _, rfl, ?_⟩
    change (s.sent ++ Memory.gather _ _).length = _
    rw [List.length_append, Memory.gather, List.length_map, List.length_take, length_iovCells,
      htotal, Nat.min_eq_left (by omega)]
  obtain ⟨iov, s', hrun, hlen'⟩ := hloop
  rintro ⟨rc, out, s₁, k, hret, hle, hmoved, -, hflow⟩
  obtain rfl := hflow ⟨fun i => by rw [hcounts]; exact Int.one_pos, rfl⟩
  rw [iscsiSockMsg, bind_apply] at hret
  change ((sockMsgLoop true (wrapInt ((len : Int) + paddingLen len)) (len + 4) _ 0) >>= _)
    (s.padded len) = _ at hret
  rw [bind_apply, hrun] at hret
  obtain ⟨-, rfl⟩ := Outcome.ret.inj hret
  have hsent := congrArg List.length hmoved.sent
  rw [if_pos rfl, List.length_append, List.take_of_length_le, hlen', List.length_append,
    List.length_replicate, Memory.gather, List.length_map, length_iovCells, hdata] at hsent
  · omega
  · rw [List.length_append, List.length_replicate, Memory.gather, List.length_map, length_iovCells,
      hdata]

/-! ## Two ends of a connection -/

/-- A message, with the buffers it is sent from and those it is received into. -/
structure Message where
  len : Nat
  out : SockData
  into : SockData
  len_lt : len < 2147483648
  total_out : iovTotal (out.iov len) = len
  total_into : iovTotal (into.iov len) = len
  own_out : ∀ c ∈ out.cells len, c.1 ≠ .padding
  own_into : ∀ c ∈ into.cells len, c.1 ≠ .padding
  distinct : (into.cells len).Nodup

/-- Messages are sent one after the other: the values that `iscsi_sock_msg` returns. -/
def sendAll : List Message → Prog Halt Sock (List Int)
  | [] => pure []
  | m :: ms => do
    let (rc, _) ← iscsiSockMsg true m.len m.out
    let rcs ← sendAll ms
    return rc :: rcs

/-- Messages are received one after the other: the values that `iscsi_sock_msg` returns, and what
is then in the buffers. -/
def receiveAll : List Message → Prog Halt Sock (List (Int × Bytes))
  | [] => pure []
  | m :: ms => do
    let (rc, _) ← iscsiSockMsg false m.len m.into
    let payload ← gets fun s => s.mem.gather (m.into.cells m.len)
    let rest ← receiveAll ms
    return (rc, payload) :: rest

/-- What one end sends the other receives, message by message. -/
def Delivers (ms : List Message) : Prop :=
  ∀ s t rest, (∀ i, 0 < s.counts i) → (∀ i, 0 < t.counts i) →
    ∃ wire s', sendAll ms s = .ret (ms.map fun m => (m.len : Int)) s' ∧ s'.sent = s.sent ++ wire ∧
      (t.incoming = wire ++ rest → ∃ t', receiveAll ms t =
        .ret (ms.map fun m => ((m.len : Int), s.mem.gather (m.out.cells m.len))) t' ∧
        t'.incoming = rest)

/-! ## When the transfers are exact -/

/-- The padded length is an `int` just when the length is not one of the last three. -/
theorem fits_iff {len : Nat} (hlen : len < 2147483648) :
    len + paddingLen len < 2147483648 ↔ len ≤ 2147483644 := by
  unfold paddingLen
  split <;> omega

/-- A call on a connection that flows, for a length with room for the padding. -/
theorem iscsiSockMsg_flows {send : Bool} {len : Nat} {data : SockData} {s : Sock}
    (hdata : iovTotal (data.iov len) = len) (hown : ∀ c ∈ data.cells len, c.1 ≠ .padding)
    (hfit : len + paddingLen len < 2147483648) (hflows : s.Flows send (len + paddingLen len)) :
    ∃ out s', iscsiSockMsg send len data s = .ret ((len : Int), out) s' ∧
      Transferred send len data s (len + paddingLen len) s' ∧ ∀ i, 0 < s'.counts i := by
  obtain ⟨out, k, j, hrun, hle, hroom, hflow⟩ := iscsiSockMsg_moves send s hdata hfit
  obtain rfl := hflow hflows
  rw [Int.natCast_add, Int.add_sub_cancel, wrapInt_of_lt (by omega)] at hrun
  refine ⟨out, _, hrun, transferred_moved hown hdata hroom j, fun i => ?_⟩
  rw [Sock.moved, Sock.skip, Sock.counts_move]
  exact hflows.1 _

/-- A message that has arrived with its padding can be received. -/
theorem room_of_incoming {t : Sock} {payload rest : Bytes} {len : Nat} (hlen : payload.length = len)
    (hin : t.incoming = payload ++ List.replicate (paddingLen len) 0 ++ rest) :
    t.room false (len + paddingLen len) = len + paddingLen len := by
  refine Nat.min_eq_left ?_
  rw [hin, List.length_append, List.length_append, List.length_replicate, hlen]
  exact Nat.le_add_right _ _

/-- What is received of it is stored in the caller's buffers. -/
theorem Transferred.received {len : Nat} {data : SockData} {t t' : Sock} {payload rest : Bytes}
    (h : Transferred false len data t (len + paddingLen len) t')
    (hdata : iovTotal (data.iov len) = len) (hlen : payload.length = len)
    (hin : t.incoming = payload ++ List.replicate (paddingLen len) 0 ++ rest) :
    (∀ r i, r ≠ .padding → t'.mem r i = t.mem.scatter (data.cells len) payload r i) ∧
      t'.incoming = rest := by
  have hcells : (data.cells len).length = len := (length_iovCells _).trans hdata
  have hwire : (payload ++ List.replicate (paddingLen len) (0 : UInt8)).length =
      len + paddingLen len := by
    rw [List.length_append, List.length_replicate, hlen]
  have htake : (data.cells len).take (len + paddingLen len) = data.cells len ++ [] := by
    rw [List.take_of_length_le (by omega), List.append_nil]
  refine ⟨fun r i hr => ?_, ?_⟩
  · rw [h.mem r i hr, if_neg Bool.false_ne_true, htake, hin, ← hwire, List.take_left,
      Memory.scatter_append _ (hcells.trans hlen.symm), Memory.scatter_nil]
  · rw [h.incoming, if_neg Bool.false_ne_true, hin, ← hwire, List.drop_left]

/-- A message that is sent, for a length with room for the padding. -/
theorem Message.sent (m : Message) (hfit : m.len ≤ 2147483644) {s : Sock}
    (hcounts : ∀ i, 0 < s.counts i) :
    ∃ out s', iscsiSockMsg true m.len m.out s = .ret ((m.len : Int), out) s' ∧
      s'.sent = s.sent ++ (s.mem.gather (m.out.cells m.len) ++
        List.replicate (paddingLen m.len) 0) ∧
      (∀ r i, r ≠ .padding → s'.mem r i = s.mem r i) ∧ ∀ i, 0 < s'.counts i := by
  obtain ⟨out, s', hrun, hmoved, hs'⟩ := iscsiSockMsg_flows m.total_out m.own_out
    ((fits_iff m.len_lt).mpr hfit) (⟨hcounts, rfl⟩ : s.Flows true _)
  refine ⟨out, s', hrun, ?_, hmoved.mem, hs'⟩
  rw [hmoved.sent, if_pos rfl, List.take_of_length_le]
  rw [List.length_append, List.length_replicate, Memory.gather, List.length_map, length_iovCells,
    m.total_out]

/-- A message that is received, for a length with room for the padding. -/
theorem Message.received (m : Message) (hfit : m.len ≤ 2147483644) {t : Sock} {payload rest : Bytes}
    (hcounts : ∀ i, 0 < t.counts i) (hlen : payload.length = m.len)
    (hin : t.incoming = payload ++ List.replicate (paddingLen m.len) 0 ++ rest) :
    ∃ out t', iscsiSockMsg false m.len m.into t = .ret ((m.len : Int), out) t' ∧
      t'.mem.gather (m.into.cells m.len) = payload ∧ t'.incoming = rest ∧
      ∀ i, 0 < t'.counts i := by
  obtain ⟨out, t', hrun, hmoved, ht'⟩ := iscsiSockMsg_flows m.total_into m.own_into
    ((fits_iff m.len_lt).mpr hfit) ⟨hcounts, room_of_incoming hlen hin⟩
  obtain ⟨hmem, hrest⟩ := hmoved.received m.total_into hlen hin
  refine ⟨out, t', hrun, ?_, hrest, ht'⟩
  rw [Memory.gather_congr hmem m.own_into, Memory.gather_scatter _ m.distinct]
  exact ((length_iovCells _).trans m.total_into).trans hlen.symm

/-- Messages with room for the padding arrive. -/
theorem delivers_of_fits {ms : List Message} (h : ∀ m ∈ ms, m.len ≤ 2147483644) : Delivers ms := by
  intro s t rest hs ht
  induction ms generalizing s t with
  | nil => exact ⟨[], s, rfl, (List.append_nil _).symm, fun hin => ⟨t, rfl, hin⟩⟩
  | cons m ms ih =>
    obtain ⟨hm, h⟩ := List.forall_mem_cons.mp h
    obtain ⟨out, s₁, hsend, hsent, hmem, hs₁⟩ := m.sent hm hs
    have hsame : ∀ m' : Message, s₁.mem.gather (m'.out.cells m'.len) =
        s.mem.gather (m'.out.cells m'.len) :=
      fun m' => Memory.gather_congr hmem m'.own_out
    obtain ⟨wire, s', hrest, hsent', -⟩ := ih h s₁ t hs₁ ht
    refine ⟨_, s', ?_, hsent'.trans (by rw [hsent, List.append_assoc]), fun hin => ?_⟩
    · rw [sendAll, bind_apply, hsend]
      change (sendAll ms >>= _) s₁ = _
      rw [bind_apply, hrest]
      rfl
    rw [List.append_assoc] at hin
    obtain ⟨out', t₁, hrecv, hpayload, hin₁, ht₁⟩ := m.received hm ht
      (by rw [Memory.gather, List.length_map, length_iovCells, m.total_out]) hin
    obtain ⟨wire', s'', hrest', hsent'', hdeliver⟩ := ih h s₁ t₁ hs₁ ht₁
    obtain ⟨-, rfl⟩ := Outcome.ret.inj (hrest.symm.trans hrest')
    obtain rfl := List.append_cancel_left (hsent'.symm.trans hsent'')
    obtain ⟨t', hrecv', hin'⟩ := hdeliver hin₁
    refine ⟨t', ?_, hin'⟩
    rw [receiveAll, bind_apply, hrecv]
    change (gets _ >>= _) t₁ = _
    rw [bind_apply]
    change (receiveAll ms >>= _) t₁ = _
    rw [bind_apply, hrecv']
    refine congrArg (Outcome.ret · t') (congrArg₂ List.cons (Prod.ext rfl hpayload) ?_)
    exact List.map_congr_left fun m' _ => Prod.ext rfl (hsame m')

/-- **Partial transfers lose nothing exactly when** the length leaves room for the padding in an
`int`.  Then the bytes of the buffers are moved in order, zeros after them, the loop ends, the
length is returned just when all of that was moved, and what one end sends the other receives. -/
theorem iscsiSockMsg_exact (ms : List Message) :
    (∀ m ∈ ms, (∀ s, Transfers true m.len m.out s) ∧ ∀ s, Transfers false m.len m.into s) ∧
      Delivers ms ↔ ∀ m ∈ ms, m.len ≤ 2147483644 := by
  constructor
  · rintro ⟨h, -⟩ m hm
    rw [← fits_iff m.len_lt]
    by_contra hover
    let s : Sock := ⟨fun _ _ => 0, fun _ => 1, [], []⟩
    exact not_transfers_of_overflow (s := s) m.total_out m.len_lt (Nat.le_of_not_lt hover)
      (fun _ => rfl) ((h m hm).1 s)
  · intro h
    refine ⟨fun m hm => ?_, delivers_of_fits h⟩
    have hfit := (fits_iff m.len_lt).mpr (h m hm)
    exact ⟨fun s => transfers_of_fits true s m.total_out m.own_out hfit,
      fun s => transfers_of_fits false s m.total_into m.own_into hfit⟩

/-- A transfer of 2147483645 bytes ends after the first one when `writev` takes one byte at a
time. -/
theorem iscsiSockMsg_stops : ¬Transfers true 2147483645 (.plain (.staging 0) 0)
    ⟨fun _ _ => 0, fun _ => 1, [], []⟩ :=
  not_transfers_of_overflow rfl (by decide) (by decide) fun _ => rfl

end Ost.Util
