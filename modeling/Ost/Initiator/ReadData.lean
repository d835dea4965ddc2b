import Ost.Initiator.World
import Ost.Util.SockMsg
import Ost.Util.Tiling

/-!
# Where read data are put

`scsi_read_data_i` has a copy of its own of the two loops of `modify_iov`.  It has no test after
either of them, and a PDU with as many bytes as the whole transfer is not cut at all.  This module
compares it with `modify_iov`, and says when the data PDUs of a transfer fill the caller's buffers.
-/

namespace Ost.Initiator

open Ost.Iscsi Ost.Util Ost.Prog

/-! ## The two loops -/

section Loops

variable {offset length total : Nat} {vs : List Iov}

theorem size_sub (x : Nat) {y : Nat} (h : y < 4294967296) :
    (x + (18446744073709551616 - y)) % 18446744073709551616 =
      (((x : Int) - y) % 18446744073709551616).toNat := by
  omega

/-- The first loop runs past the end of the list when the offset does. -/
theorem seekRecv_eq_none {disp : Nat} (hle : total + iovTotal vs ≤ offset)
    (hbound : total + iovTotal vs < 4294967296) : seekRecv offset total disp vs = none := by
  induction vs generalizing total disp with
  | nil => rfl
  | cons v vs ih =>
    rw [iovTotal_cons] at hle hbound
    rw [seekRecv]
    rw [u32, Nat.mod_eq_of_lt (show total + v.len < 4294967296 by omega),
      if_neg (show ¬total + v.len > offset by omega)]
    exact ih (by omega) (by omega)

/-- Otherwise it drops the bytes before the offset. -/
theorem seekRecv_cells (hle : total ≤ offset) (hoff : offset < total + iovTotal vs)
    (hbound : total + iovTotal vs < 4294967296) :
    ∃ l, seekRecv offset total (offset - total) vs = some l ∧
      iovCells l = (iovCells vs).drop (offset - total) := by
  induction vs generalizing total with
  | nil =>
    rw [iovTotal, List.map_nil, List.sum_nil] at hoff
    omega
  | cons v vs ih =>
    rw [iovTotal_cons] at hoff hbound
    have hv : (iovCells [v]).length = v.len := by rw [length_iovCells]; rfl
    have hcells : iovCells (v :: vs) = iovCells [v] ++ iovCells vs := by
      rw [iovCells_cons, iovCells_cons, iovCells_nil, List.append_nil]
    rw [seekRecv]
    rw [u32, Nat.mod_eq_of_lt (show total + v.len < 4294967296 by omega)]
    by_cases ho : total + v.len > offset
    · rw [if_pos ho]
      refine ⟨_, rfl, ?_⟩
      have hlen : (v.len + (18446744073709551616 - (offset - total))) % 18446744073709551616 =
          v.len - (offset - total) := by omega
      rw [hcells, List.drop_append_of_le_length (by rw [hv]; omega)]
      simp only [hlen, iovCells_cons, iovCells_nil, List.append_nil]
      refine congrArg (· ++ _) (List.ext_getElem (by simp) fun i h₁ h₂ => ?_)
      simp [Nat.add_assoc]
    · have hdisp : minus32 (offset - total) v.len = offset - (total + v.len) := by
        unfold minus32
        omega
      rw [if_neg ho, hdisp]
      obtain ⟨l, hl, hc⟩ := ih (show total + v.len ≤ offset by omega) (by omega) (by omega)
      refine ⟨l, hl, ?_⟩
      rw [hc, hcells, List.drop_append, hv,
        List.drop_eq_nil_of_le (hv.trans_le (show v.len ≤ offset - total by omega)),
        List.nil_append, Nat.sub_sub]

/-- The second loop is that of `modify_iov`. -/
theorem cutRecv_eq_cutIov (length total : Nat) (vs : List Iov) :
    cutRecv length total vs = cutIov length total vs := by
  induction vs generalizing total with
  | nil => rfl
  | cons v vs ih =>
    rw [cutRecv, cutIov, ih]
    rw [u32]
    have hlt : (total + v.len) % 4294967296 < 4294967296 := Nat.mod_lt _ (by omega)
    generalize (total + v.len) % 4294967296 = t at hlt
    by_cases hl : length ≤ t
    · have hsub : minus32 t length = t - length := by
        unfold minus32
        omega
      rw [if_pos hl, if_pos hl, hsub, size_sub _ (by omega), Int.ofNat_sub hl]
    · rw [if_neg hl, if_neg hl]

end Loops

/-! ## What is selected -/

section Selection

variable {sg : List Iov} {offset length : Nat}

/-- The two loops return the slice that they are asked for, or run past the end of the list. -/
theorem seekRecv_cutRecv (hbound : iovTotal sg < 4294967296) :
    if offset < iovTotal sg ∧ offset + length ≤ iovTotal sg then
      ∃ l, (seekRecv offset 0 offset sg).bind (cutRecv length 0) = some l ∧
        iovCells l = ((iovCells sg).drop offset).take length
    else (seekRecv offset 0 offset sg).bind (cutRecv length 0) = none := by
  by_cases hoff : offset < iovTotal sg
  swap
  · rw [if_neg fun h => hoff h.1, seekRecv_eq_none (by omega) (by omega)]
    rfl
  obtain ⟨l₁, h₁, hc₁⟩ := seekRecv_cells (Nat.zero_le offset)
    (show offset < 0 + iovTotal sg by omega) (by omega)
  rw [Nat.sub_zero] at h₁ hc₁
  have htotal : iovTotal l₁ = iovTotal sg - offset := by
    rw [← length_iovCells, hc₁, List.length_drop, length_iovCells]
  have hne : l₁ ≠ [] := by
    rintro rfl
    exact absurd htotal (by rw [iovTotal, List.map_nil, List.sum_nil]; omega)
  rw [h₁, Option.bind_some, cutRecv_eq_cutIov]
  by_cases hle : offset + length ≤ iovTotal sg
  · obtain ⟨l, h₂, hc₂⟩ := cutIov_cells (Nat.zero_le length)
      (show length ≤ 0 + iovTotal l₁ by omega) (by omega) (.inr hne)
    rw [if_pos ⟨hoff, hle⟩]
    exact ⟨l, h₂, by rw [hc₂, hc₁, Nat.sub_zero]⟩
  · rw [if_neg fun h => hle h.2]
    exact cutIov_eq_none (by omega) (by omega)

end Selection

/-- A data PDU is put where `modify_iov` would have it, and refused when `modify_iov` refuses. -/
def Selects (q : ScsiCmd) (offset length : Nat) (s : Session) : Prop :=
  match modifyIov q.recv.sg offset length with
  | some l => ∃ l', recvSg q offset length s = .ret l' s ∧ iovCells l' = iovCells l
  | none => ∀ p, recvReadData q p offset length s = .ret false s

/-- A PDU with fewer bytes than the transfer lies inside the list, and begins less than 2 GiB into
its buffer.  One with as many lies inside the list just when the list has that many bytes. -/
def Placeable (q : ScsiCmd) (offset length : Nat) : Prop :=
  if length = q.pdu.transLen then
    (offset < iovTotal q.recv.sg ∧ offset + length ≤ iovTotal q.recv.sg ↔
      length = iovTotal q.recv.sg)
  else
    offset < iovTotal q.recv.sg ∧ offset + length ≤ iovTotal q.recv.sg ∧
      displacement offset q.recv.sg < 2147483648

/-- A PDU that carries enough data. -/
def fullPdu (length : Nat) : RxPdu := ⟨zeroHeader, List.replicate length 0⟩

section Selects

variable {q : ScsiCmd} {offset length : Nat} {s : Session}

theorem recvSg_whole (h : length = q.pdu.transLen) :
    recvSg q offset length s = .ret q.recv.sg s := by
  rw [recvSg, if_neg (not_not.mpr h)]
  rfl

/-- A slice is taken for a PDU with fewer, or the list is left. -/
theorem recvSg_slice (h : length ≠ q.pdu.transLen) (hbound : iovTotal q.recv.sg < 4294967296) :
    if offset < iovTotal q.recv.sg ∧ offset + length ≤ iovTotal q.recv.sg then
      ∃ l, recvSg q offset length s = .ret l s ∧
        iovCells l = ((iovCells q.recv.sg).drop offset).take length
    else recvSg q offset length s = .halt .fault s := by
  have hloops := @seekRecv_cutRecv q.recv.sg offset length hbound
  rw [recvSg, if_pos h]
  by_cases hin : offset < iovTotal q.recv.sg ∧ offset + length ≤ iovTotal q.recv.sg
  · rw [if_pos hin] at hloops ⊢
    obtain ⟨l, hl, hc⟩ := hloops
    exact ⟨l, by rw [hl]; rfl, hc⟩
  · rw [if_neg hin] at hloops ⊢
    rw [hloops]
    rfl

/-- Receiving the data of a PDU into a list. -/
theorem recvReadData_list (hsg : q.recv.sg ≠ []) {l : List Iov} (p : RxPdu)
    (hl : recvSg q offset length s = .ret l s) :
    recvReadData q p offset length s =
      .ret (u32 (iovTotal l) == length && (recvData p length).isSome) s := by
  rw [recvReadData, if_pos hsg, recvIntoList, bind_apply, hl]
  dsimp only
  by_cases hu : u32 (iovTotal l) = length
  · rw [if_neg (not_not.mpr hu), beq_iff_eq.mpr hu]
    rfl
  · rw [if_pos hu, beq_eq_false_iff_ne.mpr hu]
    rfl

/-- A list that is 4 GiB too long is not what is asked for. -/
theorem displacement_of_cells {l : List Iov} (hbound : iovTotal q.recv.sg < 4294967296)
    (hin : offset < iovTotal q.recv.sg) (hl : modifyIov q.recv.sg offset length = some l)
    (hlt : iovTotal l < 4294967296) : displacement offset q.recv.sg < 2147483648 := by
  by_contra hd
  have hfar := modifyIov_far hin hbound (Nat.le_of_not_lt hd) hl
  omega

theorem selects_inside (hbound : iovTotal q.recv.sg < 4294967296) (hlength : length < 2147483648)
    (hin : offset < iovTotal q.recv.sg ∧ offset + length ≤ iovTotal q.recv.sg) :
    Selects q offset length s ↔ Placeable q offset length := by
  obtain ⟨l, hl⟩ := Option.isSome_iff_exists.mp ((modifyIov_isSome_iff hbound).mpr hin)
  have hslice : displacement offset q.recv.sg < 2147483648 →
      iovCells l = ((iovCells q.recv.sg).drop offset).take length := by
    intro hd
    have h := @modifyIov_slice q.recv.sg offset length hbound hd
    rw [if_pos hin] at h
    obtain ⟨l', hl', hc⟩ := h
    obtain rfl : l = l' := Option.some.inj (hl.symm.trans hl')
    exact hc
  have hsum : displacement offset q.recv.sg < 2147483648 → iovTotal l = length := by
    intro hd
    rw [← length_iovCells, hslice hd, List.length_take, List.length_drop, length_iovCells]
    omega
  unfold Selects Placeable
  rw [hl]
  dsimp only
  by_cases hw : length = q.pdu.transLen
  · rw [if_pos hw]
    constructor
    · rintro ⟨l', hrecv, hc⟩
      obtain ⟨rfl, -⟩ := Outcome.ret.inj ((recvSg_whole hw).symm.trans hrecv)
      have htotal : iovTotal q.recv.sg = iovTotal l := by
        rw [← length_iovCells, hc, length_iovCells]
      have hd := displacement_of_cells hbound hin.1 hl (htotal ▸ hbound)
      exact ⟨fun _ => (hsum hd).symm.trans htotal.symm, fun _ => hin⟩
    · intro h
      have hall := h.mp hin
      obtain rfl : offset = 0 := by omega
      have hd : displacement 0 q.recv.sg < 2147483648 :=
        Nat.lt_of_le_of_lt (displacement_le _ _) (by omega)
      refine ⟨_, recvSg_whole hw, ?_⟩
      rw [hslice hd, List.drop_zero, hall, ← length_iovCells, List.take_length]
  · rw [if_neg hw]
    have hrecv := @recvSg_slice q offset length s hw hbound
    rw [if_pos hin] at hrecv
    obtain ⟨l', hrecv, hc⟩ := hrecv
    constructor
    · rintro ⟨l'', hrecv', hc'⟩
      obtain ⟨rfl, -⟩ := Outcome.ret.inj (hrecv.symm.trans hrecv')
      refine ⟨hin.1, hin.2, displacement_of_cells hbound hin.1 hl ?_⟩
      rw [← length_iovCells, ← hc', hc, List.length_take]
      omega
    · rintro ⟨-, -, hd⟩
      exact ⟨l', hrecv, hc.trans (hslice hd).symm⟩

theorem selects_outside (hsg : q.recv.sg ≠ []) (hbound : iovTotal q.recv.sg < 4294967296)
    (hlength : length < 2147483648)
    (hout : ¬(offset < iovTotal q.recv.sg ∧ offset + length ≤ iovTotal q.recv.sg)) :
    Selects q offset length s ↔ Placeable q offset length := by
  have hnone : modifyIov q.recv.sg offset length = none :=
    Option.not_isSome_iff_eq_none.mp fun h => hout ((modifyIov_isSome_iff hbound).mp h)
  unfold Selects Placeable
  rw [hnone]
  dsimp only
  by_cases hw : length = q.pdu.transLen
  · have hu : u32 (iovTotal q.recv.sg) = iovTotal q.recv.sg := Nat.mod_eq_of_lt hbound
    rw [if_pos hw]
    constructor
    · intro h
      have hfull : (recvData (fullPdu length) length).isSome = true := by
        rw [recvData, if_pos ⟨hlength, by rw [fullPdu, List.length_replicate]⟩]
        rfl
      have hret := (recvReadData_list hsg (fullPdu length) (recvSg_whole hw)).symm.trans
        (h (fullPdu length))
      obtain ⟨hret, -⟩ := Outcome.ret.inj hret
      rw [hu, hfull, Bool.and_true] at hret
      exact ⟨fun h => absurd h hout, fun h => absurd h.symm (beq_eq_false_iff_ne.mp hret)⟩
    · intro h p
      rw [recvReadData_list hsg p (recvSg_whole hw), hu,
        beq_eq_false_iff_ne.mpr fun he => hout (h.mpr he.symm), Bool.false_and]
  · rw [if_neg hw]
    refine ⟨fun h => ?_, fun h => absurd ⟨h.1, h.2.1⟩ hout⟩
    have hrecv := @recvSg_slice q offset length s hw hbound
    rw [if_neg hout] at hrecv
    have hret := h (fullPdu length)
    rw [recvReadData, if_pos hsg, recvIntoList, bind_apply, hrecv] at hret
    exact absurd hret (by simp)

/-- When a PDU is put where `modify_iov` would have it. -/
theorem selects_iff (hsg : q.recv.sg ≠ []) (hbound : iovTotal q.recv.sg < 4294967296)
    (hlength : length < 2147483648) : Selects q offset length s ↔ Placeable q offset length := by
  by_cases hin : offset < iovTotal q.recv.sg ∧ offset + length ≤ iovTotal q.recv.sg
  · exact selects_inside hbound hlength hin
  · exact selects_outside hsg hbound hlength hin

/-- A placeable PDU of a transfer with as many bytes as the list is put in its place. -/
theorem recvSg_placed (hall : iovTotal q.recv.sg = q.pdu.transLen)
    (hbound : iovTotal q.recv.sg < 4294967296) (h : Placeable q offset length) :
    offset + length ≤ iovTotal q.recv.sg ∧ ∃ l, recvSg q offset length s = .ret l s ∧
      iovCells l = ((iovCells q.recv.sg).drop offset).take length := by
  unfold Placeable at h
  by_cases hw : length = q.pdu.transLen
  · rw [if_pos hw] at h
    obtain ⟨hoff, hle⟩ := h.mpr (hw.trans hall.symm)
    obtain rfl : offset = 0 := by omega
    refine ⟨hle, _, recvSg_whole hw, ?_⟩
    rw [List.drop_zero, hw, ← hall, ← length_iovCells, List.take_length]
  · rw [if_neg hw] at h
    have hrecv := @recvSg_slice q offset length s hw hbound
    rw [if_pos ⟨h.1, h.2.1⟩] at hrecv
    exact ⟨h.2.1, hrecv⟩

end Selects

/-! ## Filling the caller's buffers -/

/-- The data PDUs `ds`, each an offset and a length, are received one after the other. -/
inductive Receives (q : ScsiCmd) (s : Session) : List (Nat × Nat) → Sock → Sock → Prop
  | /-- Nothing is left to be received. -/
    nil (t : Sock) : Receives q s [] t t
  | /-- The data of the first PDU are received into the buffers that were selected for them. -/
    cons {o n : Nat} {v : Iov} {vs out : List Iov} {ds : List (Nat × Nat)} {t t₁ t₂ : Sock}
    (hsel : recvSg q o n s = .ret (v :: vs) s)
    (hmsg : iscsiSockMsg false n (.list v vs) t = .ret ((n : Int), out) t₁)
    (h : Receives q s ds t₁ t₂) : Receives q s ((o, n) :: ds) t t₂

/-- What a device sends that cuts `data` into the PDUs `ds`. -/
def dataWire (data : Bytes) (ds : List (Nat × Nat)) : Bytes :=
  ds.flatMap fun d => (data.drop d.1).take d.2 ++ List.replicate (paddingLen d.2) 0

/-- When the PDUs tile the transfer in some order, the buffers hold the data in the end. -/
def Fills (q : ScsiCmd) (ds : List (Nat × Nat)) (s : Session) : Prop :=
  ∀ l, ds.Perm l → Tiles 0 l q.pdu.transLen → iovTotal q.recv.sg = q.pdu.transLen →
    (iovCells q.recv.sg).Nodup → (∀ c ∈ iovCells q.recv.sg, c.1 ≠ .padding) →
    ∀ t data rest, data.length = q.pdu.transLen → (∀ i, 0 < t.counts i) →
      t.incoming = dataWire data ds ++ rest →
      ∃ t', Receives q s ds t t' ∧ t'.mem.gather (iovCells q.recv.sg) = data ∧ t'.incoming = rest

/-- The byte at `j` is in its place. -/
def HasByte (cs : List (Region × Nat)) (data : Bytes) (t : Sock) (j : Nat) : Prop :=
  (cs[j]?.map fun c => t.mem c.1 c.2) = data[j]?

section Fill

variable {q : ScsiCmd} {s : Session} {t : Sock} {data rest : Bytes}

theorem cutIov_ne_nil {length len : Nat} {vs l : List Iov} (h : cutIov length len vs = some l) :
    l ≠ [] := by
  cases vs with
  | nil => exact absurd h.symm (Option.some_ne_none l)
  | cons v vs =>
    rw [cutIov] at h
    split at h
    · obtain rfl := Option.some.inj h
      exact List.cons_ne_nil _ _
    · obtain ⟨l', -, rfl⟩ := Option.map_eq_some_iff.mp h
      exact List.cons_ne_nil _ _

theorem recvSg_ne_nil {o n : Nat} {l : List Iov} (hsg : q.recv.sg ≠ [])
    (h : recvSg q o n s = .ret l s) : l ≠ [] := by
  unfold recvSg at h
  split at h
  · rcases hb : (seekRecv o 0 o q.recv.sg).bind (cutRecv n 0) with _ | l' <;> rw [hb] at h
    · exact absurd h (by simp [halt])
    · obtain ⟨rfl, -⟩ := Outcome.ret.inj h
      obtain ⟨l₁, -, hcut⟩ := Option.bind_eq_some_iff.mp hb
      rw [cutRecv_eq_cutIov] at hcut
      exact cutIov_ne_nil hcut
  · obtain ⟨rfl, -⟩ := Outcome.ret.inj h
    exact hsg

theorem receive_one {o n : Nat} (hsg : q.recv.sg ≠ []) (hn : n < 16777216)
    (hall : iovTotal q.recv.sg = q.pdu.transLen) (hbound : iovTotal q.recv.sg < 4294967296)
    (hnew : (iovCells q.recv.sg).Nodup) (hown : ∀ c ∈ iovCells q.recv.sg, c.1 ≠ .padding)
    (hdata : data.length = q.pdu.transLen) (hplace : Placeable q o n)
    (hcounts : ∀ i, 0 < t.counts i)
    (hin : t.incoming = (data.drop o).take n ++ List.replicate (paddingLen n) 0 ++ rest) :
    ∃ v vs out t', recvSg q o n s = .ret (v :: vs) s ∧
      iscsiSockMsg false n (.list v vs) t = .ret ((n : Int), out) t' ∧ t'.incoming = rest ∧
      (∀ i, 0 < t'.counts i) ∧ ∀ j, (o ≤ j ∧ j < o + n ∨ HasByte (iovCells q.recv.sg) data t j) →
        HasByte (iovCells q.recv.sg) data t' j := by
  obtain ⟨hle, l, hsel, hcells⟩ := recvSg_placed (s := s) hall hbound hplace
  rcases l with _ | ⟨v, vs⟩
  · exact absurd rfl (recvSg_ne_nil hsg hsel)
  have htotal : iovTotal ((SockData.list v vs).iov n) = n := by
    show iovTotal (v :: vs) = n
    rw [← length_iovCells, hcells, List.length_take, List.length_drop, length_iovCells]
    omega
  have hown' : ∀ c ∈ (SockData.list v vs).cells n, c.1 ≠ .padding := by
    intro c hc
    refine hown c ?_
    rw [show (SockData.list v vs).cells n = iovCells (v :: vs) from rfl, hcells] at hc
    exact List.mem_of_mem_drop (List.mem_of_mem_take hc)
  have hpayload : ((data.drop o).take n).length = n := by
    rw [List.length_take, List.length_drop]
    omega
  have hfit : n + paddingLen n < 2147483648 := by
    have := paddingLen_lt n
    omega
  obtain ⟨out, t', hmsg, hmoved, ht'⟩ := iscsiSockMsg_flows htotal hown' hfit
    ⟨hcounts, room_of_incoming hpayload hin⟩
  obtain ⟨hmem, hrest⟩ := hmoved.received htotal hpayload hin
  refine ⟨v, vs, out, t', hsel, hmsg, hrest, ht', fun j hj => ?_⟩
  have hcs : (SockData.list v vs).cells n = ((iovCells q.recv.sg).drop o).take n := hcells
  rw [hcs] at hmem
  have hlen : (iovCells q.recv.sg).length = data.length := by
    rw [length_iovCells, hall, hdata]
  have hslice := Memory.scatter_slice t.mem hnew hpayload (by rwa [length_iovCells]) j
  have hsame : ((iovCells q.recv.sg)[j]?.map fun c => t'.mem c.1 c.2) =
      (iovCells q.recv.sg)[j]?.map fun c => t.mem.scatter
        (((iovCells q.recv.sg).drop o).take n) ((data.drop o).take n) c.1 c.2 := by
    rcases hc : (iovCells q.recv.sg)[j]? with _ | c
    · rfl
    · exact congrArg some (hmem _ _ (hown c (List.mem_of_getElem? hc)))
  unfold HasByte
  rw [hsame, hslice]
  by_cases hcov : o ≤ j ∧ j < o + n
  · rw [if_pos hcov, List.getElem?_take, if_pos (by omega), List.getElem?_drop,
      Nat.add_sub_cancel' hcov.1]
  · rw [if_neg hcov]
    exact hj.resolve_left hcov

/-- Placeable PDUs put their bytes in their places, in any order. -/
theorem receive_all {ds : List (Nat × Nat)} (hsg : q.recv.sg ≠ []) (hds : ∀ d ∈ ds, d.2 < 16777216)
    (hall : iovTotal q.recv.sg = q.pdu.transLen) (hbound : iovTotal q.recv.sg < 4294967296)
    (hnew : (iovCells q.recv.sg).Nodup) (hown : ∀ c ∈ iovCells q.recv.sg, c.1 ≠ .padding)
    (hdata : data.length = q.pdu.transLen) (hplace : ∀ d ∈ ds, Placeable q d.1 d.2)
    (hcounts : ∀ i, 0 < t.counts i) (hin : t.incoming = dataWire data ds ++ rest) :
    ∃ t', Receives q s ds t t' ∧ t'.incoming = rest ∧
      ∀ j, ((∃ d ∈ ds, d.1 ≤ j ∧ j < d.1 + d.2) ∨ HasByte (iovCells q.recv.sg) data t j) →
        HasByte (iovCells q.recv.sg) data t' j := by
  induction ds generalizing t with
  | nil =>
    refine ⟨t, .nil t, hin, fun j hj => hj.resolve_left ?_⟩
    rintro ⟨d, hd, -⟩
    exact absurd hd List.not_mem_nil
  | cons d ds ih =>
    obtain ⟨hn, hds⟩ := List.forall_mem_cons.mp hds
    obtain ⟨hfirst, hplace⟩ := List.forall_mem_cons.mp hplace
    have hin₀ : t.incoming = (data.drop d.1).take d.2 ++ List.replicate (paddingLen d.2) 0 ++
        (dataWire data ds ++ rest) := by
      rw [hin, dataWire, List.flatMap_cons, List.append_assoc, List.append_assoc,
        List.append_assoc]
      rfl
    obtain ⟨v, vs, out, t₁, hsel, hmsg, hin₁, hcounts₁, hstep⟩ :=
      receive_one (s := s) hsg hn hall hbound hnew hown hdata hfirst hcounts hin₀
    obtain ⟨t', hrun, hin', hrest⟩ := ih hds hplace hcounts₁ hin₁
    refine ⟨t', .cons hsel hmsg hrun, hin', fun j hj => hrest j ?_⟩
    rcases hj with ⟨e, he, hj⟩ | hj
    · rcases List.mem_cons.mp he with rfl | he
      · exact .inr (hstep j (.inl hj))
      · exact .inl ⟨e, he, hj⟩
    · exact .inr (hstep j (.inr hj))

/-- Placeable PDUs that tile the transfer fill the buffers. -/
theorem fills_of_placeable {ds : List (Nat × Nat)} (hsg : q.recv.sg ≠ [])
    (hds : ∀ d ∈ ds, d.2 < 16777216) (hbound : iovTotal q.recv.sg < 4294967296)
    (hplace : ∀ d ∈ ds, Placeable q d.1 d.2) : Fills q ds s := by
  intro l hperm htiles hall hnew hown t data rest hdata hcounts hin
  obtain ⟨t', hrun, hin', hbytes⟩ :=
    receive_all (s := s) hsg hds hall hbound hnew hown hdata hplace hcounts hin
  refine ⟨t', hrun, List.ext_getElem? fun j => ?_, hin'⟩
  rw [Memory.gather, List.getElem?_map]
  rcases Nat.lt_or_ge j q.pdu.transLen with hj | hj
  · obtain ⟨d, hd, hcov⟩ := htiles.covers (Nat.zero_le j) hj
    exact hbytes j (.inl ⟨d, hperm.mem_iff.mpr hd, hcov⟩)
  · rw [List.getElem?_eq_none (by rw [length_iovCells]; omega),
      List.getElem?_eq_none (by omega)]
    rfl

end Fill

/-- **Read data are put in their place exactly when** every PDU is placeable: one with fewer bytes
than the transfer lies inside the list, less than 2 GiB into its buffer, and one with as many lies
inside the list just when the list has that many bytes.  Then every order of PDUs that tile the
transfer fills the caller's buffers. -/
theorem readData_placed {q : ScsiCmd} (s : Session) {ds : List (Nat × Nat)} (hsg : q.recv.sg ≠ [])
    (hbound : iovTotal q.recv.sg < 4294967296) (hds : ∀ d ∈ ds, d.2 < 16777216) :
    (∀ d ∈ ds, Selects q d.1 d.2 s) ∧ Fills q ds s ↔ ∀ d ∈ ds, Placeable q d.1 d.2 := by
  have hiff : ∀ d ∈ ds, Selects q d.1 d.2 s ↔ Placeable q d.1 d.2 := fun d hd =>
    selects_iff hsg hbound (by have := hds d hd; omega)
  constructor
  · exact fun h d hd => (hiff d hd).mp (h.1 d hd)
  · exact fun h => ⟨fun d hd => (hiff d hd).mpr (h d hd), fills_of_placeable hsg hds hbound h⟩

instance instDecidablePlaceable (q : ScsiCmd) (offset length : Nat) :
    Decidable (Placeable q offset length) :=
  inferInstanceAs (Decidable (if length = q.pdu.transLen then
    (offset < iovTotal q.recv.sg ∧ offset + length ≤ iovTotal q.recv.sg ↔
      length = iovTotal q.recv.sg)
    else offset < iovTotal q.recv.sg ∧ offset + length ≤ iovTotal q.recv.sg ∧
      displacement offset q.recv.sg < 2147483648))

/-- A read of 8 bytes into two buffers. -/
def smallReadCmd : ScsiCmd :=
  { pdu :=
      { immediate := false, final := true, fromdev := true, todev := false, attr := 0, ahsLen := 0
        length := 0, lun := 0, tag := 0, transLen := 8, cmdSN := 0, expStatSN := 0, cdb := [] }
    ahs := [], bidiTransLen := 0, bytesTodev := 0, bytesFromdev := 0, send := ⟨[], none⟩
    recv := ⟨[⟨.staging 0, 0, 4⟩, ⟨.staging 1, 0, 4⟩], none⟩, status := 0 }

/-- The second half comes first. -/
theorem readData_placed_halves : Fills smallReadCmd [(4, 4), (0, 4)] smallSession :=
  ((readData_placed smallSession (by decide) (by decide) (by decide)).mpr
    (List.forall_mem_cons.mpr ⟨by decide, List.forall_mem_cons.mpr ⟨by decide, by simp⟩⟩)).2

/-- A PDU behind the end of the list is not refused: the loop runs past the list. -/
theorem readData_overrun : modifyIov smallReadCmd.recv.sg 8 4 = none ∧
    recvReadData smallReadCmd (fullPdu 4) 8 4 smallSession = .halt .fault smallSession ∧
    ¬Selects smallReadCmd 8 4 smallSession := by
  have hnone : modifyIov smallReadCmd.recv.sg 8 4 = none := by decide
  have hfault : recvReadData smallReadCmd (fullPdu 4) 8 4 smallSession =
      .halt .fault smallSession := rfl
  refine ⟨hnone, hfault, fun h => ?_⟩
  unfold Selects at h
  rw [hnone] at h
  exact absurd (hfault.symm.trans (h (fullPdu 4))) (by simp)

end Ost.Initiator
