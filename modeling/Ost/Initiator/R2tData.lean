import Ost.Initiator.WriteData

/-!
# The data that an R2T asks for

On a connection that works, `scsi_r2t_tx_i` sends the slices of the send buffer that make up the
part of the transfer the R2T asks for, just when they can be sent at all (`R2t.Sendable`).  The
fast path is where that matters most: an answer in one data PDU that begins at offset 0 is sent out
of the original scatter list, whatever its length.
-/

namespace Ost.Initiator

open Ost.Iscsi Ost.Util Ost.Param Ost.Prog

variable {s s' : Session} {c : Nat}

/-! ## The answers that are sent -/

/-- The data PDUs `ds` have been sent in answer to `r`, from `done` on. -/
structure R2tSent (r : R2t) (sg : List Iov) (limit n done : Nat) (dataSN : UInt32)
    (ds : List WriteData) (s s' : Session) : Prop where
  made : ∃ pdus, s'.sent = s.sent ++ pdus ∧
    List.Forall₂ (fun d p => Made (R2t.cuts r d.length) sg d p) ds pdus
  pieces : ds.map piece = R2t.segments r limit n done
  some : ds ≠ []
  numbered : Numbered dataSN ds
  final : FinalLast ds

/-- The counter of the command `c`, a write, has grown by `len`. -/
def Counts (c : Nat) (q : ScsiCmd) (len : Nat) (s' : Session) : Prop :=
  ∃ q', (s'.books.mem c).body = .scsi q' ∧ q'.bytesTodev = u32 (q.bytesTodev + len)

/-- What a run of the loop of `scsi_r2t_tx_i` that succeeds has sent. -/
theorem sendR2tData_sent {r : R2t} {sg : List Iov} {n done limit : Nat} {dataSN : UInt32}
    {acc : List WriteData} {q : ScsiCmd} (hd : done < r.length.toNat)
    (hle : r.offset.toNat + r.length.toNat < 4294967296)
    (hlimit : s.vars.sessParams.maxDataSegLength = limit)
    (hq : (s.books.mem c).body = .scsi q) :
    ensures (sendR2tData c r sg n done dataSN acc) (fun res s' => ∀ all, res = some all → ∃ ds,
      all = acc ++ ds ∧ R2tSent r sg limit n done dataSN ds s s' ∧
      Counts c q (r.length.toNat - done) s') s := by
  induction n generalizing done dataSN acc q s with
  | zero => trivial
  | succ n ih =>
    have hlt : r.length.toNat < 4294967296 := r.length.toNat_lt
    have hpos : 0 < segmentLength limit (r.offset.toNat + r.length.toNat) (r.offset.toNat + done) :=
      segmentLength_pos (by omega)
    have hend := @segmentLength_le limit _ _
      (show r.offset.toNat + done ≤ r.offset.toNat + r.length.toNat by omega)
    have hsegs := @R2t.segments_cons r limit n _ hd
    simp only [ensures, sendR2tData, wp_bind]
    rw [wp_getScsi_of hq]
    simp only [wp_getVars, @r2tDataLength_eq _ r.offset.toNat _ _ hlt hd, hlimit]
    generalize segmentLength limit _ _ = len at *
    have hoff : u32 (r.offset.toNat + done) = r.offset.toNat + done := Nat.mod_eq_of_lt (by omega)
    have hu : u32 (done + len) = done + len := Nat.mod_eq_of_lt (by omega)
    simp only [hoff, hu]
    refine wp_mono (dataSg_made _ sg _ _ s) ?_ fun _ _ _ => trivial
    rintro x s₁ ⟨rfl, hx⟩
    cases x with
    | none => exact fun all hall => absurd hall (by simp)
    | some part =>
      simp only [wp_bind]
      refine (sockSend_sent _ hpos part s₁).mono fun ok s₂ h₂ => ?_
      cases ok with
      | false => exact fun all hall => absurd hall (by simp)
      | true =>
        obtain ⟨htotal, hmax, hs₂⟩ := h₂ rfl
        have hbody : (s₂.books.mem c).body = .scsi q := by
          rw [hs₂]
          exact hq
        have hvars : s₂.vars = s₁.vars := by rw [hs₂]
        have hsent := congrArg (fun t : Session => t.sent) hs₂
        simp only [Bool.not_true, Bool.false_eq_true, if_false, wp_bind, wp_setBody]
        refine (wp_ite _ _ _).mpr ⟨fun hlt' => ?_, fun hge => ?_⟩
        · refine (ih hlt' (by rw [← hlimit, ← hvars]; rfl) (body_setBody hbody)).mono ?_
          intro res s' hres all hall
          obtain ⟨ds, rfl, ⟨⟨pdus, hs', hmade⟩, hpieces, hne, hnum, hfin⟩, q', hq', hcount⟩ :=
            hres all hall
          refine ⟨_ :: ds, List.append_assoc _ _ _, ⟨⟨_ :: pdus, ?_,
            .cons ⟨part, rfl, hmax, htotal, hx part rfl⟩ hmade⟩, ?_,
            List.cons_ne_nil _ _, ⟨rfl, hnum⟩,
            ?_, hfin⟩, q', hq', ?_⟩
          · rw [hs']
            exact (congrArg (· ++ pdus) hsent).trans (List.append_assoc _ _ _)
          · rw [hsegs, List.map_cons, hpieces]
            rfl
          · simp only [hne, iff_false, beq_iff_eq]
            omega
          · rw [hcount, u32, u32, Nat.mod_add_mod]
            congr 1
            omega
        · refine fun all hall => ⟨[_], (Option.some.inj hall).symm, ⟨⟨[_], hsent,
            .cons ⟨part, rfl, hmax, htotal, hx part rfl⟩ .nil⟩, ?_, List.cons_ne_nil _ _,
            ⟨rfl, trivial⟩,
            ?_, trivial⟩, _, body_setBody hbody, ?_⟩
          · rw [hsegs, R2t.segments, show r.offset.toNat + (done + len) =
              r.offset.toNat + r.length.toNat by omega, segments_stop]
            rfl
          · simp only [beq_iff_eq, iff_true]
            omega
          · rw [show r.length.toNat - done = len by omega]

/-! ## The answer to an R2T -/

/-- The data that the R2T `r` asks for have been sent out of the buffers `sg`: in consecutive
slices of at most `limit` bytes, which are numbered from 0 and of which the last is final. -/
structure R2tAnswered (c : Nat) (r : R2t) (q : ScsiCmd) (sg : List Iov) (limit : Nat)
    (s s' : Session) : Prop where
  sent : ∃ ds pdus, s'.sent = s.sent ++ pdus ∧ Carries sg ds pdus ∧
    Tiles r.offset.toNat (ds.map piece) (r.offset.toNat + r.length.toNat) ∧
    (∀ d ∈ ds, limit = 0 ∨ d.length ≤ limit) ∧ Numbered 0 ds ∧ FinalLast ds
  counted : Counts c q r.length.toNat s'

/-- What a run of `scsi_r2t_tx_i` that succeeds has sent. -/
theorem scsiR2tTxI_sent {q : ScsiCmd} {sg : List Iov} (hq : (s.books.mem c).body = .scsi q)
    (hsg : q.sendList = some sg) (hpos : 0 < (s.books.mem c).r2t.length.toNat)
    (hle : (s.books.mem c).r2t.offset.toNat + (s.books.mem c).r2t.length.toNat < 4294967296) :
    ensures (scsiR2tTxI c) (fun ok s' => ok = true → ∃ ds,
      R2tSent (s.books.mem c).r2t sg s.vars.sessParams.maxDataSegLength
        (s.books.mem c).r2t.length.toNat 0 0 ds s s' ∧
      Counts c q (s.books.mem c).r2t.length.toNat s') s := by
  simp only [ensures, scsiR2tTxI, wp_bind, wp_getCmd]
  rw [wp_getScsi_of hq]
  simp only [hsg]
  refine (wp_ite _ _ _).mpr ⟨fun _ => by simp, fun _ => ?_⟩
  refine (wp_ite _ _ _).mpr ⟨fun _ => by simp, fun _ => ?_⟩
  simp only [wp_bind, wp_modifyVars]
  set s₀ := s.setVars { s.vars with maxCmdSN := (s.books.mem c).r2t.maxCmdSN }
  have hsend := @sendR2tData_sent s₀ c (s.books.mem c).r2t sg (s.books.mem c).r2t.length.toNat 0
    s.vars.sessParams.maxDataSegLength 0 [] q hpos hle rfl hq
  refine hsend.mono fun res s₁ h => ?_
  cases res with
  | none => exact fun hok => absurd hok (by simp)
  | some all =>
    obtain ⟨ds, -, ⟨made, pieces, hne, num, fin⟩, hcount⟩ := h all rfl
    exact fun _ => ⟨ds, ⟨made, pieces, hne, num, fin⟩, hcount⟩

/-- The data PDUs of an answer tile what the R2T asks for. -/
theorem R2tSent.tiles {r : R2t} {sg : List Iov} {limit : Nat} {dataSN : UInt32}
    {ds : List WriteData} (h : R2tSent r sg limit r.length.toNat 0 dataSN ds s s') :
    Tiles r.offset.toNat (ds.map piece) (r.offset.toNat + r.length.toNat) := by
  rw [h.pieces]
  exact tiles_segments (Nat.le_add_right _ _) le_rfl

/-- What has been sent carries the data just when the R2T could be answered. -/
theorem R2tSent.carries_iff {r : R2t} {sg : List Iov} {limit : Nat} {dataSN : UInt32}
    {ds : List WriteData} {pdus : List OutPdu}
    (h : R2tSent r sg limit r.length.toNat 0 dataSN ds s s') (hs' : s'.sent = s.sent ++ pdus)
    (hpos : 0 < r.length.toNat) (hle : r.offset.toNat + r.length.toNat ≤ iovTotal sg)
    (hbound : iovTotal sg < 4294967296) :
    Carries sg ds pdus ↔ R2t.Sendable r sg limit r.length.toNat 0 := by
  obtain ⟨⟨pdus', hsent, hmade⟩, hpieces, hne, hnum, hfin⟩ := id h
  obtain rfl : pdus = pdus' := List.append_cancel_left (hs'.symm.trans hsent)
  have hmem : ∀ d ∈ ds, piece d ∈ R2t.segments r limit r.length.toNat 0 := fun d hd =>
    hpieces ▸ List.mem_map_of_mem hd
  have hinside : ∀ d ∈ ds, r.offset.toNat ≤ d.offset ∧
      d.offset + d.length ≤ r.offset.toNat + r.length.toNat := fun d hd =>
    h.tiles.mem_bounds _ (List.mem_map_of_mem hd)
  have hzero : r.offset = 0 → r.offset.toNat = 0 := fun h0 => by rw [h0]; rfl
  rw [@Ost.Initiator.carries_iff (fun d => R2t.cuts r d.length) _ _ _ hmade hbound fun d hd => ?_]
  · obtain ⟨d₀, ds₀, rfl⟩ := List.exists_cons_of_ne_nil hne
    have hfirst : d₀.length =
        segmentLength limit (r.offset.toNat + r.length.toNat) r.offset.toNat := by
      obtain ⟨n, hn⟩ := Nat.exists_eq_add_of_lt hpos
      rw [Nat.zero_add] at hn
      rw [hn, R2t.segments_cons hpos] at hpieces
      exact congrArg Prod.snd (List.cons.inj hpieces).1
    obtain ⟨p₀, part, rfl, hmax₀, htotal, hpart⟩ :=
      @made_mem (fun d => R2t.cuts r d.length) _ _ _ hmade d₀ List.mem_cons_self
    constructor
    · refine fun hfar => ⟨fun h0 hone => ?_, fun hmany => ?_, fun x hx => ?_⟩
      · have hlen : d₀.length = r.length.toNat := by
          rw [hfirst, segmentLength]
          split <;> omega
        have hcut : R2t.cuts r d₀.length = false := by simp [R2t.cuts, hlen, h0]
        rw [hcut, if_neg Bool.false_ne_true] at hpart
        rw [hpart, u32, u32, Nat.mod_eq_of_lt hbound, Nat.mod_eq_of_lt (by omega)] at htotal
        omega
      · have hcut : R2t.cuts r d₀.length = true := by
          rcases hmany with h0 | ⟨h0, hlt⟩
          · simp [R2t.cuts, h0]
          · have := @segmentLength_le_limit limit
              (r.offset.toNat + r.length.toNat) r.offset.toNat
            simp only [R2t.cuts, Bool.or_eq_true, decide_eq_true_eq]
            omega
        rw [hcut, if_pos rfl] at hpart
        exact hpart.1
      · rw [← hpieces] at hx
        obtain ⟨d, hd, rfl⟩ := List.mem_map.mp hx
        obtain ⟨_, _, _, hmax, _⟩ := @made_mem (fun d => R2t.cuts r d.length) _ _ _ hmade d hd
        exact ⟨hmax, hfar d hd⟩
    · exact fun hsend d hd => (hsend.segments _ (hmem d hd)).2
  · refine ⟨segments_pos _ _ _ (hmem d hd), (hinside d hd).2.trans hle, fun hcut => ?_⟩
    simp only [R2t.cuts, Bool.or_eq_false_iff, decide_eq_false_iff_not,
      bne_eq_false_iff_eq] at hcut
    have := hinside d hd
    have := hzero hcut.2
    omega

/-- On a connection that works, `scsi_r2t_tx_i` sends the data that the R2T asks for if and only
if they can be sent. -/
theorem scsiR2tTxI_answered {q : ScsiCmd} {sg : List Iov} (hq : (s.books.mem c).body = .scsi q)
    (hsg : q.sendList = some sg) (htotal : iovTotal sg = q.pdu.transLen)
    (hT : q.pdu.transLen < 4294967296) (htag : (s.books.mem c).tag = q.pdu.tag)
    (hpos : 0 < (s.books.mem c).r2t.length.toNat)
    (hle : (s.books.mem c).r2t.offset.toNat + (s.books.mem c).r2t.length.toNat ≤ q.pdu.transLen)
    (ho : s.Online) :
    (∃ s', scsiR2tTxI c s = .ret true s' ∧
      R2tAnswered c (s.books.mem c).r2t q sg s.vars.sessParams.maxDataSegLength s s') ↔
    R2t.Sendable (s.books.mem c).r2t sg s.vars.sessParams.maxDataSegLength
      (s.books.mem c).r2t.length.toNat 0 := by
  rw [← htotal] at hT hle
  have hlt := hle.trans_lt hT
  constructor
  · rintro ⟨s', hret, ⟨ds', pdus, hs', hcarry, -⟩, -⟩
    obtain ⟨ds, hds, -⟩ := (scsiR2tTxI_sent hq hsg hpos hlt).of_ret hret rfl
    have hsame : ds' = ds := by
      obtain ⟨pdus', hsent, hmade⟩ := hds.made
      obtain rfl : pdus = pdus' := List.append_cancel_left (hs'.symm.trans hsent)
      exact headers_unique (fun _ _ ⟨part, hp, _⟩ => ⟨part, hp⟩)
        (fun _ _ ⟨part, hp, _⟩ => ⟨part, hp⟩) hcarry hmade
    exact (hds.carries_iff hs' hpos hle hT).mp (hsame ▸ hcarry)
  · intro hsend
    obtain ⟨ok, s', hret, rfl, -, pdus, -, hs', -⟩ :=
      (scsiR2tTxI_online hq hsg htag hpos hle hT hsend ho).returns
    obtain ⟨ds, hds, hcount⟩ := (scsiR2tTxI_sent hq hsg hpos hlt).of_ret hret rfl
    refine ⟨s', hret, ⟨ds, pdus, hs', (hds.carries_iff hs' hpos hle hT).mpr hsend, hds.tiles,
      fun d hd => ?_, hds.numbered, hds.final⟩, hcount⟩
    have hx : piece d ∈ R2t.segments _ _ _ 0 := hds.pieces ▸ List.mem_map_of_mem hd
    exact segments_le_limit _ _ _ hx

/-- A session with a write of 16 bytes, and an R2T for a part of it. -/
def smallAnswer (offset length : UInt32) : Session :=
  smallSession.setCmd 1 { freshCmd 0 smallWrite true with
    r2t := ⟨0, 0, 0, 0x1234, 0, 0, 0, 0, offset, length⟩ }

/-- The data from 4 up to 12 are sent. -/
theorem scsiR2tTxI_answered_middle : ∃ q sg s',
    ((smallAnswer 4 8).books.mem 1).body = .scsi q ∧ q.sendList = some sg ∧
      scsiR2tTxI 1 (smallAnswer 4 8) = .ret true s' ∧
      R2tAnswered 1 ((smallAnswer 4 8).books.mem 1).r2t q sg 0 (smallAnswer 4 8) s' := by
  have hsend : R2t.Sendable ((smallAnswer 4 8).books.mem 1).r2t [⟨.staging 0, 0, 16⟩] 0 8 0 :=
    ⟨by decide, by decide, by decide⟩
  obtain ⟨s', hret, hans⟩ := (scsiR2tTxI_answered (s := smallAnswer 4 8) (c := 1) rfl rfl rfl
    (by decide) rfl (by decide) (by decide) (by decide)).mpr hsend
  exact ⟨_, _, s', rfl, rfl, hret, hans⟩

/-- The first 8 bytes are not: the scatter list has 16. -/
theorem scsiR2tTxI_prefix_refused : ∃ q sg s',
    ((smallAnswer 0 8).books.mem 1).body = .scsi q ∧ q.sendList = some sg ∧
      iovTotal sg = q.pdu.transLen ∧ 8 ≤ q.pdu.transLen ∧ (smallAnswer 0 8).Online ∧
      scsiR2tTxI 1 (smallAnswer 0 8) = .ret false s' :=
  ⟨_, _, _, rfl, rfl, rfl, by decide, by decide, rfl⟩

end Ost.Initiator
