import Mathlib.Data.List.Forall2
import Ost.Initiator.Moves
import Ost.Util.Tiling

/-!
# Write data on a connection that works

When all transmissions go through, whether the initiator sends the data that an R2T asks for
depends on the command, the R2T and the parameters of the session alone.  There is one R2T inside a
transfer that the initiator cannot answer: one that starts at offset 0, does not ask for the whole
transfer, and fits in one data PDU.  Then `scsi_r2t_tx_i` sends the whole scatter list, and
`iscsi_sock_msg` refuses it because of its size.
-/

namespace Ost.Initiator

open Ost.Iscsi Ost.Util Ost.Param Ost.Prog

/-! ## Transmissions -/

/-- All transmissions go through. -/
def Session.Online (s : Session) : Prop := ∀ b ∈ s.net, b = true

instance (s : Session) : Decidable s.Online := inferInstanceAs (Decidable (∀ _ ∈ _, _))

/-- Some PDUs have been sent, and nothing else has happened. -/
structure Transmitted (pdus : List OutPdu) (s s' : Session) : Prop where
  state : s' = { s with net := s'.net, sent := s.sent ++ pdus }
  online : s'.Online

variable {s s' : Session} {c : Nat}

namespace Session.Online

theorem head (h : s.Online) : s.net.headD true = true := by
  cases hn : s.net with
  | nil => rfl
  | cons b l => exact h b (hn ▸ List.mem_cons_self)

theorem tail (h : s.Online) : ∀ b ∈ s.net.tail, b = true :=
  fun b hb => h b (List.mem_of_mem_tail hb)

end Session.Online

theorem sockSend_online (h : s.Online) (p : OutPdu) {len : Nat} {data : List Iov}
    (hlen : u32 (iovTotal data) = u32 len) (hmax : len ≤ sockMsgMax) :
    wp (sockSend p len data) (fun ok s' => ok = true ∧ Transmitted [p] s s')
      (fun _ _ => False) s := by
  have h₁ : ({ s with net := s.net.tail } : Session).Online := h.tail
  simp only [sockSend, wp_bind, wp_nextNet, h.head, Bool.not_true, Bool.false_eq_true, if_false]
  refine (wp_ite _ _ _).mpr ⟨fun _ => ?_, fun _ => ⟨rfl, rfl, h.tail⟩⟩
  simp only [sockData, wp_bind]
  refine (wp_ite _ _ _).mpr ⟨fun hne => absurd hlen hne, fun _ => ?_⟩
  refine (wp_ite _ _ _).mpr ⟨fun hgt => absurd hmax (Nat.not_le.mpr hgt), fun _ => ?_⟩
  rw [wp_nextNet, h₁.head]
  exact ⟨rfl, rfl, h₁.tail⟩

/-- What a transmission that worked says about the data. -/
theorem sockSend_sent (p : OutPdu) {len : Nat} (hpos : 0 < len) (data : List Iov) (s : Session) :
    ensures (sockSend p len data) (fun ok s' => ok = true →
      u32 (iovTotal data) = u32 len ∧ len ≤ sockMsgMax ∧
        s' = { s with net := s'.net, sent := s.sent ++ [p] }) s := by
  simp only [ensures, sockSend, wp_bind, wp_nextNet]
  refine (wp_ite _ _ _).mpr ⟨fun _ => by simp, fun _ => ?_⟩
  refine (wp_ite _ _ _).mpr ⟨fun _ => ?_, fun h => absurd (Nat.ne_of_gt hpos) h⟩
  simp only [sockData, wp_bind]
  refine (wp_ite _ _ _).mpr ⟨fun _ => by simp, fun htotal => ?_⟩
  refine (wp_ite _ _ _).mpr ⟨fun _ => by simp, fun hmax => ?_⟩
  rw [wp_nextNet]
  refine (wp_ite _ _ _).mpr ⟨fun _ => by simp, fun _ => ?_⟩
  exact fun _ => ⟨not_not.mp htotal, Nat.le_of_not_lt hmax, rfl⟩

/-- The PDUs carry the data of the headers `ds`, out of the buffers `sg`. -/
def Carries (sg : List Iov) (ds : List WriteData) (pdus : List OutPdu) : Prop :=
  List.Forall₂ (fun d p => ∃ part, p = .writeData d part ∧
    iovCells part = ((iovCells sg).drop d.offset).take d.length) ds pdus

/-- A data PDU in one piece has to have the size of the buffers, and a part of them must not begin
too far into one of them. -/
theorem dataSg_online {cut : Bool} {sg : List Iov} {offset len : Nat}
    (hsg : cut = true → sg.length ≤ configInitiatorMaxSg) (hbound : iovTotal sg < 4294967296)
    (hlen : 0 < len) (hle : offset + len ≤ iovTotal sg)
    (hfar : displacement offset sg < 2147483648)
    (hwhole : cut = false → offset = 0 ∧ len = iovTotal sg) :
    wp (dataSg cut sg offset len) (fun x s' => s' = s ∧ ∃ l, x = some l ∧
      iovCells l = ((iovCells sg).drop offset).take len) (fun _ _ => False) s := by
  unfold dataSg
  split
  · rename_i hcut
    simp only [cutSg, wp_bind]
    refine (wp_guarded _ _).mpr ⟨fun hn => absurd hn (Nat.not_lt.mpr (hsg hcut)), fun _ => ?_⟩
    exact ⟨rfl, modifyIov_cells hlen hle hbound hfar⟩
  · rename_i hp
    obtain ⟨rfl, rfl⟩ := hwhole (by simpa using hp)
    refine ⟨rfl, sg, rfl, ?_⟩
    rw [List.drop_zero, ← length_iovCells, List.take_length]

/-! ## Data PDUs -/

/-- The part of a transfer that a data PDU carries. -/
def piece (d : WriteData) : Nat × Nat := (d.offset, d.length)

/-- The data PDUs are numbered from `dataSN` on. -/
def Numbered : UInt32 → List WriteData → Prop
  | _, [] => True
  | dataSN, d :: ds => d.dataSN = dataSN ∧ Numbered (dataSN + 1) ds

/-- Just the last of the data PDUs has the final bit. -/
def FinalLast : List WriteData → Prop
  | [] => True
  | d :: ds => (d.final = true ↔ ds = []) ∧ FinalLast ds

/-- The PDU `p` has been sent for the header `d`, with a part of the buffers or all of them. -/
def Made (cut : Bool) (sg : List Iov) (d : WriteData) (p : OutPdu) : Prop :=
  ∃ part, p = .writeData d part ∧ d.length ≤ sockMsgMax ∧ u32 (iovTotal part) = u32 d.length ∧
    if cut then sg.length ≤ configInitiatorMaxSg ∧ modifyIov sg d.offset d.length = some part
    else part = sg

/-- How the buffers of a data PDU come out. -/
theorem dataSg_made (cut : Bool) (sg : List Iov) (offset len : Nat) (s : Session) :
    ensures (dataSg cut sg offset len) (fun x s' => s' = s ∧ ∀ part, x = some part →
      if cut then sg.length ≤ configInitiatorMaxSg ∧ modifyIov sg offset len = some part
      else part = sg) s := by
  cases cut with
  | true =>
    simp only [dataSg, if_pos, ensures, cutSg, wp_bind]
    refine (wp_guarded _ _).mpr ⟨fun _ => trivial, fun hfew => ?_⟩
    exact ⟨rfl, fun part hpart => ⟨Nat.le_of_not_lt hfew, hpart⟩⟩
  | false => exact ⟨rfl, fun part hpart => (Option.some.inj hpart).symm⟩

/-- A data PDU that is sent carries what it should just when its data do not begin too far into
a buffer. -/
theorem Made.carries_iff {cut : Bool} {sg : List Iov} {d : WriteData} {p : OutPdu}
    (h : Made cut sg d p) (hbound : iovTotal sg < 4294967296) (hlen : 0 < d.length)
    (hle : d.offset + d.length ≤ iovTotal sg) (hwhole : cut = false → d.offset = 0) :
    (∃ part, p = .writeData d part ∧
      iovCells part = ((iovCells sg).drop d.offset).take d.length) ↔
      displacement d.offset sg < 2147483648 := by
  obtain ⟨part, rfl, hmax, htotal, hpart⟩ := h
  cases cut with
  | true =>
    rw [if_pos rfl] at hpart
    rw [← modifyIov_cells_iff hlen hle hbound]
    constructor
    · rintro ⟨part', hp, hc⟩
      exact ⟨part, hpart.2, by rwa [(OutPdu.writeData.inj hp).2]⟩
    · rintro ⟨l, hl, hc⟩
      obtain rfl := Option.some.inj (hpart.2.symm.trans hl)
      exact ⟨part, rfl, hc⟩
  | false =>
    obtain rfl : part = sg := by simpa using hpart
    have hu : iovTotal part = d.length := by
      rwa [u32, u32, Nat.mod_eq_of_lt hbound, Nat.mod_eq_of_lt (by omega)] at htotal
    rw [hwhole rfl]
    refine ⟨fun _ => Nat.lt_of_le_of_lt (displacement_le 0 part) (by decide), fun _ => ?_⟩
    refine ⟨part, rfl, ?_⟩
    rw [List.drop_zero, ← hu, ← length_iovCells, List.take_length]

/-- The data PDUs that are sent carry what they should just when none of them begins too far into
a buffer. -/
theorem carries_iff {cut : WriteData → Bool} {sg : List Iov} {ds : List WriteData}
    {pdus : List OutPdu} (h : List.Forall₂ (fun d p => Made (cut d) sg d p) ds pdus)
    (hbound : iovTotal sg < 4294967296)
    (hds : ∀ d ∈ ds, 0 < d.length ∧ d.offset + d.length ≤ iovTotal sg ∧
      (cut d = false → d.offset = 0)) :
    Carries sg ds pdus ↔ ∀ d ∈ ds, displacement d.offset sg < 2147483648 := by
  induction h with
  | nil => exact ⟨fun _ => by simp, fun _ => .nil⟩
  | cons hd _ ih =>
    obtain ⟨⟨hpos, hle, hwhole⟩, hds⟩ := List.forall_mem_cons.mp hds
    rw [Carries, List.forall₂_cons, hd.carries_iff hbound hpos hle hwhole, List.forall_mem_cons]
    exact and_congr_right fun _ => ih hds

/-- Every header has been sent. -/
theorem made_mem {cut : WriteData → Bool} {sg : List Iov} {ds : List WriteData}
    {pdus : List OutPdu} (h : List.Forall₂ (fun d p => Made (cut d) sg d p) ds pdus) :
    ∀ d ∈ ds, ∃ p, Made (cut d) sg d p :=
  (List.forall₂_and_left _ _ |>.mp (h.imp fun _ p hp => ⟨⟨p, hp⟩, hp⟩)).1

/-- The headers can be read off the PDUs. -/
theorem headers_unique {R R' : WriteData → OutPdu → Prop} {ds ds' : List WriteData}
    {pdus : List OutPdu} (hR : ∀ d p, R d p → ∃ part, p = .writeData d part)
    (hR' : ∀ d p, R' d p → ∃ part, p = .writeData d part) (h : List.Forall₂ R ds pdus)
    (h' : List.Forall₂ R' ds' pdus) : ds = ds' := by
  induction h generalizing ds' with
  | nil => exact (List.forall₂_nil_right_iff.mp h').symm
  | cons hd _ ih =>
    cases h' with
    | cons hd' h' =>
      obtain ⟨part, rfl⟩ := hR _ _ hd
      obtain ⟨part', hp⟩ := hR' _ _ hd'
      rw [(OutPdu.writeData.inj hp).1, ih h']

/-! ## The answer to an R2T -/

/-- The R2T asks for data of the transfer, and the initiator can cut them out of the buffers of the
command. -/
def R2t.answerable (r : R2t) (q : ScsiCmd) (p : SessParams) : Prop :=
  match q.sendList with
  | none => False
  | some sg => sg.length ≤ configInitiatorMaxSg ∧ iovTotal sg = q.pdu.transLen ∧
      q.pdu.transLen ≤ sockMsgMax ∧ 0 < r.length.toNat ∧
      r.offset.toNat + r.length.toNat ≤ q.pdu.transLen ∧
      (r.offset = 0 → r.length.toNat < q.pdu.transLen →
        0 < p.maxDataSegLength ∧ p.maxDataSegLength < r.length.toNat)

instance (r : R2t) (q : ScsiCmd) (p : SessParams) : Decidable (R2t.answerable r q p) := by
  unfold R2t.answerable
  split <;> infer_instance

theorem wp_getScsi_of {q : ScsiCmd} (hq : (s.books.mem c).body = .scsi q)
    {Q : ScsiCmd → Session → Prop} {E : Halt → Session → Prop} :
    wp (getScsi c) Q E s ↔ Q q s := by
  simp only [getScsi, wp_bind, wp_getCmd, hq]
  exact Iff.rfl

theorem body_store_scsi {t : InitiatorCmd} {q q' : ScsiCmd} (hq : t.body = .scsi q) :
    (t.store (.scsi q')).body = .scsi q' := by
  have ht : (Body.scsi q').type = t.body.type := by
    rw [hq]
    rfl
  rw [InitiatorCmd.store, if_pos ht]

theorem body_setBody {q q' : ScsiCmd} (hq : (s.books.mem c).body = .scsi q) :
    ((s.setCmd c ((s.books.mem c).store (.scsi q'))).books.mem c).body = .scsi q' := by
  simp only [Session.setCmd, Session.setBooks, Function.update_self]
  exact body_store_scsi hq

/-- Whether a data PDU of `len` bytes is cut out of the buffers. -/
def R2t.cuts (r : R2t) (len : Nat) : Bool := decide (len < r.length.toNat) || r.offset != 0

/-- The parts of the transfer that the data PDUs of an answer should carry. -/
def R2t.segments (r : R2t) (limit n done : Nat) : List (Nat × Nat) :=
  Ost.Util.segments limit (r.offset.toNat + r.length.toNat) n (r.offset.toNat + done)

/-- The length of a data PDU is that of a segment. -/
theorem r2tDataLength_eq {p : SessParams} {offset len done : Nat} (hlen : len < 4294967296)
    (hdone : done < len) :
    r2tDataLength p len done = segmentLength p.maxDataSegLength (offset + len) (offset + done) := by
  have hrest : minus32 len done = offset + len - (offset + done) := by
    unfold minus32
    omega
  rw [r2tDataLength, segmentLength, hrest]
  exact ite_not _ _ _

/-- An answer to the R2T `r` can be sent out of the buffers `sg`, from `done` on.  If it is one
PDU that begins at 0, it has to be the whole transfer.  Otherwise there must not be too many
buffers.  No message may be too long, and none may begin too far into a buffer. -/
structure R2t.Sendable (r : R2t) (sg : List Iov) (limit n done : Nat) : Prop where
  whole : r.offset = 0 → limit = 0 ∨ r.length.toNat ≤ limit → r.length.toNat = iovTotal sg
  few : r.offset ≠ 0 ∨ limit ≠ 0 ∧ limit < r.length.toNat → sg.length ≤ configInitiatorMaxSg
  segments : ∀ x ∈ R2t.segments r limit n done,
    x.2 ≤ sockMsgMax ∧ displacement x.1 sg < 2147483648

/-- A part of the answer can be sent when all of it can. -/
theorem R2t.segments_cons {r : R2t} {limit n done : Nat} (hd : done < r.length.toNat) :
    R2t.segments r limit (n + 1) done =
      (r.offset.toNat + done, segmentLength limit (r.offset.toNat + r.length.toNat)
        (r.offset.toNat + done)) ::
      R2t.segments r limit n (done + segmentLength limit (r.offset.toNat + r.length.toNat)
        (r.offset.toNat + done)) := by
  rw [R2t.segments, Ost.Util.segments_cons (by omega), R2t.segments, Nat.add_assoc]

/-- The loop of `scsi_r2t_tx_i` sends the rest of the answer. -/
theorem sendR2tData_online {r : R2t} {sg : List Iov} {n done limit : Nat} {dataSN : UInt32}
    {acc : List WriteData} {q : ScsiCmd} (hbound : iovTotal sg < 4294967296)
    (hle : r.offset.toNat + r.length.toNat ≤ iovTotal sg) (h : R2t.Sendable r sg limit n done)
    (hd : done < r.length.toNat) (hn : r.length.toNat ≤ done + n)
    (hfirst : done = 0 ∨ limit ≠ 0 ∧ limit < r.length.toNat)
    (hlimit : s.vars.sessParams.maxDataSegLength = limit)
    (hq : (s.books.mem c).body = .scsi q) (ho : s.Online) :
    wp (sendR2tData c r sg n done dataSN acc) (fun res s' => s'.answers = s.answers ∧
      ∃ ds pdus, res = some (acc ++ ds) ∧ s'.sent = s.sent ++ pdus ∧ Carries sg ds pdus)
      (fun _ _ => False) s := by
  induction n generalizing done dataSN acc q s with
  | zero => omega
  | succ n ih =>
    have hlt : r.length.toNat < 4294967296 := r.length.toNat_lt
    have hpos : 0 < segmentLength limit (r.offset.toNat + r.length.toNat) (r.offset.toNat + done) :=
      segmentLength_pos (by omega)
    have hend := @segmentLength_le limit _ _
      (show r.offset.toNat + done ≤ r.offset.toNat + r.length.toNat by omega)
    have hseg := @segmentLength_le_limit limit
      (r.offset.toNat + r.length.toNat) (r.offset.toNat + done)
    have hshort := @segmentLength_of_lt limit
      (r.offset.toNat + r.length.toNat) (r.offset.toNat + done)
    obtain ⟨hwhole, hfew, hsegs⟩ := h
    rw [R2t.segments_cons hd] at hsegs
    obtain ⟨⟨hmax, hfar⟩, hsegs⟩ := List.forall_mem_cons.mp hsegs
    simp only [sendR2tData, wp_bind]
    rw [wp_getScsi_of hq]
    simp only [wp_getVars, @r2tDataLength_eq _ r.offset.toNat _ _ hlt hd, hlimit]
    generalize segmentLength limit _ _ = len at *
    have hoff : u32 (r.offset.toNat + done) = r.offset.toNat + done :=
      Nat.mod_eq_of_lt (by omega)
    simp only [hoff]
    refine wp_mono (dataSg_online (fun hcut => hfew ?_) hbound hpos (by omega) hfar fun hcut => ?_)
      ?_ fun _ _ => id
    · rcases Bool.or_eq_true_iff.mp hcut with hcut | hcut
      · have := of_decide_eq_true hcut
        refine .inr (hfirst.elim (fun h0 => ?_) id)
        obtain ⟨hne, rfl⟩ := hshort (by omega)
        exact ⟨hne, this⟩
      · exact .inl (by simpa using hcut)
    · -- In one piece, the PDU is the first and the last, and the R2T asks for everything.
      simp only [Bool.or_eq_false_iff, decide_eq_false_iff_not, bne_eq_false_iff_eq] at hcut
      obtain ⟨hge, hzero⟩ := hcut
      have hz : r.offset.toNat = 0 := by rw [hzero]; rfl
      have := hwhole hzero (by omega)
      omega
    rintro x s₁ ⟨rfl, part, rfl, hpart⟩
    have hu : u32 (done + len) = done + len := Nat.mod_eq_of_lt (by omega)
    simp only [hu]
    have htotal : iovTotal part = len := by
      rw [← length_iovCells, hpart, List.length_take, List.length_drop, length_iovCells]
      omega
    simp only [wp_bind]
    refine wp_mono (sockSend_online ho _ (by rw [htotal]) hmax) ?_ fun _ _ => id
    rintro ok s₂ ⟨rfl, hs₂, ho₂⟩
    simp only [Bool.not_true, Bool.false_eq_true, if_false, wp_bind, wp_setBody]
    have hbody : (s₂.books.mem c).body = .scsi q := by
      rw [hs₂]
      exact hq
    have hsent := congrArg (fun t : Session => t.sent) hs₂
    have hanswers : s₂.answers = s₁.answers := by rw [hs₂]
    have hvars : s₂.vars = s₁.vars := by rw [hs₂]
    refine (wp_ite _ _ _).mpr ⟨fun hlt' => ?_, fun hge => ?_⟩
    · obtain ⟨hne, rfl⟩ := hshort (by omega)
      refine wp_mono (ih ⟨hwhole, hfew, hsegs⟩ hlt' (by omega) (.inr ⟨hne, by omega⟩)
        (by rw [← hlimit, ← hvars]; rfl) (body_setBody hbody) ho₂) ?_ fun _ _ => id
      rintro res s' ⟨ha, ds, pdus, hres, hs', hc⟩
      refine ⟨ha.trans hanswers, _ :: ds, _ :: pdus, by rw [hres, List.append_assoc]; rfl, ?_,
        .cons ⟨part, rfl, hpart⟩ hc⟩
      rw [hs']
      exact (congrArg (· ++ pdus) hsent).trans (List.append_assoc _ _ _)
    · exact ⟨hanswers, _, _, rfl, hsent, .cons ⟨part, rfl, hpart⟩ .nil⟩

/-- An R2T that is answerable can be answered out of the buffers of the command. -/
theorem R2t.answerable.sendable {r : R2t} {q : ScsiCmd} {p : SessParams} {sg : List Iov}
    (h : R2t.answerable r q p) (hsg : q.sendList = some sg) :
    0 < r.length.toNat ∧ r.offset.toNat + r.length.toNat ≤ iovTotal sg ∧
      iovTotal sg < 4294967296 ∧ R2t.Sendable r sg p.maxDataSegLength r.length.toNat 0 := by
  simp only [R2t.answerable, hsg] at h
  obtain ⟨hfew, htotal, hmax, hpos, hle, hwhole⟩ := h
  refine ⟨hpos, htotal ▸ hle, htotal ▸ hmax.trans_lt (by decide), fun hzero hone => ?_,
    fun _ => hfew, fun x hx => ?_⟩
  · by_contra hne
    have := hwhole hzero (by omega)
    omega
  · have ht := (@tiles_segments p.maxDataSegLength _ _ _ (Nat.le_add_right r.offset.toNat
      r.length.toNat) le_rfl).mem_bounds x hx
    have := displacement_le x.1 sg
    have hm : sockMsgMax < 2147483648 := by decide
    omega

/-- `scsi_r2t_tx_i` answers the R2T of a command. -/
theorem scsiR2tTxI_online {q : ScsiCmd} {sg : List Iov} (hq : (s.books.mem c).body = .scsi q)
    (hsg : q.sendList = some sg) (htag : (s.books.mem c).tag = q.pdu.tag)
    (hpos : 0 < (s.books.mem c).r2t.length.toNat)
    (hle : (s.books.mem c).r2t.offset.toNat + (s.books.mem c).r2t.length.toNat ≤ iovTotal sg)
    (hbound : iovTotal sg < 4294967296)
    (hsend : R2t.Sendable (s.books.mem c).r2t sg s.vars.sessParams.maxDataSegLength
      (s.books.mem c).r2t.length.toNat 0) (ho : s.Online) :
    wp (scsiR2tTxI c) (fun ok s' => ok = true ∧ ∃ ds pdus, s'.answers = s.answers ++ [(c, ds)] ∧
      s'.sent = s.sent ++ pdus ∧ Carries sg ds pdus) (fun _ _ => False) s := by
  simp only [scsiR2tTxI, wp_bind, wp_getCmd]
  rw [wp_getScsi_of hq]
  simp only [hsg]
  refine (wp_ite _ _ _).mpr ⟨fun hne => absurd htag hne, fun _ => ?_⟩
  refine (wp_ite _ _ _).mpr ⟨fun h0 => ?_, fun _ => ?_⟩
  · rw [h0] at hpos
    exact absurd hpos (lt_irrefl _)
  simp only [wp_bind, wp_modifyVars]
  refine wp_mono (sendR2tData_online hbound hle hsend hpos (by omega) (.inl rfl) rfl hq ho) ?_
    fun _ _ => id
  rintro res s' ⟨hans, ds, pdus, rfl, hs', hc⟩
  refine ⟨rfl, ds, pdus, ?_, hs', hc⟩
  exact congrArg (· ++ [(c, ds)]) hans

/-- On a connection that works, the Tx worker answers the R2T of the command it executes. -/
theorem txWorkerProcI_online {q : ScsiCmd} (ht : s.tx = .sending c)
    (hq : (s.books.mem c).body = .scsi q) (hr : (s.books.mem c).r2tRequest ≠ 0)
    (ha : R2t.answerable (s.books.mem c).r2t q s.vars.sessParams) (ho : s.Online) :
    ∃ s' ds pdus sg, txWorkerProcI s = .ret ⟨⟩ s' ∧ s'.tx = .sent c ∧
      s'.answers = s.answers ++ [(c, ds)] ∧ Answers (s.books.mem c).r2t ds ∧
      s'.sent = s.sent ++ pdus ∧ q.sendList = some sg ∧ Carries sg ds pdus := by
  obtain ⟨sg, hsg⟩ : ∃ sg, q.sendList = some sg := by
    unfold R2t.answerable at ha
    split at ha
    · exact ha.elim
    · exact ⟨_, ‹_›⟩
  set s₁ := s.setCmd c ((s.books.mem c).store
    (.scsi { q with pdu := { q.pdu with tag := (s.books.mem c).tag } })) with hs₁
  have hself : s₁.books.mem c = (s.books.mem c).store
      (.scsi { q with pdu := { q.pdu with tag := (s.books.mem c).tag } }) :=
    Function.update_self _ _ _
  have hkey : (s₁.books.mem c).key = (s.books.mem c).key := by rw [hself, key_store]
  have hbody := (congrArg InitiatorCmd.body hself).trans (body_store_scsi hq)
  have hrun : wp (execute c) (fun ok s' => ok = true ∧ ∃ ds pdus,
      s'.answers = s.answers ++ [(c, ds)] ∧ s'.sent = s.sent ++ pdus ∧ Carries sg ds pdus)
      (fun _ _ => False) s := by
    simp only [execute, wp_bind, wp_getCmd, hq, executeScsi, wp_setBody]
    rw [if_pos hr, wp_bind]
    have hsend := show ScsiCmd.sendList
      { q with pdu := { q.pdu with tag := (s.books.mem c).tag } } = some sg from hsg
    have hr2t : (s₁.books.mem c).r2t = (s.books.mem c).r2t := congrArg CmdKey.r2t hkey
    obtain ⟨hpos, hle, hbound, hsendable⟩ := ha.sendable hsg
    rw [← hr2t] at hpos hle hsendable
    refine wp_mono (scsiR2tTxI_online (s := s₁) hbody hsend (congrArg CmdKey.tag hkey) hpos hle
      hbound hsendable ho) ?_ fun _ _ => id
    rintro ok s' ⟨rfl, ds, pdus, hans, hs', hc⟩
    exact ⟨rfl, ds, pdus, hans, hs', hc⟩
  obtain ⟨ok, s₂, hx, rfl, ds, pdus, hans, hs', hc⟩ := hrun.returns
  have hwhole : Answers (s.books.mem c).r2t ds := by
    have hend : ExecuteEnd c s s₂ true := (execute_spec c s).of_ret hx
    cases hend with
    | same _ h _ =>
      rw [h.answers] at hans
      exact absurd (congrArg List.length hans) (by simp)
    | answered ds' _ _ h =>
      have hds := h.answers.symm.trans hans
      simp only [List.append_cancel_left_eq, List.cons.injEq, Prod.mk.injEq, true_and,
        and_true] at hds
      exact hds ▸ h.whole
  refine ⟨{ s₂ with tx := .sent c }, ds, pdus, sg, ?_, rfl, hans, hwhole, hs', hsg, hc⟩
  rw [txWorkerProcI, get_bind, ht]
  simp only [Prog.bind_apply, hx]
  rfl

end Ost.Initiator
