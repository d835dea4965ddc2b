import Ost.Initiator.WriteData

/-!
# Immediate and unsolicited data

`scsi_command_i` sends the first part of the data of a write unasked: immediate data with the
command, and then data PDUs up to the first burst.  The parameters of the session limit both.  This
module compares what it sends with what the parameters allow (`BurstKept`).  It keeps them only for
some parameters, because the immediate data are not compared with `FirstBurstLength`, and because
the final bits take no notice of a limit that is zero or used up.
-/

namespace Ost.Initiator

open Ost.Iscsi Ost.Util Ost.Param Ost.Prog

variable {s s' : Session} {c : Nat}

/-! ## The loop -/

/-- Where the unsolicited data end. -/
def burstEnd (p : SessParams) (transLen : Nat) : Nat :=
  if p.firstBurstLength = 0 then transLen else min p.firstBurstLength transLen

/-- The length of an unsolicited data PDU is that of a segment. -/
theorem unsolicitedLength_eq {p : SessParams} {transLen b : Nat} (hT : transLen < 4294967296)
    (hF : p.firstBurstLength < 4294967296) (hb : b < burstEnd p transLen) :
    unsolicitedLength p transLen b =
      segmentLength p.maxDataSegLength (burstEnd p transLen) b := by
  have hminus {x : Nat} (hx : x < 4294967296) (hbx : b < x) : minus32 x b = x - b := by
    unfold minus32
    omega
  unfold burstEnd at *
  unfold unsolicitedLength segmentLength
  by_cases hF0 : p.firstBurstLength = 0
  · rw [if_pos hF0] at hb
    simp only [hF0, ne_eq, not_true_eq_false, if_false, if_true, hminus hT hb]
    exact ite_not _ _ _
  · rw [if_neg hF0] at hb
    simp only [hF0, ne_eq, not_false_eq_true, if_true, if_false, hminus hT (by omega),
      hminus hF (by omega)]
    by_cases hM : p.maxDataSegLength = 0
    · simp only [hM, not_true_eq_false, if_false, if_true]
      omega
    · simp only [hM, not_false_eq_true, if_false, if_true]
      omega

/-- The loop goes on up to the end of the unsolicited data. -/
theorem unsolicitedGoesOn_iff {p : SessParams} {transLen b : Nat} :
    unsolicitedGoesOn p transLen b = true ↔ b < burstEnd p transLen := by
  unfold unsolicitedGoesOn burstEnd
  split <;> simp <;> omega

/-- The data PDUs `ds` have been sent unasked, from `b` on. -/
structure UnsolicitedSent (p : SessParams) (transLen : Nat) (sg : List Iov) (n b : Nat)
    (dataSN : UInt32) (ds : List WriteData) (pdus : List OutPdu) : Prop where
  made : List.Forall₂ (fun d p => Made (d.length != transLen) sg d p) ds pdus
  pieces : ds.map piece = segments p.maxDataSegLength (burstEnd p transLen) n b
  some : ds ≠ []
  numbered : Numbered dataSN ds
  final : ∀ d ∈ ds, d.final = (d.offset + d.length == transLen ||
    decide (p.firstBurstLength ≤ d.offset + d.length))

/-- What a run of the loop of `scsi_command_i` that succeeds has sent. -/
theorem sendUnsolicited_sent {sg : List Iov} {n : Nat} {dataSN : UInt32} {q : ScsiCmd}
    {p : SessParams} (hp : s.vars.sessParams = p) (hq : (s.books.mem c).body = .scsi q)
    (hT : q.pdu.transLen < 4294967296) (hF : p.firstBurstLength < 4294967296)
    (hb : q.bytesTodev < burstEnd p q.pdu.transLen) :
    ensures (sendUnsolicited c sg n dataSN) (fun ok s' => ok = true → ∃ ds pdus,
      s'.sent = s.sent ++ pdus ∧
      UnsolicitedSent p q.pdu.transLen sg n q.bytesTodev dataSN ds pdus ∧
      ∃ q', (s'.books.mem c).body = .scsi q' ∧ q'.bytesTodev = burstEnd p q.pdu.transLen) s := by
  induction n generalizing dataSN q s with
  | zero => trivial
  | succ n ih =>
    have hstop : burstEnd p q.pdu.transLen ≤ q.pdu.transLen := by
      unfold burstEnd
      split <;> omega
    have hpos := @segmentLength_pos p.maxDataSegLength _ _ hb
    have hend := @segmentLength_le p.maxDataSegLength _ _ hb.le
    have hsegs := @segments_cons p.maxDataSegLength _ _ n hb
    simp only [ensures, sendUnsolicited, wp_bind]
    rw [wp_getScsi_of hq]
    simp only [wp_getVars, hp, unsolicitedLength_eq hT hF hb]
    generalize segmentLength _ _ _ = len at *
    have hu : u32 (q.bytesTodev + len) = q.bytesTodev + len := Nat.mod_eq_of_lt (by omega)
    refine (wp_ite _ _ _).mpr ⟨fun h0 => absurd h0 (Nat.ne_of_gt hpos), fun _ => ?_⟩
    simp only [unsolicitedFinal, hu, wp_bind]
    set data : WriteData :=
      { final := q.bytesTodev + len == q.pdu.transLen ||
          decide (q.bytesTodev + len ≥ p.firstBurstLength)
        length := len, lun := 0, tag := q.pdu.tag, transferTag := 0xffffffff
        expStatSN := s.vars.expStatSN, dataSN, offset := q.bytesTodev } with hdata
    refine wp_mono (dataSg_made _ sg _ _ s) ?_ fun _ _ _ => trivial
    rintro x s₁ ⟨rfl, hx⟩
    cases x with
    | none => exact fun h => absurd h (by simp)
    | some part =>
      simp only [wp_bind]
      refine (sockSend_sent _ hpos part s₁).mono fun ok s₂ h₂ => ?_
      cases ok with
      | false => exact fun h => absurd h (by simp)
      | true =>
        obtain ⟨htotal, hmax, hs₂⟩ := h₂ rfl
        have hbody : (s₂.books.mem c).body = .scsi q := by
          rw [hs₂]
          exact hq
        have hvars : s₂.vars = s₁.vars := by rw [hs₂]
        have hsent := congrArg (fun t : Session => t.sent) hs₂
        simp only [Bool.not_true, Bool.false_eq_true, if_false, wp_bind, wp_setBody]
        refine (wp_ite _ _ _).mpr ⟨fun hgo => ?_, fun hgo => ?_⟩
        · have hb' := unsolicitedGoesOn_iff.mp hgo
          refine (ih (q := { q with bytesTodev := q.bytesTodev + len })
            (by rw [← hp, ← hvars]; rfl) (body_setBody hbody) hT hb').mono ?_
          intro ok s' hres hok
          obtain ⟨ds, pdus, hs', ⟨hmade, hpieces, hne, hnum, hfin⟩, hcount⟩ := hres hok
          refine ⟨data :: ds, _ :: pdus, ?_,
            ⟨.cons ⟨part, rfl, hmax, htotal, hx part rfl⟩ hmade, ?_, List.cons_ne_nil _ _,
            ?_, ?_⟩, hcount⟩
          · rw [hs']
            exact (congrArg (· ++ pdus) hsent).trans (List.append_assoc _ _ _)
          · rw [hsegs, List.map_cons, hpieces]
            rfl
          · exact ⟨rfl, hnum⟩
          · exact fun d hd => (List.mem_cons.mp hd).elim (fun h => h ▸ rfl) (hfin d)
        · have hlast : q.bytesTodev + len = burstEnd p q.pdu.transLen :=
            hend.antisymm (Nat.le_of_not_lt fun h => hgo (unsolicitedGoesOn_iff.mpr h))
          refine fun _ => ⟨[data], [_], hsent,
            ⟨.cons ⟨part, rfl, hmax, htotal, hx part rfl⟩ .nil, ?_, List.cons_ne_nil _ _,
            ⟨rfl, trivial⟩, ?_⟩, _, body_setBody hbody, hlast⟩
          · rw [hsegs, hlast, segments_stop]
            rfl
          · exact fun d hd => (List.mem_singleton.mp hd) ▸ rfl

/-! ## The command -/

/-- Only outcomes of transmissions have been used up. -/
def Used (s s' : Session) : Prop := s' = { s with net := s'.net }

instance instIsPreorderUsed : IsPreorder Session Used where
  refl _ := rfl
  trans a b d h h' := by
    rw [Used] at *
    rw [h', h]

instance used_nextNet : Within Used nextNet := ⟨fun _ => rfl⟩

instance used_sockData (len : Nat) (data : List Iov) : Within Used (sockData len data) := by
  unfold sockData
  infer_instance

instance used_whenever (b : Prop) [Decidable b] (x : Handler Bool) [Within Used x] :
    Within Used (whenever b x) := within_ite b x (pure true)

/-- What a transmission of a command PDU that worked says about it. -/
theorem sendCommandPdu_sent (q : ScsiCmd) (sg : List Iov) (s : Session) :
    ensures (sendCommandPdu q (some sg)) (fun ok s' => ok = true → ∃ part,
      s' = { s with net := s'.net, sent := s.sent ++ [.scsi q.pdu part] } ∧
      if q.pdu.length = 0 then part = [] else modifyIov sg 0 q.pdu.length = some part) s := by
  unfold sendCommandPdu
  split
  · exact fun h => absurd h (by simp)
  rename_i part hpart
  refine ensures.bind (used_nextNet.run s) fun ok s₁ h₁ => ?_
  refine (wp_ite _ _ _).mpr ⟨fun _ h => absurd h (by simp), fun _ => ?_⟩
  refine ensures.bind ((used_whenever _ nextNet).run s₁) fun ok s₂ h₂ => ?_
  refine (wp_ite _ _ _).mpr ⟨fun _ h => absurd h (by simp), fun _ => ?_⟩
  refine ensures.bind ((used_whenever _ (sockData _ part)).run s₂) fun ok s₃ h₃ => ?_
  refine (wp_ite _ _ _).mpr ⟨fun _ h => absurd h (by simp), fun _ => fun _ => ⟨part, ?_, ?_⟩⟩
  · have h : Used s s₃ := Trans.trans (Trans.trans h₁ h₂) h₃
    rw [Used] at h
    rw [h]
  · by_cases h0 : q.pdu.length = 0
    · rw [if_pos h0]
      simpa [h0] using hpart.symm
    · rw [if_neg h0]
      simpa [h0] using hpart

/-- What has been sent for the write `q`, out of the buffers `sg`: the command PDU with the
immediate data, and the data PDUs `ds`. -/
structure CommandSent (c : Nat) (q : ScsiCmd) (p : SessParams) (sg : List Iov) (cmd : ScsiCmdPdu)
    (part : List Iov) (ds : List WriteData) (pdus : List OutPdu) (s s' : Session) : Prop where
  sent : s'.sent = s.sent ++ .scsi cmd part :: pdus
  length : cmd.length = immediateLength p true q.pdu.transLen
  final : cmd.final = commandFinal p true q.pdu.transLen
  part : if cmd.length = 0 then part = [] else modifyIov sg 0 cmd.length = some part
  data : if sendsUnsolicited p true q.pdu.transLen cmd.length = true then
    UnsolicitedSent p q.pdu.transLen sg (q.pdu.transLen + 1) cmd.length 0 ds pdus else
    ds = [] ∧ pdus = []
  counted : ∃ q', (s'.books.mem c).body = .scsi q' ∧ q'.bytesTodev =
    if sendsUnsolicited p true q.pdu.transLen cmd.length = true then burstEnd p q.pdu.transLen
    else cmd.length

theorem immediateLength_le (p : SessParams) (todev : Bool) (transLen : Nat) :
    immediateLength p todev transLen ≤ transLen := by
  unfold immediateLength
  split <;> [split; skip] <;> omega

/-- When there are data PDUs. -/
theorem sendsUnsolicited_iff (p : SessParams) (transLen : Nat) :
    sendsUnsolicited p true transLen (immediateLength p true transLen) = true ↔
      p.initialR2t = false ∧ immediateLength p true transLen < burstEnd p transLen := by
  have hle := immediateLength_le p true transLen
  generalize immediateLength p true transLen = b at *
  simp only [sendsUnsolicited, burstEnd, Bool.true_and, Bool.and_eq_true, Bool.or_eq_true,
    Bool.not_eq_true', bne_iff_ne, beq_iff_eq, decide_eq_true_eq, and_assoc]
  refine and_congr_right fun _ => ?_
  split <;> omega

/-- What a run of `scsi_command_i` that succeeds has sent. -/
theorem scsiCommandI_sent {q : ScsiCmd} {p : SessParams} {sg : List Iov}
    (hp : s.vars.sessParams = p) (hq : (s.books.mem c).body = .scsi q)
    (htodev : q.pdu.todev = true) (hsg : q.sendList = some sg) (hT : q.pdu.transLen < 4294967296)
    (hF : p.firstBurstLength < 4294967296) :
    ensures (scsiCommandI c) (fun ok s' => ok = true → ∃ cmd part ds pdus,
      CommandSent c q p sg cmd part ds pdus s s') s := by
  simp only [ensures, scsiCommandI, wp_bind]
  rw [wp_getScsi_of hq]
  simp only [wp_getVars, hp, htodev, if_true, hsg, Option.getD_some]
  refine (wp_ite _ _ _).mpr ⟨fun _ h => absurd h (by simp), fun _ => ?_⟩
  refine (wp_ite _ _ _).mpr ⟨fun _ h => absurd h (by simp), fun _ => ?_⟩
  refine (wp_ite _ _ _).mpr ⟨fun _ h => absurd h (by simp), fun _ => ?_⟩
  simp only [wp_bind, wp_setBody]
  set q₁ : ScsiCmd := { q with
    status := 0, bytesTodev := 0, bytesFromdev := 0
    pdu := { q.pdu with
      todev := true, expStatSN := s.vars.expStatSN, cmdSN := s.vars.cmdSN
      length := immediateLength p true q.pdu.transLen
      final := commandFinal p true q.pdu.transLen } }
  set s₁ := s.setCmd c ((s.books.mem c).store (.scsi q₁))
  have hbody₁ : (s₁.books.mem c).body = .scsi q₁ := body_setBody hq
  refine (sendCommandPdu_sent q₁ sg s₁).mono fun ok s₂ h₂ => ?_
  cases ok with
  | false => exact fun h => absurd h (by simp)
  | true =>
    obtain ⟨part, hs₂, hpart⟩ := h₂ rfl
    have hbody₂ : (s₂.books.mem c).body = .scsi q₁ := by
      rw [hs₂]
      exact hbody₁
    have hsent₂ := congrArg (fun t : Session => t.sent) hs₂
    simp only [Bool.not_true, Bool.false_eq_true, if_false, wp_bind, wp_setBody]
    set q₂ : ScsiCmd := { q₁ with bytesTodev := immediateLength p true q.pdu.transLen }
    set s₃ := s₂.setCmd c ((s₂.books.mem c).store (.scsi q₂))
    have hbody₃ : (s₃.books.mem c).body = .scsi q₂ := body_setBody hbody₂
    have hsent₃ : s₃.sent = s.sent ++ [.scsi q₁.pdu part] := hsent₂
    have hp₃ : s₃.vars.sessParams = p := by
      rw [← hp, show s₃.vars = s₂.vars from rfl, hs₂]
      rfl
    refine (wp_ite _ _ _).mpr ⟨fun hsends => ?_, fun hsends _ => ?_⟩
    · have hb := (sendsUnsolicited_iff p _).mp hsends
      simp only [wp_bind]
      refine (sendUnsolicited_sent (q := q₂) hp₃ hbody₃ hT hF hb.2).mono fun ok s₄ h₄ => ?_
      cases ok with
      | false => exact fun h => absurd h (by simp)
      | true =>
        obtain ⟨ds, pdus, hs₄, huns, hcount⟩ := h₄ rfl
        refine fun _ => ⟨q₁.pdu, part, ds, pdus, ?_, rfl, rfl, hpart, ?_, ?_⟩
        · change s₄.sent = _
          rw [hs₄, hsent₃, List.append_assoc]
          rfl
        · rw [if_pos hsends]
          exact huns
        · rw [if_pos hsends]
          exact hcount
    · refine ⟨q₁.pdu, part, [], [], hsent₃, rfl, rfl, hpart, ?_, q₂, hbody₃, ?_⟩
      · rw [if_neg hsends]
        exact ⟨rfl, rfl⟩
      · rw [if_neg hsends]

/-! ## What the parameters allow -/

/-- A write has been sent as the parameters allow: immediate data and data PDUs carry
consecutive slices from 0 on, each of at most `MaxRecvDataSegmentLength` bytes and together of at
most `FirstBurstLength`, and just the last of the PDUs has the final bit. -/
def WriteSent (c : Nat) (p : SessParams) (sg : List Iov) (s s' : Session) : Prop :=
  ∃ (cmd : ScsiCmdPdu) (part : List Iov) (ds : List WriteData) (pdus : List OutPdu) (total : Nat),
    s'.sent = s.sent ++ .scsi cmd part :: pdus ∧
    iovCells part = (iovCells sg).take cmd.length ∧ Carries sg ds pdus ∧
    Tiles 0 ((0, cmd.length) :: ds.map piece) total ∧ Numbered 0 ds ∧
    (∀ x ∈ (0, cmd.length) :: ds.map piece, p.maxDataSegLength = 0 ∨ x.2 ≤ p.maxDataSegLength) ∧
    (p.firstBurstLength = 0 ∨ total ≤ p.firstBurstLength) ∧
    (cmd.final = true ↔ ds = []) ∧ FinalLast ds ∧
    ∃ q', (s'.books.mem c).body = .scsi q' ∧ q'.bytesTodev = total

/-- The parameters for which `scsi_command_i` sends a write as they allow.  The immediate data must
not exceed the first burst.  If data are left that are to be sent unasked, the immediate data must
not use up the first burst either, without a first burst the rest must be one data PDU, and no data
PDU may begin too far into a buffer. -/
def BurstKept (p : SessParams) (transLen : Nat) (sg : List Iov) : Prop :=
  (p.firstBurstLength = 0 ∨ immediateLength p true transLen ≤ p.firstBurstLength) ∧
  (p.initialR2t = false → immediateLength p true transLen < transLen →
    (p.firstBurstLength ≠ 0 → immediateLength p true transLen ≠ p.firstBurstLength) ∧
    (p.firstBurstLength = 0 → p.maxDataSegLength = 0 ∨
      transLen - immediateLength p true transLen ≤ p.maxDataSegLength) ∧
    ∀ x ∈ segments p.maxDataSegLength (burstEnd p transLen) (transLen + 1)
      (immediateLength p true transLen), displacement x.1 sg < 2147483648)

/-- When the final bits of the data PDUs are right. -/
theorem finalLast_iff {p : SessParams} {transLen n b : Nat} {ds : List WriteData}
    (hb : b < burstEnd p transLen) (hn : burstEnd p transLen ≤ b + n)
    (hpieces : ds.map piece = segments p.maxDataSegLength (burstEnd p transLen) n b)
    (hfinal : ∀ d ∈ ds, d.final = (d.offset + d.length == transLen ||
      decide (p.firstBurstLength ≤ d.offset + d.length))) :
    FinalLast ds ↔ (p.firstBurstLength = 0 → p.maxDataSegLength = 0 ∨
      transLen - b ≤ p.maxDataSegLength) := by
  induction n generalizing b ds with
  | zero => omega
  | succ n ih =>
    rw [segments_cons hb] at hpieces
    obtain ⟨d, ds, rfl⟩ := List.exists_cons_of_ne_nil (l := ds) (by rintro rfl; simp at hpieces)
    obtain ⟨hd, hpieces⟩ := List.cons.inj (List.map_cons .. ▸ hpieces)
    obtain ⟨hfin, hfinal⟩ := List.forall_mem_cons.mp hfinal
    obtain ⟨hoff, hlen⟩ := Prod.mk.inj hd
    have hpos := @segmentLength_pos p.maxDataSegLength _ _ hb
    have hend := @segmentLength_le p.maxDataSegLength _ _ hb.le
    have hnil : ds = [] ↔ b + segmentLength p.maxDataSegLength (burstEnd p transLen) b =
        burstEnd p transLen := by
      rw [← @segments_eq_nil_iff p.maxDataSegLength _ _ n hend (by omega), ← hpieces,
        List.map_eq_nil_iff]
    rw [FinalLast, hfin, hoff, hlen]
    by_cases hF0 : p.firstBurstLength = 0
    · have hstop : burstEnd p transLen = transLen := if_pos hF0
      have hone := @segmentLength_eq_iff p.maxDataSegLength _ _ hb
      simp only [hF0, Nat.zero_le, decide_true, Bool.or_true, true_iff, true_implies]
      rw [hnil, hone, hstop]
      refine ⟨And.left, fun h => ⟨h, ?_⟩⟩
      rw [hnil.mpr (hone.mpr (hstop.symm ▸ h))]
      trivial
    · have hstop : burstEnd p transLen = min p.firstBurstLength transLen := if_neg hF0
      simp only [hF0, false_implies, iff_true, Bool.or_eq_true, beq_iff_eq, decide_eq_true_eq]
      refine ⟨by rw [hnil]; omega, ?_⟩
      rcases hend.eq_or_lt with heq | hlt
      · rw [hnil.mpr heq]
        trivial
      · exact (ih hlt (by omega) hpieces hfinal).mpr fun h => absurd h hF0

namespace CommandSent

variable {q : ScsiCmd} {p : SessParams} {sg part : List Iov} {cmd : ScsiCmdPdu}
  {ds : List WriteData} {pdus : List OutPdu}

/-- The data PDUs can be read off what has been sent. -/
theorem headers (h : CommandSent c q p sg cmd part ds pdus s s') :
    List.Forall₂ (fun d p => ∃ part, p = OutPdu.writeData d part) ds pdus := by
  have hdata := h.data
  split at hdata
  · exact hdata.made.imp fun _ _ ⟨part, hp, _⟩ => ⟨part, hp⟩
  · rw [hdata.1, hdata.2]
    exact .nil

/-- The immediate data are the beginning of the buffers. -/
theorem cells (h : CommandSent c q p sg cmd part ds pdus s s')
    (htotal : iovTotal sg = q.pdu.transLen) (hT : q.pdu.transLen < 4294967296) :
    iovCells part = (iovCells sg).take cmd.length := by
  have hpart := h.part
  have hle := immediateLength_le p true q.pdu.transLen
  rw [← h.length] at hle
  split at hpart
  · rename_i h0
    rw [hpart, h0, List.take_zero, iovCells_nil]
  · rename_i h0
    have hd : displacement 0 sg < 2147483648 :=
      Nat.lt_of_le_of_lt (displacement_le 0 sg) (by decide)
    obtain ⟨l, hl, hc⟩ := modifyIov_cells (Nat.pos_of_ne_zero h0)
      (show 0 + cmd.length ≤ iovTotal sg by omega) (by omega) hd
    obtain rfl := Option.some.inj (hpart.symm.trans hl)
    exact hc

/-- What has been sent is as the parameters allow just when this can be said of the PDUs. -/
theorem writeSent_iff (h : CommandSent c q p sg cmd part ds pdus s s')
    (htotal : iovTotal sg = q.pdu.transLen) (hT : q.pdu.transLen < 4294967296) :
    WriteSent c p sg s s' ↔ ∃ total, Carries sg ds pdus ∧
      Tiles 0 ((0, cmd.length) :: ds.map piece) total ∧ Numbered 0 ds ∧
      (∀ x ∈ (0, cmd.length) :: ds.map piece, p.maxDataSegLength = 0 ∨
        x.2 ≤ p.maxDataSegLength) ∧
      (p.firstBurstLength = 0 ∨ total ≤ p.firstBurstLength) ∧
      (cmd.final = true ↔ ds = []) ∧ FinalLast ds ∧
      ∃ q', (s'.books.mem c).body = .scsi q' ∧ q'.bytesTodev = total := by
  constructor
  · rintro ⟨cmd', part', ds', pdus', total, hs', -, hcarry, hrest⟩
    obtain ⟨hcmd, rfl⟩ := List.cons.inj (List.append_cancel_left (h.sent.symm.trans hs'))
    obtain ⟨rfl, rfl⟩ := OutPdu.scsi.inj hcmd
    obtain rfl : ds = ds' := headers_unique (fun _ _ hp => hp)
      (fun _ _ ⟨part, hp, _⟩ => ⟨part, hp⟩) h.headers hcarry
    exact ⟨total, hcarry, hrest⟩
  · rintro ⟨total, hrest⟩
    exact ⟨cmd, part, ds, pdus, total, h.sent, h.cells htotal hT, hrest⟩

/-- No more immediate data are sent than fit into a data segment. -/
theorem immediate_le (h : CommandSent c q p sg cmd part ds pdus s s') :
    p.maxDataSegLength = 0 ∨ cmd.length ≤ p.maxDataSegLength := by
  rw [h.length, immediateLength]
  split <;> [split; skip] <;> omega

/-- The final bit of the command. -/
theorem final_iff (h : CommandSent c q p sg cmd part ds pdus s s') (hT0 : 0 < q.pdu.transLen) :
    cmd.final = true ↔ p.initialR2t = true ∨ cmd.length = q.pdu.transLen := by
  rw [h.final, h.length, commandFinal]
  split
  · rw [Bool.or_eq_true, beq_iff_eq, or_comm]
  · rename_i himm
    rw [immediateLength, if_neg himm]
    simp only [hT0.ne, or_false]

/-- The case with data PDUs. -/
theorem writeSent_iff_of_data (h : CommandSent c q p sg cmd part ds pdus s s')
    (hT0 : 0 < q.pdu.transLen) (htotal : iovTotal sg = q.pdu.transLen)
    (hT : q.pdu.transLen < 4294967296) (hr2t : p.initialR2t = false)
    (hb : cmd.length < burstEnd p q.pdu.transLen) :
    WriteSent c p sg s s' ↔ BurstKept p q.pdu.transLen sg := by
  have hsends : sendsUnsolicited p true q.pdu.transLen cmd.length = true := by
    rw [h.length] at hb ⊢
    exact (sendsUnsolicited_iff p _).mpr ⟨hr2t, hb⟩
  obtain ⟨hmade, hpieces, hne, hnum, hfin⟩ := (if_pos hsends).mp h.data
  have hstop : burstEnd p q.pdu.transLen ≤ q.pdu.transLen ∧
      (p.firstBurstLength = 0 ∨ burstEnd p q.pdu.transLen ≤ p.firstBurstLength) := by
    unfold burstEnd
    split <;> omega
  have htiles : Tiles 0 ((0, cmd.length) :: ds.map piece) (burstEnd p q.pdu.transLen) := by
    rw [hpieces]
    exact .cons (Nat.zero_add _ ▸ tiles_segments hb.le (by omega))
  have hmem : ∀ d ∈ ds, piece d ∈ segments p.maxDataSegLength (burstEnd p q.pdu.transLen)
      (q.pdu.transLen + 1) cmd.length := fun d hd => hpieces ▸ List.mem_map_of_mem hd
  have hcarries : Carries sg ds pdus ↔ ∀ d ∈ ds, displacement d.offset sg < 2147483648 := by
    refine @Ost.Initiator.carries_iff (fun d => d.length != q.pdu.transLen) _ _ _ hmade
      (by omega) fun d hd => ?_
    have hin : d.offset + d.length ≤ burstEnd p q.pdu.transLen :=
      (htiles.mem_bounds _ (List.mem_cons_of_mem _ (List.mem_map_of_mem hd))).2
    refine ⟨segments_pos _ _ _ (hmem d hd), by omega, fun hcut => ?_⟩
    have : d.length = q.pdu.transLen := by simpa using hcut
    omega
  have hfinal := finalLast_iff hb (by omega) hpieces hfin
  rw [h.writeSent_iff htotal hT, BurstKept, ← h.length]
  constructor
  · rintro ⟨total, hcarry, -, -, -, -, -, hlast, -⟩
    refine ⟨by omega, fun _ _ => ⟨fun hF => by omega, hfinal.mp hlast, fun x hx => ?_⟩⟩
    rw [← hpieces] at hx
    obtain ⟨d, hd, rfl⟩ := List.mem_map.mp hx
    exact hcarries.mp hcarry d hd
  · rintro ⟨-, hkept⟩
    obtain ⟨-, hlast, hfar⟩ := hkept hr2t (by omega)
    refine ⟨_, hcarries.mpr fun d hd => hfar _ (hmem d hd), htiles, hnum, ?_, hstop.2, ?_,
      hfinal.mpr hlast, ?_⟩
    · rw [hpieces]
      exact List.forall_mem_cons.mpr ⟨h.immediate_le, segments_le_limit _ _⟩
    · rw [h.final_iff hT0, hr2t]
      simp only [Bool.false_eq_true, false_or, hne, iff_false]
      omega
    · have hcount := h.counted
      rwa [if_pos hsends] at hcount

/-- The case without data PDUs. -/
theorem writeSent_iff_of_no_data (h : CommandSent c q p sg cmd part ds pdus s s')
    (hT0 : 0 < q.pdu.transLen) (htotal : iovTotal sg = q.pdu.transLen)
    (hT : q.pdu.transLen < 4294967296)
    (hno : ¬(p.initialR2t = false ∧ cmd.length < burstEnd p q.pdu.transLen)) :
    WriteSent c p sg s s' ↔ BurstKept p q.pdu.transLen sg := by
  have hsends : ¬sendsUnsolicited p true q.pdu.transLen cmd.length = true := by
    rw [h.length] at hno ⊢
    exact fun hs => hno ((sendsUnsolicited_iff p _).mp hs)
  obtain ⟨rfl, rfl⟩ := (if_neg hsends).mp h.data
  have hle := h.length ▸ immediateLength_le p true q.pdu.transLen
  have hstop : p.firstBurstLength = 0 ∧ burstEnd p q.pdu.transLen = q.pdu.transLen ∨
      p.firstBurstLength ≠ 0 ∧
        burstEnd p q.pdu.transLen = min p.firstBurstLength q.pdu.transLen := by
    unfold burstEnd
    split <;> simp [*]
  have htiles : Tiles 0 [(0, cmd.length)] cmd.length := .cons (Nat.zero_add _ ▸ .nil _)
  rw [h.writeSent_iff htotal hT, BurstKept, ← h.length]
  constructor
  · rintro ⟨total, -, ht, -, -, hF, hlast, -⟩
    obtain rfl := ht.unique htiles
    refine ⟨hF, fun hr2t hlt => ?_⟩
    have := ((h.final_iff hT0).mp (hlast.mpr rfl)).resolve_left (by simp [hr2t])
    omega
  · rintro ⟨hF, hkept⟩
    refine ⟨_, .nil, htiles, trivial, List.forall_mem_cons.mpr ⟨h.immediate_le, by simp⟩, hF, ?_,
      trivial, ?_⟩
    · rw [h.final_iff hT0, iff_true_right rfl]
      by_contra hne
      obtain ⟨hr2t, hlt⟩ := not_or.mp hne
      have hr2t : p.initialR2t = false := by simpa using hr2t
      have hfull := (hkept hr2t (by omega)).1
      exact hno ⟨hr2t, by omega⟩
    · have hcount := h.counted
      rwa [if_neg hsends] at hcount

end CommandSent

/-- When `scsi_command_i` succeeds, it has sent the write as the parameters allow if and only if
they are such that it keeps them. -/
theorem scsiCommandI_writeSent {q : ScsiCmd} {sg : List Iov}
    (hq : (s.books.mem c).body = .scsi q) (htodev : q.pdu.todev = true)
    (hsg : q.sendList = some sg) (htotal : iovTotal sg = q.pdu.transLen)
    (hT0 : 0 < q.pdu.transLen) (hT : q.pdu.transLen < 4294967296)
    (hF : s.vars.sessParams.firstBurstLength < 4294967296)
    (hret : scsiCommandI c s = .ret true s') :
    WriteSent c s.vars.sessParams sg s s' ↔
      BurstKept s.vars.sessParams q.pdu.transLen sg := by
  obtain ⟨cmd, part, ds, pdus, h⟩ := (scsiCommandI_sent rfl hq htodev hsg hT hF).of_ret hret rfl
  by_cases hb : s.vars.sessParams.initialR2t = false ∧
      cmd.length < burstEnd s.vars.sessParams q.pdu.transLen
  · exact h.writeSent_iff_of_data hT0 htotal hT hb.1 hb.2
  · exact h.writeSent_iff_of_no_data hT0 htotal hT hb

/-- A session with a write of 16 bytes. -/
def smallBurst (p : SessParams) : Session :=
  (smallSession.setCmd 1 (freshCmd 0 smallWrite true)).setVars
    { smallSession.vars with sessParams := p }

/-- Parameters with immediate data of at most 8 bytes, and a first burst of 12 bytes. -/
def smallLimits : SessParams :=
  { maxBurstLength := 64, firstBurstLength := 12, maxDataSegLength := 8, initialR2t := false
    immediateData := true }

/-- With 8 bytes of immediate data and a first burst of 12 bytes, 4 bytes follow. -/
theorem scsiCommandI_writeSent_small :
    ∃ s', scsiCommandI 1 (smallBurst smallLimits) = .ret true s' ∧
      WriteSent 1 smallLimits [⟨.staging 0, 0, 16⟩] (smallBurst smallLimits) s' := by
  have hkept : BurstKept smallLimits 16 [⟨.staging 0, 0, 16⟩] :=
    ⟨by decide, fun _ _ => ⟨by decide, by decide, by decide⟩⟩
  have hiff := @scsiCommandI_writeSent (smallBurst smallLimits) _ 1 _ _ rfl rfl rfl rfl (by decide)
    (by decide) (by decide) rfl
  exact ⟨_, rfl, hiff.mpr hkept⟩

/-- With a first burst of 4 bytes all 16 bytes are sent as immediate data. -/
theorem scsiCommandI_burst_exceeded : ∃ s',
    scsiCommandI 1 (smallBurst { smallLimits with firstBurstLength := 4, maxDataSegLength := 0 }) =
      .ret true s' ∧
    ¬WriteSent 1 { smallLimits with firstBurstLength := 4, maxDataSegLength := 0 }
      [⟨.staging 0, 0, 16⟩]
      (smallBurst { smallLimits with firstBurstLength := 4, maxDataSegLength := 0 }) s' := by
  refine ⟨_, rfl, fun hsent => ?_⟩
  obtain ⟨cmd, part, ds, pdus, h⟩ := (scsiCommandI_sent (c := 1)
    (s := smallBurst { smallLimits with firstBurstLength := 4, maxDataSegLength := 0 }) rfl rfl rfl
    rfl (by decide) (by decide)).of_ret rfl rfl
  have hlength : cmd.length = 16 := h.length
  have hkept := (h.writeSent_iff_of_no_data (by decide) rfl (by decide)
    (by rw [hlength]; decide)).mp hsent
  exact absurd hkept.1 (by decide)

end Ost.Initiator
