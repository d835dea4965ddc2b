import Ost.Initiator.R2tData
import Ost.Initiator.UnsolicitedData

/-!
# A write, from one R2T to the next

While the initiator sends the data of a write, the write keeps its buffers, its size and its tag,
and the session its parameters and its connection (`Steady`).  So after `scsi_command_i`, or after
an answer of `scsi_r2t_tx_i`, the next R2T finds the session in a state in which it can be answered
(`Holds`).
-/

namespace Ost.Initiator

open Ost.Iscsi Ost.Util Ost.Param Ost.Prog

/-! ## What stays -/

/-- Two states of the same write. -/
structure SameWrite (q q' : ScsiCmd) : Prop where
  send : q'.send = q.send
  tag : q'.pdu.tag = q.pdu.tag
  transLen : q'.pdu.transLen = q.pdu.transLen

/-- The command `c` stays the write that it is, and the session keeps its parameters and its
connection. -/
structure Steady (c : Nat) (s s' : Session) : Prop where
  params : s'.vars.sessParams = s.vars.sessParams
  tag : (s'.books.mem c).tag = (s.books.mem c).tag
  net : s'.net <:+ s.net
  body : ∀ q, (s.books.mem c).body = .scsi q →
    ∃ q', (s'.books.mem c).body = .scsi q' ∧ SameWrite q q'

variable {c : Nat} {q q' : ScsiCmd} {s s' : Session}

instance instIsPreorderSameWrite : IsPreorder ScsiCmd SameWrite where
  refl _ := ⟨rfl, rfl, rfl⟩
  trans _ _ _ h h' := ⟨h'.send.trans h.send, h'.tag.trans h.tag, h'.transLen.trans h.transLen⟩

theorem SameWrite.sendList (h : SameWrite q q') : q'.sendList = q.sendList := by
  rw [ScsiCmd.sendList, ScsiCmd.sendList, h.send, h.transLen]

instance instIsPreorderSteady : IsPreorder Session (Steady c) where
  refl _ := ⟨rfl, rfl, List.suffix_rfl, fun q hq => ⟨q, hq, refl q⟩⟩
  trans _ _ _ h h' := by
    refine ⟨h'.params.trans h.params, h'.tag.trans h.tag, h'.net.trans h.net, fun q hq => ?_⟩
    obtain ⟨q₁, hq₁, h₁⟩ := h.body q hq
    obtain ⟨q₂, hq₂, h₂⟩ := h'.body q₁ hq₁
    exact ⟨q₂, hq₂, Trans.trans h₁ h₂⟩

/-- A connection that works goes on working. -/
theorem Steady.online (h : Steady c s s') (ho : s.Online) : s'.Online := fun b hb =>
  ho b (h.net.subset hb)

/-- Storing another state of the write. -/
theorem Steady.setBody (hq : (s.books.mem c).body = .scsi q) (h : SameWrite q q') :
    Steady c s (s.setCmd c ((s.books.mem c).store (.scsi q'))) := by
  refine ⟨rfl, ?_, List.suffix_rfl, fun q₀ hq₀ => ⟨q', body_setBody hq, ?_⟩⟩
  · exact (congrArg InitiatorCmd.tag (Function.update_self ..)).trans
      (congrArg CmdKey.tag (key_store (s.books.mem c) (.scsi q')))
  · obtain rfl := Body.scsi.inj (hq.symm.trans hq₀)
    exact h

instance steady_nextNet : Within (Steady c) nextNet :=
  ⟨fun s => ⟨rfl, rfl, List.tail_suffix s.net, fun q hq => ⟨q, hq, refl q⟩⟩⟩

instance steady_logSent (p : OutPdu) : Within (Steady c) (logSent p) :=
  ⟨fun _ => ⟨rfl, rfl, List.suffix_rfl, fun q hq => ⟨q, hq, refl q⟩⟩⟩

instance steady_sockData (len : Nat) (data : List Iov) : Within (Steady c) (sockData len data) := by
  unfold sockData
  infer_instance

instance steady_sockSend (p : OutPdu) (len : Nat) (data : List Iov) :
    Within (Steady c) (sockSend p len data) := by
  unfold sockSend
  infer_instance

instance steady_dataSg (cut : Bool) (sg : List Iov) (offset len : Nat) :
    Within (Steady c) (dataSg cut sg offset len) := by
  unfold dataSg cutSg
  infer_instance

instance steady_whenever (b : Prop) [Decidable b] (x : Handler Bool) [Within (Steady c) x] :
    Within (Steady c) (whenever b x) := within_ite b x (pure true)

instance steady_sendCommandPdu (q : ScsiCmd) (sg : Option (List Iov)) :
    Within (Steady c) (sendCommandPdu q sg) := by
  unfold sendCommandPdu
  split <;> infer_instance

/-- The loop of `scsi_r2t_tx_i` keeps the write. -/
theorem sendR2tData_steady {r : R2t} {sg : List Iov} {n done : Nat} {dataSN : UInt32}
    {acc : List WriteData} (hq : (s.books.mem c).body = .scsi q) :
    ensures (sendR2tData c r sg n done dataSN acc) (fun _ s' => Steady c s s') s := by
  induction n generalizing done dataSN acc q s with
  | zero => trivial
  | succ n ih =>
    simp only [ensures, sendR2tData, wp_bind]
    rw [wp_getScsi_of hq]
    simp only [wp_getVars]
    refine ((steady_dataSg (c := c) _ _ _ _).run s).mono fun x s₁ h₁ => ?_
    cases x with
    | none => exact h₁
    | some part =>
      simp only [wp_bind]
      refine ((steady_sockSend (c := c) _ _ _).run s₁).mono fun ok s₂ h₂ => ?_
      have h : Steady c s s₂ := Trans.trans h₁ h₂
      refine (wp_ite _ _ _).mpr ⟨fun _ => h, fun _ => ?_⟩
      simp only [wp_bind, wp_setBody]
      obtain ⟨q₂, hq₂, hsame⟩ := h.body q hq
      have h₃ := Steady.setBody hq₂ (show SameWrite q₂ { q with
        bytesTodev := u32 (q.bytesTodev +
          r2tDataLength s.vars.sessParams r.length.toNat done) } from
        ⟨hsame.send.symm, hsame.tag.symm, hsame.transLen.symm⟩)
      have hs : Steady c s _ := Trans.trans h h₃
      refine (wp_ite _ _ _).mpr ⟨fun _ => ?_, fun _ => hs⟩
      exact (ih (body_setBody hq₂)).mono fun _ _ h' => Trans.trans hs h'

/-- Data PDUs of the write with the tag `tag` have been sent from `s` to `s'`. -/
def SentFor (tag : UInt32) (s s' : Session) : Prop :=
  ∃ ds, s'.sentData = s.sentData ++ ds ∧ ∀ d ∈ ds, d.tag = tag

/-- The loop of `scsi_command_i` keeps the write, and gives its data PDUs its tag. -/
theorem sendUnsolicited_steady {sg : List Iov} {n : Nat} {dataSN : UInt32}
    (hq : (s.books.mem c).body = .scsi q) :
    ensures (sendUnsolicited c sg n dataSN) (fun ok s' => Steady c s s' ∧
      (ok = true → SentFor q.pdu.tag s s')) s := by
  induction n generalizing dataSN q s with
  | zero => trivial
  | succ n ih =>
    simp only [ensures, sendUnsolicited, wp_bind]
    rw [wp_getScsi_of hq]
    simp only [wp_getVars]
    refine (wp_ite _ _ _).mpr ⟨fun _ => ⟨refl s, fun h => absurd h (by simp)⟩, fun _ => ?_⟩
    simp only [wp_bind]
    refine (dataSg_made _ sg _ _ s).mono ?_
    rintro x s₁ ⟨rfl, -⟩
    cases x with
    | none => exact ⟨refl s₁, fun h => absurd h (by simp)⟩
    | some part =>
      simp only [wp_bind]
      refine ensures.mono ((steady_sockSend (c := c) _ _ _).and_wp (sockSend_sentData _ _ _ s₁)) ?_
      rintro ok s₂ ⟨hsent, h₂⟩
      refine (wp_ite _ _ _).mpr ⟨fun _ => ⟨h₂, fun h => absurd h (by simp)⟩, fun hok => ?_⟩
      have hsent := hsent (by simpa using hok)
      simp only [wp_bind, wp_setBody]
      obtain ⟨q₂, hq₂, hsame⟩ := h₂.body q hq
      have h₃ := Steady.setBody hq₂ (show SameWrite q₂ { q with
        bytesTodev := u32 (q.bytesTodev +
          unsolicitedLength s₁.vars.sessParams q.pdu.transLen q.bytesTodev) } from
        ⟨hsame.send.symm, hsame.tag.symm, hsame.transLen.symm⟩)
      have hs : Steady c s₁ _ := Trans.trans h₂ h₃
      refine (wp_ite _ _ _).mpr ⟨fun _ => ?_, fun _ => ⟨hs, fun _ => ⟨_, hsent, by simp⟩⟩⟩
      refine (ih (body_setBody hq₂)).mono fun ok' s' h' => ⟨Trans.trans hs h'.1, fun hok' => ?_⟩
      obtain ⟨ds, hds, htag⟩ := h'.2 hok'
      exact ⟨_ :: ds, by rw [hds]; exact (congrArg (· ++ ds) hsent).trans (List.append_assoc _ _ _),
        List.forall_mem_cons.mpr ⟨rfl, htag⟩⟩

/-- The command PDU is no data PDU. -/
theorem sendCommandPdu_sentData (q : ScsiCmd) (sg : Option (List Iov)) :
    Within (Prog.Keeps Session.sentData) (sendCommandPdu q sg) := by
  have hnet : Within (Prog.Keeps Session.sentData) nextNet := ⟨fun _ => rfl⟩
  have hlog (part : List Iov) : Within (Prog.Keeps Session.sentData) (logSent (.scsi q.pdu part)) :=
    ⟨fun s => by simp [Prog.Keeps, Session.sentData, OutPdu.writeData?]⟩
  unfold sendCommandPdu whenever sockData
  split <;> infer_instance

/-- `scsi_command_i` keeps the write, and gives its data PDUs its tag. -/
theorem scsiCommandI_steady (hq : (s.books.mem c).body = .scsi q) :
    ensures (scsiCommandI c) (fun ok s' => Steady c s s' ∧
      (ok = true → SentFor q.pdu.tag s s')) s := by
  simp only [ensures, scsiCommandI, wp_bind]
  rw [wp_getScsi_of hq]
  simp only [wp_getVars]
  have hrefuse : Steady c s s ∧ (false = true → SentFor q.pdu.tag s s) :=
    ⟨refl s, fun h => absurd h (by simp)⟩
  refine (wp_ite _ _ _).mpr ⟨fun _ => hrefuse, fun _ => ?_⟩
  refine (wp_ite _ _ _).mpr ⟨fun _ => hrefuse, fun _ => ?_⟩
  refine (wp_ite _ _ _).mpr ⟨fun _ => hrefuse, fun _ => ?_⟩
  simp only [wp_bind, wp_setBody]
  set q₁ : ScsiCmd := { q with
    status := 0, bytesTodev := 0, bytesFromdev := 0
    pdu := { q.pdu with
      expStatSN := s.vars.expStatSN, cmdSN := s.vars.cmdSN
      length := immediateLength s.vars.sessParams q.pdu.todev q.pdu.transLen
      final := commandFinal s.vars.sessParams q.pdu.todev q.pdu.transLen } } with hq₁
  have h₁ : Steady c s (s.setCmd c ((s.books.mem c).store (.scsi q₁))) :=
    .setBody hq ⟨rfl, rfl, rfl⟩
  set s₁ := s.setCmd c ((s.books.mem c).store (.scsi q₁))
  have hbody₁ : (s₁.books.mem c).body = .scsi q₁ := body_setBody hq
  refine ensures.mono ((steady_sendCommandPdu (c := c) _ _).and_wp
    ((sendCommandPdu_sentData _ _).run s₁)) ?_
  rintro ok s₂ ⟨hsent, h₂⟩
  have h₂ : Steady c s s₂ := Trans.trans h₁ h₂
  refine (wp_ite _ _ _).mpr ⟨fun _ => ⟨h₂, fun h => absurd h (by simp)⟩, fun _ => ?_⟩
  obtain ⟨q₂, hq₂, hsame⟩ := h₂.body q hq
  simp only [wp_bind, wp_setBody]
  set q₃ : ScsiCmd := { q₁ with
    bytesTodev := immediateLength s.vars.sessParams q.pdu.todev q.pdu.transLen }
  have h₃ : Steady c s (s₂.setCmd c ((s₂.books.mem c).store (.scsi q₃))) :=
    Trans.trans h₂ (Steady.setBody hq₂ ⟨hsame.send.symm, hsame.tag.symm, hsame.transLen.symm⟩)
  set s₃ := s₂.setCmd c ((s₂.books.mem c).store (.scsi q₃))
  have hbody₃ : (s₃.books.mem c).body = .scsi q₃ := body_setBody hq₂
  have hsent₃ : s₃.sentData = s.sentData := hsent
  refine (wp_ite _ _ _).mpr ⟨fun _ => ?_, fun _ => ?_⟩
  · simp only [wp_bind]
    refine (sendUnsolicited_steady hbody₃).mono ?_
    rintro ok s₄ ⟨h₄, hds⟩
    have h : Steady c s s₄ := Trans.trans h₃ h₄
    refine (wp_ite _ _ _).mpr ⟨fun _ => ⟨h, fun h => absurd h (by simp)⟩, fun hok => ?_⟩
    obtain ⟨ds, hs₄, htag⟩ := hds (by simpa using hok)
    exact ⟨⟨h.params, h.tag, h.net, h.body⟩, fun _ => ⟨ds, by rw [← hsent₃]; exact hs₄, htag⟩⟩
  · exact ⟨⟨h₃.params, h₃.tag, h₃.net, h₃.body⟩,
      fun _ => ⟨[], by rw [List.append_nil]; exact hsent₃, by simp⟩⟩

/-! ## A write of which a part has been sent -/

/-- The session `s` is able to send more of the write `q`, of which `n` bytes have been sent. -/
structure Holds (c : Nat) (p : SessParams) (q : ScsiCmd) (n : Nat) (s : Session) : Prop where
  params : s.vars.sessParams = p
  tag : (s.books.mem c).tag = q.pdu.tag
  online : s.Online
  body : ∃ q', (s.books.mem c).body = .scsi q' ∧ SameWrite q q' ∧ q'.bytesTodev = n

/-- The data PDUs can be read off what has been sent. -/
theorem filterMap_writeData {ds : List WriteData} {pdus : List OutPdu}
    (h : List.Forall₂ (fun d p => ∃ part, p = OutPdu.writeData d part) ds pdus) :
    pdus.filterMap OutPdu.writeData? = ds := by
  induction h with
  | nil => rfl
  | cons hd _ ih =>
    obtain ⟨part, rfl⟩ := hd
    rw [List.filterMap_cons, OutPdu.writeData?, ih]

/-- How many bytes of a write are sent before the target asks for any. -/
def unasked (p : SessParams) (transLen : Nat) : Nat :=
  if p.initialR2t = false ∧ immediateLength p true transLen < burstEnd p transLen then
    burstEnd p transLen
  else immediateLength p true transLen

/-- After the command PDU and the unsolicited data the session can go on with the write. -/
theorem scsiCommandI_holds {p : SessParams} {sg : List Iov} (hp : s.vars.sessParams = p)
    (hq : (s.books.mem c).body = .scsi q) (htag : (s.books.mem c).tag = q.pdu.tag)
    (htodev : q.pdu.todev = true) (hsg : q.sendList = some sg) (hT : q.pdu.transLen < 4294967296)
    (hF : p.firstBurstLength < 4294967296) (ho : s.Online)
    (hret : scsiCommandI c s = .ret true s') :
    ∃ cmd part ds pdus, CommandSent c q p sg cmd part ds pdus s s' ∧
      Holds c p q (unasked p q.pdu.transLen) s' ∧ ∀ d ∈ ds, d.tag = q.pdu.tag := by
  obtain ⟨cmd, part, ds, pdus, hsent⟩ := (scsiCommandI_sent hp hq htodev hsg hT hF).of_ret hret rfl
  obtain ⟨hs, htags⟩ := (scsiCommandI_steady hq).of_ret hret
  obtain ⟨ds', hds', htag'⟩ := htags rfl
  have hdata : s'.sentData = s.sentData ++ ds := by
    have hpdus := filterMap_writeData hsent.headers
    rw [Session.sentData, hsent.sent, List.filterMap_append, List.filterMap_cons_none rfl, hpdus]
    rfl
  obtain rfl : ds' = ds := List.append_cancel_left (hds'.symm.trans hdata)
  obtain ⟨q', hq', hsame⟩ := hs.body q hq
  obtain ⟨q₁, hq₁, hcount⟩ := hsent.counted
  obtain rfl : q₁ = q' := Body.scsi.inj (hq₁.symm.trans hq')
  refine ⟨cmd, part, ds', pdus, hsent,
    ⟨hs.params.trans hp, hs.tag.trans htag, hs.online ho, q₁, hq', hsame, hcount.trans ?_⟩, htag'⟩
  rw [hsent.length]
  exact if_congr (sendsUnsolicited_iff p _) rfl rfl

/-- The unsolicited data PDUs carry what is to be sent unasked, within the limits. -/
theorem CommandSent.unsolicited {p : SessParams} {sg part : List Iov} {cmd : ScsiCmdPdu}
    {ds : List WriteData} {pdus : List OutPdu} (h : CommandSent c q p sg cmd part ds pdus s s')
    (htotal : iovTotal sg = q.pdu.transLen) (hT : q.pdu.transLen < 2147483648) :
    Carries sg ds pdus ∧ Tiles cmd.length (ds.map piece) (unasked p q.pdu.transLen) ∧
      ∀ d ∈ ds, 0 < d.length ∧ (p.maxDataSegLength = 0 ∨ d.length ≤ p.maxDataSegLength) ∧
        (d.offset + d.length = q.pdu.transLen → d.final = true) := by
  have hdata := h.data
  have hiff := sendsUnsolicited_iff p q.pdu.transLen
  rw [← h.length] at hiff
  rw [unasked, ← h.length]
  split at hdata
  · rename_i hsends
    obtain ⟨hmade, hpieces, -, -, hfin⟩ := hdata
    have hb := hiff.mp hsends
    have hstop : burstEnd p q.pdu.transLen ≤ q.pdu.transLen := by
      unfold burstEnd
      split <;> omega
    have htiles : Tiles cmd.length (ds.map piece) (burstEnd p q.pdu.transLen) := by
      rw [hpieces]
      exact tiles_segments hb.2.le (by omega)
    have hmem : ∀ d ∈ ds, piece d ∈ segments p.maxDataSegLength (burstEnd p q.pdu.transLen)
        (q.pdu.transLen + 1) cmd.length := fun d hd => hpieces ▸ List.mem_map_of_mem hd
    have hin : ∀ d ∈ ds, d.offset + d.length ≤ q.pdu.transLen := fun d hd =>
      (htiles.mem_bounds _ (List.mem_map_of_mem hd)).2.trans hstop
    rw [if_pos hb]
    refine ⟨(@Ost.Initiator.carries_iff (fun d => d.length != q.pdu.transLen) _ _ _ hmade
      (by omega) fun d hd => ?_).mpr fun d hd => ?_, htiles,
      fun d hd => ⟨segments_pos _ _ _ (hmem d hd),
      segments_le_limit _ _ _ (hmem d hd), fun hlast => ?_⟩⟩
    · refine ⟨segments_pos _ _ _ (hmem d hd), htotal ▸ hin d hd, fun hcut => ?_⟩
      have : d.length = q.pdu.transLen := by simpa using hcut
      have := hin d hd
      omega
    · have := displacement_le d.offset sg
      have := hin d hd
      omega
    · rw [hfin d hd, hlast, beq_self_eq_true, Bool.true_or]
  · rename_i hsends
    obtain ⟨rfl, rfl⟩ := hdata
    rw [if_neg fun hb => hsends (hiff.mpr hb)]
    exact ⟨.nil, .nil _, by simp⟩

/-- `scsi_r2t_tx_i` keeps the write. -/
theorem scsiR2tTxI_steady (hq : (s.books.mem c).body = .scsi q) :
    ensures (scsiR2tTxI c) (fun _ s' => Steady c s s') s := by
  simp only [ensures, scsiR2tTxI, wp_bind, wp_getCmd]
  rw [wp_getScsi_of hq]
  split
  · exact refl s
  refine (wp_ite _ _ _).mpr ⟨fun _ => refl s, fun _ => ?_⟩
  refine (wp_ite _ _ _).mpr ⟨fun _ => refl s, fun _ => ?_⟩
  simp only [wp_bind, wp_modifyVars]
  set s₁ := s.setVars { s.vars with maxCmdSN := (s.books.mem c).r2t.maxCmdSN }
  have hbody₁ : (s₁.books.mem c).body = .scsi q := hq
  refine (sendR2tData_steady hbody₁).mono fun res s₂ h => ?_
  have h₂ : Steady c s s₂ := ⟨h.params, h.tag, h.net, h.body⟩
  cases res with
  | none => exact h₂
  | some ds => exact ⟨h₂.params, h₂.tag, h₂.net, h₂.body⟩

/-- What is left of a write can still be sent when the next R2T comes. -/
theorem Holds.setR2t {p : SessParams} {n : Nat} (h : Holds c p q n s) (r : R2t) :
    Holds c p q n (s.setCmd c { s.books.mem c with r2t := r }) := by
  obtain ⟨hp, htag, ho, q', hq', hsame, hn⟩ := h
  have hself : (s.setCmd c { s.books.mem c with r2t := r }).books.mem c =
      { s.books.mem c with r2t := r } := Function.update_self ..
  exact ⟨hp, by rw [hself]; exact htag, ho, q', by rw [hself]; exact hq', hsame, hn⟩

/-- A session that holds a write answers an R2T that can be answered, and holds the write still. -/
theorem Holds.answers {p : SessParams} {n : Nat} {sg : List Iov} {r : R2t} (h : Holds c p q n s)
    (hr : (s.books.mem c).r2t = r) (hsg : q.sendList = some sg) (hpos : 0 < r.length.toNat)
    (hle : r.offset.toNat + r.length.toNat ≤ iovTotal sg) (hbound : iovTotal sg < 4294967296)
    (hn : n + r.length.toNat < 4294967296)
    (hsend : R2t.Sendable r sg p.maxDataSegLength r.length.toNat 0) :
    wp (scsiR2tTxI c) (fun ok s' => ok = true ∧ Holds c p q (n + r.length.toNat) s' ∧
      ∃ ds pdus, s'.sent = s.sent ++ pdus ∧ Carries sg ds pdus ∧
        ds.map piece = R2t.segments r p.maxDataSegLength r.length.toNat 0 ∧ FinalLast ds ∧
        ∀ d ∈ ds, d.tag = r.tag) (fun _ _ => False) s := by
  obtain ⟨hp, htag, ho, q', hq', hsame, rfl⟩ := h
  subst hr hp
  have hsg' : q'.sendList = some sg := hsame.sendList.trans hsg
  have honline := scsiR2tTxI_online hq' hsg' (htag.trans hsame.tag.symm) hpos hle hbound hsend ho
  have hsent := scsiR2tTxI_sent hq' hsg' hpos (by omega)
  refine wp_mono (wp_and honline (wp_and hsent (wp_and (scsiR2tTxI_spec c s)
    (scsiR2tTxI_steady hq')))) ?_ fun _ _ h => h.1
  rintro ok s' ⟨⟨rfl, -⟩, hsent, hspec, hs⟩
  obtain ⟨ds, hds, q₁, hq₁, hcount⟩ := hsent rfl
  obtain ⟨⟨pdus, hpdus, hmade⟩, hpieces, -, -, hfinal⟩ := id hds
  obtain ⟨hok, -⟩ | ⟨-, ds', s₁, hans, -, hdata, rfl⟩ := hspec
  · cases hok
  have hmap := filterMap_writeData (hmade.imp fun _ _ ⟨part, hp, _⟩ => ⟨part, hp⟩)
  have hdata' : ({ s₁ with answers := s₁.answers ++ [(c, ds')] } : Session).sentData =
      s.sentData ++ ds := by
    rw [Session.sentData, hpdus, List.filterMap_append, hmap]
    rfl
  obtain rfl : ds' = ds := List.append_cancel_left (hdata.symm.trans hdata')
  obtain ⟨q₂, hq₂, hsame₂⟩ := hs.body q' hq'
  obtain rfl : q₁ = q₂ := Body.scsi.inj (hq₁.symm.trans hq₂)
  exact ⟨rfl, ⟨hs.params, hs.tag.trans htag, hs.online ho, q₁, hq₁, Trans.trans hsame hsame₂,
    hcount.trans (Nat.mod_eq_of_lt hn)⟩, ds', pdus, hpdus,
    (hds.carries_iff hpdus hpos hle hbound).mpr hsend, hpieces, hfinal,
    fun d hd => (hans.tag d hd).1⟩

end Ost.Initiator
