import Ost.Initiator.Away
import Ost.Initiator.ReadData
import Ost.Initiator.WriteData

/-!
# The reply to a read

What the Rx worker does with the reply to a read that it waits for: it takes PDUs with data into the
buffers and counts their bytes (`Took`), and the response completes the command (`Returned`).
-/

namespace Ost.Initiator

open Ost.Iscsi Ost.Util Ost.Param Ost.Prog

variable {env : Env} {cfg : TargetConfig} {c : Nat} {q : ScsiCmd} {s s' : Session} {p : RxPdu}

/-- A read into a scatter list of as many bytes. -/
structure ScsiCmd.IsRead (q : ScsiCmd) : Prop where
  fromdev : q.pdu.fromdev = true
  todev : q.pdu.todev = false
  listed : q.recv.sg ≠ []
  total : iovTotal q.recv.sg = q.pdu.transLen
  short : q.pdu.transLen < 2147483648

/-- A PDU with data for the read `q`, in a session with the limit `limit`. -/
structure Brings (q : ScsiCmd) (limit : Nat) (p : RxPdu) (d : ReadData) : Prop where
  decap : iscsiReadDataDecap p.header = (0, d)
  limit : limit = 0 ∨ d.length.toNat ≤ limit
  noStatus : d.sBit = false
  placeable : Placeable q d.offset.toNat d.length.toNat
  here : d.length.toNat ≤ p.data.length

/-- A response with good status to the read `q`. -/
structure Ends (q : ScsiCmd) (p : RxPdu) (rsp : ScsiRsp) : Prop where
  decap : iscsiScsiRspDecap p.header = (0, rsp)
  response : rsp.response = 0
  tag : rsp.tag = q.pdu.tag
  status : rsp.status = 0
  length : rsp.length = 0

/-- From `s` to `s'` a handler has taken `n` bytes of the read `q`. -/
structure Takes (c : Nat) (q : ScsiCmd) (n : Nat) (s s' : Session) : Prop where
  same : Same c s s'
  body : (s'.books.mem c).body = .scsi { q with bytesFromdev := u32 (q.bytesFromdev + n) }
  params : s'.vars.sessParams = s.vars.sessParams

/-- From `s` to `s'` the Rx worker has taken `n` bytes of the read `q`. -/
def Took (c : Nat) (q : ScsiCmd) (n : Nat) (s s' : Session) : Prop :=
  ∃ s₁, Takes c q n s s₁ ∧ s' = { s₁ with rx := .idle }

/-- From `s` to `s'` the Rx worker has completed the read `q` with good status. -/
def Returned (c : Nat) (q : ScsiCmd) (s s' : Session) : Prop :=
  ∃ s₁, Completed c s s₁ ∧ (s₁.books.mem c).body = .scsi { q with status := 0 } ∧
    (s₁.books.mem c).status = 0 ∧ s' = { s₁ with rx := .idle }

/-! ## Data -/

/-- The PDU is received. -/
theorem Brings.received {limit : Nat} {d : ReadData} (h : Brings q limit p d) (hq : q.IsRead)
    (s : Session) : recvReadData q p d.offset.toNat d.length.toNat s = .ret true s := by
  have hshort := hq.short
  have htotal := hq.total
  obtain ⟨hle, l, hsel, hcells⟩ := @recvSg_placed q d.offset.toNat d.length.toNat s hq.total
    (by omega) h.placeable
  have hl : iovTotal l = d.length.toNat := by
    rw [← length_iovCells, hcells, List.length_take, List.length_drop, length_iovCells]
    omega
  have hu : u32 (iovTotal l) = d.length.toNat := by
    rw [hl]
    exact Nat.mod_eq_of_lt d.length.toNat_lt
  have hdata : (recvData p d.length.toNat).isSome = true := by
    rw [recvData, if_pos ⟨by omega, h.here⟩]
    rfl
  rw [recvReadData_list hq.listed p hsel, hu, hdata, beq_self_eq_true]
  rfl

theorem Brings.opcode {limit : Nat} {d : ReadData} (h : Brings q limit p d) :
    iscsiOpcode p.header = opReadData := by
  have hrc := congrArg Prod.fst h.decap
  by_contra hne
  simp [iscsiReadDataDecap, firstFailure, hne] at hrc

theorem Ends.opcode {rsp : ScsiRsp} (h : Ends q p rsp) : iscsiOpcode p.header = opScsiRsp := by
  have hrc := congrArg Prod.fst h.decap
  by_contra hne
  simp [iscsiScsiRspDecap, firstFailure, hne] at hrc

/-- A PDU that carries a tag is looked up under it. -/
theorem lookupTag_of_itt {tag : UInt32} (hreject : iscsiOpcode p.header ≠ opReject)
    (hasync : iscsiOpcode p.header ≠ opAsync) (htag : iscsiItt p.header = tag) :
    p.lookupTag = some tag := by
  rw [RxPdu.lookupTag, if_neg hreject, if_neg hasync, htag]

theorem Brings.lookup {limit : Nat} {d : ReadData} (h : Brings q limit p d) :
    p.lookupTag = some d.taskTag := by
  refine lookupTag_of_itt ?_ ?_ ?_
  · rw [h.opcode]
    decide
  · rw [h.opcode]
    decide
  · rw [show d = (iscsiReadDataDecap p.header).2 by rw [h.decap]]
    rfl

theorem Ends.lookup {rsp : ScsiRsp} (h : Ends q p rsp) : p.lookupTag = some rsp.tag := by
  refine lookupTag_of_itt ?_ ?_ ?_
  · rw [h.opcode]
    decide
  · rw [h.opcode]
    decide
  · rw [show rsp = (iscsiScsiRspDecap p.header).2 by rw [h.decap]]
    rfl

/-- The Rx worker finds the command of a PDU. -/
theorem rxWorkerProcI_finds (hrx : s.rx = .idle) (htx : s.tx ≠ .exited) {tag : UInt32}
    (hlookup : p.lookupTag = some tag) (hget : s.books.cmdHash.get tag = some c) :
    rxWorkerProcI env cfg (some p) s = .ret ⟨⟩ { s with rx := .waiting c p } := by
  suffices hwp : wp (rxWorkerProcI env cfg (some p))
      (fun _ s' => s' = { s with rx := .waiting c p }) (fun _ _ => False) s by
    obtain ⟨_, s', hret, rfl⟩ := hwp.returns
    exact hret
  simp only [rxWorkerProcI, wp_bind, wp_get, hrx]
  refine (wp_ite _ _ _).mpr ⟨fun hx => absurd hx htx, fun _ => ?_⟩
  rw [rxLookup, hlookup]
  simp only [wp_bind, wp_hashLookup, hget]
  rfl

/-- The Rx worker goes on when the command has been sent. -/
theorem rxWorkerProcI_goesOn (hrx : s.rx = .waiting c p) (hdone : (s.books.mem c).txDone = true)
    (inp : Option RxPdu) :
    rxWorkerProcI env cfg inp s = .ret ⟨⟩ { s with rx := .handling (some c) p } := by
  suffices hwp : wp (rxWorkerProcI env cfg inp)
      (fun _ s' => s' = { s with rx := .handling (some c) p }) (fun _ _ => False) s by
    obtain ⟨_, s', hret, rfl⟩ := hwp.returns
    exact hret
  simp only [rxWorkerProcI, wp_bind, wp_get, hrx, wp_getCmd]
  exact (wp_guarded _ _).mpr ⟨fun _ => rfl, fun hne => absurd hdone hne⟩

/-- `scsi_read_data_i` counts the bytes. -/
theorem scsiReadDataI_takes {d : ReadData}
    (h : Brings q s.vars.sessParams.maxDataSegLength p d) (hq : q.IsRead)
    (hbody : (s.books.mem c).body = .scsi q) :
    ∃ s₁, scsiReadDataI c p s = .ret true s₁ ∧ Takes c q d.length.toNat s s₁ := by
  suffices hwp : wp (scsiReadDataI c p) (fun ok s₁ => ok = true ∧ Takes c q d.length.toNat s s₁)
      (fun _ _ => False) s by
    obtain ⟨ok, s₁, hret, rfl, htakes⟩ := hwp.returns
    exact ⟨s₁, hret, htakes⟩
  rw [scsiReadDataI, h.decap]
  dsimp only
  refine (wp_ite _ _ _).mpr ⟨fun hne => absurd rfl hne, fun _ => ?_⟩
  rw [wp_bind, wp_getCmd, hbody]
  dsimp only
  rw [wp_bind, wp_getVars]
  refine (wp_ite _ _ _).mpr ⟨fun hlong => ?_, fun _ => ?_⟩
  · rcases h.limit with h0 | hle
    · exact absurd h0 hlong.1
    · omega
  set s₁ := s.setVars { s.vars with maxCmdSN := d.maxCmdSN }
  have h₁ : Same c s s₁ := Same.setVars (refl s) _
  rw [wp_bind, wp_modifyVars, wp_bind, wp, h.received hq s₁]
  refine (wp_ite _ _ _).mpr ⟨fun hne => absurd hne (by decide), fun _ => ?_⟩
  rw [wp_bind, wp_setBody]
  refine (wp_ite _ _ _).mpr ⟨fun _ => ⟨rfl, ?_, body_setBody hbody, rfl⟩, fun hbit => ?_⟩
  · exact Trans.trans h₁ (Same.of_cmd (key_store _ _))
  · exact absurd (by rw [h.noStatus]; rfl) hbit

/-- The Rx worker takes a PDU with data. -/
theorem rxWorkerProcI_takes {d : ReadData}
    (h : Brings q s.vars.sessParams.maxDataSegLength p d) (hq : q.IsRead)
    (hbody : (s.books.mem c).body = .scsi q) (hrx : s.rx = .handling (some c) p)
    (inp : Option RxPdu) :
    ∃ s', rxWorkerProcI env cfg inp s = .ret ⟨⟩ s' ∧ Took c q d.length.toNat s s' := by
  obtain ⟨s₁, hret, htakes⟩ := scsiReadDataI_takes h hq hbody
  have hhandle : rxHandle env cfg (some c) p s = .ret true s₁ := by
    have hne : ¬opReadData = opScsiRsp := by decide
    rw [rxHandle, handleFor, h.opcode, if_neg hne, if_pos rfl]
    exact hret
  suffices hwp : wp (rxWorkerProcI env cfg inp) (fun _ s' => Took c q d.length.toNat s s')
      (fun _ _ => False) s by
    obtain ⟨u, s', hret, hs'⟩ := hwp.returns
    exact ⟨s', hret, hs'⟩
  simp only [rxWorkerProcI, wp_bind, wp_get, hrx]
  rw [wp, hhandle]
  exact (wp_ite _ _ _).mpr ⟨fun _ => ⟨s₁, htakes, rfl⟩, fun hne => absurd rfl hne⟩

/-! ## The response -/

/-- `iscsi_done_i` leaves the status alone when all data have been transferred. -/
theorem iscsiDoneI_mem (hfound : (s.books.cmdHash.remove (s.books.mem c).tag).isSome)
    (hall : (s.books.mem c).body.transferred = true) :
    wp (iscsiDoneI c) (fun _ s' => s'.books.mem = s.books.mem) (fun _ _ => False) s := by
  rw [iscsiDoneI, wp_bind, wp_getCmd, wp_bind, wp_hashDelete]
  refine ⟨fun hnone => ?_, fun d h _ => ?_⟩
  · rw [hnone] at hfound
    exact absurd hfound Bool.false_ne_true
  · refine (wp_ite _ _ _).mpr ⟨fun hf => absurd hf (by simp), fun _ => ?_⟩
    rw [wp_bind, wp_guarded]
    exact ⟨fun hf => absurd hf (by simp [hall]), fun _ => rfl⟩

/-- `scsi_response_i` completes the read. -/
theorem scsiResponseI_returns {rsp : ScsiRsp} (h : Ends q p rsp) (hq : q.IsRead)
    (hbody : (s.books.mem c).body = .scsi q)
    (hfound : (s.books.cmdHash.remove (s.books.mem c).tag).isSome) :
    ∃ s₁, scsiResponseI c p s = .ret true s₁ ∧ Completed c s s₁ ∧
      (s₁.books.mem c).body = .scsi { q with status := 0 } ∧ (s₁.books.mem c).status = 0 := by
  suffices hwp : wp (scsiResponseI c p) (fun ok s₁ => ok = true ∧ Completed c s s₁ ∧
      (s₁.books.mem c).body = .scsi { q with status := 0 } ∧ (s₁.books.mem c).status = 0)
      (fun _ _ => False) s by
    obtain ⟨ok, s₁, hret, rfl, hdone⟩ := hwp.returns
    exact ⟨s₁, hret, hdone⟩
  have hscsi : ∀ t : Session, (t.books.mem c).body = .scsi q → ∀ {Q : ScsiCmd → Session → Prop},
      Q q t → wp (getScsi c) Q (fun _ _ => False) t := fun t ht Q hQ => by
    rw [getScsi, wp_bind, wp_getCmd, ht]
    exact hQ
  rw [scsiResponseI, h.decap]
  dsimp only
  refine (wp_ite _ _ _).mpr ⟨fun hne => absurd rfl hne, fun _ => ?_⟩
  refine (wp_ite _ _ _).mpr ⟨fun hne => absurd h.response hne, fun _ => ?_⟩
  refine (wp_bind _ _).mpr (hscsi s hbody ?_)
  refine (wp_ite _ _ _).mpr ⟨fun hne => absurd h.tag hne, fun _ => ?_⟩
  rw [wp_bind, wp_modifyVars, wp_bind, wp_getVars, h.length, h.status]
  refine (wp_ite _ _ _).mpr ⟨fun hlong => absurd hlong.2 (Nat.not_lt_zero _), fun _ => ?_⟩
  refine (wp_ite _ _ _).mpr ⟨fun hne => absurd rfl hne.2, fun _ => ?_⟩
  rw [wp_bind, wp_modifyVars]
  refine (wp_ite _ _ _).mpr ⟨fun hpart => absurd hpart.2 (by simp [ScsiCmd.complete, hq.todev]),
    fun _ => ?_⟩
  refine (wp_ite _ _ _).mpr ⟨fun hne => absurd rfl hne.1, fun _ => ?_⟩
  rw [wp_bind, wp_setStatus, wp_bind, wp_setBody, wp_bind]
  set s₁ := (s.setVars { s.vars with expStatSN := rsp.statSN + 1 }).setVars
    { (s.setVars { s.vars with expStatSN := rsp.statSN + 1 }).vars with maxCmdSN := rsp.maxCmdSN }
    with hs₁
  set s₂ := s₁.setCmd c { s₁.books.mem c with status := 0 } with hs₂
  set s₃ := s₂.setCmd c ((s₂.books.mem c).store (.scsi { q with status := 0 })) with hs₃
  have h₁ : Same c s s₁ := Same.setVars (Same.setVars (refl s) _) _
  have h₂ : Same c s s₂ := Trans.trans h₁ (Same.of_cmd rfl)
  have h₃ : Same c s s₃ := Trans.trans h₂ (Same.of_cmd (key_store _ _))
  have hself₂ : s₂.books.mem c = { s.books.mem c with status := 0 } := Function.update_self ..
  have hself₃ : s₃.books.mem c = (s₂.books.mem c).store (.scsi { q with status := 0 }) :=
    Function.update_self ..
  have hbody₂ : (s₂.books.mem c).body = .scsi q := by
    rw [hself₂]
    exact hbody
  have hbody₃ : (s₃.books.mem c).body = .scsi { q with status := 0 } := body_setBody hbody₂
  have hstatus₃ : (s₃.books.mem c).status = 0 := by
    have hstore : ∀ (t : InitiatorCmd) (b : Body), (t.store b).status = t.status := by
      intro t b
      rw [InitiatorCmd.store]
      split <;> rfl
    rw [hself₃, hstore, hself₂]
  have hfound₃ : (s₃.books.cmdHash.remove (s₃.books.mem c).tag).isSome := by
    rw [h₃.cmdHash, h₃.tag_eq]
    exact hfound
  have hall : (s₃.books.mem c).body.transferred = true := by
    rw [hbody₃, Body.transferred, ScsiCmd.transferred, hq.fromdev, hq.todev]
    rfl
  refine wp_mono (wp_and (iscsiDoneI_completes c (.inl hfound₃)) (iscsiDoneI_mem hfound₃ hall)) ?_
    fun _ _ h => h.1
  rintro ok s' ⟨⟨-, hb, hdone⟩, hmem⟩
  exact ⟨rfl, hdone.same_trans h₃, hb.trans hbody₃, by rw [hmem]; exact hstatus₃⟩

/-- The Rx worker takes the response. -/
theorem rxWorkerProcI_returns {rsp : ScsiRsp} (h : Ends q p rsp) (hq : q.IsRead)
    (hbody : (s.books.mem c).body = .scsi q)
    (hfound : (s.books.cmdHash.remove (s.books.mem c).tag).isSome)
    (hrx : s.rx = .handling (some c) p) (inp : Option RxPdu) :
    ∃ s', rxWorkerProcI env cfg inp s = .ret ⟨⟩ s' ∧ Returned c q s s' := by
  obtain ⟨s₁, hret, hdone, hbody₁, hstatus⟩ := scsiResponseI_returns h hq hbody hfound
  have hhandle : rxHandle env cfg (some c) p s = .ret true s₁ := by
    rw [rxHandle, handleFor, h.opcode, if_pos rfl]
    exact hret
  suffices hwp : wp (rxWorkerProcI env cfg inp) (fun _ s' => Returned c q s s')
      (fun _ _ => False) s by
    obtain ⟨u, s', hret, hs'⟩ := hwp.returns
    exact ⟨s', hret, hs'⟩
  simp only [rxWorkerProcI, wp_bind, wp_get, hrx]
  rw [wp, hhandle]
  exact (wp_ite _ _ _).mpr ⟨fun _ => ⟨s₁, hdone, hbody₁, hstatus, rfl⟩, fun hne => absurd rfl hne⟩

end Ost.Initiator
