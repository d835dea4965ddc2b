import Ost.Iscsi.Codec
import Ost.Target.Supply

/-!
# The reply to a read

The PDUs with the data of a read, and the response behind them, carry the tag of the command, and
only the response has a status.
-/

namespace Ost.Target

open Ost.Iscsi Ost.Util Ost.Param Ost.Prog Ost.Disk

/-- A PDU in the reply to a read with the tag `itt`. -/
structure InReply (itt : UInt32) (x : Sent) : Prop where
  data : ∀ d, x.pdu = .readData d → d.taskTag = itt ∧ 0 < d.length ∧ d.sBit = false ∧ d.lun = 0 ∧
    d.status = 0 ∧ d.statSN = 0 ∧ d.resCount = 0
  rsp : ∀ r, x.pdu = .scsiRsp r → r.tag = itt ∧ r.status = 0 ∧ r.response = 0 ∧ r.length = 0 ∧
    r.InFormat

/-- The command is a read in good order with the tag `itt`. -/
structure Replies (c : Nat) (itt : UInt32) (s : Local) : Prop where
  tag : (s.slot.pool.cmdMem c).scsiCmd.tag = itt
  status : (s.slot.pool.cmdMem c).scsiCmd.status = 0
  fromdev : (s.slot.pool.cmdMem c).scsiCmd.fromdev = true
  length : (s.slot.pool.cmdMem c).scsiCmd.inputLength < 2147483648

variable {c : Nat} {itt : UInt32} {s : Local}

/-- The loop over the read data PDUs. -/
theorem sendReadData_inReply {sg : List Iov} {len mdsl fuel offset : Nat} {dataSN : UInt32}
    (h : Replies c itt s) (hlen : len < 2147483648) :
    ensures (sendReadData c sg len mdsl fuel offset dataSN)
      (fun _ s' => Posts (InReply itt) s s' ∧ Replies c itt s') s := by
  induction fuel generalizing offset dataSN s with
  | zero => trivial
  | succ fuel ih =>
    have hrefl : Posts (InReply itt) s s ∧ Replies c itt s := ⟨refl s, h⟩
    rw [sendReadData]
    refine (wp_ite _ _ _).mpr ⟨fun hlt => ?_, fun _ => hrefl⟩
    rw [pduLength_eq]
    have hpos := @segmentLength_pos mdsl len offset
    have hle := @segmentLength_le mdsl len offset
    set n := segmentLength mdsl len offset
    dsimp only
    rcases (if n ≠ len then modifyIov sg offset n else some sg) with _ | iov
    · exact hrefl
    · dsimp only
      rw [wp_bind, wp_getSeq, wp_bind, wp_getCmd, wp_bind]
      set d := { ReadData.zero with
        length := UInt32.ofNat n, final := offset + n = len
        taskTag := (s.slot.pool.cmdMem c).scsiCmd.tag, expCmdSN := s.slot.seq.expCmdSN
        maxCmdSN := s.slot.seq.maxCmdSN, dataSN, offset := UInt32.ofNat offset } with hd
      have hn : 0 < d.length := UInt32.lt_iff_toNat_lt.mpr (by
        rw [hd, UInt32.toNat_ofNat_of_lt' (show n < 4294967296 by omega)]
        exact hpos hlt)
      have hin : ∀ bs ok, InReply itt ⟨.readData d, bs, ok⟩ := fun bs ok =>
        ⟨fun d' hd' => by
          obtain rfl := TargetPdu.readData.inj hd'
          exact ⟨h.tag, hn, rfl, rfl, rfl, rfl, rfl⟩, fun r hr => TargetPdu.noConfusion hr⟩
      obtain ⟨bs, hgather⟩ : ∃ bs, gather iov n s = .ret bs s := ⟨_, rfl⟩
      rw [wp, hgather]
      dsimp only
      refine (wp_bind _ _).mpr (wp_mono (sendLeaky_spec _ bs s) ?_ fun _ _ _ => trivial)
      rintro ok s₁ ⟨⟨bs', k, b, rfl, -⟩, -⟩
      have hsent : Posts (InReply itt) s (s.setConn { s.slot.conn with
          tx := s.slot.conn.tx.drop k, slock := b
          sent := s.slot.conn.sent ++ [⟨.readData d, bs', ok⟩] }) :=
        ⟨_, rfl, fun x hx => List.mem_singleton.mp hx ▸ hin bs' ok⟩
      refine (wp_ite _ _ _).mpr
        ⟨fun _ => ⟨hsent, h.tag, h.status, h.fromdev, h.length⟩, fun _ => ?_⟩
      rw [wp_bind, wp_modifyScsi]
      refine ensures.mono (ih ?_) fun _ _ h' => ⟨hsent.after rfl h'.1, h'.2⟩
      obtain ⟨htag, hstatus, hfromdev, hlength⟩ := h
      constructor <;> simpa [Local.setCmd, Local.setPool, Local.setConn, ScsiCmd.inputLength]

/-- The response. -/
theorem sendResponse_inReply {dataSN : UInt32} (h : Replies c itt s) :
    ensures (sendResponse c dataSN) (fun _ s' => Posts (InReply itt) s s') s := by
  obtain ⟨ok, heq⟩ := @sendResponse_eq c s dataSN h.status h.fromdev
  have hin : ∀ bs ok, InReply itt ⟨.scsiRsp (readRsp c dataSN s), bs, ok⟩ := fun bs ok =>
    ⟨fun d hd => TargetPdu.noConfusion hd, fun r hr => by
      obtain rfl := TargetPdu.scsiRsp.inj hr
      exact ⟨h.tag, rfl, rfl, rfl,
        show (0 : UInt32) < 0x1000000 by decide, rfl, rfl, rfl, rfl, rfl⟩⟩
  have hsend : Within (Posts (InReply itt)) (sendLeaky (.scsiRsp (readRsp c dataSN s)) (some [])) :=
    posts_sendLeaky hin (some [])
  have hrest : Within (Posts (InReply itt)) (do
      if !(← sendLeaky (.scsiRsp (readRsp c dataSN s)) (some [])) then return false
      return ok : Handler Bool) := inferInstance
  have hrun := hrest.run (s.setSeq { s.slot.seq with statSN := s.slot.seq.statSN + 1 })
  unfold ensures wp at hrun ⊢
  rw [heq]
  exact hrun

/-- `device_command_done` for a read. -/
theorem deviceCommandDone_inReply (h : Replies c itt s) :
    ensures (deviceCommandDone c) (fun _ s' => Posts (InReply itt) s s') s := by
  rw [deviceCommandDone, ensures, wp_bind, wp_getCmd]
  refine (wp_ite _ _ _).mpr ⟨fun _ => trivial, fun _ => ?_⟩
  rw [wp_bind, wp_modifyScsi, wp_bind]
  set s₁ := s.setCmd c { s.slot.pool.cmdMem c with
    scsiCmd := { (s.slot.pool.cmdMem c).scsiCmd with
      sendData := true, sendSgLen := (s.slot.pool.cmdMem c).gatherList.length
      bytesFromdev := 0 } } with hs₁
  have h₁ : Replies c itt s₁ := by
    obtain ⟨htag, hstatus, hfromdev, hlength⟩ := h
    constructor <;> simpa [hs₁, Local.setCmd, Local.setPool, ScsiCmd.inputLength]
  have hinput : ensures (sendInput c)
      (fun _ s' => Posts (InReply itt) s₁ s' ∧ Replies c itt s') s₁ := by
    rw [sendInput, ensures, wp_bind, wp_getCmd]
    refine (wp_ite _ _ _).mpr ⟨fun _ => ?_, fun _ => ⟨refl s₁, h₁⟩⟩
    rw [wp_bind, wp_getLogin]
    exact sendReadData_inReply h₁ h₁.length
  refine hinput.mono fun r s₂ hs₂ => ?_
  obtain ⟨hpost, h₂⟩ := hs₂
  have hpost : Posts (InReply itt) s s₂ := hpost
  rcases r with _ | dataSN
  · exact hpost
  · refine (wp_bind _ _).mpr ((sendResponse_inReply h₂).mono fun ok s₃ h₃ => ?_)
    have hrest : Within (Posts (InReply itt)) (if !ok then pure (-1) else retire c : Handler Int) :=
      inferInstance
    exact (hrest.run s₃).mono fun _ _ h₄ => Trans.trans (Trans.trans hpost h₃) h₄

/-- From `s` to `s'` a read has been answered: the data have gone out in the PDUs `ds`, then the
response `rsp`. -/
structure Replied (c : Nat) (ds : List ReadData) (rsp : ScsiRsp) (s s' : Local) : Prop where
  sent : ReadSent c ds rsp s s'
  data : ∀ d ∈ ds, d.taskTag = (s.slot.pool.cmdMem c).scsiCmd.tag ∧ 0 < d.length ∧
    d.sBit = false ∧ (d.length < 0x1000000 → d.InFormat)
  rsp : rsp.tag = (s.slot.pool.cmdMem c).scsiCmd.tag ∧ rsp.status = 0 ∧ rsp.response = 0 ∧
    rsp.length = 0 ∧ rsp.InFormat

/-- With a free lock, and PDUs that are short enough, a read is answered. -/
theorem deviceCommandDone_replied (h : ReadDone c s) (hlock : s.slot.conn.slock = false)
    (hshort : (s.slot.pool.cmdMem c).scsiCmd.inputLength ≤ 2147483644 ∨
      0 < s.slot.login.sessParams.maxDataSegLength ∧
        s.slot.login.sessParams.maxDataSegLength ≤ 2147483644) {rc : Int} {s' : Local}
    (hret : deviceCommandDone c s = .ret rc s') : ∃ ds rsp, Replied c ds rsp s s' := by
  obtain ⟨⟨ds, rsp, hsent⟩, -⟩ := deviceCommandDone_short h hlock hshort
  rw [hret] at hsent
  have hsent : ReadSent c ds rsp s s' := hsent
  obtain ⟨l, hl, hall⟩ :=
    (deviceCommandDone_inReply ⟨rfl, h.status, h.fromdev, h.length⟩).of_ret hret
  have hnew : l = ds.map (sentData (ReadBytes (s.slot.pool.cmdMem c).gatherList s)) ++
      [⟨.scsiRsp rsp, [], true⟩] :=
    List.append_cancel_left (hl.symm.trans ((hsent.sent).trans (List.append_assoc ..)))
  subst hnew
  refine ⟨ds, rsp, hsent, fun d hd => ?_, ?_⟩
  · obtain ⟨htag, hpos, hbit, hlun, hstatus, hsn, hres⟩ :=
      (hall _ (List.mem_append_left _ (List.mem_map_of_mem hd))).data d rfl
    exact ⟨htag, hpos, hbit, fun hlen => ⟨hlen, hlun, fun _ => ⟨hstatus, hsn, hres⟩⟩⟩
  · exact (hall _ (List.mem_append_right _ (List.mem_singleton_self _))).rsp rsp rfl

end Ost.Target
