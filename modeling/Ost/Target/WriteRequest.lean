import Ost.Target.ScsiRequest

/-!
# Write data

What a `WRITE_DATA` PDU does to a session.  The PDU waits until its command is ready.  Then it is
refused, or its data are placed and counted, and the command goes back to the device when the
count is full (`WriteEnd`).
-/

namespace Ost.Target

open Ost.Iscsi Ost.Util Ost.Param Ost.Prog Ost.Disk

variable (id c : Nat)

/-- All data are there: the command goes back to the device. -/
def Finished (s s' : Local) : Prop :=
  ∃ s₁, s₁ = s.setCmd c { s.slot.pool.cmdMem c with done := true } ∧ Enqueued id c s₁ s'

/-- Memory after bytes have been received into the first of some buffers. -/
def storeAt (iov : List Iov) (bs : Bytes) (m : Memory) : Memory :=
  m.write (iov.headD ⟨.media, 0, 0⟩).base (iov.headD ⟨.media, 0, 0⟩).off bs

/-- The data of a PDU that has some were read and stored. -/
structure Stored (data : WriteData) (s s' : Local) : Prop where
  reads : pad4 data.length ≤ s.slot.conn.rx.length
  state : ∃ iov, modifyIov (s.slot.pool.cmdMem c).scatterList data.offset data.length = some iov ∧
    s' = ((s.setConn { s.slot.conn with rx := s.slot.conn.rx.drop (pad4 data.length) }).setDev
      { s.dev with mem := storeAt iov (s.slot.conn.rx.take data.length) s.dev.mem }).setCmd c
      { s.slot.pool.cmdMem c with
        got := (s.slot.pool.cmdMem c).got ++ [(data.offset, s.slot.conn.rx.take data.length)] }

/-- The bytes of a PDU were counted. -/
def Counted (data : WriteData) (s s' : Local) : Prop :=
  s' = s.setCmd c { s.slot.pool.cmdMem c with scsiCmd := { (s.slot.pool.cmdMem c).scsiCmd with
    bytesTodev := w32 ((s.slot.pool.cmdMem c).scsiCmd.bytesTodev + data.length) } }

/-- The number of bytes that are missing, as the code computes it. -/
def missing (s : Local) : Nat :=
  sub32 (s.slot.pool.cmdMem c).scsiCmd.transLen (s.slot.pool.cmdMem c).scsiCmd.bytesTodev

/-- How a `WRITE_DATA` PDU for a command that is ready ends.  A PDU without data sends the command
back to the device at once. -/
inductive WriteEnd (data : WriteData) (rc : Int) (s s' : Local) : Prop where
  | refused (hrc : rc ≠ 0) (h : Quiet c s s')
  | taken {s₁ s₂ : Local}
    (hfits : w32 ((s.slot.pool.cmdMem c).scsiCmd.bytesTodev + data.length) ≤
      (s.slot.pool.cmdMem c).scsiCmd.transLen)
    (hplaced : data.length = 0 ∧ Finished id c s s₁ ∨ data.length ≠ 0 ∧ Stored c data s s₁)
    (hcounted : Counted c data s₁ s₂)
    (hend : missing c s₂ = 0 ∧ rc = 0 ∧ Finished id c s₂ s' ∨ missing c s₂ ≠ 0 ∧ Quiet c s₂ s')

variable {id c}

/-- Handing a command back whose LUN exists. -/
theorem placeDone_spec {s : Local} (hlun : (s.slot.pool.cmdMem c).scsiCmd.lun < s.dev.cfg.numLuns ∨
      (s.slot.pool.cmdMem c).scsiCmd.sendData = true) :
    ensures (placeDone (deviceEnqueue id) c) (fun rc s' => rc = 0 ∧ Finished id c s s') s := by
  rw [placeDone, ensures, wp_bind, wp_modifyCmd, wp_bind]
  have hself : (s.setCmd c { s.slot.pool.cmdMem c with done := true }).slot.pool.cmdMem c =
      { s.slot.pool.cmdMem c with done := true } := Function.update_self ..
  refine (deviceEnqueue_spec id c _).mono fun rc s₁ ⟨h, hrc⟩ => ?_
  have hlun' : (s.slot.pool.cmdMem c).scsiCmd.lun < s.dev.cfg.numLuns ∧ Enqueued id c
      (s.setCmd c { s.slot.pool.cmdMem c with done := true }) s₁ := by
    cases h with
    | enqueued hl h =>
      rw [hself] at hl
      exact ⟨hl, h⟩
    | answered hl h =>
      have hopen := h.wasOpen
      rw [hself] at hl hopen
      exact absurd (hopen.symm.trans (hlun.resolve_left hl)) (by decide)
  rw [hself] at hrc
  have hrc := hrc hlun'.1
  exact (wp_ite _ _ _).mpr ⟨fun hne => absurd hrc hne, fun _ => ⟨rfl, _, rfl, hlun'.2⟩⟩

instance quiet_sendBurstR2t : Within (Quiet c) (sendBurstR2t c) := by
  unfold sendBurstR2t
  refine .bind inferInstance fun _ => .bind inferInstance fun _ => ?_
  infer_instance

/-- Placing the data of a PDU. -/
theorem devicePlaceData_spec {data : WriteData} {s : Local}
    (hlun : (s.slot.pool.cmdMem c).scsiCmd.lun < s.dev.cfg.numLuns ∨
      (s.slot.pool.cmdMem c).scsiCmd.sendData = true) :
    ensures (devicePlaceData id c data.offset data.length) (fun rc s' => rc = data.length →
      data.length = 0 ∧ Finished id c s s' ∨ data.length ≠ 0 ∧ Stored c data s s') s := by
  rw [devicePlaceData]
  refine (wp_ite _ _ _).mpr ⟨fun h0 => ?_, fun h0 => ?_⟩
  · exact (placeDone_spec hlun).mono fun _ _ h _ => .inl ⟨h0, h.2⟩
  · rw [wp_bind, wp_getCmd]
    rcases hiov : modifyIov (s.slot.pool.cmdMem c).scatterList data.offset data.length with _ | iov
    · intro hrc
      omega
    · dsimp only
      rw [wp_bind]
      refine wp_mono (sockRecv_spec data.length s) ?_ fun _ _ h => by cases h
      rintro ⟨rc, bs⟩ _ ⟨⟨rx, rfl⟩, hbs, hreads⟩
      simp only [poke, onMem, wp_bind, wp_modifyDev, wp_modifyCmd, wp_guarded, wp_halt, wp_pure]
      refine ⟨fun _ => trivial, fun _ hrc => .inr ⟨h0, ?_⟩⟩
      obtain ⟨henough, hrx⟩ := hreads hrc
      refine ⟨henough, iov, hiov, ?_⟩
      obtain rfl : rx = _ := hrx
      obtain rfl : bs = _ := hbs
      rfl

/-- Taking the data of a PDU. -/
theorem placeWriteData_spec {data : WriteData} {s : Local}
    (hfits : w32 ((s.slot.pool.cmdMem c).scsiCmd.bytesTodev + data.length) ≤
      (s.slot.pool.cmdMem c).scsiCmd.transLen)
    (hlun : (s.slot.pool.cmdMem c).scsiCmd.lun < s.dev.cfg.numLuns ∨
      (s.slot.pool.cmdMem c).scsiCmd.sendData = true) :
    ensures (placeWriteData id c data) (fun rc s' => WriteEnd id c data rc s s') s := by
  rw [placeWriteData, ensures, wp_bind]
  refine (devicePlaceData_spec hlun).mono fun rc s₁ h₁ => ?_
  rw [wp_bind, wp_guarded]
  refine ⟨fun _ => trivial, fun hrc => ?_⟩
  have h₁ := h₁ (not_not.mp hrc)
  rw [wp_bind, wp_modifyScsi, wp_bind, wp_getCmd]
  have hlun₁ : (s₁.slot.pool.cmdMem c).scsiCmd.lun < s₁.dev.cfg.numLuns ∨
      (s₁.slot.pool.cmdMem c).scsiCmd.sendData = true := by
    rcases h₁ with ⟨_, _, rfl, _, _, _, rfl⟩ | ⟨_, _, _, _, rfl⟩ <;>
      simpa [Local.setCmd, Local.setPool, Local.setDev, Local.setConn] using hlun
  set s₂ := s₁.setCmd c
    { s₁.slot.pool.cmdMem c with scsiCmd := { (s₁.slot.pool.cmdMem c).scsiCmd with
    bytesTodev := w32 ((s₁.slot.pool.cmdMem c).scsiCmd.bytesTodev + data.length) } } with hs₂
  have hlun₂ : (s₂.slot.pool.cmdMem c).scsiCmd.lun < s₂.dev.cfg.numLuns ∨
      (s₂.slot.pool.cmdMem c).scsiCmd.sendData = true := by
    simpa [hs₂, Local.setCmd, Local.setPool] using hlun₁
  refine (wp_ite _ _ _).mpr ⟨fun h0 => ?_, fun h0 => ?_⟩
  · rw [wp_bind]
    refine (placeDone_spec hlun₂).mono ?_
    rintro rc s' ⟨rfl, h⟩
    exact (wp_ite _ _ _).mpr ⟨by simp, fun _ => .taken hfits h₁ rfl (.inl ⟨h0, rfl, h⟩)⟩
  · exact ((quiet_sendBurstR2t).run s₂).mono fun _ _ h => .taken hfits h₁ rfl (.inr ⟨h0, h⟩)

/-- What `execute_t` does with a `WRITE_DATA` PDU for a command that is ready. -/
theorem writeDataReady_spec {hdr : Bytes} {s : Local}
    (htag : (s.slot.pool.cmdMem c).scsiCmd.tag = iscsiItt hdr)
    (hlun : (s.slot.pool.cmdMem c).scsiCmd.lun < s.dev.cfg.numLuns ∨
      (s.slot.pool.cmdMem c).scsiCmd.sendData = true) :
    ensures (writeDataReady id hdr c)
      (fun rc s' => WriteEnd id c (iscsiWriteDataDecap hdr).2 rc s s') s := by
  have hrefuse : ensures (refuseData c)
      (fun rc s' => WriteEnd id c (iscsiWriteDataDecap hdr).2 rc s s') s :=
    .refused (by decide) (.setCmd rfl)
  have htag' : (iscsiWriteDataDecap hdr).2.tag = (s.slot.pool.cmdMem c).scsiCmd.tag := htag.symm
  rw [writeDataReady, ensures]
  dsimp only
  rw [wp_bind, wp_getCmd, wp_bind, wp_getLogin]
  refine (wp_ite _ _ _).mpr ⟨fun _ => hrefuse, fun _ => ?_⟩
  refine (wp_ite _ _ _).mpr ⟨fun _ => hrefuse, fun hfits => ?_⟩
  refine (wp_ite _ _ _).mpr ⟨fun _ => hrefuse, fun _ => ?_⟩
  rw [wp_bind, rejectTag]
  simp only [htag', ne_eq, not_true, decide_false, Bool.not_false, if_true]
  refine (wp_ite _ _ _).mpr ⟨by simp, fun _ => ?_⟩
  refine (wp_ite _ _ _).mpr ⟨fun _ => .refused (by decide) (refl s), fun _ => ?_⟩
  exact placeWriteData_spec (Nat.le_of_not_lt hfits) hlun

/-- How a `WRITE_DATA` PDU ends. -/
inductive DataEnd (id h : Nat) (hdr : Bytes) (r : Option Int) (s s' : Local) : Prop where
  | bad (hr : r = some (-1)) (hs : s' = s)
  | waits {c : Nat} (hr : r = none) (hc : (iscsiItt hdr, c) ∈ s.slot.pool.cmds.entries)
    (hready : (s.slot.pool.cmdMem c).ready = false) (hpdu : (iscsiWriteDataDecap hdr).1 = 0)
    (hs : s' = s.setWaiting (some (h, hdr, c)))
  | ready {c : Nat} {rc : Int} (hr : r = some rc)
    (hc : (iscsiItt hdr, c) ∈ s.slot.pool.cmds.entries)
    (hready : (s.slot.pool.cmdMem c).ready = true) (hpdu : (iscsiWriteDataDecap hdr).1 = 0)
    (hend : WriteEnd id c (iscsiWriteDataDecap hdr).2 rc s s')

/-- What `execute_t` does with a `WRITE_DATA` PDU. -/
theorem writeDataT_spec (id h : Nat) (hdr : Bytes) {s : Local}
    (htag : ∀ k c, (k, c) ∈ s.slot.pool.cmds.entries → (s.slot.pool.cmdMem c).scsiCmd.tag = k)
    (hlun : ∀ c, (s.slot.pool.cmdMem c).ready = true →
      (s.slot.pool.cmdMem c).scsiCmd.lun < s.dev.cfg.numLuns ∨
        (s.slot.pool.cmdMem c).scsiCmd.sendData = true) :
    ensures (writeDataT id h hdr) (fun r s' => DataEnd id h hdr r s s') s := by
  rw [writeDataT, ensures]
  dsimp only
  refine (wp_ite _ _ _).mpr ⟨fun _ => .bad rfl rfl, fun hpdu => ?_⟩
  rw [wp_bind, wp_getOutstanding]
  refine ⟨fun _ => trivial, fun _ => ?_⟩
  rcases hget : s.slot.pool.cmds.get (iscsiWriteDataDecap hdr).2.tag with _ | c
  · trivial
  have hc : (iscsiItt hdr, c) ∈ s.slot.pool.cmds.entries := TagHash.get_eq_some.mp hget
  dsimp only
  rw [wp_bind, wp_getCmd]
  refine (wp_ite _ _ _).mpr ⟨fun hready => ?_, fun hready => ?_⟩
  · rw [wp_bind, wp_modify]
    exact .waits rfl hc (by simpa using hready) (not_not.mp hpdu) rfl
  · rw [wp_map]
    have hready : (s.slot.pool.cmdMem c).ready = true := by simpa using hready
    exact (writeDataReady_spec (htag _ _ hc) (hlun c hready)).mono fun rc s' h =>
      .ready rfl hc hready (not_not.mp hpdu) h

/-! ## What write data do not change -/

theorem Finished.calm {s s' : Local} (hf : Finished id c s s') : Calm s s' := by
  obtain ⟨_, rfl, he⟩ := hf
  exact Trans.trans (Calm.setCmd s c _) he.calm

/-- What write data leave alone: all that a calm program does, but for the stream. -/
theorem WriteEnd.still {data : WriteData} {rc : Int} {s s' : Local}
    (hw : WriteEnd id c data rc s s') : Still s s' ∧ s'.slot.waiting = s.slot.waiting ∧
      s'.slot.seq.expCmdSN = s.slot.seq.expCmdSN ∧ s'.slot.seq.maxCmdSN = s.slot.seq.maxCmdSN ∧
      (rc = 0 → Reads data.length s s') := by
  cases hw with
  | refused hrc h =>
    exact ⟨.of_calm h.calm, h.calm.waiting, h.calm.expCmdSN, h.calm.maxCmdSN,
      fun h0 => absurd h0 hrc⟩
  | @taken s₁ s₂ _ hplaced hcounted hend =>
    have h₁ : Still s s₁ ∧ s₁.slot.waiting = s.slot.waiting ∧
        s₁.slot.seq.expCmdSN = s.slot.seq.expCmdSN ∧ s₁.slot.seq.maxCmdSN = s.slot.seq.maxCmdSN ∧
        Reads data.length s s₁ := by
      rcases hplaced with ⟨h0, hf⟩ | ⟨_, hr, _, _, rfl⟩
      · have hf := hf.calm
        exact ⟨.of_calm hf, hf.waiting, hf.expCmdSN, hf.maxCmdSN, h0 ▸ .zero hf.rx⟩
      · exact ⟨⟨rfl, rfl, rfl, rfl, rfl, .of_eq rfl rfl⟩, rfl, rfl, rfl, hr, rfl⟩
    have h₂ : Calm s₁ s' := by
      obtain rfl : s₂ = _ := hcounted
      rcases hend with ⟨_, _, hf⟩ | ⟨_, hq⟩
      · exact Trans.trans (Calm.setCmd s₁ c _) hf.calm
      · exact Trans.trans (Calm.setCmd s₁ c _) hq.calm
    obtain ⟨hstill, hw, hexp, hmax, henough, hrx⟩ := h₁
    exact ⟨Trans.trans hstill (Still.of_calm h₂), h₂.waiting.trans hw, h₂.expCmdSN.trans hexp,
      h₂.maxCmdSN.trans hmax, fun _ => ⟨henough, h₂.rx.trans hrx⟩⟩

end Ost.Target
