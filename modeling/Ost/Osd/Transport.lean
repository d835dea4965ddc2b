import Ost.Driver.Accounting
import Ost.Iscsi.Codec
import Ost.Osd.Command
import Ost.Target.Moves
import Ost.Target.ScsiRequest

/-!
# The transport of an extended CDB

A CDB of more than 16 bytes travels in an AHS segment: a length of two bytes, a type, a byte
that is not used, and the rest of the CDB.  A bidirectional command has a segment with its
expected read length in front.  `osd_command_build` and `iscsi_queuecommand` lay out the
segments, and the loop of `scsi_command_t` walks them.

The producers announce 3 and 4 bytes less than the segment takes.  What is cut off is zero in
the array of the target, so an extended CDB arrives just when it ends in zeros.
-/

namespace Ost.Osd

open Ost.Iscsi Ost.Util Ost.Prog Ost.Target

/-! ## The segments -/

/-- The position behind the segment of the expected read length. -/
def segmentPos (bidi : Option UInt32) : Nat := if bidi.isSome then 8 else 0

/-- The array with the segment of the expected read length. -/
def bidiSegment (bidi : Option UInt32) : Bytes :=
  let ahs := List.replicate configIscsiMaxAhsLen 0
  match bidi with
  | none => ahs
  | some n => put32 (put8 (put16 ahs 0 8) 2 0x02) 4 n

/-- The array with both segments: the announced length `w`, and the bytes of the CDB. -/
def segments (bidi : Option UInt32) (w : Nat) (data : Bytes) : Bytes :=
  putBytes (put8 (put16 (bidiSegment bidi) (segmentPos bidi) w) (segmentPos bidi + 2) 0x01)
    (segmentPos bidi + 4) data

theorem byte_putBytes_copied {h b : Bytes} {i k : Nat} (hi : i ≤ h.length) (hk : k < b.length) :
    byte (putBytes h i b) (i + k) = byte b k := by
  have hlen : (h.take i).length = i := by simp [hi]
  simp only [byte, putBytes, List.append_assoc, List.getD_eq_getElem?_getD]
  rw [List.getElem?_append_right (by omega), hlen, Nat.add_sub_cancel_left,
    List.getElem?_append_left hk]

section Segments

variable {bidi : Option UInt32} {w : Nat} {data : Bytes}

@[simp] theorem length_bidiSegment (bidi : Option UInt32) : (bidiSegment bidi).length = 128 := by
  cases bidi <;> simp [bidiSegment, configIscsiMaxAhsLen]

theorem segmentPos_le (bidi : Option UInt32) : segmentPos bidi ≤ 8 := by
  unfold segmentPos
  split <;> decide

theorem segments_cdb (bidi : Option UInt32) (data : Bytes) (hw : w < 65536) :
    be16 (segments bidi w data) (segmentPos bidi) = w ∧
      byte (segments bidi w data) (segmentPos bidi + 2) = 1 ∧
      ∀ i < data.length, byte (segments bidi w data) (segmentPos bidi + 4 + i) = byte data i := by
  have hpos := segmentPos_le bidi
  have hlen := length_bidiSegment bidi
  refine ⟨?_, ?_, fun i hi => byte_putBytes_copied (by simp; omega) hi⟩
  · rw [segments, be16_putBytes (by omega) (by simp; omega), be16_put8_of_ne _ (by omega),
      be16_put16_self _ (by omega), Nat.mod_eq_of_lt hw]
  · rw [segments, byte_putBytes (by omega) (by simp; omega), byte_put8_self _ (by simp; omega)]

theorem segments_bidi (n : UInt32) (data : Bytes) :
    be16 (segments (some n) w data) 0 = 8 ∧ byte (segments (some n) w data) 2 = 2 ∧
      be32 (segments (some n) w data) 4 = n := by
  have hlen : 12 ≤ (put8 (put16 (bidiSegment (some n)) 8 w) 10 0x01).length := by simp
  have hseg : segments (some n) w data =
    putBytes (put8 (put16 (bidiSegment (some n)) 8 w) 10 0x01) 12 data := rfl
  rw [hseg, be16_putBytes (by decide) hlen, byte_putBytes (by decide) hlen,
    be32_putBytes (by decide) hlen]
  simp [bidiSegment, configIscsiMaxAhsLen]

end Segments

/-! ## The walk over the segments -/

/-- A byte of the array that was received. -/
theorem byte_ahsArray {bs : Bytes} {len i : Nat} (hlen : bs.length = len) (hi : i < len) :
    byte (ahsArray bs len) i = byte bs i := by
  simp only [byte, ahsArray, List.append_assoc, List.getD_eq_getElem?_getD]
  rw [List.getElem?_append_left (by omega)]

theorem byte_ahsArray_zero {bs : Bytes} {len i : Nat} (hlen : bs.length = len) (hi : len ≤ i)
    (hi' : i < configIscsiMaxAhsLen) : byte (ahsArray bs len) i = 0 := by
  simp only [byte, ahsArray, List.append_assoc, List.getD_eq_getElem?_getD]
  rw [List.getElem?_append_right (by omega), List.getElem?_append_left (by simp; omega),
    List.getElem?_replicate]
  split <;> rfl

section Walk

variable (c : Nat) {mem : Bytes} {len fuel pos : Nat} {Q : Bool → Local → Prop}
  {E : Halt → Local → Prop} {s : Local}

/-- The structure of a command after its SCSI part has changed. -/
def setScsi (s : Local) (a : ScsiCmd) : Local :=
  s.setCmd c { s.slot.pool.cmdMem c with scsiCmd := a }

@[simp] theorem scsiCmd_setScsi (s : Local) (a : ScsiCmd) :
    ((setScsi c s a).slot.pool.cmdMem c).scsiCmd = a := by
  simp [setScsi, Local.setCmd, Local.setPool]

theorem wp_parseAhs_done (h : len ≤ pos + 1) :
    wp (parseAhs c mem len (fuel + 1) pos) Q E s ↔ Q true s := by
  rw [parseAhs, if_pos h]
  rfl

theorem wp_parseAhs_cdb (h : ¬len ≤ pos + 1) (ht : byte mem (pos + 2) = 1) :
    wp (parseAhs c mem len (fuel + 1) pos) Q E s ↔
      wp (parseAhs c mem len fuel (pos + be16 mem pos)) Q E
        (setScsi c s { (s.slot.pool.cmdMem c).scsiCmd with extCdb := some (pos + 4) }) := by
  rw [parseAhs, if_neg h, if_pos ht, wp_bind]
  rfl

theorem wp_parseAhs_bidi (h : ¬len ≤ pos + 1) (ht : byte mem (pos + 2) = 2) :
    wp (parseAhs c mem len (fuel + 1) pos) Q E s ↔
      wp (parseAhs c mem len fuel (pos + be16 mem pos)) Q E
        (setScsi c s { (s.slot.pool.cmdMem c).scsiCmd with
          bidiTransLen := (be32 mem (pos + 4)).toNat }) := by
  rw [parseAhs, if_neg h, if_neg (by rw [ht]; decide), if_pos ht, wp_bind]
  rfl

theorem wp_parseAhs_unknown (h : ¬len ≤ pos + 1) (ht : byte mem (pos + 2) = 0) :
    wp (parseAhs c mem len (fuel + 1) pos) Q E s ↔ Q false s := by
  rw [parseAhs, if_neg h, if_neg (by rw [ht]; decide), if_neg (by rw [ht]; decide)]
  rfl

/-- The SCSI part of a command after the segment of the CDB, and whether the walk succeeded. -/
def cdbWalked (pos w : Nat) (a : ScsiCmd) : Bool × ScsiCmd :=
  if w = 1 then (true, a)
  else if w = 2 then (false, a)
  else (true, { a with extCdb := some (pos + 4) })

/-- The SCSI part of a command after the segment of the expected read length. -/
def bidiWalked (bidi : Option UInt32) (a : ScsiCmd) : ScsiCmd :=
  match bidi with
  | none => a
  | some n => { a with bidiTransLen := n.toNat }

variable {bidi : Option UInt32} {w : Nat} {data : Bytes}

/-- What the target finds in its array when `segmentPos bidi + w` bytes of the segments have
arrived. -/
def received (bidi : Option UInt32) (w : Nat) (data : Bytes) : Bytes :=
  ahsArray ((segments bidi w data).take (segmentPos bidi + w)) (segmentPos bidi + w)

/-- The segments fit the array. -/
structure Fits (bidi : Option UInt32) (w : Nat) (data : Bytes) : Prop where
  pos : 0 < w
  room : segmentPos bidi + 4 + data.length ≤ configIscsiMaxAhsLen
  announced : segmentPos bidi + w ≤ segmentPos bidi + 4 + data.length

variable (hf : Fits bidi w data)

include hf

theorem length_segments : (segments bidi w data).length = configIscsiMaxAhsLen := by
  have := hf.room
  unfold configIscsiMaxAhsLen at this
  simp [segments, putBytes, configIscsiMaxAhsLen]
  omega

/-- What was received of the segments. -/
theorem byte_received {i : Nat} (hi : i < segmentPos bidi + w) :
    byte (received bidi w data) i = byte (segments bidi w data) i := by
  have hlen := length_segments hf
  have := hf.announced
  have := hf.room
  rw [received, byte_ahsArray (by rw [List.length_take]; omega) hi]
  simp only [byte, List.getD_eq_getElem?_getD]
  rw [List.getElem?_take_of_lt hi]

theorem byte_received_zero {i : Nat} (hi : segmentPos bidi + w ≤ i)
    (hi' : i < configIscsiMaxAhsLen) : byte (received bidi w data) i = 0 := by
  have hlen := length_segments hf
  have := hf.announced
  have := hf.room
  exact byte_ahsArray_zero (by rw [List.length_take]; omega) hi hi'

theorem wp_parseAhs_last (fuel : Nat) (s : Local) :
    wp (parseAhs c (received bidi w data) (segmentPos bidi + w) (fuel + 2) (segmentPos bidi))
      (fun ok s' => (ok, (s'.slot.pool.cmdMem c).scsiCmd) =
        cdbWalked (segmentPos bidi) w (s.slot.pool.cmdMem c).scsiCmd) (fun _ _ => False) s := by
  have hpos := hf.pos
  have hroom := hf.room
  have hann := hf.announced
  unfold configIscsiMaxAhsLen at hroom
  obtain ⟨hlen, htype, -⟩ := segments_cdb (w := w) bidi data (by omega)
  have h₁ : w = 1 ∨ w = 2 ∨ 2 < w := by omega
  rcases h₁ with rfl | rfl | hw
  · exact (wp_parseAhs_done c (Nat.le_refl _)).mpr rfl
  · have hz := byte_received_zero hf (Nat.le_refl _) (by unfold configIscsiMaxAhsLen; omega)
    exact (wp_parseAhs_unknown c (by omega) hz).mpr rfl
  · have htype' := (byte_received hf (by omega)).trans htype
    have hlen' : be16 (received bidi w data) (segmentPos bidi) = w :=
      (be16_congr fun k hk => byte_received hf (by omega)).trans hlen
    rw [wp_parseAhs_cdb c (by omega) htype', hlen', wp_parseAhs_done c (by omega),
      scsiCmd_setScsi, cdbWalked, if_neg (by omega), if_neg (by omega)]

/-- The walk over all segments. -/
theorem wp_parseAhs_received (s : Local) :
    wp (parseAhs c (received bidi w data) (segmentPos bidi + w) (segmentPos bidi + w + 1) 0)
      (fun ok s' => (ok, (s'.slot.pool.cmdMem c).scsiCmd) =
        cdbWalked (segmentPos bidi) w (bidiWalked bidi (s.slot.pool.cmdMem c).scsiCmd))
      (fun _ _ => False) s := by
  have hpos := hf.pos
  cases bidi with
  | none =>
    obtain ⟨n, rfl⟩ : ∃ n, w = n + 1 := ⟨w - 1, by omega⟩
    have := wp_parseAhs_last c hf n s
    simpa [segmentPos, bidiWalked, Nat.add_assoc] using this
  | some n =>
    obtain ⟨hlen, htype, hn⟩ := segments_bidi (w := w) n data
    have hb {i : Nat} (hi : i < 8 + w) := byte_received hf (i := i) hi
    have hlen' : be16 (received (some n) w data) 0 = 8 :=
      (be16_congr fun k hk => hb (by omega)).trans hlen
    have hn' : be32 (received (some n) w data) 4 = n :=
      (be32_congr fun k hk => hb (by omega)).trans hn
    change wp (parseAhs c _ (8 + w) (8 + w + 1) 0) _ _ s
    rw [wp_parseAhs_bidi c (by omega) ((hb (by omega)).trans htype), hlen', hn']
    obtain ⟨fuel, hfuel⟩ : ∃ fuel, 8 + w = fuel + 2 := ⟨6 + w, by omega⟩
    have := wp_parseAhs_last c hf fuel
      (setScsi c s (bidiWalked (some n) (s.slot.pool.cmdMem c).scsiCmd))
    rw [scsiCmd_setScsi, ← hfuel] at this
    exact this

end Walk

/-! ## From the header to the array -/

/-- The command `c` was decapsulated from a header with `pdu`, and its AHS comes next. -/
structure Delivered (pdu : ScsiCmdPdu) (ahs : Bytes) (c : Nat) (s : Local) : Prop where
  cmd : ∃ buf, (s.slot.pool.cmdMem c).scsiCmd =
    ScsiCmd.ofPdu (iscsiScsiCmdDecap ((iscsiScsiCmdEncap buf pdu).take iscsiHeaderLen)).2
  rx : ∃ rest, s.slot.conn.rx = ahs.take pdu.ahsLen ++
    List.replicate (pad4 pdu.ahsLen - pdu.ahsLen) 0 ++ rest

/-- The fields that a header with `pdu` leaves. -/
theorem Delivered.scsiCmd {pdu : ScsiCmdPdu} {ahs : Bytes} {c : Nat} {s : Local}
    (h : Delivered pdu ahs c s) (hcdb : pdu.cdb.length = 16) :
    (s.slot.pool.cmdMem c).scsiCmd = ScsiCmd.ofPdu pdu.low := by
  obtain ⟨buf, hcmd⟩ := h.cmd
  rw [hcmd, scsiCmd_header buf hcdb]

/-- The length of segments that fit goes through the one byte of the header. -/
theorem low_ahsLen {bidi : Option UInt32} {w : Nat} {data : Bytes} {pdu : ScsiCmdPdu}
    (hf : Fits bidi w data) (hlen : pdu.ahsLen = segmentPos bidi + w) :
    (ScsiCmd.ofPdu pdu.low).ahsLen = pdu.ahsLen := by
  have hann := hf.announced
  have hroom := hf.room
  unfold configIscsiMaxAhsLen at hroom
  exact Nat.mod_eq_of_lt (by omega)

/-- Reading the AHS of a command whose segments were sent. -/
theorem wp_readAhs {bidi : Option UInt32} {w : Nat} {data : Bytes} {pdu : ScsiCmdPdu} {c : Nat}
    {s : Local} (hf : Fits bidi w data) (hcdb : pdu.cdb.length = 16)
    (hlen : pdu.ahsLen = segmentPos bidi + w)
    (h : Delivered pdu (segments bidi w data) c s) :
    wp (readAhs c) (fun ok s' => (ok, (s'.slot.pool.cmdMem c).scsiCmd) =
        cdbWalked (segmentPos bidi) w (bidiWalked bidi { ScsiCmd.ofPdu pdu.low with
          ahs := (segments bidi w data).take (segmentPos bidi + w) }))
      (fun _ _ => False) s := by
  have hsegs := length_segments hf
  have hann := hf.announced
  have hroom := hf.room
  have hpos := hf.pos
  obtain ⟨rest, hrx⟩ := h.rx
  have ha := h.scsiCmd hcdb
  have hlow := low_ahsLen hf hlen
  have hbs : ((segments bidi w data).take pdu.ahsLen).length = pdu.ahsLen := by
    rw [List.length_take]
    omega
  have henough : pad4 pdu.ahsLen ≤ s.slot.conn.rx.length := by
    have := le_pad4 pdu.ahsLen
    rw [hrx, List.length_append, List.length_append, List.length_replicate, hbs]
    omega
  have htake : s.slot.conn.rx.take pdu.ahsLen = (segments bidi w data).take pdu.ahsLen := by
    rw [hrx, List.append_assoc, List.take_append_of_le_length hbs.ge, List.take_of_length_le hbs.le]
  simp only [readAhs, wp_bind, wp_getCmd, wp_ite, wp_pure]
  rw [ha]
  change ((ScsiCmd.ofPdu pdu.low).ahsLen = 0 → _) ∧
    (_ → wp (sockRecv (ScsiCmd.ofPdu pdu.low).ahsLen) _ _ s)
  rw [hlow]
  refine ⟨fun h0 => absurd h0 (by omega), fun _ => ?_⟩
  refine wp_mono (wp_and (sockRecv_spec _ s) (sockRecv_rc _ s)) ?_ fun _ _ h => h.1
  rintro ⟨rc, bs⟩ s₁ ⟨⟨⟨rx, rfl⟩, hbs', -⟩, hrc⟩
  dsimp only at hbs' hrc
  obtain rfl := hrc.mpr henough
  obtain rfl := hbs'.trans htake
  simp only [wp_guarded, wp_halt, wp_modifyScsi]
  refine ⟨fun hlong => absurd hlong (by omega), fun _ => ⟨fun hne => absurd rfl hne, fun _ => ?_⟩⟩
  change wp (parseAhs c (ahsArray ((segments bidi w data).take pdu.ahsLen) pdu.ahsLen) pdu.ahsLen
    (pdu.ahsLen + 1) 0) _ _ (setScsi c (s.setConn _) { (s.slot.pool.cmdMem c).scsiCmd with
      ahs := (segments bidi w data).take pdu.ahsLen })
  have walk := wp_parseAhs_received c hf (setScsi c (s.setConn { s.slot.conn with rx })
    { ScsiCmd.ofPdu pdu.low with ahs := (segments bidi w data).take (segmentPos bidi + w) })
  rw [scsiCmd_setScsi] at walk
  dsimp only at walk ⊢
  rw [hlow, hlen] at walk
  rw [ha, hlow, hlen]
  exact walk

/-! ## Arrival -/

/-- The memory at `ext_cdb`. -/
def extCdbMemory (a : ScsiCmd) (pos : Nat) : Bytes := (ahsArray a.ahs a.ahsLen).drop pos

/-- The AHS is read to its end, and what is then at `ext_cdb` satisfies `P`. -/
def Arrives (c : Nat) (s : Local) (P : ScsiCmd → Bytes → Prop) : Prop :=
  ∃ s', readAhs c s = .ret true s' ∧ ∃ pos,
    (s'.slot.pool.cmdMem c).scsiCmd.extCdb = some pos ∧
      P (s'.slot.pool.cmdMem c).scsiCmd (extCdbMemory (s'.slot.pool.cmdMem c).scsiCmd pos)

/-- The command of a segment that arrived. -/
def landed (bidi : Option UInt32) (w : Nat) (data : Bytes) (pdu : ScsiCmdPdu) : ScsiCmd :=
  { bidiWalked bidi { ScsiCmd.ofPdu pdu.low with
      ahs := (segments bidi w data).take (segmentPos bidi + w) } with
    extCdb := some (segmentPos bidi + 4) }

/-- A segment arrives when at least three of its bytes are announced. -/
theorem arrives_iff {bidi : Option UInt32} {w : Nat} {data : Bytes} {pdu : ScsiCmdPdu} {c : Nat}
    {s : Local} (hf : Fits bidi w data) (hcdb : pdu.cdb.length = 16)
    (hlen : pdu.ahsLen = segmentPos bidi + w)
    (h : Delivered pdu (segments bidi w data) c s) (P : ScsiCmd → Bytes → Prop) :
    Arrives c s P ↔ 2 < w ∧ P (landed bidi w data pdu)
      ((received bidi w data).drop (segmentPos bidi + 4)) := by
  obtain ⟨ok, s', hret, hwalk⟩ := (wp_readAhs hf hcdb hlen h).returns
  have hpos := hf.pos
  have hnone : (bidiWalked bidi { ScsiCmd.ofPdu pdu.low with
      ahs := (segments bidi w data).take (segmentPos bidi + w) }).extCdb = none := by
    cases bidi <;> rfl
  have hmem : extCdbMemory (landed bidi w data pdu) (segmentPos bidi + 4) =
      (received bidi w data).drop (segmentPos bidi + 4) := by
    unfold extCdbMemory landed received
    rw [← hlen, ← low_ahsLen hf hlen]
    cases bidi <;> rfl
  constructor
  · rintro ⟨s'', hret', pos, hext, hP⟩
    obtain ⟨rfl, rfl⟩ := Outcome.ret.inj (hret.symm.trans hret')
    unfold cdbWalked at hwalk
    split_ifs at hwalk with h₁ h₂
    · rw [(Prod.mk.inj hwalk).2, hnone] at hext
      exact nomatch hext
    · exact nomatch (Prod.mk.inj hwalk).1
    · have hcmd : (s'.slot.pool.cmdMem c).scsiCmd = landed bidi w data pdu := (Prod.mk.inj hwalk).2
      rw [hcmd] at hext hP
      obtain rfl : segmentPos bidi + 4 = pos := Option.some.inj hext
      exact ⟨by omega, hmem ▸ hP⟩
  · rintro ⟨hw, hP⟩
    rw [cdbWalked, if_neg (by omega), if_neg (by omega)] at hwalk
    obtain ⟨rfl, hcmd⟩ := Prod.mk.inj hwalk
    have hcmd : (s'.slot.pool.cmdMem c).scsiCmd = landed bidi w data pdu := hcmd
    exact ⟨s', hret, segmentPos bidi + 4, by rw [hcmd]; rfl, by rwa [hcmd, hmem]⟩

/-- The bytes at `ext_cdb`: those that were received, and zeros in the place of those that were
cut off. -/
theorem byte_extCdb {bidi : Option UInt32} {w : Nat} {data : Bytes} (hf : Fits bidi w data)
    {i : Nat} (hi : i < data.length) (hw : w < 65536) :
    byte ((received bidi w data).drop (segmentPos bidi + 4)) i =
      if 4 + i < w then byte data i else 0 := by
  have hroom := hf.room
  rw [byte_drop]
  split
  · rw [byte_received hf (by omega)]
    exact (segments_cdb bidi data hw).2.2 i hi
  · exact byte_received_zero hf (by omega) (by omega)

/-! ## The two producers -/

/-- The expected read length that `osd_command_build` sends. -/
def OpsMem.bidi (m : OpsMem) : Option UInt32 :=
  if m.sendLen ≠ 0 ∧ m.recvLen ≠ 0 then some m.recvLen.toUInt32 else none

/-- `osd_command_build` lays out the segments, and announces 113 bytes for the CDB. -/
theorem buildAhs_segments (cdb : Bytes) (m : OpsMem) :
    buildAhs cdb m = (segments m.bidi 113 ((cdb.drop 16).take 112), segmentPos m.bidi + 113) := by
  unfold buildAhs OpsMem.bidi segments bidiSegment segmentPos
  by_cases hs : m.sendLen = 0 <;> by_cases hr : m.recvLen = 0 <;>
    simp [hs, hr, configOsdCdbLen]

/-- The expected read length that `iscsi_queuecommand` sends. -/
def hostBidi (t : Driver.Transfer) : Option UInt32 :=
  if t.input ∧ t.output then some t.bidiTransLen else none

/-- `iscsi_queuecommand` lays out the segments, and announces as many bytes for the CDB as there
are behind the first 16. -/
theorem queueAhs_segments {p : Driver.ScsiCmnd} (t : Driver.Transfer) (hp : 16 < p.cmdLen) :
    Driver.queueAhs p t = (segments (hostBidi t) (p.cmdLen - 16)
      ((p.cmnd.drop 16).take (p.cmdLen - 16)), segmentPos (hostBidi t) + (p.cmdLen - 16)) := by
  unfold Driver.queueAhs hostBidi segments bidiSegment segmentPos
  cases hi : t.input <;> cases ho : t.output <;> simp [hp]

/-- The header of a command carries the first 16 bytes of its CDB and the length of its AHS. -/
structure Carries (cdb : Bytes) (ahsLen : Nat) (pdu : ScsiCmdPdu) : Prop where
  cdb : pdu.cdb = cdb.take 16
  ahsLen : pdu.ahsLen = ahsLen

/-- The OSD command arrives: its arguments are decoded from the CDB, and a bidirectional one has
its expected read length. -/
def OsdArrives (a : OsdArgs) (m : OpsMem) (c : Nat) (s : Local) : Prop :=
  Arrives c s fun cmd ext => osdDecapCdb cmd.cdb ext = a ∧
    (m.sendLen ≠ 0 → m.recvLen ≠ 0 → cmd.bidiTransLen = m.recvLen.toNat)

/-- The command of the midlayer arrives: at `ext_cdb` are the bytes behind the first 16. -/
def HostArrives (p : Driver.ScsiCmnd) (c : Nat) (s : Local) : Prop :=
  Arrives c s fun _ ext => ∀ i < p.cmdLen - 16, byte ext i = byte p.cmnd (16 + i)

section Osd

variable (a : OsdArgs) (m : OpsMem) (lun : UInt64)

/-- What is cut off the CDB of an OSD command lies behind the last field of its arguments. -/
theorem osdDecapCdb_landed {cdb : Bytes} {bidi : Option UInt32} {pdu : ScsiCmdPdu}
    (hcdb : cdb = osdEncapCdb a (List.replicate configOsdCdbLen 0))
    (hpdu : pdu.cdb = cdb.take 16)
    (hf : Fits bidi 113 ((cdb.drop 16).take 112)) :
    osdDecapCdb (landed bidi 113 ((cdb.drop 16).take 112) pdu).cdb
      ((received bidi 113 ((cdb.drop 16).take 112)).drop (segmentPos bidi + 4)) = a := by
  have hlen : cdb.length = 128 := by
    rw [hcdb, length_osdEncapCdb]
    rfl
  have hzero : (List.replicate configOsdCdbLen (0 : UInt8)).length = configOsdCdbLen :=
    List.length_replicate
  have hback := osdDecapCdb_encap a hzero
  rw [← hcdb] at hback
  refine Eq.trans (osdDecapCdb_congr (fun i hi => ?_) fun i hi => ?_) hback
  · have hfirst : (landed bidi 113 ((cdb.drop 16).take 112) pdu).cdb = cdb.take 16 := by
      rw [← hpdu]
      cases bidi <;> rfl
    rw [hfirst]
    simp only [byte, List.getD_eq_getElem?_getD, List.getElem?_take_of_lt hi]
  · rw [byte_extCdb hf (by simp; omega) (by decide), if_pos (by omega)]
    simp only [byte, List.getD_eq_getElem?_getD]
    rw [List.getElem?_take_of_lt (by omega)]

variable {a m lun} {pdu : ScsiCmdPdu} {c : Nat} {s : Local}

/-- An OSD command arrives, unless the length it expects to read takes more than 32 bits. -/
theorem osdArrives_iff
    (hpdu : Carries (osdCommandBuild a m lun).cdb (osdCommandBuild a m lun).ahsLen pdu)
    (h : Delivered pdu (osdCommandBuild a m lun).ahs c s) :
    (∃ ok s', readAhs c s = .ret ok s') ∧ (OsdArrives a m c s ↔
      (m.sendLen ≠ 0 → m.recvLen ≠ 0 → m.recvLen.toNat < 2 ^ 32)) := by
  obtain ⟨hcdb, hahs, hlen⟩ := osdCommandBuild_sends a m lun
  rw [buildAhs_segments] at hahs hlen
  obtain ⟨hpcdb, hplen⟩ := hpdu
  rw [hcdb] at hpcdb
  rw [hlen] at hplen
  rw [hahs] at h
  have hdata : (((osdEncapCdb a (List.replicate configOsdCdbLen 0)).drop 16).take 112).length =
      112 := by simp [configOsdCdbLen]
  have hpos := segmentPos_le m.bidi
  have hf : Fits m.bidi 113
      (((osdEncapCdb a (List.replicate configOsdCdbLen 0)).drop 16).take 112) := by
    constructor
    · decide
    · rw [hdata, configIscsiMaxAhsLen]
      omega
    · rw [hdata]
      omega
  have hp16 : pdu.cdb.length = 16 := by simp [hpcdb, configOsdCdbLen]
  obtain ⟨ok, s', hret, -⟩ := (wp_readAhs hf hp16 hplen h).returns
  refine ⟨⟨ok, s', hret⟩, (arrives_iff hf hp16 hplen h _).trans ⟨?_, ?_⟩⟩
  · rintro ⟨-, -, hbidi⟩ hs hr
    have hn := hbidi hs hr
    rw [landed, OpsMem.bidi, if_pos ⟨hs, hr⟩] at hn
    change m.recvLen.toUInt32.toNat = _ at hn
    rw [← hn]
    exact UInt32.toNat_lt _
  · intro hsmall
    refine ⟨by decide, osdDecapCdb_landed a rfl hpcdb hf, fun hs hr => ?_⟩
    rw [landed, OpsMem.bidi, if_pos ⟨hs, hr⟩]
    change m.recvLen.toUInt32.toNat = _
    rw [UInt64.toNat_toUInt32]
    exact Nat.mod_eq_of_lt (hsmall hs hr)

end Osd

section Host

variable {cfg : Driver.Config} {p : Driver.ScsiCmnd} {enqueue : Driver.Enqueue}
  {h h' : Driver.Host} {i : Nat}

/-- What `iscsi_queuecommand` leaves in the structure of a command that it accepts. -/
theorem accepted_queuecommand (h : Driver.Host) :
    ensures (Driver.iscsiQueuecommand cfg p enqueue) (fun _ h' => ∀ i,
      h'.accepted = h.accepted ++ [(i, p)] →
        (16 < p.cmdLen → p.cmdLen ≤ configIscsiMaxAhsLen) ∧
        (h'.cmds i).ahs = (Driver.queueAhs p (p.transfer cfg)).1 ∧
        (h'.cmds i).ahsLen = (Driver.queueAhs p (p.transfer cfg)).2) h := by
  have early {h' : Driver.Host} (he : h'.accepted = h.accepted) {P : Prop} {i : Nat}
      (hi : h'.accepted = h.accepted ++ [(i, p)]) : P := by
    have := congrArg List.length (he.symm.trans hi)
    rw [List.length_append, List.length_singleton] at this
    omega
  refine (wp_ite _ _ _).mpr ⟨fun _ _ hi => early rfl hi, fun _ => ?_⟩
  refine (wp_bind _ _).mpr ?_
  refine (wp_bind _ _).mpr ((wp_ite _ _ _).mpr ⟨fun _ _ hi => early rfl hi, fun _ => ?_⟩)
  refine ensures.bind (P := fun _ h₁ => h₁.accepted = h.accepted) ?_ fun _ h₁ h₁acc => ?_
  · exact (wp_guarded _ _).mpr ⟨fun _ => rfl, fun _ => rfl⟩
  refine (wp_bind _ _).mpr (wp_get.mpr ?_)
  cases h₁.cmdQ with
  | nil => exact fun _ hi => early h₁acc hi
  | cons j cmdQ =>
    refine (wp_bind _ _).mpr ((wp_ite _ _ _).mpr ⟨fun _ _ hi => early h₁acc hi, fun hlong => ?_⟩)
    refine (wp_ite _ _ _).mpr ⟨fun _ _ hi => early h₁acc hi, fun _ => ?_⟩
    refine (wp_bind _ _).mpr ((wp_ite _ _ _).mpr ⟨fun _ _ hi => early h₁acc hi, fun _ => ?_⟩)
    intro i hi
    change h₁.accepted ++ [(j, p)] = _ at hi
    rw [h₁acc] at hi
    obtain ⟨rfl, -⟩ := Prod.mk.inj (List.singleton_inj.mp (List.append_cancel_left hi))
    refine ⟨fun h16 => ?_, ?_, ?_⟩
    · simp only [Bool.and_eq_true, decide_eq_true_eq, not_and, not_lt, gt_iff_lt] at hlong
      exact hlong h16
    · exact congrArg Driver.DriverCmd.ahs (if_pos rfl)
    · exact congrArg Driver.DriverCmd.ahsLen (if_pos rfl)

variable {pdu : ScsiCmdPdu} {c : Nat} {s : Local}

/-- A command of the midlayer arrives when more than two bytes follow the first 16 and the last
four of them are zero. -/
theorem hostArrives_iff (hq : Driver.iscsiQueuecommand cfg p enqueue h = .ret 0 h')
    (hacc : h'.accepted = h.accepted ++ [(i, p)]) (hlen : 17 ≤ p.cmdLen)
    (hcmnd : p.cmdLen ≤ p.cmnd.length) (hpdu : Carries p.cmnd (h'.cmds i).ahsLen pdu)
    (hd : Delivered pdu (h'.cmds i).ahs c s) :
    (∃ ok s', readAhs c s = .ret ok s') ∧ (HostArrives p c s ↔ 19 ≤ p.cmdLen ∧
      ∀ j, 16 ≤ j → j < p.cmdLen → p.cmdLen ≤ j + 4 → byte p.cmnd j = 0) := by
  obtain ⟨hmax, hahs, hahsLen⟩ := (accepted_queuecommand h).of_ret hq i hacc
  rw [queueAhs_segments _ hlen] at hahs hahsLen
  obtain ⟨hpcdb, hplen⟩ := hpdu
  rw [hahsLen] at hplen
  rw [hahs] at hd
  have hdata : ((p.cmnd.drop 16).take (p.cmdLen - 16)).length = p.cmdLen - 16 := by
    rw [List.length_take, List.length_drop]
    omega
  have hbyte (k : Nat) (hk : k < p.cmdLen - 16) :
      byte ((p.cmnd.drop 16).take (p.cmdLen - 16)) k = byte p.cmnd (16 + k) := by
    rw [← byte_drop]
    simp only [byte, List.getD_eq_getElem?_getD, List.getElem?_take_of_lt hk]
  have hpos := segmentPos_le (hostBidi (p.transfer cfg))
  have hmax := hmax hlen
  unfold configIscsiMaxAhsLen at hmax
  have hf : Fits (hostBidi (p.transfer cfg)) (p.cmdLen - 16)
      ((p.cmnd.drop 16).take (p.cmdLen - 16)) := by
    constructor
    · omega
    · rw [hdata, configIscsiMaxAhsLen]
      omega
    · rw [hdata]
      omega
  have hp16 : pdu.cdb.length = 16 := by
    rw [hpcdb, List.length_take]
    omega
  obtain ⟨ok, s', hret, -⟩ := (wp_readAhs hf hp16 hplen hd).returns
  refine ⟨⟨ok, s', hret⟩, (arrives_iff hf hp16 hplen hd _).trans ⟨?_, ?_⟩⟩
  · rintro ⟨hw, hext⟩
    refine ⟨by omega, fun j h16 hj htail => ?_⟩
    obtain ⟨k, rfl⟩ : ∃ k, j = 16 + k := ⟨j - 16, by omega⟩
    rw [← hext k (by omega), byte_extCdb hf (by rw [hdata]; omega) (by omega), if_neg (by omega)]
  · rintro ⟨h19, hzero⟩
    refine ⟨by omega, fun k hk => ?_⟩
    rw [byte_extCdb hf (by rw [hdata]; omega) (by omega)]
    split
    · exact hbyte k hk
    · exact (hzero (16 + k) (by omega) (by omega) (by omega)).symm

end Host

/-- The transport of extended CDBs.  The arguments of an OSD command arrive, together with the
length it expects to read as far as that takes 32 bits.  The CDB of a command of the midlayer
arrives just when more than two bytes follow the first 16 and the last four of them are zero. -/
theorem extCdb_transport (pdu : ScsiCmdPdu) (c : Nat) (s : Local) :
    (∀ a m lun, Carries (osdCommandBuild a m lun).cdb (osdCommandBuild a m lun).ahsLen pdu →
      Delivered pdu (osdCommandBuild a m lun).ahs c s →
      (∃ ok s', readAhs c s = .ret ok s') ∧ (OsdArrives a m c s ↔
        (m.sendLen ≠ 0 → m.recvLen ≠ 0 → m.recvLen.toNat < 2 ^ 32))) ∧
    (∀ cfg p enqueue h h' i, Driver.iscsiQueuecommand cfg p enqueue h = .ret 0 h' →
      h'.accepted = h.accepted ++ [(i, p)] → 17 ≤ p.cmdLen → p.cmdLen ≤ p.cmnd.length →
      Carries p.cmnd (h'.cmds i).ahsLen pdu → Delivered pdu (h'.cmds i).ahs c s →
      (∃ ok s', readAhs c s = .ret ok s') ∧ (HostArrives p c s ↔ 19 ≤ p.cmdLen ∧
        ∀ j, 16 ≤ j → j < p.cmdLen → p.cmdLen ≤ j + 4 → byte p.cmnd j = 0)) :=
  ⟨fun _ _ _ hpdu hd => osdArrives_iff hpdu hd,
    fun _ _ _ _ _ _ hq hacc hlen hcmnd hpdu hd => hostArrives_iff hq hacc hlen hcmnd hpdu hd⟩

/-- The PDU of a command with nothing but a CDB and an AHS. -/
def bareCommand (cdb : Bytes) (ahsLen : Nat) : ScsiCmdPdu :=
  { immediate := false, final := true, fromdev := false, todev := false, attr := 0, ahsLen
    length := 0, lun := 0, tag := 0, transLen := 0, cmdSN := 0, expStatSN := 0
    cdb := cdb.take 16 }

/-- A worker of a target that has received the header of a command, with the AHS to come. -/
def commandReceived (pdu : ScsiCmdPdu) (ahs : Bytes) : Local :=
  let s := smallWorld.view 0
  setScsi 0
    (s.setConn { s.slot.conn with
      rx := ahs.take pdu.ahsLen ++ List.replicate (pad4 pdu.ahsLen - pdu.ahsLen) 0 ++ [] })
    (ScsiCmd.ofPdu (iscsiScsiCmdDecap ((iscsiScsiCmdEncap [] pdu).take iscsiHeaderLen)).2)

theorem delivered_commandReceived (pdu : ScsiCmdPdu) (ahs : Bytes) :
    Delivered pdu ahs 0 (commandReceived pdu ahs) := by
  constructor
  · exact ⟨[], scsiCmd_setScsi 0 _ _⟩
  · exact ⟨[], rfl⟩

/-- A command without data whose CDB has 32 bytes. -/
def longCommand (last : UInt8) : Driver.ScsiCmnd :=
  { tid := 0, lun := 0, cmnd := List.replicate 28 0x7f ++ [0, 0, 0, last], cmdLen := 32
    direction := .other, bufflen := 0, bidiBufflen := 0, useSg := 0 }

/-- The driver accepts such a command in its first structure. -/
theorem queuecommand_longCommand (last : UInt8) : ∃ h',
    Driver.iscsiQueuecommand Driver.plainConfig (longCommand last) .queued
      (.init Driver.freshCmds) = .ret 0 h' ∧
    h'.accepted = (Driver.Host.init Driver.freshCmds).accepted ++ [(0, longCommand last)] :=
  ⟨_, rfl, rfl⟩

/-- Some arguments of an OSD command. -/
def someArgs : OsdArgs :=
  { opcode := 0x7f, control := 0, security := 0, addCdbLen := 120, serviceAction := 0x8805
    optionsByte := 0, secondOptionsByte := 0, groupID := 1, userID := 0x123456789a, sessionID := 0
    length := 4096, offset := 512, setAttributesListLength := 0, getAttributesPage := 0
    getAttributesListLength := 0, getAttributesAllocationLength := 0 }

/-- A bidirectional OSD command, and a command of the midlayer that ends in zeros. -/
theorem extCdb_transport_small :
    (∃ m s, m.sendLen ≠ 0 ∧ m.recvLen ≠ 0 ∧ OsdArrives someArgs m 0 s) ∧
    ∃ s, HostArrives (longCommand 0) 0 s := by
  constructor
  · let m : OpsMem := ⟨[1, 2, 3, 4], 4, 0, 512, 0⟩
    let b := osdCommandBuild someArgs m 0
    have h := (extCdb_transport (bareCommand b.cdb b.ahsLen) 0 (commandReceived _ b.ahs)).1
      someArgs m 0 ⟨rfl, rfl⟩ (delivered_commandReceived _ _)
    exact ⟨m, _, by decide, by decide, h.2.mpr fun _ _ => by decide⟩
  · obtain ⟨h', hq, hacc⟩ := queuecommand_longCommand 0
    have h := (extCdb_transport (bareCommand (longCommand 0).cmnd (h'.cmds 0).ahsLen)
      0 (commandReceived _ (h'.cmds 0).ahs)).2 _ _ _ _ h' 0 hq hacc (by decide) (by decide)
      ⟨rfl, rfl⟩ (delivered_commandReceived _ _)
    refine ⟨_, h.2.mpr ⟨by decide, fun j h16 hj htail => ?_⟩⟩
    change j < 32 at hj
    change 32 ≤ j + 4 at htail
    have h28 : 28 ≤ j := by omega
    interval_cases j <;> rfl

/-- The last byte of a CDB of 32 bytes is lost. -/
theorem extCdb_lost : ∃ h' s,
    Driver.iscsiQueuecommand Driver.plainConfig (longCommand 1) .queued
      (.init Driver.freshCmds) = .ret 0 h' ∧
    Carries (longCommand 1).cmnd (h'.cmds 0).ahsLen
      (bareCommand (longCommand 1).cmnd (h'.cmds 0).ahsLen) ∧
    Delivered (bareCommand (longCommand 1).cmnd (h'.cmds 0).ahsLen)
      (h'.cmds 0).ahs 0 s ∧ ¬HostArrives (longCommand 1) 0 s := by
  obtain ⟨h', hq, hacc⟩ := queuecommand_longCommand 1
  have h := hostArrives_iff hq hacc (by decide) (by decide) ⟨rfl, rfl⟩
    (delivered_commandReceived (bareCommand (longCommand 1).cmnd (h'.cmds 0).ahsLen)
      (h'.cmds 0).ahs)
  refine ⟨h', _, hq, ⟨rfl, rfl⟩, delivered_commandReceived _ _, fun harr => ?_⟩
  exact absurd ((h.2.mp harr).2 31 (by decide) (by decide) (by decide)) (by decide)

end Ost.Osd
