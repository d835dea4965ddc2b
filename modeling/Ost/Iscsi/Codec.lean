import Ost.Iscsi.InitiatorPdu

/-!
# Round trips of the codecs

A codec is right (`RoundTrip`) when decapsulating the header that was encapsulated succeeds and
gives back the structure, for every structure within the format, and the encapsulation stores
nothing behind the 48 bytes of the header.

The proofs read each field out of the stores: a read passes every store that it does not
overlap, and the few overlapping ones have a lemma each.
-/

namespace Ost.Iscsi

/-! ## Fields -/

/-- A length within 24 bits passes its mask. -/
theorem and_length {x : UInt32} (h : x < 0x1000000) : x &&& 0x00ffffff = x := by
  apply UInt32.toNat_inj.mp
  rw [UInt32.toNat_and]
  exact (Nat.and_two_pow_sub_one_eq_mod _ 24).trans (Nat.mod_eq_of_lt h)

/-- A length that is a natural number, within 24 bits, passes its mask. -/
theorem ofNat_and_length {n : Nat} (h : n < 2 ^ 24) :
    UInt32.ofNat n &&& 0x00ffffff = UInt32.ofNat n := by
  apply and_length
  rw [UInt32.lt_iff_toNat_lt, UInt32.toNat_ofNat', Nat.mod_eq_of_lt (by omega)]
  exact h

/-- The byte in front of a length within 24 bits is zero. -/
theorem ofNat_length_div {n : Nat} (h : n < 2 ^ 24) : UInt8.ofNat (n / 16777216) = 0 := by
  rw [Nat.div_eq_of_lt (show n < 16777216 from h)]
  rfl

/-! ## The law -/

/-- The round trip of a codec on the structures within a format. -/
structure RoundTrip {α : Type} (encap : Bytes → α → Bytes) (decap : Bytes → Int × α)
    (InFormat : α → Prop) : Prop where
  /-- The header decapsulates to what was encapsulated. -/
  header : ∀ (buf : Bytes) (c : α), InFormat c →
    decap ((encap buf c).take iscsiHeaderLen) = (0, c)
  /-- The buffer behind the header is not changed. -/
  behind : ∀ (buf : Bytes) (c : α), InFormat c → (encap buf c).drop iscsiHeaderLen =
    buf.drop iscsiHeaderLen

/-- An encapsulation that stores within the header: the buffer only matters behind it. -/
def StoresHeader {α : Type} (encap : Bytes → α → Bytes) (c : α) : Prop :=
  (encap zeroHeader c).length = iscsiHeaderLen ∧
    ∀ buf, encap buf c = encap zeroHeader c ++ buf.drop iscsiHeaderLen

/-- The law, from a header that starts out cleared. -/
theorem RoundTrip.of_stores {α : Type} {encap : Bytes → α → Bytes} {decap : Bytes → Int × α}
    {InFormat : α → Prop} (hs : ∀ c, InFormat c → StoresHeader encap c)
    (hd : ∀ c, InFormat c → decap (encap zeroHeader c) = (0, c)) :
    RoundTrip encap decap InFormat := by
  constructor
  · intro buf c hc
    obtain ⟨hlen, hbuf⟩ := hs c hc
    rw [hbuf, List.take_left' hlen]
    exact hd c hc
  · intro buf c hc
    obtain ⟨hlen, hbuf⟩ := hs c hc
    rw [hbuf, List.drop_left' hlen]

/-! ## The data path -/

/-- What the header of a SCSI command holds: a length of 24 bits, the AHS length in a byte, an
attribute of three bits, a transfer length of 32 bits and a CDB of 16 bytes. -/
structure ScsiCmdPdu.InFormat (c : ScsiCmdPdu) : Prop where
  length : c.length < 2 ^ 24
  ahsLen : c.ahsLen < 2 ^ 8
  attr : c.attr < 8
  transLen : c.transLen < 2 ^ 32
  cdb : c.cdb.length = 16

/-- What a decoder admits in a SCSI response: no AHS and no bidirectional or overflow residual. -/
structure ScsiRsp.InFormat (r : ScsiRsp) : Prop where
  length : r.length < 0x1000000
  ahsLen : r.ahsLen = 0
  bidiOverflow : r.bidiOverflow = false
  bidiUnderflow : r.bidiUnderflow = false
  overflow : r.overflow = false
  bidiResCnt : r.bidiResCnt = 0

/-- A request for data has no AHS and no LUN. -/
structure R2t.InFormat (c : R2t) : Prop where
  ahsLength : c.ahsLength = 0
  lun : c.lun = 0

/-- What the header of write data holds. -/
structure WriteData.InFormat (c : WriteData) : Prop where
  length : c.length < 2 ^ 24
  offset : c.offset < 2 ^ 32

/-- What the header of read data holds: no LUN, and a status only with the S bit. -/
structure ReadData.InFormat (c : ReadData) : Prop where
  length : c.length < 0x1000000
  lun : c.lun = 0
  status : c.sBit = false → c.status = 0 ∧ c.statSN = 0 ∧ c.resCount = 0

theorem scsiCmd_flags (f i o : Bool) {a : UInt8} (ha : a < 8) :
    let b := flag f 0x80 ||| flag i 0x40 ||| flag o 0x20 ||| (a &&& 0x07)
    b &&& 0x18 = 0 ∧ bit b 0x80 = f ∧ bit b 0x40 = i ∧ bit b 0x20 = o ∧ b &&& 0x07 = a := by
  have hall : ∀ (f i o : Bool) (n : Fin 8),
      let b := flag f 0x80 ||| flag i 0x40 ||| flag o 0x20 ||| (UInt8.ofNat n &&& 0x07)
      b &&& 0x18 = 0 ∧ bit b 0x80 = f ∧ bit b 0x40 = i ∧ bit b 0x20 = o ∧
        b &&& 0x07 = UInt8.ofNat n := by decide
  have h := hall f i o ⟨a.toNat, ha⟩
  rwa [UInt8.ofNat_toNat] at h

theorem scsiRsp_flags (u : Bool) :
    let b := 0x80 ||| flag false 0x10 ||| flag false 0x08 ||| flag false 0x04 ||| flag u 0x02
    b &&& 0x80 = 0x80 ∧ bit b 0x10 = false ∧ bit b 0x08 = false ∧ bit b 0x04 = false ∧
      bit b 0x02 = u := by
  revert u
  decide

theorem readData_flags (f a o u s : Bool) :
    let b := flag f 0x80 ||| flag a 0x40 ||| flag o 0x04 ||| flag u 0x02 ||| flag s 0x01
    b &&& 0x38 = 0 ∧ bit b 0x80 = f ∧ bit b 0x40 = a ∧ bit b 0x04 = o ∧ bit b 0x02 = u ∧
      bit b 0x01 = s := by
  revert f a o u s
  decide

/-- The opcodes of the requests that have an immediate bit. -/
def requestOpcodes : List UInt8 := [opNopOut, opScsiCmd, opTaskCmd, opTextCmd, opLogoutCmd]

/-- The immediate bit shares its byte with the opcode. -/
theorem opcode_flags (op : UInt8) (i : Bool) (h : op ∈ requestOpcodes) :
    let b := op ||| flag i 0x40
    b &&& 0x3f = op ∧ bit b 0x40 = i ∧ b >>> 7 = 0 := by
  simp only [requestOpcodes, List.mem_cons, List.not_mem_nil, or_false] at h
  rcases h with rfl | rfl | rfl | rfl | rfl <;> (revert i; decide)

theorem final_flag (f : Bool) : flag f 0x80 &&& 0x7f = 0 ∧ bit (flag f 0x80) 0x80 = f := by
  revert f
  decide

/-- The stores of a SCSI command end with its CDB, which fills the header. -/
theorem storesHeader_scsiCmd {c : ScsiCmdPdu} (hc : c.cdb.length = 16) :
    StoresHeader iscsiScsiCmdEncap c := by
  constructor
  · simp [iscsiScsiCmdEncap, putBytes, iscsiHeaderLen, hc]
  · intro buf
    simp [iscsiScsiCmdEncap, putBytes, clearHeader, iscsiHeaderLen, hc,
      List.take_append_of_le_length]

theorem scsiCmd_roundTrip :
    RoundTrip iscsiScsiCmdEncap iscsiScsiCmdDecap ScsiCmdPdu.InFormat := by
  apply RoundTrip.of_stores
  · intro c hc
    exact storesHeader_scsiCmd hc.cdb
  · rintro ⟨immediate, final, fromdev, todev, attr, ahsLen, length, lun, tag, transLen, cmdSN,
      expStatSN, cdb⟩ ⟨hlen, hahs, hattr, htrans, hcdb⟩
    dsimp only at hlen hahs hattr htrans hcdb
    obtain ⟨h3f, himm, -⟩ := opcode_flags 0x01 immediate (by decide)
    have hahs' : (UInt8.ofNat ahsLen).toNat = ahsLen := UInt8.toNat_ofNat_of_lt' hahs
    have hlen' : length % 4294967296 % 16777216 = length := by omega
    have hcdb' : cdb.take 16 = cdb := List.take_of_length_le hcdb.le
    obtain ⟨h18, h80, h40, h20, h07⟩ := scsiCmd_flags final fromdev todev hattr
    simp [iscsiScsiCmdDecap, iscsiScsiCmdEncap, firstFailure, iscsiOpcode, iscsiLen, iscsiCmdSN,
      opScsiCmd, *]
    exact ⟨htrans, drop_putBytes (by simp) (by simp [hcdb])⟩

/-- What is left of a SCSI command in a header: the low bits of its fields. -/
def ScsiCmdPdu.low (c : ScsiCmdPdu) : ScsiCmdPdu :=
  { c with
    attr := c.attr &&& 0x07, ahsLen := c.ahsLen % 256, length := c.length % 16777216
    transLen := c.transLen % 4294967296 }

/-- The header of a SCSI command whose fields are of any size. -/
theorem scsiCmd_header (buf : Bytes) {c : ScsiCmdPdu} (hc : c.cdb.length = 16) :
    (iscsiScsiCmdDecap ((iscsiScsiCmdEncap buf c).take iscsiHeaderLen)).2 = c.low := by
  obtain ⟨hlen, hbuf⟩ := storesHeader_scsiCmd hc
  rw [hbuf, List.take_left' hlen]
  obtain ⟨immediate, final, fromdev, todev, attr, ahsLen, length, lun, tag, transLen, cmdSN,
    expStatSN, cdb⟩ := c
  dsimp only at hc
  obtain ⟨-, himm, -⟩ := opcode_flags 0x01 immediate (by decide)
  have hattr : attr &&& 0x07 < 8 := by
    have hle := UInt8.le_iff_toNat_le.mp (UInt8.and_le_right (a := attr) (b := 0x07))
    exact UInt8.lt_iff_toNat_lt.mpr (Nat.lt_succ_of_le hle)
  have hlen' : length % 4294967296 % 16777216 = length % 16777216 := by omega
  have hcdb' : cdb.take 16 = cdb := List.take_of_length_le hc.le
  obtain ⟨-, h80, h40, h20, h07⟩ := scsiCmd_flags final fromdev todev hattr
  rw [UInt8.and_assoc, UInt8.and_self] at h80 h40 h20 h07
  simp [iscsiScsiCmdDecap, iscsiScsiCmdEncap, ScsiCmdPdu.low, iscsiLen, iscsiCmdSN, *]
  exact drop_putBytes (by simp) (by simp [hc])

theorem scsiRsp_roundTrip : RoundTrip iscsiScsiRspEncap iscsiScsiRspDecap ScsiRsp.InFormat := by
  apply RoundTrip.of_stores
  · intro c _
    constructor <;> simp [iscsiScsiRspEncap, clearHeader, iscsiHeaderLen]
  · rintro ⟨bidiOverflow, bidiUnderflow, overflow, underflow, response, status, ahsLen, length, tag,
      statSN, expCmdSN, maxCmdSN, expDataSN, bidiResCnt, basicResCnt⟩
      ⟨hlen, rfl, rfl, rfl, rfl, rfl⟩
    have hmod : length.toNat % 16777216 = length.toNat := Nat.mod_eq_of_lt hlen
    obtain ⟨h80, h10, h08, h04, h02⟩ := scsiRsp_flags underflow
    simp [iscsiScsiRspDecap, iscsiScsiRspEncap, firstFailure, iscsiOpcode, opScsiRsp, *]
    decide

theorem r2t_roundTrip : RoundTrip iscsiR2tEncap iscsiR2tDecap R2t.InFormat := by
  apply RoundTrip.of_stores
  · intro c _
    constructor <;> simp [iscsiR2tEncap, clearHeader, iscsiHeaderLen]
  · rintro ⟨ahsLength, lun, tag, transferTag, statSN, expCmdSN, maxCmdSN, r2tSN, offset, length⟩
      ⟨rfl, rfl⟩
    simp [iscsiR2tDecap, iscsiR2tEncap, firstFailure, iscsiOpcode, opR2t]
    decide

theorem writeData_roundTrip :
    RoundTrip iscsiWriteDataEncap iscsiWriteDataDecap WriteData.InFormat := by
  apply RoundTrip.of_stores
  · intro c _
    constructor <;> simp [iscsiWriteDataEncap, clearHeader, iscsiHeaderLen]
  · rintro ⟨final, length, lun, tag, transferTag, expStatSN, dataSN, offset⟩ ⟨hlen, hoff⟩
    dsimp only at hlen hoff
    have hmod : length % 4294967296 = length := Nat.mod_eq_of_lt (by omega)
    have hhigh := ofNat_length_div hlen
    obtain ⟨h7f, h80⟩ := final_flag final
    simp [iscsiWriteDataDecap, iscsiWriteDataEncap, firstFailure, iscsiOpcode, opWriteData, *]
    exact ⟨by decide, by omega⟩

theorem readData_roundTrip :
    RoundTrip iscsiReadDataEncap iscsiReadDataDecap ReadData.InFormat := by
  apply RoundTrip.of_stores
  · intro c _
    constructor <;> simp [iscsiReadDataEncap, clearHeader, iscsiHeaderLen]
  · rintro ⟨final, ack, overflow, underflow, sBit, status, length, lun, taskTag, transferTag,
      statSN, expCmdSN, maxCmdSN, dataSN, offset, resCount⟩ ⟨hlen, rfl, hs⟩
    have hhigh : UInt8.ofNat (length.toNat / 16777216) = 0 := ofNat_length_div hlen
    obtain ⟨h38, h80, h40, h04, h02, h01⟩ := readData_flags final ack overflow underflow sBit
    simp [iscsiReadDataDecap, iscsiReadDataEncap, firstFailure, iscsiOpcode, opReadData, *]
    refine ⟨by decide, ?_, ?_, ?_⟩ <;> intro h
    · exact (hs h).1.symm
    · exact (hs h).2.1.symm
    · exact (hs h).2.2.symm

/-- The five codecs of the SCSI data path lose nothing. -/
theorem dataPath_roundTrip :
    RoundTrip iscsiScsiCmdEncap iscsiScsiCmdDecap ScsiCmdPdu.InFormat ∧
    RoundTrip iscsiScsiRspEncap iscsiScsiRspDecap ScsiRsp.InFormat ∧
    RoundTrip iscsiR2tEncap iscsiR2tDecap R2t.InFormat ∧
    RoundTrip iscsiWriteDataEncap iscsiWriteDataDecap WriteData.InFormat ∧
    RoundTrip iscsiReadDataEncap iscsiReadDataDecap ReadData.InFormat :=
  ⟨scsiCmd_roundTrip, scsiRsp_roundTrip, r2t_roundTrip, writeData_roundTrip, readData_roundTrip⟩

/-- A read of eight blocks, as it is written into a header. -/
def blocksRequest : ScsiCmdPdu :=
  { immediate := false, final := true, fromdev := true, todev := false, attr := 1, ahsLen := 0
    length := 0, lun := 2, tag := 7, transLen := 4096, cmdSN := 5, expStatSN := 3
    cdb := [0x28, 0, 0, 0, 0, 16, 0, 0, 8, 0, 0, 0, 0, 0, 0, 0] }

/-- The response to it, with what was not read. -/
def blocksResponse : ScsiRsp :=
  { ScsiRsp.zero with underflow := true, status := 2, tag := 7, basicResCnt := 512 }

/-- A request for the second block of a write. -/
def secondR2t : R2t :=
  { ahsLength := 0, lun := 0, tag := 7, transferTag := 9, statSN := 3, expCmdSN := 6, maxCmdSN := 69
    r2tSN := 1, offset := 512, length := 512 }

/-- The data for it. -/
def secondData : WriteData :=
  { final := true, length := 512, lun := 2, tag := 7, transferTag := 9, expStatSN := 3, dataSN := 0
    offset := 512 }

/-- The last data of a read, with its status. -/
def lastData : ReadData :=
  { ReadData.zero with final := true, sBit := true, length := 512, taskTag := 7, statSN := 3
                       offset := 3584 }

/-- They are within the format, and come back from a header. -/
theorem dataPath_roundTrip_read :
    iscsiScsiCmdDecap ((iscsiScsiCmdEncap zeroHeader blocksRequest).take iscsiHeaderLen) =
      (0, blocksRequest) ∧
    iscsiScsiRspDecap ((iscsiScsiRspEncap zeroHeader blocksResponse).take iscsiHeaderLen) =
      (0, blocksResponse) ∧
    iscsiR2tDecap ((iscsiR2tEncap zeroHeader secondR2t).take iscsiHeaderLen) = (0, secondR2t) ∧
    iscsiWriteDataDecap ((iscsiWriteDataEncap zeroHeader secondData).take iscsiHeaderLen) =
      (0, secondData) ∧
    iscsiReadDataDecap ((iscsiReadDataEncap zeroHeader lastData).take iscsiHeaderLen) =
      (0, lastData) :=
  ⟨dataPath_roundTrip.1.header _ _ ⟨by decide, by decide, by decide, by decide, by decide⟩,
    dataPath_roundTrip.2.1.header _ _ ⟨by decide, rfl, rfl, rfl, rfl, rfl⟩,
    dataPath_roundTrip.2.2.1.header _ _ ⟨rfl, rfl⟩,
    dataPath_roundTrip.2.2.2.1.header _ _ ⟨by decide, by decide⟩,
    dataPath_roundTrip.2.2.2.2.header _ _ ⟨by decide, rfl, by decide⟩⟩

/-! ## Control PDUs -/

/-- What the header of a ping holds. -/
structure NopOut.InFormat (c : NopOut) : Prop where
  length : c.length < 2 ^ 24

/-- What the header of the answer to a ping holds. -/
structure NopIn.InFormat (c : NopIn) : Prop where
  length : c.length < 0x1000000

/-- What the header of a text request holds: no LUN. -/
structure TextCmd.InFormat (c : TextCmd) : Prop where
  length : c.length < 2 ^ 24
  lun : c.lun = 0

/-- What the header of a text response holds: no LUN. -/
structure TextRsp.InFormat (r : TextRsp) : Prop where
  length : r.length < 0x1000000
  lun : r.lun = 0

/-- What the header of a logout request holds. -/
structure LogoutCmd.InFormat (c : LogoutCmd) : Prop where
  reason : c.reason < 128
  cid : c.cid < 2 ^ 16

/-- What the header of a logout response holds: no data, and two times of 16 bits. -/
structure LogoutRsp.InFormat (r : LogoutRsp) : Prop where
  length : r.length = 0
  time2Wait : r.time2Wait < 2 ^ 16
  time2Retain : r.time2Retain < 2 ^ 16

/-- What the header of a reject holds. -/
structure Reject.InFormat (c : Reject) : Prop where
  length : c.length < 0x1000000

theorem text_flags (f c : Bool) :
    let b := flag f 0x80 ||| flag c 0x40
    b &&& 0x3f = 0 ∧ bit b 0x80 = f ∧ bit b 0x40 = c := by
  revert f c
  decide

theorem logout_flags {r : UInt8} (hr : r < 128) :
    (r ||| 0x80) &&& 0x7f = r ∧ (r ||| 0x80) >>> 7 = 1 := by
  have hall : ∀ n : Fin 128, (UInt8.ofNat n ||| 0x80) &&& 0x7f = UInt8.ofNat n ∧
      (UInt8.ofNat n ||| 0x80) >>> 7 = 1 := by decide
  have h := hall ⟨r.toNat, hr⟩
  rwa [UInt8.ofNat_toNat] at h

theorem nopOut_roundTrip : RoundTrip iscsiNopOutEncap iscsiNopOutDecap NopOut.InFormat := by
  apply RoundTrip.of_stores
  · intro c _
    constructor <;> simp [iscsiNopOutEncap, clearHeader, iscsiHeaderLen]
  · rintro ⟨immediate, length, lun, tag, transferTag, cmdSN, expStatSN⟩ ⟨hlen⟩
    dsimp only at hlen
    have hmod : length % 4294967296 = length := Nat.mod_eq_of_lt (by omega)
    have hmask := ofNat_and_length hlen
    have hhigh := ofNat_length_div hlen
    obtain ⟨h3f, himm, -⟩ := opcode_flags 0x00 immediate (by decide)
    simp [iscsiNopOutDecap, iscsiNopOutEncap, firstFailure, iscsiOpcode, iscsiCmdSN, opNopOut, *]
    simpa using And.intro h3f himm

theorem nopIn_roundTrip : RoundTrip iscsiNopInEncap iscsiNopInDecap NopIn.InFormat := by
  apply RoundTrip.of_stores
  · intro c _
    constructor <;> simp [iscsiNopInEncap, clearHeader, iscsiHeaderLen]
  · rintro ⟨length, lun, tag, transferTag, statSN, expCmdSN, maxCmdSN⟩ ⟨hlen⟩
    dsimp only at hlen
    have hmask := and_length hlen
    have hhigh : UInt8.ofNat (length.toNat / 16777216) = 0 := ofNat_length_div hlen
    simp [iscsiNopInDecap, iscsiNopInEncap, firstFailure, iscsiOpcode, opNopIn, *]
    decide

theorem textCmd_roundTrip : RoundTrip iscsiTextCmdEncap iscsiTextCmdDecap TextCmd.InFormat := by
  apply RoundTrip.of_stores
  · intro c _
    constructor <;> simp [iscsiTextCmdEncap, clearHeader, iscsiHeaderLen]
  · rintro ⟨immediate, final, cont, length, lun, tag, transferTag, cmdSN, expStatSN⟩ ⟨hlen, rfl⟩
    dsimp only at hlen
    have hmod : length % 4294967296 = length := Nat.mod_eq_of_lt (by omega)
    have hmask := ofNat_and_length hlen
    have hhigh := ofNat_length_div hlen
    obtain ⟨h3f, himm, -⟩ := opcode_flags 0x04 immediate (by decide)
    obtain ⟨-, h80, h40⟩ := text_flags final cont
    simp [iscsiTextCmdDecap, iscsiTextCmdEncap, firstFailure, iscsiOpcode, iscsiCmdSN, opTextCmd, *]

theorem textRsp_roundTrip : RoundTrip iscsiTextRspEncap iscsiTextRspDecap TextRsp.InFormat := by
  apply RoundTrip.of_stores
  · intro c _
    constructor <;> simp [iscsiTextRspEncap, clearHeader, iscsiHeaderLen]
  · rintro ⟨final, cont, length, lun, tag, transferTag, statSN, expCmdSN, maxCmdSN⟩ ⟨hlen, rfl⟩
    dsimp only at hlen
    have hmask := and_length hlen
    have hhigh : UInt8.ofNat (length.toNat / 16777216) = 0 := ofNat_length_div hlen
    obtain ⟨h3f, h80, h40⟩ := text_flags final cont
    simp [iscsiTextRspDecap, iscsiTextRspEncap, firstFailure, iscsiOpcode, opTextRsp, *]
    decide

theorem logoutCmd_roundTrip :
    RoundTrip iscsiLogoutCmdEncap iscsiLogoutCmdDecap LogoutCmd.InFormat := by
  apply RoundTrip.of_stores
  · intro c _
    constructor <;> simp [iscsiLogoutCmdEncap, clearHeader, iscsiHeaderLen]
  · rintro ⟨immediate, reason, tag, cid, cmdSN, expStatSN⟩ ⟨hreason, hcid⟩
    dsimp only at hreason hcid
    obtain ⟨h3f, himm, h7⟩ := opcode_flags 0x06 immediate (by decide)
    obtain ⟨h7f, h80⟩ := logout_flags hreason
    simp [iscsiLogoutCmdDecap, iscsiLogoutCmdEncap, firstFailure, iscsiOpcode, iscsiCmdSN,
      opLogoutCmd, *]
    exact hcid

theorem logoutRsp_roundTrip :
    RoundTrip iscsiLogoutRspEncap iscsiLogoutRspDecap LogoutRsp.InFormat := by
  apply RoundTrip.of_stores
  · intro c _
    constructor <;> simp [iscsiLogoutRspEncap, clearHeader, iscsiHeaderLen]
  · rintro ⟨response, length, tag, statSN, expCmdSN, maxCmdSN, time2Wait, time2Retain⟩
      ⟨rfl, hwait, hretain⟩
    dsimp only at hwait hretain
    simp [iscsiLogoutRspDecap, iscsiLogoutRspEncap, firstFailure, iscsiOpcode, opLogoutRsp]
    exact ⟨by decide, hwait, hretain⟩

theorem reject_roundTrip : RoundTrip iscsiRejectEncap iscsiRejectDecap Reject.InFormat := by
  apply RoundTrip.of_stores
  · intro c _
    constructor <;> simp [iscsiRejectEncap, clearHeader, iscsiHeaderLen]
  · rintro ⟨reason, length, statSN, expCmdSN, maxCmdSN, dataSN⟩ ⟨hlen⟩
    have hhigh : UInt8.ofNat (length.toNat / 16777216) = 0 := ofNat_length_div hlen
    simp [iscsiRejectDecap, iscsiRejectEncap, firstFailure, iscsiOpcode, opReject, *]
    decide

/-- The seven codecs of the control PDUs lose nothing. -/
theorem control_roundTrip :
    RoundTrip iscsiNopOutEncap iscsiNopOutDecap NopOut.InFormat ∧
    RoundTrip iscsiNopInEncap iscsiNopInDecap NopIn.InFormat ∧
    RoundTrip iscsiTextCmdEncap iscsiTextCmdDecap TextCmd.InFormat ∧
    RoundTrip iscsiTextRspEncap iscsiTextRspDecap TextRsp.InFormat ∧
    RoundTrip iscsiLogoutCmdEncap iscsiLogoutCmdDecap LogoutCmd.InFormat ∧
    RoundTrip iscsiLogoutRspEncap iscsiLogoutRspDecap LogoutRsp.InFormat ∧
    RoundTrip iscsiRejectEncap iscsiRejectDecap Reject.InFormat :=
  ⟨nopOut_roundTrip, nopIn_roundTrip, textCmd_roundTrip, textRsp_roundTrip, logoutCmd_roundTrip,
    logoutRsp_roundTrip, reject_roundTrip⟩

/-- A ping with four bytes. -/
def pingOut : NopOut :=
  { immediate := true, length := 4, lun := 1, tag := 8, transferTag := 0xffffffff, cmdSN := 6
    expStatSN := 4 }

/-- The answer to it. -/
def pingIn : NopIn :=
  { length := 4, lun := 1, tag := 8, transferTag := 0xffffffff, statSN := 4, expCmdSN := 6
    maxCmdSN := 69 }

/-- A text request that goes on. -/
def textPart : TextCmd :=
  { immediate := false, final := false, cont := true, length := 17, lun := 0, tag := 9
    transferTag := 0xffffffff, cmdSN := 6, expStatSN := 5 }

/-- The response to the last part. -/
def textEnd : TextRsp :=
  { final := true, cont := false, length := 40, lun := 0, tag := 9, transferTag := 0xffffffff
    statSN := 5, expCmdSN := 7, maxCmdSN := 70 }

/-- A logout that closes the session. -/
def logoutRequest : LogoutCmd :=
  { immediate := true, reason := 0, tag := 10, cid := 1, cmdSN := 7, expStatSN := 6 }

/-- The response to it. -/
def logoutResponse : LogoutRsp :=
  { response := 0, length := 0, tag := 10, statSN := 6, expCmdSN := 7, maxCmdSN := 70
    time2Wait := 2, time2Retain := 20 }

/-- A reject, with the header that is rejected. -/
def badPdu : Reject :=
  { reason := 4, length := 48, statSN := 7, expCmdSN := 7, maxCmdSN := 70, dataSN := 0 }

/-- They are within the format, and come back from a header. -/
theorem control_roundTrip_logout :
    iscsiNopOutDecap ((iscsiNopOutEncap zeroHeader pingOut).take iscsiHeaderLen) = (0, pingOut) ∧
    iscsiNopInDecap ((iscsiNopInEncap zeroHeader pingIn).take iscsiHeaderLen) = (0, pingIn) ∧
    iscsiTextCmdDecap ((iscsiTextCmdEncap zeroHeader textPart).take iscsiHeaderLen) =
      (0, textPart) ∧
    iscsiTextRspDecap ((iscsiTextRspEncap zeroHeader textEnd).take iscsiHeaderLen) = (0, textEnd) ∧
    iscsiLogoutCmdDecap ((iscsiLogoutCmdEncap zeroHeader logoutRequest).take iscsiHeaderLen) =
      (0, logoutRequest) ∧
    iscsiLogoutRspDecap ((iscsiLogoutRspEncap zeroHeader logoutResponse).take iscsiHeaderLen) =
      (0, logoutResponse) ∧
    iscsiRejectDecap ((iscsiRejectEncap zeroHeader badPdu).take iscsiHeaderLen) = (0, badPdu) :=
  ⟨control_roundTrip.1.header _ _ ⟨by decide⟩, control_roundTrip.2.1.header _ _ ⟨by decide⟩,
    control_roundTrip.2.2.1.header _ _ ⟨by decide, rfl⟩,
    control_roundTrip.2.2.2.1.header _ _ ⟨by decide, rfl⟩,
    control_roundTrip.2.2.2.2.1.header _ _ ⟨by decide, by decide⟩,
    control_roundTrip.2.2.2.2.2.1.header _ _ ⟨rfl, by decide, by decide⟩,
    control_roundTrip.2.2.2.2.2.2.header _ _ ⟨by decide⟩⟩

end Ost.Iscsi
