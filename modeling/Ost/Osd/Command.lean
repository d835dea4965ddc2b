import Ost.Iscsi.Pdu

/-!
# Building an OSD command

`osd_args_t` with the macros `OSD_ENCAP_CDB` and `OSD_DECAP_CDB` of `osd.h`, and
`osd_command_build` of `osd_ops.c`.  The CDB of an OSD command has 128 bytes; the first 16
go into the header of the PDU and the others into an AHS.
-/

namespace Ost.Osd

open Ost.Iscsi

/-- `CONFIG_OSD_CDB_LEN`. -/
def configOsdCdbLen : Nat := 128

/-- `osd_args_t`. -/
structure OsdArgs where
  opcode : UInt8
  control : UInt8
  security : UInt8
  addCdbLen : UInt8
  serviceAction : UInt16
  optionsByte : UInt8
  secondOptionsByte : UInt8
  groupID : UInt32
  userID : UInt64
  sessionID : UInt32
  length : UInt64
  offset : UInt64
  setAttributesListLength : UInt32
  getAttributesPage : UInt32
  getAttributesListLength : UInt32
  getAttributesAllocationLength : UInt32
deriving DecidableEq, Repr

/-- `OSD_ENCAP_CDB`. -/
def osdEncapCdb (a : OsdArgs) (cdb : Bytes) : Bytes :=
  let cdb := put8 cdb 0 a.opcode
  let cdb := put8 cdb 1 a.control
  let cdb := put8 cdb 6 a.security
  let cdb := put8 cdb 7 a.addCdbLen
  let cdb := put16 cdb 8 a.serviceAction.toNat
  let cdb := put8 cdb 10 a.optionsByte
  let cdb := put8 cdb 11 a.secondOptionsByte
  let cdb := put32 cdb 12 a.groupID
  let cdb := put64 cdb 16 a.userID.toNat
  let cdb := put32 cdb 24 a.sessionID
  let cdb := put64 cdb 28 a.length.toNat
  let cdb := put64 cdb 36 a.offset.toNat
  let cdb := put32 cdb 44 a.getAttributesPage
  let cdb := put32 cdb 48 a.getAttributesListLength
  let cdb := put32 cdb 52 a.getAttributesAllocationLength
  put32 cdb 72 a.setAttributesListLength

/-- `OSD_DECAP_CDB`.  `ext` is the memory at `EXT_CDB`, where byte 16 of the CDB lies. -/
def osdDecapCdb (cdb ext : Bytes) : OsdArgs :=
  { opcode := byte cdb 0
    control := byte cdb 1
    security := byte cdb 6
    addCdbLen := byte cdb 7
    serviceAction := UInt16.ofNat (be16 cdb 8)
    optionsByte := byte cdb 10
    secondOptionsByte := byte cdb 11
    groupID := be32 cdb 12
    userID := be64 ext (16 - 16)
    sessionID := be32 ext (24 - 16)
    length := be64 ext (28 - 16)
    offset := be64 ext (36 - 16)
    getAttributesPage := be32 ext (44 - 16)
    getAttributesListLength := be32 ext (48 - 16)
    getAttributesAllocationLength := be32 ext (52 - 16)
    setAttributesListLength := be32 ext (72 - 16) }

/-- `OSD_OPS_MEM_T`.  The buffers are their contents. -/
structure OpsMem where
  sendData : Bytes
  sendLen : UInt64
  sendSg : Nat
  recvLen : UInt64
  recvSg : Nat
deriving DecidableEq, Repr

/-- The fields of `ISCSI_SCSI_CMD_T` that `osd_command_build` sets. -/
structure BuiltCmd where
  cdb : Bytes
  ahs : Bytes
  ahsLen : Nat
  fromdev : Bool
  todev : Bool
  length : UInt32
  transLen : UInt32
  bidiTransLen : UInt32
  sendData : Bool
  sendSgLen : Nat
  recvData : Bool
  recvSgLen : Nat
  lun : UInt64
deriving DecidableEq, Repr

/-- The AHS part of `osd_command_build`: the array and the length.  `HTONL` takes 32 bits of the
length. -/
def buildAhs (cdb : Bytes) (m : OpsMem) : Bytes × Nat :=
  let ahs := List.replicate configIscsiMaxAhsLen 0
  let (ahs, pos) :=
    if m.sendLen ≠ 0 && m.recvLen ≠ 0 then
      (put32 (put8 (put16 ahs 0 8) 2 0x02) 4 m.recvLen.toUInt32, 8)
    else (ahs, 0)
  (putBytes (put8 (put16 ahs pos (configOsdCdbLen - 15)) (pos + 2) 0x01) (pos + 4)
    ((cdb.drop 16).take (configOsdCdbLen - 16)), pos + (configOsdCdbLen - 15))

/-- `osd_command_build`. -/
def osdCommandBuild (a : OsdArgs) (m : OpsMem) (lun : UInt64) : BuiltCmd :=
  let cdb := osdEncapCdb a (List.replicate configOsdCdbLen 0)
  let (ahs, ahsLen) := buildAhs cdb m
  let cmd : BuiltCmd :=
    { cdb, ahs, ahsLen, fromdev := false, todev := false, length := 0, transLen := 0
      bidiTransLen := 0, sendData := false, sendSgLen := 0, recvData := false, recvSgLen := 0
      lun }
  if m.sendLen ≠ 0 && m.recvLen ≠ 0 then
    { cmd with
      fromdev := true, todev := true, length := m.sendLen.toUInt32
      transLen := m.sendLen.toUInt32, bidiTransLen := m.recvLen.toUInt32
      sendData := true, sendSgLen := m.sendSg, recvData := true, recvSgLen := m.recvSg }
  else if m.sendLen ≠ 0 then
    { cmd with
      todev := true, length := m.sendLen.toUInt32, transLen := m.sendLen.toUInt32
      sendData := true, sendSgLen := m.sendSg }
  else if m.recvLen ≠ 0 then
    { cmd with
      fromdev := true, transLen := m.recvLen.toUInt32
      recvData := true, recvSgLen := m.recvSg }
  else cmd

@[simp] theorem length_osdEncapCdb (a : OsdArgs) (cdb : Bytes) :
    (osdEncapCdb a cdb).length = cdb.length := by
  simp [osdEncapCdb, put64]

/-- What a built command sends besides its data. -/
theorem osdCommandBuild_sends (a : OsdArgs) (m : OpsMem) (lun : UInt64) :
    let cdb := osdEncapCdb a (List.replicate configOsdCdbLen 0)
    (osdCommandBuild a m lun).cdb = cdb ∧ (osdCommandBuild a m lun).ahs = (buildAhs cdb m).1 ∧
      (osdCommandBuild a m lun).ahsLen = (buildAhs cdb m).2 := by
  unfold osdCommandBuild
  generalize osdEncapCdb a (List.replicate configOsdCdbLen 0) = cdb
  dsimp only
  rcases buildAhs cdb m with ⟨ahs, ahsLen⟩
  dsimp only
  split_ifs <;> exact ⟨rfl, rfl, rfl⟩

/-- What is read back depends on the first 16 bytes of the CDB and on 60 bytes behind `ext`. -/
theorem osdDecapCdb_congr {cdb cdb' ext ext' : Bytes} (h : ∀ i < 16, byte cdb i = byte cdb' i)
    (h' : ∀ i < 60, byte ext i = byte ext' i) : osdDecapCdb cdb ext = osdDecapCdb cdb' ext' := by
  have h16 {i : Nat} (hi : i + 2 ≤ 16) : be16 cdb i = be16 cdb' i := by
    rw [be16, be16, h i (by omega), h (i + 1) (by omega)]
  have h32 {i : Nat} (hi : i + 4 ≤ 16) : be32 cdb i = be32 cdb' i := by
    rw [be32, be32, be24, be24, h16 (by omega), h (i + 2) (by omega), h (i + 3) (by omega)]
  have e32 {i : Nat} (hi : i + 4 ≤ 60) : be32 ext i = be32 ext' i := by
    rw [be32, be32, be24, be24, be16, be16, h' i (by omega), h' (i + 1) (by omega),
      h' (i + 2) (by omega), h' (i + 3) (by omega)]
  have e64 {i : Nat} (hi : i + 8 ≤ 60) : be64 ext i = be64 ext' i := by
    rw [be64, be64, e32 (by omega), e32 (by omega)]
  unfold osdDecapCdb
  rw [h 0 (by decide), h 1 (by decide), h 6 (by decide), h 7 (by decide), h16 (by decide),
    h 10 (by decide), h 11 (by decide), h32 (by decide), e64 (by decide), e32 (by decide),
    e64 (by decide), e64 (by decide), e32 (by decide), e32 (by decide), e32 (by decide),
    e32 (by decide)]

/-- Every field is read back from the CDB. -/
theorem osdDecapCdb_encap (a : OsdArgs) {cdb : Bytes} (hlen : cdb.length = configOsdCdbLen) :
    osdDecapCdb (osdEncapCdb a cdb) ((osdEncapCdb a cdb).drop 16) = a := by
  unfold configOsdCdbLen at hlen
  have halves (x : UInt64) : UInt64.ofNat (x.toNat / 4294967296 % 4294967296) * 4294967296 +
      UInt64.ofNat (x.toNat % 4294967296) = x := by
    apply UInt64.toNat_inj.mp
    have := x.toNat_lt
    rw [UInt64.toNat_add, UInt64.toNat_mul, UInt64.toNat_ofNat', UInt64.toNat_ofNat']
    change (_ % 2 ^ 64 * 4294967296 % 2 ^ 64 + _) % 2 ^ 64 = _
    omega
  cases a
  simp [osdDecapCdb, osdEncapCdb, be64, be32_drop, put64, hlen, halves]

end Ost.Osd
