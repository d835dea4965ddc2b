import Ost.Iscsi.Bytes

/-!
# The PDUs a target handles

Field for field transcriptions of the `iscsi_*_decap` functions a target calls on
what it receives, and of the `iscsi_*_encap` functions it calls on what it sends.

A decapsulation returns the code's return value together with the structure, because
`iscsi_login_cmd_decap` and `iscsi_scsi_cmd_decap` fill the structure before they
fail and their callers use it all the same.  The functions are only called on a
header whose opcode has been tested, so the structure is always filled.

An encapsulation is given the buffer that the header goes to.  It clears the 48 bytes of
the header and stores field after field, in the order of the source.
-/

namespace Ost.Iscsi

/-! ## Opcodes and header macros -/

/-- `ISCSI_OPCODE`. -/
def iscsiOpcode (h : Bytes) : UInt8 := byte h 0 &&& 0x3f

/-- `ISCSI_ITT`. -/
def iscsiItt (h : Bytes) : UInt32 := be32 h 16

/-- `ISCSI_LEN`. -/
def iscsiLen (h : Bytes) : Nat := be24 h 5

/-- `ISCSI_CMD_SN`. -/
def iscsiCmdSN (h : Bytes) : UInt32 := be32 h 24

/-- `ISCSI_NOP_OUT`. -/
def opNopOut : UInt8 := 0x00
/-- `ISCSI_SCSI_CMD`. -/
def opScsiCmd : UInt8 := 0x01
/-- `ISCSI_TASK_CMD`. -/
def opTaskCmd : UInt8 := 0x02
/-- `ISCSI_LOGIN_CMD`. -/
def opLoginCmd : UInt8 := 0x03
/-- `ISCSI_TEXT_CMD`. -/
def opTextCmd : UInt8 := 0x04
/-- `ISCSI_WRITE_DATA`. -/
def opWriteData : UInt8 := 0x05
/-- `ISCSI_LOGOUT_CMD`. -/
def opLogoutCmd : UInt8 := 0x06

/-- `RETURN_NOT_EQUAL` over a list of tests: the code of the first that fails, else zero. -/
def firstFailure : List (Bool × Int) → Int
  | [] => 0
  | (ok, rc) :: l => if ok then firstFailure l else rc

/-- A bit of a byte as the code tests it: `(b & mask) ? 1 : 0`. -/
def bit (b mask : UInt8) : Bool := (b &&& mask) != 0

/-! ## Requests -/

/-- `ISCSI_TASK_CMD_T`. -/
structure TaskCmd where
  immediate : Bool
  function : UInt8
  lun : UInt8
  tag : UInt32
  refTag : UInt32
  cmdSN : UInt32
  expStatSN : UInt32
  refCmdSN : UInt32
  expDataSN : UInt32
deriving DecidableEq, Repr

/-- `iscsi_task_cmd_decap`. -/
def iscsiTaskCmdDecap (h : Bytes) : Int × TaskCmd :=
  (firstFailure
    [(iscsiOpcode h == opTaskCmd, -1), (byte h 1 &&& 0x80 == 0x80, 1), (byte h 2 == 0, 1),
     (byte h 3 == 0, 1), (be32 h 4 == 0, 1), (byte h 8 == 0, 1), (be32 h 40 == 0, 1),
     (be32 h 44 == 0, 1)],
   { immediate := bit (byte h 0) 0x40
     function := byte h 1 &&& 0x80
     lun := byte h 9
     tag := be32 h 16
     refTag := be32 h 20
     cmdSN := iscsiCmdSN h
     expStatSN := be32 h 28
     refCmdSN := be32 h 32
     expDataSN := be32 h 36 })

/-- `ISCSI_NOP_OUT_T`. -/
structure NopOut where
  immediate : Bool
  length : Nat
  lun : UInt8
  tag : UInt32
  transferTag : UInt32
  cmdSN : UInt32
  expStatSN : UInt32
deriving DecidableEq, Repr

/-- `iscsi_nop_out_decap`. -/
def iscsiNopOutDecap (h : Bytes) : Int × NopOut :=
  (firstFailure
    [(iscsiOpcode h == opNopOut, 1), (byte h 1 == 0x80, 1), (byte h 2 == 0, 1),
     (byte h 3 == 0, 1), (byte h 4 == 0, 1), (byte h 8 == 0, 1), (be32 h 32 == 0, 1),
     (be32 h 36 == 0, 1), (be32 h 40 == 0, 1), (be32 h 44 == 0, 1)],
   { immediate := bit (byte h 0) 0x40
     length := (be32 h 4).toNat
     lun := byte h 9
     tag := be32 h 16
     transferTag := be32 h 20
     cmdSN := iscsiCmdSN h
     expStatSN := be32 h 28 })

/-- `ISCSI_TEXT_CMD_T`. -/
structure TextCmd where
  immediate : Bool
  final : Bool
  cont : Bool
  length : Nat
  lun : UInt8
  tag : UInt32
  transferTag : UInt32
  cmdSN : UInt32
  expStatSN : UInt32
deriving DecidableEq, Repr

/-- `iscsi_text_cmd_decap`. -/
def iscsiTextCmdDecap (h : Bytes) : Int × TextCmd :=
  (firstFailure
    [(iscsiOpcode h == opTextCmd, 1), (byte h 1 &&& 0x00 == 0, 1), (byte h 2 == 0, 1),
     (byte h 3 == 0, 1), (byte h 4 == 0, 1), (be32 h 8 == 0, 1), (be32 h 12 == 0, 1),
     (be32 h 32 == 0, 1), (be32 h 36 == 0, 1), (be32 h 40 == 0, 1), (be32 h 44 == 0, 1)],
   { immediate := bit (byte h 0) 0x40
     final := bit (byte h 1) 0x80
     cont := bit (byte h 1) 0x40
     length := (be32 h 4).toNat
     lun := byte h 9
     tag := be32 h 16
     transferTag := be32 h 20
     cmdSN := iscsiCmdSN h
     expStatSN := be32 h 28 })

/-- `ISCSI_LOGIN_CMD_T`. -/
structure LoginCmd where
  transit : Bool
  cont : Bool
  csg : UInt8
  nsg : UInt8
  versionMax : UInt8
  versionMin : UInt8
  ahsLength : UInt8
  length : Nat
  isid : Nat
  tsih : Nat
  tag : UInt32
  cid : Nat
  cmdSN : UInt32
  expStatSN : UInt32
deriving DecidableEq, Repr

/-- The stage test at the end of `iscsi_login_cmd_decap`. -/
def LoginCmd.badTransit (c : LoginCmd) : Bool :=
  c.transit && (c.nsg ≤ c.csg || (c.nsg != 0 && c.nsg != 1 && c.nsg != 3))

/-- `iscsi_login_cmd_decap`.  The mask `0x00ffffffff` of the length keeps the AHS byte. -/
def iscsiLoginCmdDecap (h : Bytes) : Int × LoginCmd :=
  let c : LoginCmd :=
    { transit := bit (byte h 1) 0x80
      cont := bit (byte h 1) 0x40
      csg := (byte h 1 &&& 0x0c) >>> 2
      nsg := byte h 1 &&& 0x03
      versionMax := byte h 2
      versionMin := byte h 3
      ahsLength := byte h 4
      length := (be32 h 4).toNat
      isid := be16 h 8 * 4294967296 + (be32 h 10).toNat
      tsih := be16 h 14
      tag := be32 h 16
      cid := be16 h 20
      cmdSN := iscsiCmdSN h
      expStatSN := be32 h 28 }
  (firstFailure
    [(iscsiOpcode h == opLoginCmd, 1), ((byte h 1 &&& 0x30) >>> 4 == 0, 1), (be16 h 22 == 0, 1),
     (be32 h 32 == 0, 1), (be32 h 36 == 0, 1), (be32 h 40 == 0, 1), (be32 h 44 == 0, 1),
     (!c.badTransit, -1)], c)

/-- `ISCSI_LOGOUT_CMD_T`. -/
structure LogoutCmd where
  immediate : Bool
  reason : UInt8
  tag : UInt32
  cid : Nat
  cmdSN : UInt32
  expStatSN : UInt32
deriving DecidableEq, Repr

/-- `iscsi_logout_cmd_decap`. -/
def iscsiLogoutCmdDecap (h : Bytes) : Int × LogoutCmd :=
  (firstFailure
    [(iscsiOpcode h == opLogoutCmd, 1), (byte h 0 >>> 7 == 0, 1), (byte h 1 >>> 7 == 1, 1),
     (byte h 2 == 0, 1), (byte h 3 == 0, 1), (be32 h 4 == 0, 1), (be32 h 8 == 0, 1),
     (be32 h 12 == 0, 1), (be32 h 32 == 0, 1), (be32 h 36 == 0, 1), (be32 h 40 == 0, 1),
     (be32 h 44 == 0, 1)],
   { immediate := bit (byte h 0) 0x40
     reason := byte h 1 &&& 0x7f
     tag := be32 h 16
     cid := be16 h 20
     cmdSN := iscsiCmdSN h
     expStatSN := be32 h 28 })

/-- The fields of `ISCSI_SCSI_CMD_T` that `iscsi_scsi_cmd_decap` sets. -/
structure ScsiCmdPdu where
  immediate : Bool
  final : Bool
  fromdev : Bool
  todev : Bool
  attr : UInt8
  ahsLen : Nat
  length : Nat
  lun : UInt8
  tag : UInt32
  transLen : Nat
  cmdSN : UInt32
  expStatSN : UInt32
  cdb : Bytes
deriving DecidableEq, Repr

/-- `iscsi_scsi_cmd_decap`.  `cdb` is a pointer to the last 16 bytes of the header. -/
def iscsiScsiCmdDecap (h : Bytes) : Int × ScsiCmdPdu :=
  (firstFailure
    [(iscsiOpcode h == opScsiCmd, 1), (byte h 1 &&& 0x18 == 0, -1), (byte h 2 == 0, 1),
     (byte h 3 == 0, 1), (byte h 8 == 0, 1)],
   { immediate := bit (byte h 0) 0x40
     final := bit (byte h 1) 0x80
     fromdev := bit (byte h 1) 0x40
     todev := bit (byte h 1) 0x20
     attr := byte h 1 &&& 0x07
     ahsLen := (byte h 4).toNat
     length := iscsiLen h
     lun := byte h 9
     tag := be32 h 16
     transLen := (be32 h 20).toNat
     cmdSN := iscsiCmdSN h
     expStatSN := be32 h 28
     cdb := h.drop 32 })

/-- `ISCSI_WRITE_DATA_T`. -/
structure WriteData where
  final : Bool
  length : Nat
  lun : UInt8
  tag : UInt32
  transferTag : UInt32
  expStatSN : UInt32
  dataSN : UInt32
  offset : Nat
deriving DecidableEq, Repr

/-- `iscsi_write_data_decap`. -/
def iscsiWriteDataDecap (h : Bytes) : Int × WriteData :=
  (firstFailure
    [(iscsiOpcode h == opWriteData, 1), (byte h 1 &&& 0x7f == 0, 1), (byte h 2 == 0, 1),
     (byte h 3 == 0, 1), (byte h 4 == 0, 1), (byte h 8 == 0, 1), (be32 h 24 == 0, 1),
     (be32 h 32 == 0, 1), (be32 h 44 == 0, 1)],
   { final := bit (byte h 1) 0x80
     length := (be32 h 4).toNat
     lun := byte h 9
     tag := be32 h 16
     transferTag := be32 h 20
     expStatSN := be32 h 28
     dataSN := be32 h 36
     offset := (be32 h 40).toNat })

/-! ## Responses -/

/-- A bit that is set when the field is: `if (x) header[i] |= mask`. -/
def flag (b : Bool) (mask : UInt8) : UInt8 := if b then mask else 0

/-- `ISCSI_TASK_RSP_T`. -/
structure TaskRsp where
  response : UInt8
  length : UInt32
  tag : UInt32
  statSN : UInt32
  expCmdSN : UInt32
  maxCmdSN : UInt32
deriving DecidableEq, Repr

/-- `iscsi_task_rsp_encap`. -/
def iscsiTaskRspEncap (h : Bytes) (r : TaskRsp) : Bytes :=
  let h := put8 (clearHeader h) 0 0x22
  let h := put8 h 1 0x80
  let h := put8 h 2 r.response
  let h := put32 h 4 (r.length &&& 0x00ffffff)
  let h := put32 h 16 r.tag
  let h := put32 h 24 r.statSN
  let h := put32 h 28 r.expCmdSN
  put32 h 32 r.maxCmdSN

/-- `ISCSI_NOP_IN_T`. -/
structure NopIn where
  length : UInt32
  lun : UInt8
  tag : UInt32
  transferTag : UInt32
  statSN : UInt32
  expCmdSN : UInt32
  maxCmdSN : UInt32
deriving DecidableEq, Repr

/-- `iscsi_nop_in_encap`. -/
def iscsiNopInEncap (h : Bytes) (c : NopIn) : Bytes :=
  let h := put8 (clearHeader h) 0 0x20
  let h := put8 h 1 0x80
  let h := put32 h 4 (c.length &&& 0x00ffffff)
  let h := put8 h 9 c.lun
  let h := put32 h 16 c.tag
  let h := put32 h 20 c.transferTag
  let h := put32 h 24 c.statSN
  let h := put32 h 28 c.expCmdSN
  put32 h 32 c.maxCmdSN

/-- `ISCSI_TEXT_RSP_T`. -/
structure TextRsp where
  final : Bool
  cont : Bool
  length : UInt32
  lun : UInt8
  tag : UInt32
  transferTag : UInt32
  statSN : UInt32
  expCmdSN : UInt32
  maxCmdSN : UInt32
deriving DecidableEq, Repr

/-- `iscsi_text_rsp_encap`. -/
def iscsiTextRspEncap (h : Bytes) (r : TextRsp) : Bytes :=
  let h := put8 (clearHeader h) 0 0x24
  let h := put8 h 1 (flag r.final 0x80 ||| flag r.cont 0x40)
  let h := put32 h 4 (r.length &&& 0x00ffffff)
  let h := put8 h 9 r.lun
  let h := put32 h 16 r.tag
  let h := put32 h 20 r.transferTag
  let h := put32 h 24 r.statSN
  let h := put32 h 28 r.expCmdSN
  put32 h 32 r.maxCmdSN

/-- `ISCSI_LOGIN_RSP_T`. -/
structure LoginRsp where
  transit : Bool
  cont : Bool
  csg : UInt8
  nsg : UInt8
  versionMax : UInt8
  versionActive : UInt8
  ahsLength : UInt8
  length : UInt32
  isid : Nat
  tsih : Nat
  tag : UInt32
  statSN : UInt32
  expCmdSN : UInt32
  maxCmdSN : UInt32
  statusClass : UInt8
  statusDetail : UInt8
deriving DecidableEq, Repr

/-- A login response after `memset(&rsp, 0, sizeof(ISCSI_LOGIN_RSP_T))`. -/
def LoginRsp.zero : LoginRsp :=
  { transit := false, cont := false, csg := 0, nsg := 0, versionMax := 0, versionActive := 0,
    ahsLength := 0, length := 0, isid := 0, tsih := 0, tag := 0, statSN := 0, expCmdSN := 0,
    maxCmdSN := 0, statusClass := 0, statusDetail := 0 }

/-- `iscsi_login_rsp_encap`, on a little-endian host. -/
def iscsiLoginRspEncap (h : Bytes) (r : LoginRsp) : Bytes :=
  let h := put8 (clearHeader h) 0 0x23
  let h := put8 h 1 (flag r.transit 0x80 ||| flag r.cont 0x40 ||| ((r.csg <<< 2) &&& 0x0c) |||
    (if r.transit then r.nsg &&& 0x03 else 0))
  let h := put8 h 2 r.versionMax
  let h := put8 h 3 r.versionActive
  let h := put16 h 6 0
  let h := put16 h 8 (r.isid / 4294967296)
  let h := put32 h 10 (UInt32.ofNat r.isid)
  let h := put32 h 4 (r.length &&& 0x00ffffff)
  let h := put8 h 4 r.ahsLength
  let h := put16 h 14 r.tsih
  let h := put32 h 16 r.tag
  let h := put32 h 24 r.statSN
  let h := put32 h 28 r.expCmdSN
  let h := put32 h 32 r.maxCmdSN
  let h := put8 h 36 r.statusClass
  put8 h 37 r.statusDetail

/-- `ISCSI_LOGOUT_RSP_T`; the two times stay zero in the target. -/
structure LogoutRsp where
  response : UInt8
  length : UInt32
  tag : UInt32
  statSN : UInt32
  expCmdSN : UInt32
  maxCmdSN : UInt32
  time2Wait : Nat
  time2Retain : Nat
deriving DecidableEq, Repr

/-- `iscsi_logout_rsp_encap`: the two times are 16-bit values stored as words. -/
def iscsiLogoutRspEncap (h : Bytes) (r : LogoutRsp) : Bytes :=
  let h := put8 (clearHeader h) 0 0x26
  let h := put8 h 1 0x80
  let h := put8 h 2 r.response
  let h := put32 h 4 r.length
  let h := put32 h 16 r.tag
  let h := put32 h 24 r.statSN
  let h := put32 h 28 r.expCmdSN
  let h := put32 h 32 r.maxCmdSN
  let h := put16 (put16 h 40 r.time2Wait) 42 0
  put16 (put16 h 42 r.time2Retain) 44 0

/-- `ISCSI_SCSI_RSP_T`. -/
structure ScsiRsp where
  bidiOverflow : Bool
  bidiUnderflow : Bool
  overflow : Bool
  underflow : Bool
  response : UInt8
  status : UInt8
  ahsLen : UInt8
  length : UInt32
  tag : UInt32
  statSN : UInt32
  expCmdSN : UInt32
  maxCmdSN : UInt32
  expDataSN : UInt32
  bidiResCnt : UInt32
  basicResCnt : UInt32
deriving DecidableEq, Repr

/-- A SCSI response after `memset(&scsi_rsp, 0, sizeof(ISCSI_SCSI_RSP_T))`. -/
def ScsiRsp.zero : ScsiRsp :=
  { bidiOverflow := false, bidiUnderflow := false, overflow := false, underflow := false,
    response := 0, status := 0, ahsLen := 0, length := 0, tag := 0, statSN := 0, expCmdSN := 0,
    maxCmdSN := 0, expDataSN := 0, bidiResCnt := 0, basicResCnt := 0 }

/-- `iscsi_scsi_rsp_encap`. -/
def iscsiScsiRspEncap (h : Bytes) (r : ScsiRsp) : Bytes :=
  let h := put8 (clearHeader h) 0 0x21
  let h := put8 h 1 (0x80 ||| flag r.bidiOverflow 0x10 ||| flag r.bidiUnderflow 0x08 |||
    flag r.overflow 0x04 ||| flag r.underflow 0x02)
  let h := put8 h 2 r.response
  let h := put8 h 3 r.status
  let h := put32 h 4 r.length
  let h := put8 h 4 r.ahsLen
  let h := put32 h 16 r.tag
  let h := put32 h 24 r.statSN
  let h := put32 h 28 r.expCmdSN
  let h := put32 h 32 r.maxCmdSN
  let h := put32 h 36 r.expDataSN
  let h := put32 h 40 r.bidiResCnt
  put32 h 44 r.basicResCnt

/-- `ISCSI_R2T_T`. -/
structure R2t where
  ahsLength : UInt32
  lun : UInt8
  tag : UInt32
  transferTag : UInt32
  statSN : UInt32
  expCmdSN : UInt32
  maxCmdSN : UInt32
  r2tSN : UInt32
  offset : UInt32
  length : UInt32
deriving DecidableEq, Repr

/-- `iscsi_r2t_encap`. -/
def iscsiR2tEncap (h : Bytes) (c : R2t) : Bytes :=
  let h := put8 (clearHeader h) 0 0x31
  let h := put8 h 1 0x80
  let h := put32 h 4 (c.ahsLength &&& 0x00ffffff)
  let h := put8 h 9 c.lun
  let h := put32 h 16 c.tag
  let h := put32 h 20 c.transferTag
  let h := put32 h 24 c.statSN
  let h := put32 h 28 c.expCmdSN
  let h := put32 h 32 c.maxCmdSN
  let h := put32 h 36 c.r2tSN
  let h := put32 h 40 c.offset
  put32 h 44 c.length

/-- `ISCSI_READ_DATA_T`. -/
structure ReadData where
  final : Bool
  ack : Bool
  overflow : Bool
  underflow : Bool
  sBit : Bool
  status : UInt8
  length : UInt32
  lun : UInt8
  taskTag : UInt32
  transferTag : UInt32
  statSN : UInt32
  expCmdSN : UInt32
  maxCmdSN : UInt32
  dataSN : UInt32
  offset : UInt32
  resCount : UInt32
deriving DecidableEq, Repr

/-- A read data PDU after `memset(&data, 0, sizeof(ISCSI_READ_DATA_T))`. -/
def ReadData.zero : ReadData :=
  { final := false, ack := false, overflow := false, underflow := false, sBit := false,
    status := 0, length := 0, lun := 0, taskTag := 0, transferTag := 0, statSN := 0,
    expCmdSN := 0, maxCmdSN := 0, dataSN := 0, offset := 0, resCount := 0 }

/-- `iscsi_read_data_encap`. -/
def iscsiReadDataEncap (h : Bytes) (c : ReadData) : Bytes :=
  let h := put8 (clearHeader h) 0 0x25
  let h := put8 h 1 (flag c.final 0x80 ||| flag c.ack 0x40 ||| flag c.overflow 0x04 |||
    flag c.underflow 0x02 ||| flag c.sBit 0x01)
  let h := put8 h 3 (if c.sBit then c.status else 0)
  let h := put32 h 4 c.length
  let h := put8 h 9 c.lun
  let h := put32 h 16 c.taskTag
  let h := put32 h 20 c.transferTag
  let h := put32 h 24 (if c.sBit then c.statSN else 0)
  let h := put32 h 28 c.expCmdSN
  let h := put32 h 32 c.maxCmdSN
  let h := put32 h 36 c.dataSN
  let h := put32 h 40 c.offset
  put32 h 44 (if c.sBit then c.resCount else 0)

/-- `ISCSI_REJECT_T`. -/
structure Reject where
  reason : UInt8
  length : UInt32
  statSN : UInt32
  expCmdSN : UInt32
  maxCmdSN : UInt32
  dataSN : UInt32
deriving DecidableEq, Repr

/-- `iscsi_reject_encap`. -/
def iscsiRejectEncap (h : Bytes) (c : Reject) : Bytes :=
  let h := put8 (clearHeader h) 0 0x3f
  let h := put8 h 1 0x80
  let h := put8 h 2 c.reason
  let h := put32 h 4 c.length
  let h := put32 h 24 c.statSN
  let h := put32 h 28 c.expCmdSN
  let h := put32 h 32 c.maxCmdSN
  put32 h 36 c.dataSN

/-! ## What a target puts on the wire -/

/-- The PDUs a target sends. -/
inductive TargetPdu where
  | scsiRsp (r : ScsiRsp)
  | taskRsp (r : TaskRsp)
  | nopIn (r : NopIn)
  | textRsp (r : TextRsp)
  | loginRsp (r : LoginRsp)
  | logoutRsp (r : LogoutRsp)
  | r2t (r : R2t)
  | readData (r : ReadData)
  | reject (r : Reject)
deriving DecidableEq, Repr

namespace TargetPdu

/-- The header of a PDU as it goes out. -/
def header : TargetPdu → Bytes
  | scsiRsp r => iscsiScsiRspEncap zeroHeader r
  | taskRsp r => iscsiTaskRspEncap zeroHeader r
  | nopIn r => iscsiNopInEncap zeroHeader r
  | textRsp r => iscsiTextRspEncap zeroHeader r
  | loginRsp r => iscsiLoginRspEncap zeroHeader r
  | logoutRsp r => iscsiLogoutRspEncap zeroHeader r
  | r2t r => iscsiR2tEncap zeroHeader r
  | readData r => iscsiReadDataEncap zeroHeader r
  | reject r => iscsiRejectEncap zeroHeader r

/-- The StatSN an initiator reads in the header of a PDU. -/
def wireStatSN (p : TargetPdu) : UInt32 := be32 p.header 24

@[simp] theorem wireStatSN_scsiRsp (r : ScsiRsp) : (scsiRsp r).wireStatSN = r.statSN := by
  simp [wireStatSN, header, iscsiScsiRspEncap]

@[simp] theorem wireStatSN_taskRsp (r : TaskRsp) : (taskRsp r).wireStatSN = r.statSN := by
  simp [wireStatSN, header, iscsiTaskRspEncap]

@[simp] theorem wireStatSN_nopIn (r : NopIn) : (nopIn r).wireStatSN = r.statSN := by
  simp [wireStatSN, header, iscsiNopInEncap]

@[simp] theorem wireStatSN_textRsp (r : TextRsp) : (textRsp r).wireStatSN = r.statSN := by
  simp [wireStatSN, header, iscsiTextRspEncap]

@[simp] theorem wireStatSN_loginRsp (r : LoginRsp) : (loginRsp r).wireStatSN = r.statSN := by
  simp [wireStatSN, header, iscsiLoginRspEncap]

@[simp] theorem wireStatSN_reject (r : Reject) : (reject r).wireStatSN = r.statSN := by
  simp [wireStatSN, header, iscsiRejectEncap]

end TargetPdu

end Ost.Iscsi
