import Ost.Iscsi.Pdu

/-!
# The PDUs an initiator handles

The other halves of the codecs: the `iscsi_*_encap` functions an initiator calls on what it
sends, and the `iscsi_*_decap` functions it calls on what it receives.

The conventions are those of the target's halves.  The structures are shared, since a header is
written by one end and read by the other.
-/

namespace Ost.Iscsi

/-! ## Opcodes -/

/-- `ISCSI_NOP_IN`. -/
def opNopIn : UInt8 := 0x20
/-- `ISCSI_SCSI_RSP`. -/
def opScsiRsp : UInt8 := 0x21
/-- `ISCSI_TASK_RSP`. -/
def opTaskRsp : UInt8 := 0x22
/-- `ISCSI_LOGIN_RSP`. -/
def opLoginRsp : UInt8 := 0x23
/-- `ISCSI_TEXT_RSP`. -/
def opTextRsp : UInt8 := 0x24
/-- `ISCSI_READ_DATA`. -/
def opReadData : UInt8 := 0x25
/-- `ISCSI_LOGOUT_RSP`. -/
def opLogoutRsp : UInt8 := 0x26
/-- `ISCSI_R2T`. -/
def opR2t : UInt8 := 0x31
/-- `ISCSI_ASYNC`. -/
def opAsync : UInt8 := 0x32
/-- `ISCSI_REJECT`. -/
def opReject : UInt8 := 0x3f

/-! ## Requests -/

/-- `iscsi_task_cmd_encap`. -/
def iscsiTaskCmdEncap (h : Bytes) (c : TaskCmd) : Bytes :=
  let h := put8 (clearHeader h) 0 (0x02 ||| flag c.immediate 0x40)
  let h := put8 h 1 (c.function &&& 0x80)
  let h := put8 h 9 c.lun
  let h := put32 h 16 c.tag
  let h := put32 h 20 c.refTag
  let h := put32 h 24 c.cmdSN
  let h := put32 h 28 c.expStatSN
  let h := put32 h 32 c.refCmdSN
  put32 h 36 c.expDataSN

/-- `iscsi_nop_out_encap`. -/
def iscsiNopOutEncap (h : Bytes) (c : NopOut) : Bytes :=
  let h := put8 (clearHeader h) 0 (0x00 ||| flag c.immediate 0x40)
  let h := put8 h 1 0x80
  let h := put32 h 4 (UInt32.ofNat c.length &&& 0x00ffffff)
  let h := put8 h 9 c.lun
  let h := put32 h 16 c.tag
  let h := put32 h 20 c.transferTag
  let h := put32 h 24 c.cmdSN
  put32 h 28 c.expStatSN

/-- `iscsi_text_cmd_encap`. -/
def iscsiTextCmdEncap (h : Bytes) (c : TextCmd) : Bytes :=
  let h := put8 (clearHeader h) 0 (0x04 ||| flag c.immediate 0x40)
  let h := put8 h 1 (flag c.final 0x80 ||| flag c.cont 0x40)
  let h := put32 h 4 (UInt32.ofNat c.length &&& 0x00ffffff)
  let h := put8 h 9 c.lun
  let h := put32 h 16 c.tag
  let h := put32 h 20 c.transferTag
  let h := put32 h 24 c.cmdSN
  put32 h 28 c.expStatSN

/-- `iscsi_login_cmd_encap`, with the command as it leaves it: `cmd->isid` is incremented at the
start and decremented at the end. -/
def iscsiLoginCmdEncap (h : Bytes) (c : LoginCmd) : Bytes × LoginCmd :=
  let c : LoginCmd := { c with isid := (c.isid + 1) % 2 ^ 64 }
  let h := put8 (clearHeader h) 0 (0x40 ||| 0x03)
  let h := put8 h 1 (flag c.transit 0x80 ||| flag c.cont 0x40 ||| ((c.csg <<< 2) &&& 0x0c) |||
    (c.nsg &&& 0x03))
  let h := put8 h 2 c.versionMax
  let h := put8 h 3 c.versionMin
  let h := put64 h 6 c.isid
  let h := put32 h 4 (UInt32.ofNat c.length &&& 0x00ffffff)
  let h := put8 h 4 c.ahsLength
  let h := put16 h 14 c.tsih
  let h := put32 h 16 c.tag
  let h := put16 h 20 c.cid
  let h := put32 h 24 c.cmdSN
  let h := put32 h 28 c.expStatSN
  (h, { c with isid := (c.isid + (2 ^ 64 - 1)) % 2 ^ 64 })

/-- `iscsi_logout_cmd_encap`. -/
def iscsiLogoutCmdEncap (h : Bytes) (c : LogoutCmd) : Bytes :=
  let h := put8 (clearHeader h) 0 (0x06 ||| flag c.immediate 0x40)
  let h := put8 h 1 (c.reason ||| 0x80)
  let h := put32 h 16 c.tag
  let h := put16 h 20 c.cid
  let h := put32 h 24 c.cmdSN
  put32 h 28 c.expStatSN

/-- `iscsi_scsi_cmd_encap`. -/
def iscsiScsiCmdEncap (h : Bytes) (c : ScsiCmdPdu) : Bytes :=
  let h := put8 (clearHeader h) 0 (0x01 ||| flag c.immediate 0x40)
  let h := put8 h 1 (flag c.final 0x80 ||| flag c.fromdev 0x40 ||| flag c.todev 0x20 |||
    (c.attr &&& 0x07))
  let h := put32 h 4 (UInt32.ofNat c.length)
  let h := put8 h 4 (UInt8.ofNat c.ahsLen)
  let h := put8 h 9 c.lun
  let h := put32 h 16 c.tag
  let h := put32 h 20 (UInt32.ofNat c.transLen)
  let h := put32 h 24 c.cmdSN
  let h := put32 h 28 c.expStatSN
  putBytes h 32 (c.cdb.take 16)

/-- `iscsi_write_data_encap`. -/
def iscsiWriteDataEncap (h : Bytes) (c : WriteData) : Bytes :=
  let h := put8 (clearHeader h) 0 0x05
  let h := put8 h 1 (flag c.final 0x80)
  let h := put32 h 4 (UInt32.ofNat c.length)
  let h := put8 h 9 c.lun
  let h := put32 h 16 c.tag
  let h := put32 h 20 c.transferTag
  let h := put32 h 28 c.expStatSN
  let h := put32 h 36 c.dataSN
  put32 h 40 (UInt32.ofNat c.offset)

/-! ## Responses -/

/-- `iscsi_task_rsp_decap`.  It leaves the length alone; `len` is what the caller has there.  The
test of bytes 20 to 23 reads the word at 23. -/
def iscsiTaskRspDecap (len : UInt32) (h : Bytes) : Int × TaskRsp :=
  (firstFailure
    [(iscsiOpcode h == opTaskRsp, 1), (byte h 0 &&& 0x00 == 0, 1), (byte h 1 &&& 0x80 == 0x80, 1),
     (byte h 3 == 0, 1), (be32 h 4 == 0, 1), (be32 h 8 == 0, 1), (be32 h 12 == 0, 1),
     (be32 h 23 == 0, 1), (be32 h 36 == 0, 1), (be32 h 40 == 0, 1), (be32 h 44 == 0, 1)],
   { response := byte h 2
     length := len
     tag := be32 h 16
     statSN := be32 h 24
     expCmdSN := be32 h 28
     maxCmdSN := be32 h 32 })

/-- `iscsi_nop_in_decap`. -/
def iscsiNopInDecap (h : Bytes) : Int × NopIn :=
  (firstFailure
    [(iscsiOpcode h == opNopIn, 1), (byte h 0 &&& 0xc0 == 0, 1), (byte h 1 == 0x80, 1),
     (byte h 2 == 0, 1), (byte h 3 == 0, 1), (byte h 4 == 0, 1), (byte h 8 == 0, 1),
     (be32 h 36 == 0, 1), (be32 h 40 == 0, 1), (be32 h 44 == 0, 1)],
   { length := be32 h 4
     lun := byte h 9
     tag := be32 h 16
     transferTag := be32 h 20
     statSN := be32 h 24
     expCmdSN := be32 h 28
     maxCmdSN := be32 h 32 })

/-- `iscsi_text_rsp_decap`. -/
def iscsiTextRspDecap (h : Bytes) : Int × TextRsp :=
  (firstFailure
    [(iscsiOpcode h == opTextRsp, 1), (byte h 1 &&& 0x3f == 0, 1), (byte h 2 == 0, 1),
     (byte h 3 == 0, 1), (byte h 4 == 0, 1), (be32 h 8 == 0, 1), (be32 h 12 == 0, 1),
     (be32 h 36 == 0, 1), (be32 h 40 == 0, 1), (be32 h 44 == 0, 1)],
   { final := bit (byte h 1) 0x80
     cont := bit (byte h 1) 0x40
     length := be32 h 4
     lun := byte h 9
     tag := be32 h 16
     transferTag := be32 h 20
     statSN := be32 h 24
     expCmdSN := be32 h 28
     maxCmdSN := be32 h 32 })

/-- `iscsi_login_rsp_decap`.  The mask `0x00ffffffff` of the length keeps the AHS byte, and the
ISID is decremented. -/
def iscsiLoginRspDecap (h : Bytes) : Int × LoginRsp :=
  (firstFailure
    [(iscsiOpcode h == opLoginRsp, 1), ((byte h 1 &&& 0x30) >>> 4 == 0, 1), (be32 h 20 == 0, 1),
     (byte h 38 == 0, 1), (byte h 39 == 0, 1), (be32 h 40 == 0, 1), (be32 h 44 == 0, 1)],
   { transit := bit (byte h 1) 0x80
     cont := bit (byte h 1) 0x40
     csg := (byte h 1 &&& 0x0c) >>> 2
     nsg := byte h 1 &&& 0x03
     versionMax := byte h 2
     versionActive := byte h 3
     ahsLength := byte h 4
     length := be32 h 4
     isid := (be16 h 8 * 4294967296 + (be32 h 10).toNat + (2 ^ 64 - 1)) % 2 ^ 64
     tsih := be16 h 14
     tag := be32 h 16
     statSN := be32 h 24
     expCmdSN := be32 h 28
     maxCmdSN := be32 h 32
     statusClass := byte h 36
     statusDetail := byte h 37 })

/-- `iscsi_logout_rsp_decap`. -/
def iscsiLogoutRspDecap (h : Bytes) : Int × LogoutRsp :=
  (firstFailure
    [(iscsiOpcode h == opLogoutRsp, 1), (byte h 0 &&& 0x20 == 0x20, -1),
     (byte h 1 &&& 0x80 == 0x80, -1), (byte h 3 == 0, -1), (be32 h 4 == 0, 1), (be32 h 8 == 0, 1),
     (be32 h 12 == 0, 1), (be32 h 20 == 0, 1), (be32 h 36 == 0, 1), (be32 h 44 == 0, 1)],
   { response := byte h 2
     length := be32 h 4
     tag := be32 h 16
     statSN := be32 h 24
     expCmdSN := be32 h 28
     maxCmdSN := be32 h 32
     time2Wait := be16 h 40
     time2Retain := be16 h 42 })

/-- `iscsi_scsi_rsp_decap`. -/
def iscsiScsiRspDecap (h : Bytes) : Int × ScsiRsp :=
  (firstFailure
    [(iscsiOpcode h == opScsiRsp, 1), (byte h 0 &&& 0x00 == 0, 1), (byte h 1 &&& 0x80 == 0x80, 1),
     (be32 h 40 == 0, 1), (!bit (byte h 1) 0x10, 1), (!bit (byte h 1) 0x08, 1),
     (!bit (byte h 1) 0x04, 1)],
   { bidiOverflow := bit (byte h 1) 0x10
     bidiUnderflow := bit (byte h 1) 0x08
     overflow := bit (byte h 1) 0x04
     underflow := bit (byte h 1) 0x02
     response := byte h 2
     status := byte h 3
     ahsLen := byte h 4
     length := be32 h 4
     tag := be32 h 16
     statSN := be32 h 24
     expCmdSN := be32 h 28
     maxCmdSN := be32 h 32
     expDataSN := be32 h 36
     bidiResCnt := be32 h 40
     basicResCnt := be32 h 44 })

/-- `iscsi_r2t_decap`. -/
def iscsiR2tDecap (h : Bytes) : Int × R2t :=
  (firstFailure
    [(iscsiOpcode h == opR2t, 1), (byte h 1 &&& 0x7f == 0, 1), (byte h 2 == 0, 1),
     (byte h 3 == 0, 1), (be32 h 4 == 0, 1), (be32 h 8 == 0, 1), (be32 h 12 == 0, 1)],
   { ahsLength := be32 h 4
     lun := byte h 9
     tag := be32 h 16
     transferTag := be32 h 20
     statSN := be32 h 24
     expCmdSN := be32 h 28
     maxCmdSN := be32 h 32
     r2tSN := be32 h 36
     offset := be32 h 40
     length := be32 h 44 })

/-- `iscsi_read_data_decap`. -/
def iscsiReadDataDecap (h : Bytes) : Int × ReadData :=
  (firstFailure
    [(iscsiOpcode h == opReadData, 1), (byte h 0 &&& 0xc0 == 0, 1), (byte h 1 &&& 0x38 == 0, 1),
     (byte h 2 == 0, 1), (byte h 4 == 0, 1), (be32 h 8 == 0, 1), (be32 h 12 == 0, 1)],
   { final := bit (byte h 1) 0x80
     ack := bit (byte h 1) 0x40
     overflow := bit (byte h 1) 0x04
     underflow := bit (byte h 1) 0x02
     sBit := bit (byte h 1) 0x01
     status := byte h 3
     length := be32 h 4
     lun := byte h 9
     taskTag := be32 h 16
     transferTag := be32 h 20
     statSN := be32 h 24
     expCmdSN := be32 h 28
     maxCmdSN := be32 h 32
     dataSN := be32 h 36
     offset := be32 h 40
     resCount := be32 h 44 })

/-- `iscsi_reject_decap`. -/
def iscsiRejectDecap (h : Bytes) : Int × Reject :=
  (firstFailure
    [(iscsiOpcode h == opReject, 1), (byte h 0 &&& 0xc0 == 0, 1), (byte h 1 &&& 0x7f == 0, 1),
     (byte h 3 == 0, 1), (byte h 4 == 0, 1), (be32 h 8 == 0, 1), (be32 h 12 == 0, 1),
     (be32 h 20 == 0, 1), (be32 h 40 == 0, 1), (be32 h 44 == 0, 1)],
   { reason := byte h 2
     length := be32 h 4
     statSN := be32 h 24
     expCmdSN := be32 h 28
     maxCmdSN := be32 h 32
     dataSN := be32 h 36 })

/-- `ISCSI_AMSG_T`. -/
structure AsyncMsg where
  ahsLength : UInt8
  lun : UInt8
  statSN : UInt32
  expCmdSN : UInt32
  maxCmdSN : UInt32
  length : UInt32
  asyncEvent : UInt8
  asyncVCode : UInt8
deriving DecidableEq, Repr

/-- `iscsi_amsg_decap`. -/
def iscsiAmsgDecap (h : Bytes) : Int × AsyncMsg :=
  (firstFailure [(iscsiOpcode h == opAsync, 1)],
   { ahsLength := byte h 4
     length := be32 h 4
     lun := byte h 9
     statSN := be32 h 24
     expCmdSN := be32 h 28
     maxCmdSN := be32 h 32
     asyncEvent := byte h 36
     asyncVCode := byte h 37 })

end Ost.Iscsi
