import Ost.Disk.Completion
import Ost.Target.Moves
import Ost.Util.SockMsg
import Ost.Util.Tiling

/-!
# Read data PDUs tile the transfer

`device_command_done` sends the data of a read in PDUs of at most `MaxRecvDataSegmentLength` bytes,
and then the response.  A PDU with all of the data takes the gather list as it is, and every other
one takes a slice of a copy.

A PDU is too long for `iscsi_sock_msg` when an `int` has no room for its padding.  And the lock that
a failed transmission has left behind is waited for forever.
-/

namespace Ost.Target

open Ost.Iscsi Ost.Util Ost.Param Ost.Prog Ost.Disk

/-! ## One PDU -/

/-- With the lock free, sending takes it, and gives it back when that went well. -/
theorem sendLeaky_free {s : Local} (pdu : TargetPdu) (data : Option Bytes)
    (hlock : s.slot.conn.slock = false) :
    ∃ conn, conn = (Conn.send pdu data { s.slot.conn with slock := true }).2 ∧
      sendLeaky pdu data s =
        if (Conn.send pdu data { s.slot.conn with slock := true }).1 then
          .ret true (s.setConn { conn with slock := false })
        else .ret false (s.setConn conn) := by
  refine ⟨_, rfl, ?_⟩
  have hlocked : lockSession s = .ret ⟨⟩ (s.setConn { s.slot.conn with slock := true }) := by
    rw [lockSession, bind_apply]
    exact congrFun (if_neg (by simp [hlock])) s
  rw [sendLeaky, bind_apply, hlocked]
  change (sockSend pdu data >>= _) (s.setConn { s.slot.conn with slock := true }) = _
  rw [bind_apply]
  rcases hr : Conn.send pdu data { s.slot.conn with slock := true } with ⟨ok, conn⟩
  have hsend : sockSend pdu data (s.setConn { s.slot.conn with slock := true }) =
      .ret ok (s.setConn conn) := by
    change Outcome.ret (Conn.send pdu data { s.slot.conn with slock := true }).1
      (s.setConn (Conn.send pdu data { s.slot.conn with slock := true }).2) = _
    rw [hr]
  rw [hsend]
  cases ok <;> rfl

/-- With the lock taken nothing goes out. -/
theorem sendLeaky_locked {s : Local} (pdu : TargetPdu) (data : Option Bytes)
    (hlock : s.slot.conn.slock = true) : sendLeaky pdu data s = .halt .hang s := by
  have hlocked : lockSession s = .halt .hang s := by
    rw [lockSession, bind_apply]
    exact congrFun (if_pos hlock) s
  rw [sendLeaky, bind_apply, hlocked]

/-- With the lock free, and transmissions that succeed, a PDU goes out. -/
theorem sendLeaky_reliable {s : Local} (pdu : TargetPdu) (d : Bytes)
    (hlock : s.slot.conn.slock = false) (hrel : s.slot.conn.Reliable) :
    ∃ tx, sendLeaky pdu (some d) s = .ret true (s.setConn { s.slot.conn with
        tx, slock := false, sent := s.slot.conn.sent ++ [⟨pdu, d, true⟩] }) ∧
      ∀ b ∈ tx, b = true := by
  obtain ⟨d', n, hconn, hsome, hnone⟩ :=
    Conn.send_spec pdu (some d) { s.slot.conn with slock := true }
  have hok : (Conn.send pdu (some d) { s.slot.conn with slock := true }).1 = true := by
    by_contra h
    rcases hnone (Bool.eq_false_iff.mpr h) with h | h
    · exact Option.some_ne_none _ h
    · exact h hrel
  obtain rfl := Option.some.inj (hsome hok)
  obtain ⟨conn, hc, hsend⟩ := sendLeaky_free pdu (some d) hlock
  refine ⟨s.slot.conn.tx.drop n, ?_, fun b hb => hrel.2 b (List.mem_of_mem_drop hb)⟩
  rw [hsend, if_pos hok, hc, hconn, hok]

theorem state_of_wp {α : Type} {x : Handler α} {P : Local → Prop} {s : Local}
    (h : wp x (fun _ => P) (fun _ => P) s) : P (x s).state := by
  unfold wp at h
  cases hx : x s <;> rw [hx] at h <;> exact h

theorem sendLeaky_none {s : Local} (pdu : TargetPdu) (hlock : s.slot.conn.slock = false) :
    ∃ s', sendLeaky pdu none s = .ret false s' ∧
      ∃ d, s'.slot.conn.sent = s.slot.conn.sent ++ [⟨pdu, d, false⟩] := by
  obtain ⟨d, n, hconn, hsome, -⟩ := Conn.send_spec pdu none { s.slot.conn with slock := true }
  have hok : (Conn.send pdu none { s.slot.conn with slock := true }).1 = false := by
    by_contra h
    exact Option.some_ne_none d (hsome (by simpa using h)).symm
  obtain ⟨conn, hc, hsend⟩ := sendLeaky_free pdu none hlock
  refine ⟨s.setConn conn, by rw [hsend, if_neg (by simp [hok])], d, ?_⟩
  rw [hc, hconn, hok]
  rfl

theorem flatMap_read (m : Memory) (iov : List Iov) :
    (iov.flatMap fun v => m.read v.base v.off v.len) = m.gather (iovCells iov) := by
  rw [Memory.gather, iovCells, List.map_flatMap]
  refine congrArg (List.flatMap · iov) (funext fun v => ?_)
  rw [Memory.read, List.map_map]
  rfl

/-- The bytes of a list are collected when they are as many as announced, and not too many for
`iscsi_sock_msg`. -/
theorem gather_eq {iov : List Iov} {n : Nat} {s : Local} (hn : iovTotal iov = n)
    (hlt : n < 4294967296) :
    gather iov n s =
      .ret (if n ≤ 2147483644 then some (s.dev.mem.gather (iovCells iov)) else none) s := by
  rw [gather]
  change Outcome.ret _ s = _
  refine congrArg (Outcome.ret · s) ?_
  dsimp only
  have hw : w32 (iovTotal iov) = n := by
    rw [hn]
    exact Nat.mod_eq_of_lt hlt
  by_cases h0 : n = 0
  · have hcells : iovCells iov = [] :=
      List.eq_nil_of_length_eq_zero (by rw [length_iovCells, hn, h0])
    rw [if_pos h0, if_pos (by omega), hcells]
    rfl
  · rw [if_neg h0, flatMap_read]
    by_cases hle : n ≤ 2147483644
    · rw [if_pos ⟨hw, hle⟩, if_pos hle]
    · rw [if_neg fun h => hle h.2, if_neg hle]

/-! ## The loop -/

/-- The part of the transfer that a PDU carries. -/
def dataPiece (d : ReadData) : Nat × Nat := (d.offset.toNat, d.length.toNat)

/-- A PDU that has gone out with its part of the data. -/
def sentData (data : Bytes) (d : ReadData) : Sent :=
  ⟨.readData d, (data.drop d.offset.toNat).take d.length.toNat, true⟩

/-- From `s` to `s'` the PDUs `ds` with the parts of `data` have been sent for the command `c`, and
the lock is free again. -/
structure SentData (c : Nat) (data : Bytes) (ds : List ReadData) (s s' : Local) : Prop where
  sent : s'.slot.conn.sent = s.slot.conn.sent ++ ds.map (sentData data)
  lock : s'.slot.conn.slock = false
  reliable : s'.slot.conn.Reliable
  seq : s'.slot.seq = s.slot.seq
  mem : s'.dev.mem = s.dev.mem
  cmd : s'.slot.pool.cmdMem c = { s.slot.pool.cmdMem c with
    scsiCmd := { (s.slot.pool.cmdMem c).scsiCmd with
      bytesFromdev := (s'.slot.pool.cmdMem c).scsiCmd.bytesFromdev } }

/-- The data of a read. -/
def ReadBytes (sg : List Iov) (s : Local) : Bytes := s.dev.mem.gather (iovCells sg)

section Loop

variable {c : Nat} {sg : List Iov} {len mdsl : Nat}

theorem sendReadData_end {fuel offset : Nat} (dataSN : UInt32) (s : Local) (hfuel : 0 < fuel)
    (hend : len ≤ offset) :
    sendReadData c sg len mdsl fuel offset dataSN s = .ret (some dataSN) s := by
  obtain ⟨fuel, rfl⟩ := Nat.exists_eq_succ_of_ne_zero (Nat.ne_of_gt hfuel)
  rw [sendReadData]
  exact congrFun (if_neg (Nat.not_lt.mpr hend)) s

theorem slice_eq {offset n : Nat} (htotal : iovTotal sg = len) (hlen : len < 2147483648)
    (hn : 0 < n) (hle : offset + n ≤ len) :
    ∃ iov, (if n ≠ len then modifyIov sg offset n else some sg) = some iov ∧
      iovCells iov = ((iovCells sg).drop offset).take n ∧ iovTotal iov = n := by
  have hcells : (((iovCells sg).drop offset).take n).length = n := by
    rw [List.length_take, List.length_drop, length_iovCells]
    omega
  by_cases hall : n = len
  · obtain rfl : offset = 0 := by omega
    refine ⟨sg, if_neg (not_not.mpr hall), ?_, htotal.trans hall.symm⟩
    rw [List.drop_zero, List.take_of_length_le (by rw [length_iovCells]; omega)]
  · obtain ⟨iov, hiov, hc⟩ := @modifyIov_cells sg offset n hn (by omega) (by omega)
      (Nat.lt_of_le_of_lt (displacement_le _ _) (by omega))
    exact ⟨iov, (if_pos hall).trans hiov, hc, by rw [← length_iovCells, hc, hcells]⟩

/-- What the loop compares with the limit is the length of the next segment. -/
theorem pduLength_eq (len mdsl offset : Nat) :
    (if mdsl ≠ 0 then min (len - offset) mdsl else len - offset) =
    segmentLength mdsl len offset := by
  rw [segmentLength, Nat.min_comm]
  exact ite_not _ _ _

/-- The fields of the next PDU. -/
def readPdu (s : Local) (c len offset n : Nat) (dataSN : UInt32) : ReadData :=
  { ReadData.zero with
    length := UInt32.ofNat n, final := offset + n = len
    taskTag := (s.slot.pool.cmdMem c).scsiCmd.tag, expCmdSN := s.slot.seq.expCmdSN
    maxCmdSN := s.slot.seq.maxCmdSN, dataSN, offset := UInt32.ofNat offset }

/-- What the loop does in a round. -/
theorem sendReadData_succ {fuel offset n : Nat} {dataSN : UInt32} {iov : List Iov} (s : Local)
    (hlt : offset < len) (hn : segmentLength mdsl len offset = n)
    (hslice : (if n ≠ len then modifyIov sg offset n else some sg) = some iov) :
    sendReadData c sg len mdsl (fuel + 1) offset dataSN s =
      (do
        if !(← sendLeaky (.readData (readPdu s c len offset n dataSN)) (← gather iov n)) then
          return none
        modifyScsi c fun a => { a with bytesFromdev := w32 (a.bytesFromdev + n) }
        sendReadData c sg len mdsl fuel (w32 (offset + if mdsl ≠ 0 then mdsl else len))
          (dataSN + 1) : Handler (Option UInt32)) s := by
  rw [sendReadData]
  refine (congrFun (if_pos hlt) s).trans ?_
  rw [pduLength_eq, hn, hslice]
  rfl

/-- One round of the loop, on a connection on which transmissions succeed. -/
theorem sendReadData_step {fuel offset n : Nat} {dataSN : UInt32} {s : Local}
    (htotal : iovTotal sg = len) (hlen : len < 2147483648) (hlt : offset < len)
    (hn : segmentLength mdsl len offset = n) (hshort : n ≤ 2147483644)
    (hlock : s.slot.conn.slock = false) (hrel : s.slot.conn.Reliable) :
    ∃ s', SentData c (ReadBytes sg s) [readPdu s c len offset n dataSN] s s' ∧
      (s'.slot.pool.cmdMem c).scsiCmd.bytesFromdev =
        w32 ((s.slot.pool.cmdMem c).scsiCmd.bytesFromdev + n) ∧
      sendReadData c sg len mdsl (fuel + 1) offset dataSN s =
        sendReadData c sg len mdsl fuel (w32 (offset + if mdsl ≠ 0 then mdsl else len))
          (dataSN + 1) s' := by
  obtain ⟨iov, hslice, hcells, hiov⟩ := slice_eq (n := n) htotal hlen (hn ▸ segmentLength_pos hlt)
    (hn ▸ segmentLength_le hlt.le)
  have hbytes : s.dev.mem.gather (iovCells iov) = ((ReadBytes sg s).drop offset).take n := by
    rw [hcells, ReadBytes, Memory.gather, Memory.gather, ← List.map_drop, ← List.map_take]
  obtain ⟨tx, hsend, htx⟩ := sendLeaky_reliable (.readData (readPdu s c len offset n dataSN))
    (((ReadBytes sg s).drop offset).take n) hlock hrel
  set s₁ := s.setConn { s.slot.conn with
    tx, slock := false
    sent := s.slot.conn.sent ++ [⟨.readData (readPdu s c len offset n dataSN),
      ((ReadBytes sg s).drop offset).take n, true⟩] } with hs₁
  have hcmd : s₁.slot.pool.cmdMem c = s.slot.pool.cmdMem c := rfl
  refine ⟨s₁.setCmd c { s.slot.pool.cmdMem c with
    scsiCmd := { (s.slot.pool.cmdMem c).scsiCmd with
      bytesFromdev := w32 ((s.slot.pool.cmdMem c).scsiCmd.bytesFromdev + n) } }, ?_, ?_, ?_⟩
  · have hoff : (UInt32.ofNat offset).toNat = offset :=
      UInt32.toNat_ofNat_of_lt' (show _ < 4294967296 by omega)
    have hlen' : (UInt32.ofNat n).toNat = n :=
      UInt32.toNat_ofNat_of_lt' (show _ < 4294967296 by omega)
    refine ⟨?_, rfl, ⟨hrel.1, htx⟩, rfl, rfl, ?_⟩
    · simp only [List.map_singleton, sentData, readPdu, hoff, hlen']
      rfl
    · simp [Local.setCmd, Local.setPool]
  · simp [Local.setCmd, Local.setPool]
  · rw [sendReadData_succ s hlt hn hslice, bind_apply, gather_eq hiov (by omega), if_pos hshort,
      hbytes]
    dsimp only
    rw [bind_apply, hsend]
    rfl

namespace SentData

variable {data : Bytes} {ds ds' : List ReadData} {s s' s'' : Local}

theorem refl (hlock : s.slot.conn.slock = false) (hrel : s.slot.conn.Reliable) :
    SentData c data [] s s where
  sent := (List.append_nil _).symm
  lock := hlock
  reliable := hrel
  seq := rfl
  mem := rfl
  cmd := rfl

theorem trans (h : SentData c data ds s s') (h' : SentData c data ds' s' s'') :
    SentData c data (ds ++ ds') s s'' where
  sent := by rw [h'.sent, h.sent, List.map_append, List.append_assoc]
  lock := h'.lock
  reliable := h'.reliable
  seq := h'.seq.trans h.seq
  mem := h'.mem.trans h.mem
  cmd := by rw [h'.cmd, h.cmd]

end SentData

/-- The PDUs `ds` follow one another from `offset` on with the numbers from `dataSN` on, and the
last one is marked. -/
structure Fragments (len mdsl fuel offset : Nat) (dataSN : UInt32) (ds : List ReadData) : Prop where
  pieces : ds.map dataPiece = segments mdsl len fuel offset
  numbered : ∀ i (h : i < ds.length), ds[i].dataSN = dataSN + UInt32.ofNat i
  final : ∀ pre d post, ds = pre ++ d :: post → (d.final = true ↔ post = [])

/-- A PDU in front of the others. -/
theorem Fragments.cons {fuel offset n : Nat} {dataSN : UInt32} {ds : List ReadData} (s : Local)
    (hlen : len < 2147483648) (hlt : offset < len) (hfuel : len ≤ offset + n + fuel)
    (hn : segmentLength mdsl len offset = n)
    (h : Fragments len mdsl fuel (offset + n) (dataSN + 1) ds) :
    Fragments len mdsl (fuel + 1) offset dataSN (readPdu s c len offset n dataSN :: ds) := by
  have hle := @segmentLength_le mdsl _ _ hlt.le
  have hoff : (UInt32.ofNat offset).toNat = offset :=
    UInt32.toNat_ofNat_of_lt' (show _ < 4294967296 by omega)
  have hlen' : (UInt32.ofNat n).toNat = n :=
    UInt32.toNat_ofNat_of_lt' (show _ < 4294967296 by omega)
  refine ⟨?_, ?_, ?_⟩
  · rw [List.map_cons, h.pieces, segments_cons hlt, hn]
    exact congrArg₂ List.cons (Prod.ext hoff hlen') rfl
  · rintro (_ | i) hi
    · exact (UInt32.add_zero _).symm
    · rw [List.getElem_cons_succ, h.numbered i (Nat.lt_of_succ_lt_succ hi), UInt32.add_assoc,
        UInt32.ofNat_add, UInt32.add_comm 1]
      rfl
  · rintro (_ | ⟨a, pre⟩) d post hds
    · obtain ⟨rfl, rfl⟩ := List.cons.inj hds
      rw [readPdu, decide_eq_true_eq, ← @segments_eq_nil_iff mdsl _ _ fuel (hn ▸ hle) hfuel,
        ← h.pieces, List.map_eq_nil_iff]
    · exact h.final pre d post (List.cons.inj hds).2

/-- The loop sends all segments from `offset` on when none is too long. -/
theorem sendReadData_run (htotal : iovTotal sg = len) (hlen : len < 2147483648)
    (hmdsl : mdsl < 4294967296) (hshort : len ≤ 2147483644 ∨ 0 < mdsl ∧ mdsl ≤ 2147483644)
    {fuel offset : Nat} {dataSN : UInt32} {s : Local} (hoff : offset ≤ len)
    (hcut : 0 < offset → offset < len → mdsl < len) (hfuel : len < offset + fuel)
    (hlock : s.slot.conn.slock = false) (hrel : s.slot.conn.Reliable)
    (hbytes : (s.slot.pool.cmdMem c).scsiCmd.bytesFromdev = offset) :
    ∃ ds s', sendReadData c sg len mdsl fuel offset dataSN s =
        .ret (some (dataSN + UInt32.ofNat ds.length)) s' ∧
      SentData c (ReadBytes sg s) ds s s' ∧ Fragments len mdsl fuel offset dataSN ds ∧
      (s'.slot.pool.cmdMem c).scsiCmd.bytesFromdev = len := by
  induction fuel generalizing offset dataSN s with
  | zero => omega
  | succ fuel ih =>
    rcases hoff.eq_or_lt with rfl | hlt
    · refine ⟨[], s, ?_, .refl hlock hrel, ⟨segments_stop.symm, by simp, by simp⟩, hbytes⟩
      rw [sendReadData_end dataSN s (Nat.succ_pos _) (Nat.le_refl _)]
      exact congrArg (Outcome.ret · s) (congrArg some (UInt32.add_zero _).symm)
    · obtain ⟨n, hn⟩ : ∃ n, segmentLength mdsl len offset = n := ⟨_, rfl⟩
      have hpos := @segmentLength_pos mdsl _ _ hlt
      have hle := @segmentLength_le mdsl _ _ hlt.le
      have hlimit := @segmentLength_le_limit mdsl len offset
      obtain ⟨s₁, hsent, hfrom, hrun⟩ := @sendReadData_step c sg len mdsl fuel offset n
        dataSN s htotal hlen hlt hn (by omega) hlock hrel
      have hw : w32 ((s.slot.pool.cmdMem c).scsiCmd.bytesFromdev + n) = offset + n := by
        rw [hbytes]
        exact Nat.mod_eq_of_lt (by omega)
      rw [hw] at hfrom
      have hdata : ReadBytes sg s₁ = ReadBytes sg s := by rw [ReadBytes, ReadBytes, hsent.mem]
      -- the next offset may be beyond the end, but it does not wrap around
      obtain ⟨next, hnext, hgo⟩ : ∃ next, w32 (offset + if mdsl ≠ 0 then mdsl else len) = next ∧
          (offset + n < len ∧ next = offset + n ∨ offset + n = len ∧ len ≤ next) := by
        refine ⟨_, Nat.mod_eq_of_lt ?_, ?_⟩
        · split <;> omega
        · rcases (hn ▸ hle).eq_or_lt with h | h
          · refine .inr ⟨h, ?_⟩
            split <;> omega
          · obtain ⟨h0, hm⟩ := @segmentLength_of_lt mdsl len offset (hn ▸ h)
            rw [if_pos h0]
            omega
      rw [hnext] at hrun
      rcases hgo with ⟨hmore, rfl⟩ | ⟨hlast, hend⟩
      · obtain ⟨ds, s', hret, hds, hfrag, hall⟩ := @ih (offset + n) (dataSN + 1) s₁ hmore.le
          (fun _ _ => by
            have := @segmentLength_of_lt mdsl len offset (hn ▸ hmore)
            omega)
          (by omega) hsent.lock hsent.reliable hfrom
        refine ⟨readPdu s c len offset n dataSN :: ds, s', ?_, ?_,
          hfrag.cons s hlen hlt (by omega) hn, hall⟩
        · rw [hrun, hret, List.length_cons, UInt32.ofNat_add, UInt32.add_assoc, UInt32.add_comm 1]
          rfl
        · exact hsent.trans (hdata ▸ hds)
      · refine ⟨[readPdu s c len offset n dataSN], s₁, ?_, hsent, ?_, hfrom.trans hlast⟩
        · exact hrun.trans (sendReadData_end _ s₁ (by omega) hend)
        · exact Fragments.cons s hlen hlt (by omega) hn
            ⟨by rw [hlast, segments_stop]; rfl, by simp, by simp⟩

end Loop

/-! ## The command -/

/-- The number of bytes that a command reads. -/
def ScsiCmd.inputLength (a : ScsiCmd) : Nat := if a.todev then a.bidiTransLen else a.transLen

/-- The device reports the command `c`, which has read as much as it should and is in good order,
while transmissions succeed. -/
structure ReadDone (c : Nat) (s : Local) : Prop where
  sendData : (s.slot.pool.cmdMem c).scsiCmd.sendData = false
  sendSgLen : (s.slot.pool.cmdMem c).scsiCmd.sendSgLen = 0
  status : (s.slot.pool.cmdMem c).scsiCmd.status = 0
  fromdev : (s.slot.pool.cmdMem c).scsiCmd.fromdev = true
  total : iovTotal (s.slot.pool.cmdMem c).gatherList = (s.slot.pool.cmdMem c).scsiCmd.inputLength
  length : (s.slot.pool.cmdMem c).scsiCmd.inputLength < 2147483648
  limit : s.slot.login.sessParams.maxDataSegLength < 4294967296
  reliable : s.slot.conn.Reliable

/-- From `s` to `s'` the data of the command `c` have gone out in the PDUs `ds`, and then the
response `rsp`. -/
structure ReadSent (c : Nat) (ds : List ReadData) (rsp : ScsiRsp) (s s' : Local) : Prop where
  sent : s'.slot.conn.sent = s.slot.conn.sent ++
    ds.map (sentData (ReadBytes (s.slot.pool.cmdMem c).gatherList s)) ++ [⟨.scsiRsp rsp, [], true⟩]
  tiles : Tiles 0 (ds.map dataPiece) (s.slot.pool.cmdMem c).scsiCmd.inputLength
  limit : ∀ d ∈ ds, s.slot.login.sessParams.maxDataSegLength = 0 ∨
    d.length.toNat ≤ s.slot.login.sessParams.maxDataSegLength
  numbered : ds.map (fun d => d.dataSN.toNat) = List.range ds.length
  final : ∀ pre d post, ds = pre ++ d :: post → (d.final = true ↔ post = [])
  expDataSN : rsp.expDataSN.toNat = ds.length
  bytesFromdev : (s'.slot.pool.cmdMem c).scsiCmd.bytesFromdev =
    (s.slot.pool.cmdMem c).scsiCmd.inputLength

theorem Fragments.length_le {len mdsl fuel offset : Nat} {dataSN : UInt32} {ds : List ReadData}
    (h : Fragments len mdsl fuel offset dataSN ds) : ds.length ≤ fuel := by
  rw [← List.length_map, h.pieces]
  exact length_segments_le _ _

/-- A command that has read `n` bytes of the medium, in a session with the limit `mdsl`. -/
def reading (n mdsl : Nat) : Local :=
  { slot := { Slot.fresh with
      conn := { Slot.fresh.conn with isOpen := true }
      login := { Slot.fresh.login with
        sessParams := { SessParams.zero with maxDataSegLength := mdsl } }
      pool := { Slot.fresh.pool with cmdMem := fun _ => { TargetCmd.zero with
        scsiCmd := { ScsiCmd.zero with fromdev := true, transLen := n }
        gatherList := [⟨.media, 0, n⟩] } } }
    dev := Device.start smallDisk (fun _ _ => 1) (-1) [], nopFlag := false }

theorem reading_done {n mdsl : Nat} (hn : n < 2147483648) (hmdsl : mdsl < 4294967296) :
    ReadDone 0 (reading n mdsl) where
  sendData := rfl
  sendSgLen := rfl
  status := rfl
  fromdev := rfl
  total := rfl
  length := hn
  limit := hmdsl
  reliable := ⟨rfl, fun _ h => absurd h List.not_mem_nil⟩

section Command

variable {c : Nat} {s : Local}

theorem marked_cmd (c : Nat) (s : Local) : (marked c s).slot.pool.cmdMem c =
    { s.slot.pool.cmdMem c with scsiCmd := { (s.slot.pool.cmdMem c).scsiCmd with
      sendData := true, sendSgLen := (s.slot.pool.cmdMem c).gatherList.length
      bytesFromdev := 0 } } := Function.update_self ..

/-- The end of the callback sends nothing, and counts nothing. -/
theorem retire_sends (c : Nat) (s : Local) :
    wp (retire c)
      (fun _ s' => s'.slot.conn = s.slot.conn ∧ s'.slot.pool.cmdMem = s.slot.pool.cmdMem)
      (fun e s' => s'.slot.conn = s.slot.conn ∧ s'.slot.pool.cmdMem = s.slot.pool.cmdMem ∧
        e ≠ .hang) s := by
  simp only [retire, wp_bind, wp_getCmd, wp_removeOutstanding]
  refine ⟨fun _ => ⟨trivial, trivial, by decide⟩, fun _ _ => ⟨rfl, rfl, by decide⟩,
    fun a h _ _ => ?_⟩
  simp only [Bool.not_true, Bool.false_eq_true, if_false, wp_bind, wp_putHeader, wp_putCmd]
  exact ⟨fun _ => ⟨rfl, rfl⟩, fun _ _ => ⟨fun _ => ⟨rfl, rfl⟩, fun _ _ => ⟨rfl, rfl⟩⟩⟩

/-- The data of a read come from the gather list, which is also the buffer without one. -/
theorem sendInput_eq (h : ReadDone c s) : ∃ sg,
    sendInput c (marked c s) =
      sendReadData c sg (s.slot.pool.cmdMem c).scsiCmd.inputLength
        s.slot.login.sessParams.maxDataSegLength
        ((s.slot.pool.cmdMem c).scsiCmd.inputLength + 1) 0 0 (marked c s) ∧
    iovTotal sg = (s.slot.pool.cmdMem c).scsiCmd.inputLength ∧
    iovCells sg = iovCells (s.slot.pool.cmdMem c).gatherList := by
  have hrun : sendInput c (marked c s) =
      sendReadData c (if (s.slot.pool.cmdMem c).gatherList.length ≠ 0
          then (s.slot.pool.cmdMem c).gatherList
          else [⟨.command, 0, (s.slot.pool.cmdMem c).scsiCmd.inputLength⟩])
        (s.slot.pool.cmdMem c).scsiCmd.inputLength s.slot.login.sessParams.maxDataSegLength
        ((s.slot.pool.cmdMem c).scsiCmd.inputLength + 1) 0 0 (marked c s) := by
    rw [sendInput, bind_apply, show getCmd c (marked c s) =
      .ret ((marked c s).slot.pool.cmdMem c) (marked c s) from rfl, marked_cmd]
    dsimp only
    rw [if_pos (by simp [h.status, h.fromdev])]
    rfl
  refine ⟨_, hrun, ?_⟩
  have htotal := h.total
  cases hlist : (s.slot.pool.cmdMem c).gatherList with
  | nil =>
    rw [hlist] at htotal
    rw [← htotal]
    exact ⟨rfl, rfl⟩
  | cons v l =>
    rw [hlist] at htotal
    exact ⟨htotal, rfl⟩

/-- The callback goes on with what `sendInput` returns. -/
theorem deviceCommandDone_eq (h : ReadDone c s) : deviceCommandDone c s =
    (do
      match ← sendInput c with
      | none => return -1
      | some dataSN =>
        if !(← sendResponse c dataSN) then return -1
        retire c : Handler Int) (marked c s) := by
  rw [deviceCommandDone, bind_apply, show getCmd c s = .ret (s.slot.pool.cmdMem c) s from rfl]
  dsimp only
  refine congrFun (if_neg ?_) s
  simp [h.sendData, h.sendSgLen]

/-- The response to the command `c` after `dataSN` PDUs with data. -/
def readRsp (c : Nat) (dataSN : UInt32) (s : Local) : ScsiRsp :=
  { ScsiRsp.zero with
    tag := (s.slot.pool.cmdMem c).scsiCmd.tag, statSN := s.slot.seq.statSN
    expCmdSN := s.slot.seq.expCmdSN, maxCmdSN := s.slot.seq.maxCmdSN, expDataSN := dataSN }

/-- The response to a read in good order has no data. -/
theorem sendResponse_eq {dataSN : UInt32} (hstatus : (s.slot.pool.cmdMem c).scsiCmd.status = 0)
    (hfromdev : (s.slot.pool.cmdMem c).scsiCmd.fromdev = true) :
    ∃ ok, sendResponse c dataSN s =
      (do
        if !(← sendLeaky (.scsiRsp (readRsp c dataSN s)) (some [])) then return false
        return ok : Handler Bool)
          (s.setSeq { s.slot.seq with statSN := s.slot.seq.statSN + 1 }) := by
  obtain ⟨a, ha⟩ : ∃ a, (s.slot.pool.cmdMem c).scsiCmd = a := ⟨_, rfl⟩
  refine ⟨if a.todev && a.status = 0 then
      a.bytesTodev == a.transLen && (!a.fromdev || a.bytesFromdev == a.bidiTransLen)
    else !(a.fromdev && a.status = 0) || a.bytesFromdev == a.transLen, ?_⟩
  subst ha
  rw [sendResponse, bind_apply, show getCmd c s = .ret (s.slot.pool.cmdMem c) s from rfl]
  dsimp only
  rw [bind_apply, show getSeq s = .ret s.slot.seq s from rfl]
  dsimp only
  rw [bind_apply, show modifySeq _ s = .ret ⟨⟩ (s.setSeq _) from rfl]
  dsimp only
  rw [hstatus, hfromdev]
  rfl

/-- With a free lock the response goes out. -/
theorem sendResponse_sent {dataSN : UInt32} (hstatus : (s.slot.pool.cmdMem c).scsiCmd.status = 0)
    (hfromdev : (s.slot.pool.cmdMem c).scsiCmd.fromdev = true)
    (hlock : s.slot.conn.slock = false) (hrel : s.slot.conn.Reliable) :
    ∃ ok s', sendResponse c dataSN s = .ret ok s' ∧
      s'.slot.conn.sent = s.slot.conn.sent ++ [⟨.scsiRsp (readRsp c dataSN s), [], true⟩] ∧
      s'.slot.pool.cmdMem = s.slot.pool.cmdMem := by
  obtain ⟨ok, hrun⟩ := @sendResponse_eq c s dataSN hstatus hfromdev
  obtain ⟨tx, hsend, -⟩ := sendLeaky_reliable
    (s := s.setSeq { s.slot.seq with statSN := s.slot.seq.statSN + 1 })
    (.scsiRsp (readRsp c dataSN s)) [] hlock hrel
  rw [bind_apply, hsend] at hrun
  exact ⟨ok, _, hrun, rfl, rfl⟩

/-- With a lock that has been left behind, nothing goes out, and the wait has no end. -/
theorem deviceCommandDone_locked (h : ReadDone c s) (hlock : s.slot.conn.slock = true) :
    ∃ s', deviceCommandDone c s = .halt .hang s' ∧ s'.slot.conn = s.slot.conn := by
  obtain ⟨sg, hinput, htotal, -⟩ := sendInput_eq h
  rw [deviceCommandDone_eq h, bind_apply, hinput]
  rcases Nat.eq_zero_or_pos (s.slot.pool.cmdMem c).scsiCmd.inputLength with h0 | hpos
  · rw [sendReadData_end 0 _ (Nat.succ_pos _) (Nat.le_of_eq h0)]
    dsimp only
    obtain ⟨ok, hrun⟩ := @sendResponse_eq c (marked c s) 0 (by rw [marked_cmd]; exact h.status)
      (by rw [marked_cmd]; exact h.fromdev)
    rw [bind_apply, hrun, bind_apply, sendLeaky_locked (s := (marked c s).setSeq _) _ _ hlock]
    exact ⟨_, rfl, rfl⟩
  · obtain ⟨n, hn⟩ : ∃ n, segmentLength s.slot.login.sessParams.maxDataSegLength
      (s.slot.pool.cmdMem c).scsiCmd.inputLength 0 = n := ⟨_, rfl⟩
    obtain ⟨iov, hslice, -, hiov⟩ := slice_eq (n := n) htotal h.length
      (hn ▸ segmentLength_pos hpos) (hn ▸ segmentLength_le hpos.le)
    have hle := @segmentLength_le s.slot.login.sessParams.maxDataSegLength _ _ hpos.le
    have hlt := h.length
    rw [@sendReadData_succ c sg _ _ _ 0 n 0 iov (marked c s) hpos hn hslice, bind_apply,
      gather_eq hiov (by omega)]
    dsimp only
    rw [bind_apply, sendLeaky_locked (s := marked c s) _ _ hlock]
    exact ⟨_, rfl, rfl⟩

/-- A first PDU that is too long is not sent, and no response follows. -/
theorem deviceCommandDone_tooLong (h : ReadDone c s) (hlock : s.slot.conn.slock = false)
    (hlong : 2147483644 < segmentLength s.slot.login.sessParams.maxDataSegLength
      (s.slot.pool.cmdMem c).scsiCmd.inputLength 0) :
    ∃ s' r d, deviceCommandDone c s = .ret (-1) s' ∧
      s'.slot.conn.sent = s.slot.conn.sent ++ [⟨.readData r, d, false⟩] := by
  obtain ⟨sg, hinput, htotal, -⟩ := sendInput_eq h
  have hpos : 0 < (s.slot.pool.cmdMem c).scsiCmd.inputLength := by
    by_contra h0
    rw [Nat.eq_zero_of_not_pos h0, segmentLength] at hlong
    split at hlong <;> omega
  obtain ⟨n, hn⟩ : ∃ n, segmentLength s.slot.login.sessParams.maxDataSegLength
      (s.slot.pool.cmdMem c).scsiCmd.inputLength 0 = n := ⟨_, rfl⟩
  obtain ⟨iov, hslice, -, hiov⟩ := slice_eq (n := n) htotal h.length
    (hn ▸ segmentLength_pos hpos) (hn ▸ segmentLength_le hpos.le)
  have hle := @segmentLength_le s.slot.login.sessParams.maxDataSegLength _ _ hpos.le
  have hlt := h.length
  obtain ⟨s', hsend, d, hsent⟩ := @sendLeaky_none (marked c s)
    (.readData (readPdu (marked c s) c (s.slot.pool.cmdMem c).scsiCmd.inputLength 0 n 0)) hlock
  refine ⟨s', _, d, ?_, hsent⟩
  rw [deviceCommandDone_eq h, bind_apply, hinput,
    @sendReadData_succ c sg _ _ _ 0 n 0 iov (marked c s) hpos hn hslice, bind_apply,
    gather_eq hiov (by omega), if_neg (Nat.not_le.mpr (hn ▸ hlong))]
  dsimp only
  rw [bind_apply, hsend]
  rfl

/-- With a free lock, and PDUs that are short enough, the data go out and the response. -/
theorem deviceCommandDone_short (h : ReadDone c s) (hlock : s.slot.conn.slock = false)
    (hshort : (s.slot.pool.cmdMem c).scsiCmd.inputLength ≤ 2147483644 ∨
      0 < s.slot.login.sessParams.maxDataSegLength ∧
        s.slot.login.sessParams.maxDataSegLength ≤ 2147483644) :
    (∃ ds rsp, ReadSent c ds rsp s (deviceCommandDone c s).state) ∧
      ∀ s', deviceCommandDone c s ≠ .halt .hang s' := by
  obtain ⟨sg, hinput, htotal, hcells⟩ := sendInput_eq h
  obtain ⟨ds, s₁, hrun, hsent, hfrag, hbytes⟩ := @sendReadData_run c sg _ _ htotal h.length h.limit
    hshort ((s.slot.pool.cmdMem c).scsiCmd.inputLength + 1) 0 0 (marked c s) (Nat.zero_le _)
    (fun h0 => absurd h0 (Nat.lt_irrefl _)) (by omega) hlock h.reliable (by rw [marked_cmd])
  obtain ⟨ok, s₂, hrsp, hsent', hmem⟩ := @sendResponse_sent c s₁ (0 + UInt32.ofNat ds.length)
    (by rw [hsent.cmd, marked_cmd]; exact h.status)
    (by rw [hsent.cmd, marked_cmd]; exact h.fromdev) hsent.lock hsent.reliable
  have hall : deviceCommandDone c s =
      (if !ok then pure (-1) else retire c : Handler Int) s₂ := by
    rw [deviceCommandDone_eq h, bind_apply, hinput, hrun]
    dsimp only
    rw [bind_apply, hrsp]
  have hlength : (UInt32.ofNat ds.length).toNat = ds.length := by
    have := hfrag.length_le
    have := h.length
    exact UInt32.toNat_ofNat_of_lt' (show _ < 4294967296 by omega)
  -- what follows the response sends nothing
  have hend : wp (if !ok then pure (-1) else retire c : Handler Int)
      (fun _ s' => s'.slot.conn = s₂.slot.conn ∧ s'.slot.pool.cmdMem = s₂.slot.pool.cmdMem)
      (fun e s' => s'.slot.conn = s₂.slot.conn ∧ s'.slot.pool.cmdMem = s₂.slot.pool.cmdMem ∧
        e ≠ .hang) s₂ :=
    (wp_ite _ _ _).mpr ⟨fun _ => ⟨rfl, rfl⟩, fun _ => retire_sends c s₂⟩
  have hstate : (deviceCommandDone c s).state.slot.conn = s₂.slot.conn ∧
      (deviceCommandDone c s).state.slot.pool.cmdMem = s₂.slot.pool.cmdMem :=
    hall ▸ state_of_wp (wp_mono hend (fun _ _ => id) fun _ _ h => ⟨h.1, h.2.1⟩)
  refine ⟨⟨ds, readRsp c (0 + UInt32.ofNat ds.length) s₁, ?_⟩, fun s' heq => ?_⟩
  · have hpieces := hfrag.pieces
    refine ⟨?_, ?_, fun d hd => ?_, ?_, hfrag.final, ?_, ?_⟩
    · rw [hstate.1, hsent', hsent.sent]
      have hdata : ReadBytes sg (marked c s) =
          ReadBytes (s.slot.pool.cmdMem c).gatherList s := by rw [ReadBytes, ReadBytes, hcells]; rfl
      rw [hdata]
      rfl
    · rw [hpieces]
      exact tiles_segments (Nat.zero_le _) (by omega)
    · have hmem : dataPiece d ∈ ds.map dataPiece := List.mem_map_of_mem hd
      rw [hpieces] at hmem
      exact segments_le_limit _ _ _ hmem
    · refine List.ext_getElem (by simp) fun i hi _ => ?_
      rw [List.length_map] at hi
      rw [List.getElem_map, List.getElem_range, hfrag.numbered i hi, UInt32.zero_add]
      have := hfrag.length_le
      have := h.length
      exact UInt32.toNat_ofNat_of_lt' (show _ < 4294967296 by omega)
    · rw [readRsp, UInt32.zero_add]
      exact hlength
    · rw [hstate.2, hmem]
      exact hbytes
  · exact (hend.of_halt (hall.symm.trans heq)).2.2 rfl

/-- What has gone out with a first PDU that is too long is not a read. -/
theorem not_readSent_of_tooLong (h : ReadDone c s) (hlock : s.slot.conn.slock = false)
    (hlong : 2147483644 < segmentLength s.slot.login.sessParams.maxDataSegLength
      (s.slot.pool.cmdMem c).scsiCmd.inputLength 0) {ds : List ReadData} {rsp : ScsiRsp} :
    ¬ReadSent c ds rsp s (deviceCommandDone c s).state := by
  intro hsent
  obtain ⟨s', r, d, hrun, hs'⟩ := deviceCommandDone_tooLong h hlock hlong
  have hsent := hsent.sent
  rw [hrun, show (Outcome.ret (-1 : Int) s' : Outcome Halt Local Int).state = s' from rfl, hs',
    List.append_assoc] at hsent
  have hlast := congrArg List.getLast? (List.append_cancel_left hsent)
  simp at hlast

/-- A read command with its data in a gather list of `trans_len` bytes is answered by PDUs that tile
the transfer, and then by the response, exactly when the lock is free and no PDU has more than
2147483644 bytes. -/
theorem deviceCommandDone_readSent (h : ReadDone c s) :
    ((∃ ds rsp, ReadSent c ds rsp s (deviceCommandDone c s).state) ∧
      ∀ s', deviceCommandDone c s ≠ .halt .hang s') ↔
    s.slot.conn.slock = false ∧ ((s.slot.pool.cmdMem c).scsiCmd.inputLength ≤ 2147483644 ∨
      0 < s.slot.login.sessParams.maxDataSegLength ∧
        s.slot.login.sessParams.maxDataSegLength ≤ 2147483644) := by
  refine ⟨fun ⟨⟨ds, rsp, hsent⟩, hends⟩ => ?_, fun ⟨hlock, hshort⟩ =>
    deviceCommandDone_short h hlock hshort⟩
  have hlock : s.slot.conn.slock = false := by
    by_contra hlock
    obtain ⟨s', hrun, -⟩ := deviceCommandDone_locked h (by simpa using hlock)
    exact hends s' hrun
  refine ⟨hlock, ?_⟩
  by_contra hlong
  refine not_readSent_of_tooLong h hlock ?_ hsent
  unfold segmentLength
  split <;> omega

/-- Eight bytes in PDUs of at most three. -/
theorem deviceCommandDone_readSent_eight :
    (∃ ds rsp, ReadSent 0 ds rsp (reading 8 3) (deviceCommandDone 0 (reading 8 3)).state) ∧
      ∀ s', deviceCommandDone 0 (reading 8 3) ≠ .halt .hang s' :=
  (deviceCommandDone_readSent (reading_done (by decide) (by decide))).mpr ⟨rfl, .inl (by decide)⟩

/-- Without a limit 2147483645 bytes are one PDU, which is not sent. -/
theorem deviceCommandDone_readLost :
    ReadDone 0 (reading 2147483645 0) ∧ ¬∃ ds rsp, ReadSent 0 ds rsp (reading 2147483645 0)
      (deviceCommandDone 0 (reading 2147483645 0)).state := by
  have hdone : ReadDone 0 (reading 2147483645 0) := reading_done (by decide) (by decide)
  refine ⟨hdone, fun ⟨ds, rsp, hsent⟩ => ?_⟩
  exact not_readSent_of_tooLong hdone rfl (by decide) hsent

end Command

end Ost.Target
