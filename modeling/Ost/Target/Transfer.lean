import Ost.Target.WriteRequest
import Ost.Disk.Tiling
import Ost.Iscsi.Codec

/-!
# Write data that come in order

What the target does with a write whose data come one after the other, on a connection that works.
`Awaits` says that the first `n` bytes have been placed.  `prepare_write` begins with the immediate
data and asks for the rest, unless the first burst is to come unasked; each `WRITE_DATA` PDU adds
its bytes, and the one that ends the first burst has the rest asked for.
-/

namespace Ost.Target

open Ost.Iscsi Ost.Util Ost.Param Ost.Prog

/-! ## Waiting for data -/

/-- The first `n` bytes of `bs`, which are the data of the command `c`, have been placed in its
buffer, and the others can be received. -/
structure Awaits (id c : Nat) (p : SessParams) (itt : UInt32) (bs : Bytes) (n : Nat)
    (t : Local) : Prop where
  tag : (t.slot.pool.cmdMem c).scsiCmd.tag = itt
  transLen : (t.slot.pool.cmdMem c).scsiCmd.transLen = bs.length
  count : (t.slot.pool.cmdMem c).scsiCmd.bytesTodev = n
  lun : (t.slot.pool.cmdMem c).scsiCmd.lun < t.dev.cfg.numLuns
  buffer : ∃ v, (t.slot.pool.cmdMem c).scatterList = [v] ∧ v.len = bs.length ∧
    t.dev.mem.read v.base v.off n = bs.take n
  found : t.slot.pool.cmds.n ≠ 0 ∧ t.slot.pool.cmds.get itt = some c
  login : t.slot.login.loginStarted = true ∧ t.slot.login.isFullFeature = true ∧
    t.slot.login.sessParams = p
  conn : t.slot.conn.slock = false ∧ t.slot.conn.Reliable
  device : t.dev.crash = -1 ∧ ∃ q, t.dev.cmdQueue.insert (id, c) = some q

/-- All of `bs` has been placed in the buffer of the command `c`, which has gone back to the
device. -/
structure Delivered (id c : Nat) (bs : Bytes) (t : Local) : Prop where
  count : (t.slot.pool.cmdMem c).scsiCmd.bytesTodev = bs.length
  done : (t.slot.pool.cmdMem c).done = true
  buffer : ∃ v, (t.slot.pool.cmdMem c).scatterList = [v] ∧
    t.dev.mem.read v.base v.off bs.length = bs
  queued : ∃ q : Fifo (Nat × Nat), q.insert (id, c) = some t.dev.cmdQueue

/-- The R2Ts `rs` have been sent, all of them for the command with the tag `itt`. -/
def Requests (itt : UInt32) (rs : List R2t) (t t' : Local) : Prop :=
  t'.slot.conn.sent = t.slot.conn.sent ++ rs.map (fun r => ⟨.r2t r, [], true⟩) ∧
    ∀ r ∈ rs, r.tag = itt ∧ r.InFormat

/-- The state after an R2T for the command `c` has been sent. -/
def Local.sendsR2t (c : Nat) (r : R2t) (t : Local) : Local :=
  (t.setConn { t.slot.conn with
    tx := t.slot.conn.tx.tail, sent := t.slot.conn.sent ++ [⟨.r2t r, [], true⟩] }).setCmd c
    { t.slot.pool.cmdMem c with r2tFlag := true }

variable {id c n : Nat} {p : SessParams} {itt : UInt32} {bs : Bytes} {t t' : Local}

theorem goesOut_of_reliable {k : Conn} (h : k.Reliable) : Disk.goesOut k = true := by
  rw [Disk.goesOut, h.1, Bool.true_and]
  cases hk : k.tx with
  | nil => rfl
  | cons b l => exact h.2 b (hk ▸ List.mem_cons_self)

theorem Requests.nil (h : t'.slot.conn.sent = t.slot.conn.sent) : Requests itt [] t t' :=
  ⟨by simpa using h, by simp⟩

namespace Awaits

/-- An R2T changes nothing that the data wait for. -/
theorem sendsR2t (h : Awaits id c p itt bs n t) (r : R2t) :
    Awaits id c p itt bs n (t.sendsR2t c r) := by
  obtain ⟨htag, hlen, hcount, hlun, hbuf, hfound, hlogin, ⟨hlock, hopen, htx⟩, hdev⟩ := h
  have hself : (t.sendsR2t c r).slot.pool.cmdMem c =
      { t.slot.pool.cmdMem c with r2tFlag := true } := Function.update_self ..
  refine ⟨by rw [hself]; exact htag, by rw [hself]; exact hlen, by rw [hself]; exact hcount,
    by rw [hself]; exact hlun, by rw [hself]; exact hbuf, hfound, hlogin, ⟨hlock, hopen, ?_⟩, hdev⟩
  exact fun b hb => htx b (List.mem_of_mem_tail hb)

/-- Sending an R2T. -/
theorem wp_sendLeaky (h : Awaits id c p itt bs n t) (r : R2t) {Q : Bool → Local → Prop}
    {E : Halt → Local → Prop} :
    wp (sendLeaky (.r2t r) (some [])) Q E t ↔ Q true (t.setConn { t.slot.conn with
      tx := t.slot.conn.tx.tail, sent := t.slot.conn.sent ++ [⟨.r2t r, [], true⟩] }) := by
  rw [Disk.wp_sendR2t r h.conn.1, goesOut_of_reliable h.conn.2, Bool.not_true, ← h.conn.1]

end Awaits

/-! ## Asking for data -/

theorem Requests.cons {r : R2t} {rs : List R2t} (hr : r.tag = itt ∧ r.InFormat)
    (h : Requests itt rs (t.sendsR2t c r) t') : Requests itt (r :: rs) t t' :=
  ⟨h.1.trans (List.append_assoc _ _ _), List.forall_mem_cons.mpr ⟨hr, h.2⟩⟩

/-- The loop of `target_transfer_data` asks for all that is missing, in R2Ts of `MaxBurstLength`. -/
theorem sendR2ts_awaits {fuel transferred remaining : Nat} (h : Awaits id c p itt bs n t)
    (hmax : p.maxBurstLength ≠ 0) (hsum : n + transferred + remaining = bs.length)
    (hlt : bs.length < 4294967296) (hfuel : remaining < fuel) :
    wp (Disk.sendR2ts c fuel transferred remaining) (fun ok t' => ok = true ∧
      Awaits id c p itt bs n t' ∧ ∃ rs, Requests itt rs t t' ∧
        rs.map Disk.piece = segments p.maxBurstLength bs.length fuel (n + transferred) ∧
        (t'.slot.pool.cmdMem c).r2tFlag = ((t.slot.pool.cmdMem c).r2tFlag || !rs.isEmpty))
      (fun _ _ => False) t := by
  induction fuel generalizing transferred remaining t with
  | zero => omega
  | succ fuel ih =>
    refine (wp_ite _ _ _).mpr ⟨fun h0 => ⟨rfl, h, [], .nil rfl, ?_, by simp⟩, fun hrem => ?_⟩
    · rw [show n + transferred = bs.length by omega, segments_stop]
      rfl
    simp only [wp_bind, wp_getCmd, wp_getLogin, wp_getSeq, h.login.2.2, h.count, h.tag]
    have hdesired : (if remaining > p.maxBurstLength then p.maxBurstLength else remaining) =
        segmentLength p.maxBurstLength bs.length (n + transferred) := by
      rw [segmentLength, if_neg hmax]
      split <;> omega
    rw [hdesired]
    have hend := @segmentLength_le p.maxBurstLength _ _
      (show n + transferred ≤ bs.length by omega)
    have hpos := @segmentLength_pos p.maxBurstLength _ _
      (show n + transferred < bs.length by omega)
    have hcons := @segments_cons p.maxBurstLength _ _ fuel
      (show n + transferred < bs.length by omega)
    generalize segmentLength p.maxBurstLength bs.length (n + transferred) = len at *
    rw [h.wp_sendLeaky]
    simp only [Bool.not_true, Bool.false_eq_true, if_false, wp_bind, wp_modifyCmd]
    generalize hr : ({ ahsLength := 0, lun := 0, tag := itt, transferTag := 0x1234
                       statSN := _, expCmdSN := _, maxCmdSN := _, r2tSN := 0
                       offset := UInt32.ofNat (n + transferred)
                       length := UInt32.ofNat len } : R2t) = r
    have hw : w32 (transferred + len) = transferred + len := Nat.mod_eq_of_lt (by omega)
    rw [hw]
    refine wp_mono (ih (h.sendsR2t r) (show _ + _ + (remaining - len) = _ by omega) (by omega)) ?_
      fun _ _ h => h
    rintro ok t' ⟨rfl, h', rs, hreq, hpieces, hflag⟩
    have hpiece : Disk.piece r = (n + transferred, len) := by
      rw [← hr]
      exact Prod.ext (UInt32.toNat_ofNat_of_lt' (show _ < 4294967296 by omega))
        (UInt32.toNat_ofNat_of_lt' (show _ < 4294967296 by omega))
    refine ⟨rfl, h', r :: rs, .cons (by rw [← hr]; exact ⟨rfl, rfl, rfl⟩) hreq, ?_, ?_⟩
    · rw [hcons, List.map_cons, hpiece, hpieces, Nat.add_assoc]
    · rw [hflag]
      simp [Local.setCmd, Local.setPool]

/-- The data PDU that has come ends the first burst. -/
def EndsBurst (p : SessParams) (n : Nat) (flag : Bool) : Prop :=
  flag = false ∧ p.initialR2t = false ∧ p.firstBurstLength ≠ 0 ∧ p.firstBurstLength ≤ n

/-- At the end of the first burst the rest is asked for. -/
theorem sendBurstR2t_awaits (h : Awaits id c p itt bs n t) (hle : n ≤ bs.length)
    (hlt : bs.length < 4294967296) :
    wp (sendBurstR2t c) (fun rc t' => rc = 0 ∧ Awaits id c p itt bs n t' ∧
      (t'.slot.pool.cmdMem c).ready = (t.slot.pool.cmdMem c).ready ∧
      ((EndsBurst p n (t.slot.pool.cmdMem c).r2tFlag ∧ (t'.slot.pool.cmdMem c).r2tFlag = true ∧
        ∃ r, Requests itt [r] t t' ∧ Disk.piece r = (n, bs.length - n)) ∨
      (¬EndsBurst p n (t.slot.pool.cmdMem c).r2tFlag ∧ Requests itt [] t t' ∧
        (t'.slot.pool.cmdMem c).r2tFlag = (t.slot.pool.cmdMem c).r2tFlag)))
      (fun _ _ => False) t := by
  have hcond : (!(t.slot.pool.cmdMem c).r2tFlag && !p.initialR2t && p.firstBurstLength ≠ 0 &&
      n ≥ p.firstBurstLength) = true ↔ EndsBurst p n (t.slot.pool.cmdMem c).r2tFlag := by
    simp [EndsBurst, and_assoc]
  simp only [sendBurstR2t, wp_bind, wp_getCmd, wp_getLogin, h.login.2.2, h.count, h.tag,
    h.transLen]
  refine (wp_ite _ _ _).mpr ⟨fun hb => ?_, fun hb => ?_⟩
  · have hb := hcond.mp hb
    simp only [wp_bind, wp_getSeq]
    rw [h.wp_sendLeaky]
    simp only [Bool.not_true, Bool.false_eq_true, if_false, wp_bind, wp_modifyCmd]
    generalize hr : ({ ahsLength := 0, lun := 0, tag := itt, transferTag := 0x1234
                       statSN := _, expCmdSN := _, maxCmdSN := _, r2tSN := 0
                       offset := UInt32.ofNat n
                       length := UInt32.ofNat (sub32 bs.length n) } : R2t) = r
    have hsub : sub32 bs.length n = bs.length - n := by
      unfold sub32
      omega
    have hpiece : Disk.piece r = (n, bs.length - n) := by
      rw [← hr, hsub]
      exact Prod.ext (UInt32.toNat_ofNat_of_lt' (show _ < 4294967296 by omega))
        (UInt32.toNat_ofNat_of_lt' (show _ < 4294967296 by omega))
    have hreq : Requests itt [r] t (t.sendsR2t c r) :=
      .cons (by rw [← hr]; exact ⟨rfl, rfl, rfl⟩) (.nil rfl)
    refine ⟨rfl, h.sendsR2t r, ?_, .inl ⟨hb, ?_, r, hreq, hpiece⟩⟩
    · simp [Local.setCmd, Local.setPool, Local.setConn]
    · simp [Local.setCmd, Local.setPool, Local.setConn]
  · exact ⟨rfl, h, rfl, .inr ⟨fun he => hb (hcond.mpr he), .nil rfl, rfl⟩⟩

/-! ## Placing data -/

/-- What has been read from a buffer before, and the bytes that were stored behind it. -/
theorem read_write_append (m : Memory) (r : Region) (off n : Nat) (data : Bytes) :
    (m.write r (off + n) data).read r off (n + data.length) = m.read r off n ++ data := by
  apply List.ext_getElem
  · simp
  intro i hi _
  have hi : i < n + data.length := by simpa using hi
  rcases Nat.lt_or_ge i n with hn | hn
  · rw [List.getElem_append_left (by simpa using hn)]
    simp only [Memory.read, List.getElem_map, List.getElem_range]
    exact Memory.write_of_not_mem (by omega)
  · rw [List.getElem_append_right (by simpa using hn)]
    obtain ⟨j, rfl⟩ := Nat.exists_eq_add_of_le hn
    simp only [Memory.read, List.getElem_map, List.getElem_range, List.length_map,
      List.length_range, Nat.add_sub_cancel_left, ← Nat.add_assoc]
    have hj : j < data.length := by omega
    rw [Memory.write_at hj, List.getD_eq_getElem?_getD, List.getElem?_eq_getElem hj]
    rfl

/-- How the state goes on when the first `n` bytes are there. -/
inductive Took (id c : Nat) (p : SessParams) (itt : UInt32) (bs : Bytes) (n : Nat) (flag : Bool)
    (t t' : Local) : Prop where
  | finished (hn : n = bs.length) (h : Delivered id c bs t') (hreq : Requests itt [] t t')
  | asks (hn : n < bs.length) (hburst : EndsBurst p n flag) (h : Awaits id c p itt bs n t')
    (hready : (t'.slot.pool.cmdMem c).ready = true)
    (hflag : (t'.slot.pool.cmdMem c).r2tFlag = true) {r : R2t} (hreq : Requests itt [r] t t')
    (hpiece : Disk.piece r = (n, bs.length - n))
  | waits (hn : n < bs.length) (hburst : ¬EndsBurst p n flag) (h : Awaits id c p itt bs n t')
    (hready : (t'.slot.pool.cmdMem c).ready = true)
    (hflag : (t'.slot.pool.cmdMem c).r2tFlag = flag) (hreq : Requests itt [] t t')

/-- The next bytes of the data, on their way to the socket of the target. -/
structure Arrives (bs : Bytes) (n : Nat) (d : WriteData) (t : Local) : Prop where
  offset : d.offset = n
  pos : 0 < d.length
  le : n + d.length ≤ bs.length
  padded : pad4 d.length ≤ t.slot.conn.rx.length
  data : t.slot.conn.rx.take d.length = (bs.drop n).take d.length

/-- The state after the data of a PDU have been placed, and not been counted yet. -/
def Local.places (c : Nat) (v : Iov) (d : WriteData) (t : Local) : Local :=
  ((t.setConn { t.slot.conn with rx := t.slot.conn.rx.drop (pad4 d.length) }).setDev
    { t.dev with
      mem := t.dev.mem.write v.base (v.off + d.offset) (t.slot.conn.rx.take d.length) }).setCmd c
    { t.slot.pool.cmdMem c with
      got := (t.slot.pool.cmdMem c).got ++ [(d.offset, t.slot.conn.rx.take d.length)] }

/-- `device_place_data` for the next bytes. -/
theorem wp_devicePlaceData {d : WriteData} {v : Iov} (hd : Arrives bs n d t)
    (hv : (t.slot.pool.cmdMem c).scatterList = [v]) (hlen : v.len = bs.length)
    (hlt : bs.length < 2147483648) {Q : Int → Local → Prop} {E : Halt → Local → Prop} :
    wp (Disk.devicePlaceData id c d.offset d.length) Q E t ↔ Q d.length (t.places c v d) := by
  obtain ⟨rfl, hpos, hle, hpad, -⟩ := hd
  have hiov : modifyIov (t.slot.pool.cmdMem c).scatterList d.offset d.length =
      some [{ v with off := v.off + d.offset, len := d.length }] := by
    rw [hv, modifyIov_singleton (by omega), if_pos ⟨by omega, by omega⟩]
  have hrecv : Conn.recv d.length t.slot.conn =
      (((d.length : Int), t.slot.conn.rx.take d.length),
        { t.slot.conn with rx := t.slot.conn.rx.drop (pad4 d.length) }) := if_pos hpad
  rw [Disk.devicePlaceData, if_neg (by omega), wp_bind, wp_getCmd, hiov]
  simp only [sockRecv, wp_bind, wp_onConn, hrecv, Disk.poke, Disk.onMem, wp_modifyDev, wp_modifyCmd,
    wp_guarded, ne_eq, not_true, false_implies, true_and, wp_pure, List.headD_cons]
  exact ⟨fun h => h not_false, fun h _ => h⟩

/-- The state after the data of a PDU have been placed and counted. -/
def Local.takes (c : Nat) (v : Iov) (d : WriteData) (t : Local) : Local :=
  (t.places c v d).setCmd c { (t.places c v d).slot.pool.cmdMem c with
    scsiCmd := { (t.slot.pool.cmdMem c).scsiCmd with
      bytesTodev := (t.slot.pool.cmdMem c).scsiCmd.bytesTodev + d.length } }

/-- The command after the data of a PDU have been placed and counted. -/
theorem takes_cmd (c : Nat) (v : Iov) (d : WriteData) (t : Local) :
    (t.takes c v d).slot.pool.cmdMem c = { t.slot.pool.cmdMem c with
      got := (t.slot.pool.cmdMem c).got ++ [(d.offset, t.slot.conn.rx.take d.length)]
      scsiCmd := { (t.slot.pool.cmdMem c).scsiCmd with
        bytesTodev := (t.slot.pool.cmdMem c).scsiCmd.bytesTodev + d.length } } := by
  simp [Local.takes, Local.places, Local.setCmd, Local.setPool, Local.setConn, Local.setDev]

/-- The command goes on waiting behind the data of a PDU. -/
theorem Awaits.takes {d : WriteData} {v : Iov} (h : Awaits id c p itt bs n t)
    (hd : Arrives bs n d t) (hv : (t.slot.pool.cmdMem c).scatterList = [v])
    (hlen : v.len = bs.length) (hread : t.dev.mem.read v.base v.off n = bs.take n) :
    Awaits id c p itt bs (n + d.length) (t.takes c v d) := by
  obtain ⟨htag, htrans, hcount, hlun, -, hfound, hlogin, hconn, hdev⟩ := h
  have hcmd := takes_cmd c v d t
  have hdata : (t.slot.conn.rx.take d.length).length = d.length := by
    rw [hd.data, List.length_take, List.length_drop]
    have := hd.le
    omega
  refine ⟨by rw [hcmd]; exact htag, by rw [hcmd]; exact htrans, by rw [hcmd, ← hcount],
    by rw [hcmd]; exact hlun, ⟨v, by rw [hcmd]; exact hv, hlen, ?_⟩, hfound, hlogin, hconn, hdev⟩
  have hmem : (t.takes c v d).dev.mem =
      t.dev.mem.write v.base (v.off + n) (t.slot.conn.rx.take d.length) := by
    rw [← hd.offset]
    rfl
  have happend := read_write_append t.dev.mem v.base v.off n (t.slot.conn.rx.take d.length)
  rw [hdata] at happend
  rw [hmem, happend, hread, hd.data]
  exact List.take_add.symm

/-- Handing a command to a LUN that exists, when there is room. -/
theorem wp_lunEnqueue {q : Fifo (Nat × Nat)} (hcrash : t.dev.crash = -1)
    (hq : t.dev.cmdQueue.insert (id, c) = some q) {Q : Int → Local → Prop}
    {E : Halt → Local → Prop} :
    wp (Disk.lunEnqueue id c) Q E t ↔ Q 0 (t.setDev { t.dev with cmdQueue := q }) := by
  have hinsert : wp (Disk.lunInsert id c) (fun ok s' =>
      wp (guarded (!ok) (halt .exit) >>= fun _ => pure 0 : Handler Int) Q E s') E t ↔
      Q 0 (t.setDev { t.dev with cmdQueue := q }) := by
    rw [Disk.lunInsert, wp_onDev, hq]
    simp only [wp_bind, wp_guarded, Bool.not_true, Bool.false_eq_true, false_implies, true_and,
      not_false_eq_true, true_implies, wp_pure]
  rw [Disk.lunEnqueue, wp_bind, Disk.countDown, wp_bind, wp_getDev, if_pos hcrash, wp_pure, wp_bind]
  exact hinsert

/-- When all data are there the command goes back to the device. -/
theorem wp_placeDone (h : Awaits id c p itt bs n t) {Q : Int → Local → Prop}
    {E : Halt → Local → Prop} (hQ : ∀ q, t.dev.cmdQueue.insert (id, c) = some q → Q 0
      ((t.setCmd c { t.slot.pool.cmdMem c with done := true }).setDev
        { t.dev with cmdQueue := q })) :
    wp (Disk.placeDone (Disk.deviceEnqueue id) c) Q E t := by
  obtain ⟨hcrash, q, hq⟩ := h.device
  have hself : (t.setCmd c { t.slot.pool.cmdMem c with done := true }).slot.pool.cmdMem c =
      { t.slot.pool.cmdMem c with done := true } := Function.update_self ..
  have hlun : (t.slot.pool.cmdMem c).scsiCmd.lun < (t.setCmd c { t.slot.pool.cmdMem c with
      done := true }).dev.cfg.numLuns := h.lun
  rw [Disk.placeDone, wp_bind, wp_modifyCmd, wp_bind, Disk.deviceEnqueue, wp_bind, wp_getDev,
    wp_bind, wp_getCmd, hself, if_pos hlun, wp_lunEnqueue (t := t.setCmd c _) hcrash hq]
  exact (wp_ite _ _ _).mpr ⟨fun hne => absurd rfl hne, fun _ => hQ q hq⟩

/-- `execute_t` for the next bytes, once it has found their command. -/
theorem placeWriteData_awaits {d : WriteData} (h : Awaits id c p itt bs n t)
    (hd : Arrives bs n d t) (hlt : bs.length < 2147483648)
    (hready : (t.slot.pool.cmdMem c).ready = true) :
    wp (placeWriteData id c d) (fun rc t' => rc = 0 ∧
      Took id c p itt bs (n + d.length) (t.slot.pool.cmdMem c).r2tFlag t t')
      (fun _ _ => False) t := by
  obtain ⟨v, hv, hlen, hread⟩ := h.buffer
  have h' := h.takes hd hv hlen hread
  have hle := hd.le
  rw [placeWriteData, wp_bind, wp_devicePlaceData hd hv hlen hlt, wp_bind, wp_guarded]
  refine ⟨fun hne => absurd rfl hne, fun _ => ?_⟩
  have hcount : (t.places c v d).slot.pool.cmdMem c = { t.slot.pool.cmdMem c with
      got := (t.slot.pool.cmdMem c).got ++ [(d.offset, t.slot.conn.rx.take d.length)] } :=
    Function.update_self ..
  have hw : w32 ((t.slot.pool.cmdMem c).scsiCmd.bytesTodev + d.length) =
      (t.slot.pool.cmdMem c).scsiCmd.bytesTodev + d.length :=
    Nat.mod_eq_of_lt (by rw [h.count]; omega)
  rw [wp_bind, wp_modifyScsi]
  have hstate : (t.places c v d).setCmd c { (t.places c v d).slot.pool.cmdMem c with
      scsiCmd := { ((t.places c v d).slot.pool.cmdMem c).scsiCmd with
        bytesTodev :=
          w32 (((t.places c v d).slot.pool.cmdMem c).scsiCmd.bytesTodev + d.length) } } =
      t.takes c v d := by
    rw [Local.takes, hcount]
    dsimp only
    rw [hw]
  rw [hstate, wp_bind, wp_getCmd]
  have hsub : sub32 bs.length (n + d.length) = bs.length - (n + d.length) := by
    unfold sub32
    omega
  have hsent : (t.takes c v d).slot.conn.sent = t.slot.conn.sent := rfl
  have hflag : ((t.takes c v d).slot.pool.cmdMem c).r2tFlag = (t.slot.pool.cmdMem c).r2tFlag := by
    rw [takes_cmd]
  have hready' : ((t.takes c v d).slot.pool.cmdMem c).ready = true := by
    rw [takes_cmd]
    exact hready
  have hrequests {rs : List R2t} {t' : Local} (hr : Requests itt rs (t.takes c v d) t') :
      Requests itt rs t t' := ⟨hr.1.trans (by rw [hsent]), hr.2⟩
  dsimp only
  rw [h'.transLen, h'.count, hsub]
  refine (wp_ite _ _ _).mpr ⟨fun h0 => ?_, fun h0 => ?_⟩
  · have hn : n + d.length = bs.length := by omega
    rw [wp_bind]
    refine wp_placeDone h' fun q hq => ?_
    refine (wp_ite _ _ _).mpr ⟨fun hne => absurd rfl hne, fun _ => ⟨rfl, .finished hn ?_ ?_⟩⟩
    · have hself : ∀ q, (((t.takes c v d).setCmd c { (t.takes c v d).slot.pool.cmdMem c with
          done := true }).setDev { (t.takes c v d).dev with cmdQueue := q }).slot.pool.cmdMem c =
          { (t.takes c v d).slot.pool.cmdMem c with done := true } :=
        fun _ => Function.update_self ..
      obtain ⟨v', hv', -, hread'⟩ := h'.buffer
      refine ⟨by rw [hself, ← hn]; exact h'.count, by rw [hself],
        ⟨v', by rw [hself]; exact hv', ?_⟩, _, hq⟩
      rw [← hn]
      exact hread'.trans (by rw [hn, List.take_length])
    · exact hrequests (.nil rfl)
  · have hn : n + d.length < bs.length := by omega
    refine wp_mono (sendBurstR2t_awaits h' hle (by omega)) ?_ fun _ _ h => h
    rintro rc t' ⟨rfl, hw', hr', ⟨hb, hf, r, hreq, hpiece⟩ | ⟨hb, hreq, hf⟩⟩
    · exact ⟨rfl, .asks hn (hflag ▸ hb) hw' (hr'.trans hready') hf (hrequests hreq) hpiece⟩
    · exact ⟨rfl, .waits hn (hflag ▸ hb) hw' (hr'.trans hready') (hf.trans hflag) (hrequests hreq)⟩

/-- `execute_t` for the PDU with the next bytes. -/
theorem executeT_awaits (env : Env) (h : Nat) {hdr : Bytes} {d : WriteData}
    (ha : Awaits id c p itt bs n t) (hready : (t.slot.pool.cmdMem c).ready = true)
    (hop : iscsiOpcode hdr = opWriteData) (hdecap : iscsiWriteDataDecap hdr = (0, d))
    (hd : Arrives bs n d t) (htag : d.tag = itt)
    (hmax : p.maxDataSegLength = 0 ∨ d.length ≤ p.maxDataSegLength)
    (hfinal : n + d.length = bs.length → d.final = true) (hlt : bs.length < 2147483648) :
    wp (executeT env id h hdr) (fun r t' => r = some 0 ∧
      Took id c p itt bs (n + d.length) (t.slot.pool.cmdMem c).r2tFlag t t')
      (fun _ _ => False) t := by
  obtain ⟨hstarted, hfull, hparams⟩ := ha.login
  have hle := hd.le
  have hverify {Q : Int → Local → Prop} {E : Halt → Local → Prop} (hQ : Q 0 t) :
      wp (verifyCmdT hdr) Q E t := by
    simpa [verifyCmdT, wp_ite, hstarted, hfull] using hQ
  rw [executeT, wp_bind]
  refine hverify ((wp_ite _ _ _).mpr ⟨fun hne => absurd rfl hne, fun _ => ?_⟩)
  dsimp only
  rw [hop]
  iterate 6 refine (wp_ite _ _ _).mpr ⟨fun h => absurd h (by decide), fun _ => ?_⟩
  refine (wp_ite _ _ _).mpr ⟨fun _ => ?_, fun hne => absurd rfl hne⟩
  rw [writeDataT, hdecap]
  refine (wp_ite _ _ _).mpr ⟨fun hne => absurd rfl hne, fun _ => ?_⟩
  rw [wp_bind, wp_getOutstanding]
  refine ⟨fun h0 => absurd h0 ha.found.1, fun _ => ?_⟩
  rw [htag, ha.found.2, wp_bind, wp_getCmd]
  refine (wp_ite _ _ _).mpr ⟨fun hnot => by simp [hready] at hnot, fun _ => ?_⟩
  have hsub : sub32 bs.length (n + d.length) = bs.length - (n + d.length) := by
    unfold sub32
    omega
  have hw : w32 (n + d.length) = n + d.length := Nat.mod_eq_of_lt (by omega)
  rw [wp_map, writeDataReady, hdecap]
  dsimp only
  rw [wp_bind, wp_getCmd, wp_bind, wp_getLogin, hparams, ha.count, ha.transLen, ha.tag,
    hw, hsub, htag]
  refine (wp_ite _ _ _).mpr ⟨fun hlong => ?_, fun _ => ?_⟩
  · simp only [Bool.and_eq_true, decide_eq_true_eq] at hlong
    omega
  refine (wp_ite _ _ _).mpr ⟨fun hgt => absurd hle (by omega), fun _ => ?_⟩
  refine (wp_ite _ _ _).mpr ⟨fun hne => by simp at hne, fun _ => ?_⟩
  rw [wp_bind, rejectTag]
  refine (wp_ite _ _ _).mpr ⟨fun _ => ?_, fun hne => by simp at hne⟩
  refine (wp_ite _ _ _).mpr ⟨fun hne => absurd hne (by decide), fun _ => ?_⟩
  refine (wp_ite _ _ _).mpr ⟨fun hlast => ?_, fun _ => ?_⟩
  · simp only [Bool.and_eq_true, decide_eq_true_eq, Bool.not_eq_true'] at hlast
    have := hfinal (by omega)
    simp [this] at hlast
  refine wp_mono (placeWriteData_awaits ha hd hlt hready) ?_ fun _ _ h => h
  rintro rc t' ⟨rfl, htook⟩
  exact ⟨rfl, htook⟩

/-! ## Beginning -/

/-- The target asks for data as soon as the device has the command. -/
def AsksFirst (p : SessParams) (n : Nat) : Prop :=
  p.initialR2t = true ∨ p.firstBurstLength ≠ 0 ∧ p.firstBurstLength ≤ n

/-- The immediate data that are copied are the beginning of the data. -/
theorem immediateData_eq {cmd : TargetCmd} (himm : cmd.immediate = bs.take n) (hn : n ≤ bs.length) :
    Disk.immediateData cmd n = bs.take n := by
  apply List.ext_getElem
  · simp [Disk.immediateData, hn]
  intro i hi _
  have hi : i < n := by simpa [Disk.immediateData] using hi
  simp only [Disk.immediateData, himm, List.getElem_map, List.getElem_range, byte]
  rw [List.getD_eq_getElem?_getD, List.getElem?_eq_getElem (by simp; omega)]
  rfl

/-- The state after the immediate data have been copied into the buffer `v`. -/
def Local.copies (c : Nat) (v : Iov) (n : Nat) (t : Local) : Local :=
  (t.setDev { t.dev with
    mem := t.dev.mem.write v.base v.off (Disk.immediateData (t.slot.pool.cmdMem c) n) }).setCmd c
    { t.slot.pool.cmdMem c with
      scsiCmd := { (t.slot.pool.cmdMem c).scsiCmd with bytesTodev := n }
      got := [(0, Disk.immediateData (t.slot.pool.cmdMem c) n)] }

/-- The copy of the immediate data, which fit into the buffer. -/
theorem wp_copyImmediate {v : Iov} (hv : (t.slot.pool.cmdMem c).scatterList = [v])
    (hlength : (t.slot.pool.cmdMem c).scsiCmd.length = n) (hn : n ≤ v.len)
    {Q : PUnit → Local → Prop}
    {E : Halt → Local → Prop} :
    wp (Disk.copyImmediate c) Q E t ↔ Q ⟨⟩ (t.copies c v n) := by
  rw [Disk.copyImmediate, wp_bind, wp_getCmd, hv, hlength]
  simp only [List.headD_cons, Nat.min_eq_right hn]
  rw [Disk.poke, Disk.onMem, wp_bind, wp_modifyDev, wp_bind]
  have hkeep : wp (modifyCmd c fun t => { t with
      scsiCmd := { t.scsiCmd with bytesTodev := t.scsiCmd.length }
      got := [(0, Disk.immediateData t t.scsiCmd.length)] }) Q E (t.setDev { t.dev with
        mem := t.dev.mem.write v.base v.off (Disk.immediateData (t.slot.pool.cmdMem c) n) }) ↔
      Q ⟨⟩ (t.copies c v n) := by
    rw [wp_modifyCmd, Local.copies, ← hlength]
    rfl
  constructor
  · intro h
    exact hkeep.mp (((wp_guarded _ _).mp h).2 (by omega))
  · exact fun h => (wp_guarded _ _).mpr ⟨fun hgt => absurd hn (by omega), fun _ => hkeep.mpr h⟩

/-- Then the first bytes have been placed. -/
theorem Awaits.copies (h : Awaits id c p itt bs 0 t) {v : Iov}
    (hv : (t.slot.pool.cmdMem c).scatterList = [v]) (hlen : v.len = bs.length)
    (himm : (t.slot.pool.cmdMem c).immediate = bs.take n) (hn : n ≤ bs.length) :
    Awaits id c p itt bs n (t.copies c v n) := by
  have hcmd : (t.copies c v n).slot.pool.cmdMem c = { t.slot.pool.cmdMem c with
      scsiCmd := { (t.slot.pool.cmdMem c).scsiCmd with bytesTodev := n }
      got := [(0, Disk.immediateData (t.slot.pool.cmdMem c) n)] } := Function.update_self ..
  refine ⟨by rw [hcmd]; exact h.tag, by rw [hcmd]; exact h.transLen, by rw [hcmd],
    by rw [hcmd]; exact h.lun, ⟨v, by rw [hcmd]; exact hv, hlen, ?_⟩, h.found, h.login, h.conn,
    h.device⟩
  have happend := read_write_append t.dev.mem v.base v.off 0 (bs.take n)
  rw [Nat.zero_add, List.length_take, Nat.min_eq_left hn] at happend
  rw [← immediateData_eq himm hn] at happend ⊢
  exact happend

/-- The state after `ready` has been set. -/
def Local.readies (c : Nat) (t : Local) : Local :=
  t.setCmd c { t.slot.pool.cmdMem c with ready := true }

theorem Local.readies_cmd (c : Nat) (t : Local) :
    (t.readies c).slot.pool.cmdMem c = { t.slot.pool.cmdMem c with ready := true } :=
  Function.update_self ..

theorem Awaits.readies (h : Awaits id c p itt bs n t) : Awaits id c p itt bs n (t.readies c) := by
  have hself := Local.readies_cmd c t
  exact ⟨by rw [hself]; exact h.tag, by rw [hself]; exact h.transLen, by rw [hself]; exact h.count,
    by rw [hself]; exact h.lun, by rw [hself]; exact h.buffer, h.found, h.login, h.conn, h.device⟩

/-- What `target_transfer_data` has done for a write of which `n` bytes have been placed. -/
def Transfers (id c : Nat) (p : SessParams) (itt : UInt32) (bs : Bytes) (n : Nat) (t t' : Local) :
    Prop :=
  Awaits id c p itt bs n t' ∧ (t'.slot.pool.cmdMem c).ready = true ∧ ∃ rs, Requests itt rs t t' ∧
    ((AsksFirst p n ∧ (t'.slot.pool.cmdMem c).r2tFlag = true ∧ ∃ fuel, bs.length ≤ n + fuel ∧
      rs.map Disk.piece = segments p.maxBurstLength bs.length fuel n) ∨
    (¬AsksFirst p n ∧ rs = [] ∧
      (t'.slot.pool.cmdMem c).r2tFlag = (t.slot.pool.cmdMem c).r2tFlag))

/-- `target_transfer_data` for a write of which some bytes are missing. -/
theorem targetTransferData_awaits {enqueue : Nat → Handler Int}
    (h : Awaits id c p itt bs n t)
    (hn : n < bs.length) (hlt : bs.length < 2147483648) (hmax : p.maxBurstLength ≠ 0) :
    wp (Disk.targetTransferData enqueue c) (fun rc t' => rc = 0 ∧ Transfers id c p itt bs n t t')
      (fun _ _ => False) t := by
  have hmissing : (t.slot.pool.cmdMem c).scsiCmd.bytesTodev <
      (t.slot.pool.cmdMem c).scsiCmd.transLen := by
    rw [h.count, h.transLen]
    exact hn
  have hle : (t.slot.pool.cmdMem c).scsiCmd.transLen ≤ 2147483647 := by
    rw [h.transLen]
    omega
  have hasks : Disk.Asks c t ↔ AsksFirst p n := by
    rw [Disk.Asks, AsksFirst, h.login.2.2, h.count]
  have hmiss : Disk.missing c t = bs.length - n := by
    rw [Disk.missing, h.transLen, h.count]
  rw [Disk.targetTransferData_missing _ hmissing hle]
  refine (Disk.wp_requestData hmissing hle).mpr ⟨fun ha => ⟨_, rfl, ?_⟩, fun ha => ?_⟩
  · rw [hmiss]
    refine wp_mono (sendR2ts_awaits h hmax (show n + 0 + (bs.length - n) = _ by omega) (by omega)
      (by omega)) ?_ fun _ _ h => h
    rintro ok t' ⟨rfl, h', rs, hreq, hpieces, hf⟩
    have hne : rs ≠ [] := by
      rintro rfl
      have hfuel : bs.length ≤ n + (t.slot.conn.tx.length + (bs.length - n) + 1) := by omega
      exact absurd ((segments_eq_nil_iff hn.le hfuel).mp hpieces.symm) (Nat.ne_of_lt hn)
    have hself := Local.readies_cmd c t'
    rw [if_pos rfl]
    refine ⟨rfl, h'.readies, congrArg TargetCmd.ready hself, rs, ⟨hreq.1, hreq.2⟩,
      .inl ⟨hasks.mp ha, ?_, _, ?_, hpieces⟩⟩
    · refine (congrArg TargetCmd.r2tFlag hself).trans ?_
      dsimp only
      rw [hf]
      simp [hne]
    · omega
  · have hself := Local.readies_cmd c t
    have hflag : ((t.readies c).slot.pool.cmdMem c).r2tFlag = (t.slot.pool.cmdMem c).r2tFlag := by
      rw [hself]
    rw [if_pos rfl]
    exact ⟨rfl, h.readies, congrArg TargetCmd.ready hself, [], .nil rfl,
      .inr ⟨fun hf => ha (hasks.mpr hf), rfl, hflag⟩⟩

/-- `prepare_write` with a buffer, for a write with `n` bytes of immediate data that has more. -/
theorem prepareTransfer_awaits (h : Awaits id c p itt bs 0 t)
    (htodev : (t.slot.pool.cmdMem c).scsiCmd.todev = true)
    (hlength : (t.slot.pool.cmdMem c).scsiCmd.length = n)
    (himm : (t.slot.pool.cmdMem c).immediate = bs.take n) (hn : n < bs.length)
    (hlt : bs.length < 2147483648) (hmax : p.maxBurstLength ≠ 0) :
    wp (Disk.prepareTransfer id c) (fun rc t' => rc = 0 ∧ Transfers id c p itt bs n t t')
      (fun _ _ => False) t := by
  obtain ⟨v, hv, hvlen, -⟩ := h.buffer
  have h₁ := h.copies hv hvlen himm hn.le
  have hcmd : (t.copies c v n).slot.pool.cmdMem c = { t.slot.pool.cmdMem c with
      scsiCmd := { (t.slot.pool.cmdMem c).scsiCmd with bytesTodev := n }
      got := [(0, Disk.immediateData (t.slot.pool.cmdMem c) n)] } := Function.update_self ..
  have htodev₁ : ((t.copies c v n).slot.pool.cmdMem c).scsiCmd.todev = true := by
    rw [hcmd]
    exact htodev
  have hsub : sub32 bs.length n ≠ 0 := by
    unfold sub32
    omega
  rw [Disk.prepareTransfer, wp_bind, wp_copyImmediate hv hlength (hn.le.trans hvlen.ge), wp_bind,
    wp_getCmd]
  dsimp only
  rw [htodev₁, h₁.transLen, h₁.count]
  refine (wp_ite _ _ _).mpr ⟨fun _ => ?_, fun hno => absurd hsub (by simpa using hno)⟩
  rw [wp_bind]
  refine wp_mono (targetTransferData_awaits h₁ hn hlt hmax) ?_ fun _ _ h => h
  rintro rc t' ⟨rfl, ha, hready, rs, hreq, hcases⟩
  refine (wp_ite _ _ _).mpr ⟨fun hne => absurd rfl hne, fun _ => ⟨rfl, ha, hready, rs, hreq, ?_⟩⟩
  rwa [hcmd] at hcases

end Ost.Target
