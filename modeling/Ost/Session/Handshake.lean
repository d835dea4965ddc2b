import Ost.Initiator.Answering
import Ost.Target.Transfer
import Ost.Target.Moves

/-!
# The two ends of a write

Two programs decide, each from the parameters of the session, who sends the next data of a write:
the initiator in `scsi_command_i` and `scsi_r2t_tx_i`, the target in `target_transfer_data` and at
the end of the first burst in `execute_t`.  Here they run against each other, over a connection that
works (`Link`).  If the parameters fit (`Fits`), nothing that one of them sends is refused by the
other, every byte is sent once, and when there is nothing left to send, all data are in the buffer
of the target.
-/

namespace Ost.Session

open Ost.Iscsi Ost.Util Ost.Param Ost.Prog
open Ost.Target (Local Awaits Delivered Took AsksFirst EndsBurst Requests Arrives)

/-! ## The two ends -/

/-- The bytes in some buffers. -/
def payload (mem : Memory) (l : List Iov) : Bytes := (iovCells l).map fun x => mem x.1 x.2

/-- A data PDU that has been sent, with the bytes that it carries. -/
def dataPdu (mem : Memory) : Initiator.OutPdu → Option (WriteData × Bytes)
  | .writeData d part => some (d, payload mem part)
  | _ => none

/-- An R2T that has been sent. -/
def r2tPdu (x : Target.Sent) : Option R2t :=
  match x.pdu with
  | .r2t r => if x.ok then some r else none
  | _ => none

/-- Data as they go over the connection, padded to a multiple of four bytes. -/
def padded (bs : Bytes) : Bytes := bs ++ List.replicate (pad4 bs.length - bs.length) 0

/-- A write under way. -/
structure Link where
  ini : Initiator.Session
  tgt : Local
  /-- The R2Ts on their way to the initiator. -/
  asks : List R2t
  /-- The data PDUs on their way to the target, with what they carry. -/
  data : List (WriteData × Bytes)
  /-- A function of one of the two has failed. -/
  failed : Bool

/-- Who goes on. -/
inductive Party where
  | initiator
  | target
deriving DecidableEq, Repr

section Runs

variable (env : Env) (mem : Memory) (c id k h : Nat)

/-- What has become of an R2T, of which `asks` are left. -/
def Link.answered (l : Link) (asks : List R2t) :
    Outcome Halt Initiator.Session Bool → Outcome Halt Link PUnit
  | .ret ok ini =>
    .ret ⟨⟩ { l with
      ini, asks, data := l.data ++ (ini.sent.drop l.ini.sent.length).filterMap (dataPdu mem)
      failed := l.failed || !ok }
  | .halt e ini => .halt e { l with ini }

/-- The initiator answers the next R2T. -/
def Link.answer : Prog Halt Link PUnit := fun l =>
  match l.asks with
  | [] => .ret ⟨⟩ l
  | r :: asks =>
    let r2t := (iscsiR2tDecap ((iscsiR2tEncap zeroHeader r).take iscsiHeaderLen)).2
    l.answered mem asks
      (Initiator.scsiR2tTxI c (l.ini.setCmd c { l.ini.books.mem c with r2t }))

/-- What has become of a data PDU, of which `data` are left. -/
def Link.delivered (l : Link) (data : List (WriteData × Bytes)) :
    Outcome Halt Local (Option Int) → Outcome Halt Link PUnit
  | .ret rc tgt =>
    .ret ⟨⟩ { l with
      tgt, data, asks := l.asks ++
        (tgt.slot.conn.sent.drop l.tgt.slot.conn.sent.length).filterMap r2tPdu
      failed := l.failed || rc != some 0 }
  | .halt e tgt => .halt e { l with tgt }

/-- The target takes the next data PDU. -/
def Link.deliver : Prog Halt Link PUnit := fun l =>
  match l.data with
  | [] => .ret ⟨⟩ l
  | (d, bs) :: data =>
    l.delivered data (Target.executeT env id h
      ((iscsiWriteDataEncap zeroHeader d).take iscsiHeaderLen)
      (l.tgt.setConn { l.tgt.slot.conn with rx := padded bs }))

/-- One of the two goes on. -/
def Link.next : Party → Prog Halt Link PUnit
  | .initiator => Link.answer mem c
  | .target => Link.deliver env id h

end Runs

/-! ## The condition -/

/-- The parameters with which the two ends of a write of `total` bytes get along.  A data PDU has a
length of 24 bits, and the initiator does not answer an R2T for a part of the write that begins at 0
and fits in one data PDU. -/
structure Fits (p : SessParams) (total : Nat) : Prop where
  total_lt : total < 2147483648
  firstBurst_lt : p.firstBurstLength < 4294967296
  maxBurst_ne : p.maxBurstLength ≠ 0
  segment_lt : if p.maxDataSegLength = 0 then total < 2 ^ 24 else p.maxDataSegLength < 2 ^ 24
  whole : p.initialR2t = true → Initiator.immediateLength p true total = 0 →
    total ≤ p.maxBurstLength ∨ 0 < p.maxDataSegLength ∧ p.maxDataSegLength < p.maxBurstLength

/-- The write `q` of the initiator, as the initiator is about to send it, and as the device of the
target is about to begin with it.  Some of its data do not go with the command. -/
structure Begins (c id k : Nat) (mem : Memory) (p : SessParams) (q : Initiator.ScsiCmd)
    (sg : List Iov) (s : Initiator.Session) (t : Local) : Prop where
  scsi : (s.books.mem c).body = .scsi q
  tag : (s.books.mem c).tag = q.pdu.tag
  todev : q.pdu.todev = true
  buffers : q.sendList = some sg
  total : iovTotal sg = q.pdu.transLen
  few : sg.length ≤ Initiator.configInitiatorMaxSg
  params : s.vars.sessParams = p
  online : s.Online
  more : Initiator.immediateLength p true q.pdu.transLen < q.pdu.transLen
  awaits : Awaits id k p q.pdu.tag (payload mem sg) 0 t
  outward : (t.slot.pool.cmdMem k).scsiCmd.todev = true
  length : (t.slot.pool.cmdMem k).scsiCmd.length =
    Initiator.immediateLength p true q.pdu.transLen
  immediate : (t.slot.pool.cmdMem k).immediate =
    (payload mem sg).take (Initiator.immediateLength p true q.pdu.transLen)
  notAsked : (t.slot.pool.cmdMem k).r2tFlag = false

/-- The initiator has sent the command with its unsolicited data, and the device has begun. -/
structure Opens (c id k : Nat) (mem : Memory) (s : Initiator.Session) (t : Local)
    (l : Link) : Prop where
  command : Initiator.scsiCommandI c s = .ret true l.ini
  begun : Disk.prepareTransfer id k t = .ret 0 l.tgt
  data : l.data = (l.ini.sent.drop s.sent.length).filterMap (dataPdu mem)
  asks : l.asks = (l.tgt.slot.conn.sent.drop t.slot.conn.sent.length).filterMap r2tPdu
  failed : l.failed = false

/-! ## The invariant -/

/-- A data PDU carries its part of the data `bs`, within the limits. -/
structure Carried (p : SessParams) (itt : UInt32) (bs : Bytes) (x : WriteData × Bytes) : Prop where
  tag : x.1.tag = itt
  pos : 0 < x.1.length
  le : x.1.offset + x.1.length ≤ bs.length
  limit : p.maxDataSegLength = 0 ∨ x.1.length ≤ p.maxDataSegLength
  final : x.1.offset + x.1.length = bs.length → x.1.final = true
  bytes : x.2 = (bs.drop x.1.offset).take x.1.length

/-- An R2T can be answered out of the buffers `sg`. -/
structure Askable (p : SessParams) (itt : UInt32) (sg : List Iov) (r : R2t) : Prop where
  tag : r.tag = itt
  format : r.InFormat
  pos : 0 < r.length.toNat
  sendable : Initiator.R2t.Sendable r sg p.maxDataSegLength r.length.toNat 0

/-- Who is to see to the bytes from `b` on, when `n` bytes have been placed: the R2Ts on their way
ask for all of them, or the target will, at the end of the first burst. -/
inductive Course (p : SessParams) (total b n : Nat) (flag : Bool)
    (asks : List (Nat × Nat)) : Prop where
  | asked (h : Tiles b asks total) (hflag : n < total → flag = true ∨ p.initialR2t = true ∨
      p.firstBurstLength = 0 ∨ total ≤ p.firstBurstLength)
  | burst (hasks : asks = []) (hb : b = p.firstBurstLength) (hlt : b < total) (hn : n < b)
    (hr2t : p.initialR2t = false) (hflag : flag = false)

/-- Of the write `q` with the data in `sg`, `b` bytes have been sent since `s`, and `n` of them have
been placed. -/
structure Sound (c id k : Nat) (mem : Memory) (p : SessParams) (q : Initiator.ScsiCmd)
    (sg : List Iov) (s : Initiator.Session) (b n : Nat) (l : Link) : Prop where
  holds : Initiator.Holds c p q b l.ini
  taken : n < q.pdu.transLen → Awaits id k p q.pdu.tag (payload mem sg) n l.tgt ∧
    (l.tgt.slot.pool.cmdMem k).ready = true
  delivered : n = q.pdu.transLen → Delivered id k (payload mem sg) l.tgt
  data : Tiles n (l.data.map fun x => Initiator.piece x.1) b
  carried : ∀ x ∈ l.data, Carried p q.pdu.tag (payload mem sg) x
  course : Course p q.pdu.transLen b n (l.tgt.slot.pool.cmdMem k).r2tFlag (l.asks.map Disk.piece)
  askable : ∀ r ∈ l.asks, Askable p q.pdu.tag sg r
  history : ∃ pdus, l.ini.sent = s.sent ++ pdus ∧
    Tiles (Initiator.immediateLength p true q.pdu.transLen)
      ((pdus.filterMap (dataPdu mem)).map fun x => Initiator.piece x.1) b
  failed : l.failed = false

section Parts

variable {sg : List Iov} {ds : List WriteData} {pdus : List Initiator.OutPdu}

theorem length_payload (mem : Memory) (sg : List Iov) : (payload mem sg).length = iovTotal sg := by
  rw [payload, List.length_map, length_iovCells]

/-- What the PDUs carry is the part of the data that their headers say. -/
theorem filterMap_dataPdu (mem : Memory) (h : Initiator.Carries sg ds pdus) :
    pdus.filterMap (dataPdu mem) =
      ds.map fun d => (d, ((payload mem sg).drop d.offset).take d.length) := by
  induction h with
  | nil => rfl
  | @cons d _ _ _ hd _ ih =>
    obtain ⟨part, rfl, hcells⟩ := hd
    have hpart : payload mem part = ((payload mem sg).drop d.offset).take d.length := by
      rw [payload, hcells, List.map_take, List.map_drop]
      rfl
    rw [List.filterMap_cons_some (show dataPdu mem (.writeData d part) = some (d, payload mem part)
      from rfl), hpart, ih, List.map_cons]

/-- The R2Ts that have been sent. -/
theorem asks_of_requests {itt : UInt32} {rs : List R2t} {t t' : Local} (h : Requests itt rs t t') :
    (t'.slot.conn.sent.drop t.slot.conn.sent.length).filterMap r2tPdu = rs := by
  rw [h.1, List.drop_left, List.filterMap_map]
  exact List.filterMap_some

/-- The last data PDU of an answer is final. -/
theorem final_of_last {a stop : Nat} (h : Tiles a (ds.map Initiator.piece) stop)
    (hpos : ∀ d ∈ ds, 0 < d.length) (hfinal : Initiator.FinalLast ds) :
    ∀ d ∈ ds, d.offset + d.length = stop → d.final = true := by
  induction ds generalizing a with
  | nil => simp
  | cons d ds ih =>
    obtain ⟨hd, hpos⟩ := List.forall_mem_cons.mp hpos
    cases h with
    | cons h =>
      refine List.forall_mem_cons.mpr ⟨fun hstop => hfinal.1.mpr ?_, ih h hpos hfinal.2⟩
      cases ds with
      | nil => rfl
      | cons d' ds =>
        have hsum := h.sum_eq
        have := hpos d' List.mem_cons_self
        simp only [List.map_cons, List.sum_cons, Initiator.piece] at hsum
        omega

end Parts

/-! ## One step -/

section Steps

variable {mem : Memory} {c id k : Nat} {p : SessParams} {q : Initiator.ScsiCmd} {sg : List Iov}
  {s : Initiator.Session} {b n : Nat} {l : Link}

/-- What goes into a header comes out of it. -/
theorem decap_writeData {d : WriteData} (hd : d.InFormat) :
    iscsiWriteDataDecap ((iscsiWriteDataEncap zeroHeader d).take iscsiHeaderLen) = (0, d) :=
  writeData_roundTrip.header zeroHeader d hd

theorem opcode_writeData {d : WriteData} (hd : d.InFormat) :
    iscsiOpcode ((iscsiWriteDataEncap zeroHeader d).take iscsiHeaderLen) = opWriteData := by
  have h := congrArg Prod.fst (decap_writeData hd)
  by_contra hne
  simp [iscsiWriteDataDecap, firstFailure, hne] at h

/-- Segments have lengths of 24 bits. -/
theorem Fits.length_lt (hf : Fits p q.pdu.transLen) {n : Nat} (hn : n ≤ q.pdu.transLen)
    (hlimit : p.maxDataSegLength = 0 ∨ n ≤ p.maxDataSegLength) : n < 2 ^ 24 := by
  have h := hf.segment_lt
  split at h <;> omega

/-- An R2T inside the write can be answered, unless it begins at 0 and is not the whole write. -/
theorem Fits.askable (hf : Fits p q.pdu.transLen)
    (hfew : sg.length ≤ Initiator.configInitiatorMaxSg) (htotal : iovTotal sg = q.pdu.transLen)
    {itt : UInt32} {r : R2t} (htag : r.tag = itt)
    (hformat : r.InFormat) (hpos : 0 < r.length.toNat)
    (hle : r.offset.toNat + r.length.toNat ≤ q.pdu.transLen)
    (hwhole : r.offset = 0 → p.maxDataSegLength = 0 ∨ r.length.toNat ≤ p.maxDataSegLength →
      r.length.toNat = q.pdu.transLen) : Askable p itt sg r := by
  have hlt := hf.total_lt
  refine ⟨htag, hformat, hpos, fun h0 hone => (hwhole h0 hone).trans htotal.symm, fun _ => hfew,
    fun x hx => ?_⟩
  have hin := (@tiles_segments p.maxDataSegLength _ _ _ (Nat.le_add_right r.offset.toNat
    r.length.toNat) le_rfl).mem_bounds x hx
  have hshort := hf.length_lt (n := x.2) (by omega) (segments_le_limit _ _ x hx)
  have hmax : 2 ^ 24 < Initiator.sockMsgMax := by decide
  have := displacement_le x.1 sg
  omega

/-- The initiator answers the next R2T. -/
theorem answer_sound (hf : Fits p q.pdu.transLen) (hsg : q.sendList = some sg)
    (htotal : iovTotal sg = q.pdu.transLen) (hs : Sound c id k mem p q sg s b n l) :
    ∃ l' b', Link.answer mem c l = .ret ⟨⟩ l' ∧ Sound c id k mem p q sg s b' n l' ∧
      (l.asks ≠ [] → b < b') := by
  obtain ⟨hholds, htaken, hdelivered, hdata, hcarried, hcourse, haskable, hhistory, hfailed⟩ := hs
  cases hasks : l.asks with
  | nil =>
    refine ⟨l, b, by simp only [Link.answer, hasks], ⟨hholds, htaken, hdelivered, hdata, hcarried,
      hcourse, haskable, hhistory, hfailed⟩, fun hne => absurd rfl hne⟩
  | cons r asks =>
    rw [hasks] at hcourse haskable
    obtain ⟨⟨htag, hformat, hpos, hsend⟩, haskable⟩ := List.forall_mem_cons.mp haskable
    cases hcourse with
    | burst hnil => exact absurd hnil (List.cons_ne_nil _ _)
    | asked htiles hflag =>
      obtain ⟨hoff, htiles⟩ : r.offset.toNat = b ∧
          Tiles (b + r.length.toNat) (asks.map Disk.piece) q.pdu.transLen := by
        cases htiles with
        | cons h => exact ⟨rfl, h⟩
      have hle := htiles.le
      have hlt := hf.total_lt
      have hr2t : (iscsiR2tDecap ((iscsiR2tEncap zeroHeader r).take iscsiHeaderLen)).2 = r :=
        congrArg Prod.snd (r2t_roundTrip.header zeroHeader r hformat)
      have hself : ((l.ini.setCmd c { l.ini.books.mem c with r2t := r }).books.mem c).r2t = r :=
        by simp [Initiator.Session.setCmd, Initiator.Session.setBooks]
      obtain ⟨ok, ini, hret, rfl, hholds', ds, pdus, hsent, hcarry, hpieces, hfinal, htags⟩ :=
        ((hholds.setR2t r).answers hself hsg hpos (by omega) (by omega) (by omega) hsend).returns
      have hsent : ini.sent = l.ini.sent ++ pdus := hsent
      have hnew : Tiles b (ds.map Initiator.piece) (b + r.length.toNat) := by
        rw [hpieces, ← hoff]
        exact tiles_segments (Nat.le_add_right _ _) le_rfl
      have hblocks := filterMap_dataPdu mem hcarry
      have hfst : (pdus.filterMap (dataPdu mem)).map (fun x => Initiator.piece x.1) =
          ds.map Initiator.piece := by
        rw [hblocks, List.map_map]
        rfl
      have hmem : ∀ d ∈ ds, Initiator.piece d ∈ Initiator.R2t.segments r p.maxDataSegLength
          r.length.toNat 0 := fun d hd => hpieces ▸ List.mem_map_of_mem hd
      have hdpos : ∀ d ∈ ds, 0 < d.length := fun d hd => segments_pos _ _ _ (hmem d hd)
      have hcarried' : ∀ x ∈ pdus.filterMap (dataPdu mem),
          Carried p q.pdu.tag (payload mem sg) x := by
        intro x hx
        rw [hblocks] at hx
        obtain ⟨d, hd, rfl⟩ := List.mem_map.mp hx
        have hin : d.offset + d.length ≤ b + r.length.toNat :=
          (hnew.mem_bounds _ (List.mem_map_of_mem hd)).2
        refine ⟨(htags d hd).trans htag, hdpos d hd, ?_,
          segments_le_limit _ _ _ (hmem d hd), ?_, rfl⟩
        · rw [length_payload, htotal]
          exact hin.trans hle
        · rw [length_payload, htotal]
          exact fun hend => final_of_last hnew hdpos hfinal d hd (by dsimp only at hend; omega)
      have hrun : Link.answer mem c l = l.answered mem asks (.ret true ini) := by
        rw [← hret, Link.answer, hasks]
        dsimp only
        rw [hr2t]
      refine ⟨_, b + r.length.toNat, hrun, ?_, fun _ => by omega⟩
      have hdrop : ini.sent.drop l.ini.sent.length = pdus := by rw [hsent, List.drop_left]
      refine ⟨hholds', htaken, hdelivered, ?_, ?_, .asked htiles hflag, haskable, ?_, ?_⟩
      · simp only [hdrop, List.map_append, hfst]
        exact hdata.append hnew
      · simp only [hdrop]
        exact fun x hx => (List.mem_append.mp hx).elim (hcarried x) (hcarried' x)
      · obtain ⟨pdus₀, hsent₀, htiles₀⟩ := hhistory
        refine ⟨pdus₀ ++ pdus, by rw [hsent, hsent₀, List.append_assoc], ?_⟩
        rw [List.filterMap_append, List.map_append, hfst]
        exact htiles₀.append hnew
      · simp [hfailed]

theorem length_padded (bs : Bytes) : (padded bs).length = pad4 bs.length := by
  have := le_pad4 bs.length
  rw [padded, List.length_append, List.length_replicate]
  omega

/-- Data that have come in change nothing that the command waits for. -/
theorem receives_awaits {itt : UInt32} {bs : Bytes} {t : Local} (ha : Awaits id k p itt bs n t)
    (rx : Bytes) : Awaits id k p itt bs n (t.setConn { t.slot.conn with rx }) :=
  ⟨ha.tag, ha.transLen, ha.count, ha.lun, ha.buffer, ha.found, ha.login, ha.conn, ha.device⟩

/-- The data of a PDU are as long as its header says. -/
theorem Carried.length_bytes {itt : UInt32} {bs ys : Bytes} {d : WriteData}
    (hx : Carried p itt bs (d, ys)) : ys.length = d.length := by
  have hbytes : ys = (bs.drop d.offset).take d.length := hx.bytes
  have hle : d.offset + d.length ≤ bs.length := hx.le
  rw [hbytes, List.length_take, List.length_drop]
  omega

/-- The PDU brings its part of the data to the target. -/
theorem Carried.arrives {itt : UInt32} {bs ys : Bytes} {d : WriteData}
    (hx : Carried p itt bs (d, ys)) (t : Local) :
    Arrives bs d.offset d (t.setConn { t.slot.conn with rx := padded ys }) := by
  refine ⟨rfl, hx.pos, hx.le, ?_, ?_⟩
  · exact (by rw [length_padded, hx.length_bytes] : pad4 d.length = (padded ys).length).le
  · have htake : (padded ys).take d.length = ys := List.take_left' hx.length_bytes
    exact htake.trans hx.bytes

section Courses

variable {total m : Nat} {flag : Bool} {pieces : List (Nat × Nat)}

/-- A PDU that does not end the burst leaves the course as it is. -/
theorem Course.waits (h : Course p total b n flag pieces) (hn : n < total)
    (hburst : ¬EndsBurst p m flag) : Course p total b m flag pieces := by
  cases h with
  | asked ht hfl => exact .asked ht fun _ => hfl hn
  | burst hnil hb hlt hn' hr2t hfl =>
    refine .burst hnil hb hlt ?_ hr2t hfl
    have hnot : ¬p.firstBurstLength ≤ m := fun hge => hburst ⟨hfl, hr2t, by omega, hge⟩
    omega

/-- A PDU that ends the burst is the last one on its way, and no R2T is. -/
theorem Course.ends (h : Course p total b n flag pieces) (hn : n < total) (hle : m ≤ b)
    (hlt : m < total) (hburst : EndsBurst p m flag) : m = b ∧ pieces = [] := by
  obtain ⟨hf, hr2t, hne, hge⟩ := hburst
  cases h with
  | asked _ hfl =>
    rcases hfl hn with h | h | h | h
    · rw [hf] at h
      cases h
    · rw [hr2t] at h
      cases h
    · exact absurd h hne
    · omega
  | burst hnil hb => exact ⟨by omega, hnil⟩

/-- After the last byte nobody has to ask. -/
theorem Course.finished (h : Course p total b n flag pieces) (hb : total ≤ b) (flag' : Bool) :
    Course p total b total flag' pieces := by
  cases h with
  | asked ht => exact .asked ht fun hlt => absurd hlt (lt_irrefl _)
  | burst _ _ hlt => exact absurd hlt (by omega)

end Courses

/-- The R2T for all that is missing can be answered. -/
theorem Fits.rest_askable (hf : Fits p q.pdu.transLen)
    (hfew : sg.length ≤ Initiator.configInitiatorMaxSg) (htotal : iovTotal sg = q.pdu.transLen)
    {r : R2t} (hr : r.tag = q.pdu.tag ∧ r.InFormat) (hpos : 0 < b) (hlt : b < q.pdu.transLen)
    (hpiece : Disk.piece r = (b, q.pdu.transLen - b)) : Askable p q.pdu.tag sg r := by
  obtain ⟨hroff, hrlen⟩ := Prod.mk.inj hpiece
  refine hf.askable hfew htotal hr.1 hr.2 (by omega) (by omega) fun h0 => ?_
  rw [h0] at hroff
  exact absurd (show 0 = b from hroff) hpos.ne

/-- The target takes the next data PDU. -/
theorem deliver_sound (env : Env) (h : Nat) (hf : Fits p q.pdu.transLen)
    (htotal : iovTotal sg = q.pdu.transLen) (hfew : sg.length ≤ Initiator.configInitiatorMaxSg)
    (hs : Sound c id k mem p q sg s b n l) :
    ∃ l' n', Link.deliver env id h l = .ret ⟨⟩ l' ∧ Sound c id k mem p q sg s b n' l' ∧
      (l.data ≠ [] → n < n') := by
  obtain ⟨hholds, htaken, hdelivered, hdata, hcarried, hcourse, haskable, hhistory, hfailed⟩ := hs
  cases hl : l.data with
  | nil =>
    refine ⟨l, n, by simp only [Link.deliver, hl], ⟨hholds, htaken, hdelivered, hdata, hcarried,
      hcourse, haskable, hhistory, hfailed⟩, fun hne => absurd rfl hne⟩
  | cons x data =>
    obtain ⟨d, bs⟩ := x
    rw [hl] at hdata hcarried
    obtain ⟨hx, hcarried⟩ := List.forall_mem_cons.mp hcarried
    obtain ⟨rfl, htiles⟩ : d.offset = n ∧
        Tiles (n + d.length) (data.map fun x => Initiator.piece x.1) b := by
      cases hdata with
      | cons h => exact ⟨rfl, h⟩
    have hlen : (payload mem sg).length = q.pdu.transLen := (length_payload mem sg).trans htotal
    have hlt := hf.total_lt
    have hpos : 0 < d.length := hx.pos
    have hle : d.offset + d.length ≤ q.pdu.transLen := hlen ▸ hx.le
    have hb := htiles.le
    have hn : d.offset < q.pdu.transLen := by omega
    obtain ⟨hawaits, hready⟩ := htaken hn
    have hformat : d.InFormat := ⟨hf.length_lt (by omega) hx.limit, by omega⟩
    set t := l.tgt.setConn { l.tgt.slot.conn with rx := padded bs } with ht
    obtain ⟨rc, tgt, hret, rfl, htook⟩ := (Target.executeT_awaits env h
      (receives_awaits hawaits (padded bs)) hready (opcode_writeData hformat)
      (decap_writeData hformat) (hx.arrives l.tgt) hx.tag hx.limit hx.final (by omega)).returns
    have hflag : (t.slot.pool.cmdMem k).r2tFlag = (l.tgt.slot.pool.cmdMem k).r2tFlag := rfl
    have hrun : Link.deliver env id h l = l.delivered data (.ret (some 0) tgt) := by
      rw [← hret, Link.deliver, hl]
    have hnew {rs : List R2t} (hreq : Requests q.pdu.tag rs t tgt) :
        (tgt.slot.conn.sent.drop l.tgt.slot.conn.sent.length).filterMap r2tPdu = rs :=
      asks_of_requests hreq
    refine ⟨_, d.offset + d.length, hrun, ?_, fun _ => by omega⟩
    cases htook with
    | finished hend hdel hreq =>
      rw [hlen] at hend
      refine ⟨hholds, fun hlt => absurd hlt (by omega), fun _ => hdel, htiles, hcarried, ?_, ?_,
        hhistory, by simp [hfailed]⟩
      · simp only [hnew hreq, List.append_nil]
        rw [hend]
        exact hcourse.finished (hend ▸ hb) _
      · simp only [hnew hreq, List.append_nil]
        exact haskable
    | waits hlt' hburst hw hr hfl hreq =>
      refine ⟨hholds, fun _ => ⟨hw, hr⟩, fun heq => absurd heq (by omega), htiles, hcarried, ?_, ?_,
        hhistory, by simp [hfailed]⟩
      · simp only [hnew hreq, List.append_nil]
        rw [hfl]
        exact hcourse.waits hn hburst
      · simp only [hnew hreq, List.append_nil]
        exact haskable
    | @asks hlt' hburst hw hr hfl r hreq hpiece =>
      rw [hlen] at hlt' hpiece
      obtain ⟨hburstEnd, hnil⟩ := hcourse.ends hn hb hlt' hburst
      have hasks : l.asks = [] := List.map_eq_nil_iff.mp hnil
      have hrest := hf.rest_askable hfew htotal (hreq.2 r List.mem_cons_self) (by omega) hlt' hpiece
      refine ⟨hholds, fun _ => ⟨hw, hr⟩, fun heq => absurd heq (by omega), htiles, hcarried, ?_, ?_,
        hhistory, by simp [hfailed]⟩
      · simp only [hnew hreq, hasks, List.nil_append, List.map_cons, List.map_nil, hpiece]
        rw [← hburstEnd]
        refine .asked ?_ fun _ => .inl hfl
        have hone := Tiles.cons (.nil (d.offset + d.length +
          (q.pdu.transLen - (d.offset + d.length))))
        rwa [Nat.add_sub_cancel' hlt'.le] at hone
      · simp only [hnew hreq, hasks, List.nil_append]
        exact fun x hx => (List.mem_singleton.mp hx) ▸ hrest

/-! ## The beginning -/

/-- The target asks first just when nothing is sent unasked behind the immediate data. -/
theorem unasked_of_asksFirst {total : Nat}
    (h : AsksFirst p (Initiator.immediateLength p true total)) :
    Initiator.unasked p total = Initiator.immediateLength p true total := by
  refine if_neg ?_
  rintro ⟨hr2t, hlt⟩
  rcases h with h | ⟨hne, hle⟩
  · rw [hr2t] at h
    cases h
  · rw [Initiator.burstEnd, if_neg hne] at hlt
    omega

/-- Otherwise the first burst is. -/
theorem unasked_of_not_asksFirst {total : Nat}
    (h : ¬AsksFirst p (Initiator.immediateLength p true total))
    (hlt : Initiator.immediateLength p true total < total) :
    p.initialR2t = false ∧ Initiator.unasked p total = Initiator.burstEnd p total ∧
      (p.firstBurstLength = 0 ∨ Initiator.immediateLength p true total < p.firstBurstLength) := by
  obtain ⟨hr2t, hfirst⟩ := not_or.mp h
  have hr2t : p.initialR2t = false := by simpa using hr2t
  have hfirst : p.firstBurstLength = 0 ∨
      Initiator.immediateLength p true total < p.firstBurstLength := by
    by_cases h0 : p.firstBurstLength = 0
    · exact .inl h0
    · exact .inr (Nat.lt_of_not_le fun hle => hfirst ⟨h0, hle⟩)
  refine ⟨hr2t, if_pos ⟨hr2t, ?_⟩, hfirst⟩
  rw [Initiator.burstEnd]
  split <;> omega

/-- The R2Ts with which the target begins. -/
theorem first_askable (hf : Fits p q.pdu.transLen)
    (hfew : sg.length ≤ Initiator.configInitiatorMaxSg) (htotal : iovTotal sg = q.pdu.transLen)
    {itt : UInt32} {rs : List R2t} {fuel : Nat}
    (hfirst : AsksFirst p (Initiator.immediateLength p true q.pdu.transLen))
    (hlt : Initiator.immediateLength p true q.pdu.transLen < q.pdu.transLen)
    (hrs : ∀ r ∈ rs, r.tag = itt ∧ r.InFormat)
    (hfuel : q.pdu.transLen ≤ Initiator.immediateLength p true q.pdu.transLen + fuel)
    (hpieces : rs.map Disk.piece = segments p.maxBurstLength q.pdu.transLen fuel
      (Initiator.immediateLength p true q.pdu.transLen)) :
    ∀ r ∈ rs, Askable p itt sg r := by
  intro r hr
  have hmem : Disk.piece r ∈ segments p.maxBurstLength q.pdu.transLen fuel
      (Initiator.immediateLength p true q.pdu.transLen) := hpieces ▸ List.mem_map_of_mem hr
  have hin := (@tiles_segments p.maxBurstLength _ _ _ hlt.le hfuel).mem_bounds _ hmem
  refine hf.askable hfew htotal (hrs r hr).1 (hrs r hr).2 (segments_pos _ _ _ hmem) hin.2
    fun h0 hone => ?_
  have hoff : r.offset.toNat = 0 := by rw [h0]; rfl
  have himm : Initiator.immediateLength p true q.pdu.transLen = 0 :=
    Nat.le_zero.mp (hin.1.trans_eq hoff)
  have hr2t : p.initialR2t = true := hfirst.elim id fun h => absurd h.2 (by omega)
  have hlen : r.length.toNat = segmentLength p.maxBurstLength q.pdu.transLen 0 := by
    rw [himm] at hmem hlt
    exact segments_first hlt hmem hoff
  have hne := hf.maxBurst_ne
  rw [segmentLength, if_neg hne] at hlen
  have := hf.whole hr2t himm
  omega

/-- When the initiator has sent the command, and the device has begun, the invariant holds. -/
theorem opens_sound {t : Local} (hf : Fits p q.pdu.transLen)
    (hb : Begins c id k mem p q sg s t) (ho : Opens c id k mem s t l) :
    Sound c id k mem p q sg s (Initiator.unasked p q.pdu.transLen)
      (Initiator.immediateLength p true q.pdu.transLen) l := by
  obtain ⟨hscsi, htag, htodev, hbuffers, htotal, hfew, hparams, honline, hmore, hawaits, houtward,
    hlength, himmediate, hnot⟩ := hb
  obtain ⟨hcommand, hbegun, hdata, hasks, hfailed⟩ := ho
  have hlen : (payload mem sg).length = q.pdu.transLen := (length_payload mem sg).trans htotal
  have hlt := hf.total_lt
  obtain ⟨cmd, part, ds, pdus, hsent, hholds, htags⟩ := Initiator.scsiCommandI_holds hparams hscsi
    htag htodev hbuffers (by omega) hf.firstBurst_lt honline hcommand
  obtain ⟨hcarry, htiles, hds⟩ := hsent.unsolicited htotal hlt
  rw [hsent.length] at htiles
  have hblocks := filterMap_dataPdu mem hcarry
  have hnew : (Initiator.OutPdu.scsi cmd part :: pdus).filterMap (dataPdu mem) =
      ds.map fun d => (d, ((payload mem sg).drop d.offset).take d.length) :=
    (List.filterMap_cons_none rfl).trans hblocks
  have hdrop : l.ini.sent.drop s.sent.length = .scsi cmd part :: pdus := by
    rw [hsent.sent, List.drop_left]
  have hpieces : (ds.map fun d => (d, ((payload mem sg).drop d.offset).take d.length)).map
      (fun x => Initiator.piece x.1) = ds.map Initiator.piece := by
    rw [List.map_map]
    rfl
  have hle : Initiator.unasked p q.pdu.transLen ≤ q.pdu.transLen := by
    rw [Initiator.unasked]
    split
    · rw [Initiator.burstEnd]
      split <;> omega
    · exact hmore.le
  obtain ⟨-, hw, hready, rs, hreq, hcases⟩ :=
    (Target.prepareTransfer_awaits hawaits houtward hlength himmediate (hlen ▸ hmore)
    (hlen ▸ hlt) hf.maxBurst_ne).of_ret hbegun
  have hrs : l.asks = rs := hasks.trans (asks_of_requests hreq)
  rw [hlen] at hcases
  refine ⟨hholds, fun _ => ⟨hw, hready⟩, fun heq => absurd heq (Nat.ne_of_lt hmore), ?_, ?_, ?_, ?_,
    ⟨_, hsent.sent, ?_⟩, hfailed⟩
  · rw [hdata, hdrop, hnew, hpieces]
    exact htiles
  · rw [hdata, hdrop, hnew]
    intro x hx
    obtain ⟨d, hd, rfl⟩ := List.mem_map.mp hx
    obtain ⟨hpos, hlimit, hfinal⟩ := hds d hd
    have hin := (htiles.mem_bounds _ (List.mem_map_of_mem hd)).2
    exact ⟨htags d hd, hpos, hlen ▸ hin.trans hle, hlimit, hlen ▸ hfinal, rfl⟩
  · rw [hrs]
    rcases hcases with ⟨hfirst, hflag, fuel, hfuel, hsegs⟩ | ⟨hfirst, rfl, hflag⟩
    · rw [unasked_of_asksFirst hfirst, hsegs]
      exact .asked (tiles_segments hmore.le hfuel) fun _ => .inl hflag
    · obtain ⟨hr2t, hunasked, hburst⟩ := unasked_of_not_asksFirst hfirst hmore
      rw [hunasked, Initiator.burstEnd, hflag, hnot]
      by_cases h0 : p.firstBurstLength = 0
      · rw [if_pos h0]
        exact .asked (.nil _) fun _ => .inr (.inr (.inl h0))
      · rw [if_neg h0]
        rcases Nat.lt_or_ge p.firstBurstLength q.pdu.transLen with hshort | hlong
        · rw [Nat.min_eq_left hshort.le]
          exact .burst rfl rfl hshort (hburst.resolve_left h0) hr2t rfl
        · rw [Nat.min_eq_right hlong]
          exact .asked (.nil _) fun _ => .inr (.inr (.inr hlong))
  · rw [hrs]
    rcases hcases with ⟨hfirst, -, fuel, hfuel, hsegs⟩ | ⟨-, rfl, -⟩
    · exact first_askable hf hfew htotal hfirst hmore hreq.2 hfuel hsegs
    · simp
  · rw [hnew, hpieces]
    exact htiles

end Steps

/-! ## Whole runs -/

/-- The parts of the write that have been sent in data PDUs since `s`. -/
def Link.pieces (mem : Memory) (s : Initiator.Session) (l : Link) : List (Nat × Nat) :=
  ((l.ini.sent.drop s.sent.length).filterMap (dataPdu mem)).map fun x => Initiator.piece x.1

/-- Every byte of the write has been sent once and counted on both sides, the target has all data in
its buffer, and the device knows. -/
structure Link.Completed (c id k : Nat) (mem : Memory) (p : SessParams) (q : Initiator.ScsiCmd)
    (sg : List Iov) (s : Initiator.Session) (l : Link) : Prop where
  sent : Tiles 0 ((0, Initiator.immediateLength p true q.pdu.transLen) :: l.pieces mem s)
    q.pdu.transLen
  counted : ∃ q', (l.ini.books.mem c).body = .scsi q' ∧ q'.bytesTodev = q.pdu.transLen
  delivered : Delivered id k (payload mem sg) l.tgt

section Runs

variable {env : Env} {mem : Memory} {c id k h : Nat} {p : SessParams} {q : Initiator.ScsiCmd}
  {sg : List Iov} {s : Initiator.Session} {t : Local} {b n : Nat} {l l₀ : Link}

/-- One of the two goes on, and the invariant holds still. -/
theorem next_sound (env : Env) (h : Nat) (hf : Fits p q.pdu.transLen)
    (hb : Begins c id k mem p q sg s t) (e : Party) (hs : Sound c id k mem p q sg s b n l) :
    ∃ l' b' n', Link.next env mem c id h e l = .ret ⟨⟩ l' ∧
      Sound c id k mem p q sg s b' n' l' := by
  cases e with
  | initiator =>
    obtain ⟨l', b', hret, hs', -⟩ := answer_sound hf hb.buffers hb.total hs
    exact ⟨l', b', n, hret, hs'⟩
  | target =>
    obtain ⟨l', n', hret, hs', -⟩ := deliver_sound env h hf hb.total hb.few hs
    exact ⟨l', b, n', hret, hs'⟩

/-- The invariant of all runs. -/
theorem reach_sound (hf : Fits p q.pdu.transLen) (hb : Begins c id k mem p q sg s t)
    (ho : Opens c id k mem s t l₀)
    (hl : Reach (Link.next env mem c id h) (fun _ _ => True) l₀ l) :
    ∃ b n, Sound c id k mem p q sg s b n l := by
  refine hl.invariant (P := fun l => ∃ b n, Sound c id k mem p q sg s b n l)
    ⟨_, _, opens_sound hf hb ho⟩ fun l e hs _ => ?_
  obtain ⟨b, n, hs⟩ := hs
  obtain ⟨l', b', n', hret, hs'⟩ := next_sound env h hf hb e hs
  exact ensures_of_ret hret ⟨b', n', hs'⟩

/-- What has been sent tiles the beginning of the write. -/
theorem Sound.tiles (hs : Sound c id k mem p q sg s b n l) :
    Tiles 0 ((0, Initiator.immediateLength p true q.pdu.transLen) :: l.pieces mem s) b := by
  obtain ⟨pdus, hsent, htiles⟩ := hs.history
  have hpieces : l.pieces mem s =
      (pdus.filterMap (dataPdu mem)).map fun x => Initiator.piece x.1 := by
    rw [Link.pieces, hsent, List.drop_left]
  rw [hpieces]
  exact .cons (Nat.zero_add _ ▸ htiles)

theorem Sound.le (hs : Sound c id k mem p q sg s b n l) : b ≤ q.pdu.transLen := by
  cases hs.course with
  | asked htiles _ => exact htiles.le
  | burst _ _ hlt _ _ _ => exact hlt.le

/-- When nothing is on its way, the write is complete. -/
theorem Sound.completed (hs : Sound c id k mem p q sg s b n l) (hasks : l.asks = [])
    (hdata : l.data = []) : Link.Completed c id k mem p q sg s l := by
  have hn : n = b := by
    have hnil : Tiles n [] b := by simpa [hdata] using hs.data
    exact hnil.sum_eq
  have hb : b = q.pdu.transLen := by
    cases hs.course with
    | asked htiles _ =>
      have hnil : Tiles b [] q.pdu.transLen := by simpa [hasks] using htiles
      exact hnil.sum_eq
    | burst _ _ _ hlt _ _ => omega
  obtain ⟨-, -, -, q', hq', -, hcount⟩ := hs.holds
  exact ⟨hb ▸ hs.tiles, ⟨q', hq', hcount.trans hb⟩, hs.delivered (hn.trans hb)⟩

/-- From every state of a run the two ends can go on until the write is complete. -/
theorem Sound.completes (hf : Fits p q.pdu.transLen) (hb : Begins c id k mem p q sg s t)
    (hs : Sound c id k mem p q sg s b n l) :
    ∃ l', Reach (Link.next env mem c id h) (fun _ _ => True) l l' ∧
      Link.Completed c id k mem p q sg s l' := by
  -- Each answer sends bytes, and each data PDU places some.
  induction hm : (q.pdu.transLen - b) + (q.pdu.transLen - n) using Nat.strong_induction_on
    generalizing b n l with
  | _ m ih =>
    have hle := hs.le
    have hnb := hs.data.le
    by_cases hasks : l.asks = []
    · by_cases hdata : l.data = []
      · exact ⟨l, .refl, hs.completed hasks hdata⟩
      · obtain ⟨l', n', hret, hs', hlt⟩ := deliver_sound env h hf hb.total hb.few hs
        have hlt := hlt hdata
        have hnb' := hs'.data.le
        obtain ⟨l'', hreach, hdone⟩ := ih _ (by omega) hs' rfl
        exact ⟨l'', (Reach.tail (e := .target) .refl trivial hret).trans hreach, hdone⟩
    · obtain ⟨l', b', hret, hs', hlt⟩ := answer_sound hf hb.buffers hb.total hs
      have hlt := hlt hasks
      have hle' := hs'.le
      obtain ⟨l'', hreach, hdone⟩ := ih _ (by omega) hs' rfl
      exact ⟨l'', (Reach.tail (e := .initiator) .refl trivial hret).trans hreach, hdone⟩

/-- In every run of the two ends of a write whose parameters fit, nothing fails, whoever goes on; no
byte is sent twice; and when nothing is on its way, the write is complete. -/
theorem handshake_exact (hf : Fits p q.pdu.transLen) (hb : Begins c id k mem p q sg s t)
    (ho : Opens c id k mem s t l₀)
    (hl : Reach (Link.next env mem c id h) (fun _ _ => True) l₀ l) :
    l.failed = false ∧ (∀ e, ∃ l', Link.next env mem c id h e l = .ret ⟨⟩ l') ∧
      (∃ b ≤ q.pdu.transLen, Tiles 0
        ((0, Initiator.immediateLength p true q.pdu.transLen) :: l.pieces mem s) b) ∧
      (l.asks = [] → l.data = [] → Link.Completed c id k mem p q sg s l) := by
  obtain ⟨b, n, hs⟩ := reach_sound hf hb ho hl
  refine ⟨hs.failed, fun e => ?_, ⟨b, hs.le, hs.tiles⟩, hs.completed⟩
  obtain ⟨l', -, -, hret, -⟩ := next_sound env h hf hb e hs
  exact ⟨l', hret⟩

/-- The two ends of a write whose parameters fit can always complete it. -/
theorem handshake_completes (hf : Fits p q.pdu.transLen) (hb : Begins c id k mem p q sg s t)
    (ho : Opens c id k mem s t l₀)
    (hl : Reach (Link.next env mem c id h) (fun _ _ => True) l₀ l) :
    ∃ l', Reach (Link.next env mem c id h) (fun _ _ => True) l l' ∧
      Link.Completed c id k mem p q sg s l' := by
  obtain ⟨b, n, hs⟩ := reach_sound hf hb ho hl
  exact hs.completes hf hb

end Runs

/-! ## A small write -/

/-- The memory of an initiator: each byte is its own address. -/
def smallMem : Memory := fun _ i => UInt8.ofNat i

/-- The slot of a target that has taken a write of 16 bytes, with 8 bytes of immediate data, and the
device. -/
def smallTaken : Local :=
  { slot := { Target.Slot.fresh with
      phase := .running
      conn := { Target.Slot.fresh.conn with isOpen := true }
      login := { Target.Slot.fresh.login with
        loginStarted := true, isFullFeature := true, sessParams := Initiator.smallLimits }
      pool := { Target.Slot.fresh.pool with
        cmds := ((TagHash.init 1).insert 0 0).getD (TagHash.init 1)
        cmdMem := fun _ => { Target.TargetCmd.zero with
          scsiCmd := { Target.ScsiCmd.zero with todev := true, length := 8, transLen := 16 }
          immediate := [0, 1, 2, 3, 4, 5, 6, 7], scatterList := [⟨.media, 0, 16⟩] } } }
    dev := Target.Device.start Target.smallDisk (fun _ _ => 0) (-1) []
    nopFlag := false }

theorem fits_smallLimits : Fits Initiator.smallLimits 16 :=
  ⟨by decide, by decide, by decide, by decide, fun h => absurd h (by decide)⟩

theorem begins_small : ∃ q, Begins 1 0 0 smallMem Initiator.smallLimits q [⟨.staging 0, 0, 16⟩]
    (Initiator.smallBurst Initiator.smallLimits) smallTaken ∧ q.pdu.transLen = 16 := by
  refine ⟨_, ⟨rfl, rfl, rfl, rfl,
    rfl, by decide, rfl, by decide, by decide, ?_, rfl, rfl, rfl, rfl⟩, rfl⟩
  refine ⟨rfl, rfl, rfl, by decide, ⟨_, rfl, rfl, rfl⟩, ⟨by decide, by decide⟩, ⟨rfl, rfl, rfl⟩,
    ⟨rfl, rfl, by decide⟩, rfl, _, rfl⟩

theorem opens_small : ∃ l₀, Opens 1 0 0 smallMem (Initiator.smallBurst Initiator.smallLimits)
    smallTaken l₀ := by
  have hcommand : ∃ s', Initiator.scsiCommandI 1
      (Initiator.smallBurst Initiator.smallLimits) = .ret true s' := ⟨_, rfl⟩
  have hbegun : ∃ t', Disk.prepareTransfer 0 0 smallTaken = .ret 0 t' := ⟨_, rfl⟩
  obtain ⟨ini, hcommand⟩ := hcommand
  obtain ⟨tgt, hbegun⟩ := hbegun
  exact ⟨{ ini, tgt
           asks := (tgt.slot.conn.sent.drop smallTaken.slot.conn.sent.length).filterMap r2tPdu
           data := (ini.sent.drop
             (Initiator.smallBurst Initiator.smallLimits).sent.length).filterMap (dataPdu smallMem)
           failed := false }, hcommand, hbegun, rfl, rfl, rfl⟩

/-- With 8 bytes of immediate data and a first burst of 12 bytes, 4 bytes follow unasked, and the
target asks for the last 4. -/
theorem handshake_exact_small : ∃ q l₀, Opens 1 0 0 smallMem
    (Initiator.smallBurst Initiator.smallLimits) smallTaken l₀ ∧
    ∀ l, Reach (Link.next Target.smallEnv smallMem 1 0 0) (fun _ _ => True) l₀ l →
      l.failed = false ∧ (l.asks = [] → l.data = [] →
        Link.Completed 1 0 0 smallMem Initiator.smallLimits q [⟨.staging 0, 0, 16⟩]
          (Initiator.smallBurst Initiator.smallLimits) l) := by
  obtain ⟨q, hb, hq⟩ := begins_small
  obtain ⟨l₀, ho⟩ := opens_small
  refine ⟨q, l₀, ho, fun l hl => ?_⟩
  obtain ⟨hfailed, -, -, hdone⟩ := handshake_exact (hq ▸ fits_smallLimits) hb ho hl
  exact ⟨hfailed, hdone⟩

/-- This write can be completed. -/
theorem handshake_completes_small : ∃ q l₀ l, Opens 1 0 0 smallMem
    (Initiator.smallBurst Initiator.smallLimits) smallTaken l₀ ∧
    Reach (Link.next Target.smallEnv smallMem 1 0 0) (fun _ _ => True) l₀ l ∧
    Link.Completed 1 0 0 smallMem Initiator.smallLimits q [⟨.staging 0, 0, 16⟩]
      (Initiator.smallBurst Initiator.smallLimits) l := by
  obtain ⟨q, hb, hq⟩ := begins_small
  obtain ⟨l₀, ho⟩ := opens_small
  obtain ⟨l, hl, hdone⟩ := handshake_completes (hq ▸ fits_smallLimits) hb ho .refl
  exact ⟨q, l₀, l, ho, hl, hdone⟩

end Ost.Session
