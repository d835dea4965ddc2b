import Mathlib.Data.PNat.Basic
import Ost.Initiator.Receiving
import Ost.Session.Handshake
import Ost.Target.Reply

/-!
# A read among other traffic

The target answers a read with its data and then with a response, and these PDUs arrive one after
the other.  In between the initiator does all that it does besides: it submits, sends and completes
other commands, and its Rx worker gets other PDUs.  As long as nobody aborts the read and the
session is not taken down (`Among`), the read comes back once, after the last PDU of its reply and
not before, with good status, and each byte is where the caller wants it.
-/

namespace Ost.Session

open Ost.Iscsi Ost.Util Ost.Param Ost.Prog
open Ost.Initiator (RxPdu RxPhase Away Spares Brings Ends Took Returned Placeable HasByte)
open Ost.Target (Local sentData dataPiece ReadBytes)

/-! ## A read under way -/

/-- A PDU of the target as it arrives, with its data padded to a multiple of four bytes. -/
def arrival (x : Target.Sent) : RxPdu :=
  ⟨x.pdu.header.take iscsiHeaderLen, x.data ++ List.replicate (paddingLen x.data.length) 0⟩

/-- The PDUs that the target has sent from `t` to `t'`. -/
def replies (t t' : Local) : List RxPdu :=
  (t'.slot.conn.sent.drop t.slot.conn.sent.length).map arrival

/-- A read whose reply is on its way. -/
structure Reading where
  ini : Initiator.Session
  /-- The memory with the buffers of the read. -/
  mem : Memory
  /-- The PDUs of the reply that have not arrived. -/
  left : List RxPdu

/-- An event at the initiator, and how many bytes the calls of `readv` get if it receives data. -/
structure Turn where
  event : Initiator.Event
  counts : Nat → ℕ+

namespace Reading

/-- The memory when `scsi_read_data_i` has received the data of `p` for the read `q`. -/
def store (q : Initiator.ScsiCmd) (p : RxPdu) (counts : Nat → ℕ+) (r : Reading) : Memory :=
  let d := (iscsiReadDataDecap p.header).2
  match Initiator.recvSg q d.offset.toNat d.length.toNat r.ini with
  | .ret (v :: vs) _ =>
    (iscsiSockMsg false d.length.toNat (.list v vs)
      ⟨r.mem, fun i => counts i, [], p.data⟩).state.mem
  | _ => r.mem

/-- The memory after an event. -/
def memory (c : Nat) (t : Turn) (r : Reading) : Memory :=
  match t.event, r.ini.rx, (r.ini.books.mem c).body with
  | .rx _, .handling (some d) p, .scsi q =>
    if d = c ∧ iscsiOpcode p.header = opReadData then r.store q p t.counts else r.mem
  | _, _, _ => r.mem

/-- The PDUs that have not arrived after an event. -/
def rest (c : Nat) (t : Turn) (r : Reading) : List RxPdu :=
  if (r.ini.finds c t.event).isSome then r.left.tail else r.left

/-- An event at the initiator. -/
def next (env : Env) (cfg : Initiator.TargetConfig) (c : Nat) (t : Turn) :
    Prog Halt Reading PUnit :=
  fun r =>
    match Initiator.next env cfg t.event r.ini with
    | .ret u ini => .ret u ⟨ini, r.memory c t, r.rest c t⟩
    | .halt e ini => .halt e ⟨ini, r.memory c t, r.rest c t⟩

/-- The PDUs of the reply that have not been handled. -/
def pending (c : Nat) (r : Reading) : List RxPdu := (r.ini.rx.pduOf c).toList ++ r.left

end Reading

/-- The initiator waits for the read `q`, and the target is about to answer it.  A PDU has a length
of 24 bits. -/
structure Asked (c k limit : Nat) (q : Initiator.ScsiCmd) (s : Initiator.Session) (t : Local) :
    Prop where
  scsi : (s.books.mem c).body = .scsi q
  nothing : q.bytesFromdev = 0
  tag : (s.books.mem c).tag = q.pdu.tag
  txDone : (s.books.mem c).txDone = true
  away : Away c s
  listed : c ∈ s.books.cmdHash.values
  notCalled : c ∉ s.books.called
  notHeard : s.rx.pduOf c = none
  read : q.IsRead
  nodup : (iovCells q.recv.sg).Nodup
  own : ∀ x ∈ iovCells q.recv.sg, x.1 ≠ .padding
  done : Target.ReadDone k t
  lock : t.slot.conn.slock = false
  itt : (t.slot.pool.cmdMem k).scsiCmd.tag = q.pdu.tag
  size : (t.slot.pool.cmdMem k).scsiCmd.inputLength = q.pdu.transLen
  segment : t.slot.login.sessParams.maxDataSegLength = limit
  short : if limit = 0 then q.pdu.transLen < 2 ^ 24 else limit < 2 ^ 24

/-- An event that leaves the read to the workers, in a session with the limit of the target.  What
arrives for the read is the next PDU of its reply. -/
structure Among (c limit : Nat) (r : Reading) (t : Turn) : Prop where
  offered : Initiator.Offered r.ini t.event
  lasting : Initiator.Lasting c r.ini t.event
  limit : r.ini.vars.sessParams.maxDataSegLength = limit
  inOrder : ∀ p ∈ r.ini.finds c t.event, p ∈ r.left.head?

/-! ## The reply -/

/-- The reply to the read `q` with the data `data`: the PDUs `ds`, and the response `rsp`. -/
structure Reply (limit : Nat) (q : Initiator.ScsiCmd) (data : Bytes) (ds : List ReadData)
    (rsp : ScsiRsp) : Prop where
  read : q.IsRead
  nodup : (iovCells q.recv.sg).Nodup
  own : ∀ x ∈ iovCells q.recv.sg, x.1 ≠ .padding
  total : data.length = q.pdu.transLen
  tiles : Tiles 0 (ds.map dataPiece) q.pdu.transLen
  data : ∀ d ∈ ds, d.taskTag = q.pdu.tag ∧ 0 < d.length ∧ d.sBit = false ∧ d.InFormat ∧
    (limit = 0 ∨ d.length.toNat ≤ limit)
  rsp : rsp.tag = q.pdu.tag ∧ rsp.status = 0 ∧ rsp.response = 0 ∧ rsp.length = 0 ∧ rsp.InFormat

/-- The response as it arrives. -/
def rspArrival (rsp : ScsiRsp) : RxPdu := arrival ⟨.scsiRsp rsp, [], true⟩

/-- The number of bytes in some PDUs. -/
def dataLength (ds : List ReadData) : Nat := (ds.map fun d => d.length.toNat).sum

section Replies

variable {c k limit n : Nat} {q : Initiator.ScsiCmd} {data : Bytes} {ds : List ReadData}
  {rsp : ScsiRsp} {d : ReadData} {s : Initiator.Session} {t t' : Local}

/-- The reply that the target sends. -/
theorem Asked.reply (ha : Asked c k limit q s t) {rc : Int}
    (hret : Target.deviceCommandDone k t = .ret rc t') : ∃ ds rsp,
      Reply limit q (ReadBytes (t.slot.pool.cmdMem k).gatherList t) ds rsp ∧
      replies t t' = ds.map (fun d => arrival
        (sentData (ReadBytes (t.slot.pool.cmdMem k).gatherList t) d)) ++ [rspArrival rsp] := by
  have htotal := ha.read.short
  have hshort := ha.short
  obtain ⟨ds, rsp, hrep⟩ := Target.deviceCommandDone_replied ha.done ha.lock (by
    rw [ha.size, ha.segment]
    split at hshort <;> omega) hret
  have hsent := hrep.sent
  have htiles := hsent.tiles
  have hlimit := hsent.limit
  rw [ha.size] at htiles
  rw [ha.segment] at hlimit
  refine ⟨ds, rsp, ⟨ha.read, ha.nodup, ha.own, ?_, htiles, fun d hd => ?_, ?_⟩, ?_⟩
  · rw [ReadBytes, Memory.gather, List.length_map, length_iovCells, ha.done.total, ha.size]
  · obtain ⟨htag, hpos, hbit, hin⟩ := hrep.data d hd
    refine ⟨htag.trans ha.itt, hpos, hbit, hin (UInt32.lt_iff_toNat_lt.mpr ?_), hlimit d hd⟩
    have hpiece := (htiles.mem_bounds _ (List.mem_map_of_mem hd)).2
    change d.offset.toNat + d.length.toNat ≤ _ at hpiece
    change d.length.toNat < 16777216
    rcases hlimit d hd with h0 | hle
    · rw [if_pos h0] at hshort
      omega
    · split at hshort <;> omega
  · obtain ⟨htag, h⟩ := hrep.rsp
    exact ⟨htag.trans ha.itt, h⟩
  · rw [replies, hsent.sent, List.append_assoc, List.drop_left, List.map_append, List.map_map]
    rfl

theorem Reply.length_le (h : Reply limit q data ds rsp) (hd : d ∈ ds) :
    d.offset.toNat + d.length.toNat ≤ q.pdu.transLen :=
  (h.tiles.mem_bounds _ (List.mem_map_of_mem hd)).2

/-- The bytes in the first PDUs. -/
theorem Reply.dataLength_le (h : Reply limit q data ds rsp) {done todo : List ReadData}
    (hds : ds = done ++ todo) : dataLength done ≤ q.pdu.transLen ∧
      (todo = [] → dataLength done = q.pdu.transLen) := by
  have hsum := h.tiles.sum_eq
  rw [Nat.zero_add, List.map_map, hds, List.map_append, List.sum_append] at hsum
  have hdone : dataLength done = (done.map (Prod.snd ∘ dataPiece)).sum := rfl
  refine ⟨by omega, fun htodo => ?_⟩
  rw [htodo, List.map_nil, List.sum_nil] at hsum
  omega

/-- The PDUs are placeable. -/
theorem Reply.placeable (h : Reply limit q data ds rsp) (hd : d ∈ ds) :
    Placeable q d.offset.toNat d.length.toNat := by
  have hle := h.length_le hd
  have hpos : 0 < d.length.toNat := UInt32.lt_iff_toNat_lt.mp (h.data d hd).2.1
  have htotal := h.read.total
  have hshort := h.read.short
  unfold Placeable
  split
  · omega
  · have hdisp := displacement_le d.offset.toNat q.recv.sg
    exact ⟨by omega, by omega, by omega⟩

theorem Reply.length_part (h : Reply limit q data ds rsp) (hd : d ∈ ds) :
    ((data.drop d.offset.toNat).take d.length.toNat).length = d.length.toNat := by
  have hle := h.length_le hd
  have htotal := h.total
  rw [List.length_take, List.length_drop]
  omega

theorem header_dataArrival : (arrival (sentData data d)).header =
    (iscsiReadDataEncap zeroHeader d).take iscsiHeaderLen := by
  rw [arrival, sentData, TargetPdu.header]

theorem header_rspArrival : (rspArrival rsp).header =
    (iscsiScsiRspEncap zeroHeader rsp).take iscsiHeaderLen := by
  rw [rspArrival, arrival, TargetPdu.header]

/-- A PDU with data, as the initiator gets it. -/
theorem Reply.brings (h : Reply limit q data ds rsp) (hd : d ∈ ds) :
    Brings { q with bytesFromdev := n } limit (arrival (sentData data d)) d where
  decap := by
    rw [header_dataArrival]
    exact readData_roundTrip.header zeroHeader d (h.data d hd).2.2.2.1
  limit := (h.data d hd).2.2.2.2
  noStatus := (h.data d hd).2.2.1
  placeable := h.placeable hd
  here := by
    have hlen : (sentData data d).data.length = d.length.toNat := h.length_part hd
    rw [arrival, List.length_append, hlen]
    omega

/-- The response, as the initiator gets it. -/
theorem Reply.ends (h : Reply limit q data ds rsp) :
    Ends { q with bytesFromdev := n } (rspArrival rsp) rsp where
  decap := by
    rw [header_rspArrival]
    exact scsiRsp_roundTrip.header zeroHeader rsp h.rsp.2.2.2.2
  response := h.rsp.2.2.1
  tag := h.rsp.1
  status := h.rsp.2.1
  length := h.rsp.2.2.2.1

theorem Reply.isRead (h : Reply limit q data ds rsp) :
    Initiator.ScsiCmd.IsRead { q with bytesFromdev := n } :=
    ⟨h.read.1, h.read.2, h.read.3, h.read.4, h.read.5⟩

end Replies

/-! ## What a turn does -/

/-- The byte at `j` is where the caller wants it. -/
def Reading.HasByte (q : Initiator.ScsiCmd) (data : Bytes) (r : Reading) (j : Nat) : Prop :=
  ((iovCells q.recv.sg)[j]?.map fun x => r.mem x.1 x.2) = data[j]?

/-- How far the read has come. -/
inductive Stage (c : Nat) (q : Initiator.ScsiCmd) (data : Bytes) (ds : List ReadData)
    (rsp : ScsiRsp) (r : Reading) : Prop where
  | /-- The PDUs `done` have been taken, and the PDUs `todo` have not. -/
    waits (done todo : List ReadData) (hds : ds = done ++ todo) (away : Away c r.ini)
    (listed : c ∈ r.ini.books.cmdHash.values) (notCalled : r.ini.books.called.count c = 0)
    (body : (r.ini.books.mem c).body = .scsi { q with bytesFromdev := dataLength done })
    (tag : (r.ini.books.mem c).tag = q.pdu.tag) (txDone : (r.ini.books.mem c).txDone = true)
    (pending : r.pending c = todo.map (fun d => arrival (sentData data d)) ++ [rspArrival rsp])
    (bytes : ∀ d ∈ done, ∀ j, d.offset.toNat ≤ j → j < d.offset.toNat + d.length.toNat →
      r.HasByte q data j)
  | /-- The read has come back. -/
    returned (away : Away c r.ini) (unlisted : c ∉ r.ini.books.cmdHash.values)
    (called : r.ini.books.called.count c = 1)
    (body : (r.ini.books.mem c).body =
      .scsi { q with bytesFromdev := q.pdu.transLen, status := 0 })
    (status : (r.ini.books.mem c).status = 0) (pending : r.pending c = [])
    (bytes : r.mem.gather (iovCells q.recv.sg) = data)

section Turns

variable {c k limit : Nat} {q : Initiator.ScsiCmd} {data : Bytes} {ds : List ReadData}
  {rsp : ScsiRsp} {env : Env} {cfg : Initiator.TargetConfig} {r : Reading} {t : Turn}

/-- A turn does to the initiator what its event does. -/
theorem next_ensures {Q : Reading → Prop} (h : ensures (Initiator.next env cfg t.event)
      (fun _ s => Q ⟨s, r.memory c t, r.rest c t⟩) r.ini) :
    ensures (Reading.next env cfg c t) (fun _ r' => Q r') r := by
  unfold ensures wp at h ⊢
  rw [Reading.next]
  cases hrun : Initiator.next env cfg t.event r.ini with
  | ret u s =>
    rw [hrun] at h
    exact h
  | halt e s => trivial

/-- Nothing is stored unless a PDU for the read is handled. -/
theorem memory_eq (hne : ∀ inp p, t.event = .rx inp → r.ini.rx ≠ .handling (some c) p) :
    r.memory c t = r.mem := by
  unfold Reading.memory
  split
  · rename_i inp d p q' he hrx hb
    refine if_neg fun h => hne inp p he ?_
    rw [hrx, h.1]
  · rfl

/-- A PDU that arrives goes from those that are on their way to the Rx worker. -/
theorem pending_next (ho : Among c limit r t) {s : Initiator.Session} {m : Memory}
    (hrx : s.rx.pduOf c = (r.ini.rx.pduOf c).or (r.ini.finds c t.event)) :
    Reading.pending c ⟨s, m, r.rest c t⟩ = r.pending c := by
  unfold Reading.pending Reading.rest
  dsimp only
  rw [hrx]
  cases hf : r.ini.finds c t.event with
  | none => rw [Option.or_none, if_neg (by simp)]
  | some p =>
    obtain ⟨l, hl⟩ : ∃ l, r.left = p :: l := by
      have hhead : r.left.head? = some p := ho.inOrder p hf
      cases hleft : r.left with
      | nil => rw [hleft] at hhead; exact absurd hhead.symm (Option.some_ne_none p)
      | cons x l => rw [hleft] at hhead; exact ⟨l, by rw [Option.some.inj hhead]⟩
    have hidle : r.ini.rx.pduOf c = none := by
      unfold Initiator.Session.finds at hf
      split at hf
      · split at hf
        · rename_i h
          rw [h.1]
          rfl
        · exact absurd hf.symm (Option.some_ne_none p)
      · exact absurd hf.symm (Option.some_ne_none p)
    rw [hidle, hl, Option.none_or, if_pos (by simp)]
    rfl

/-- A turn in which no PDU for the read is handled. -/
theorem next_stage_spares (hs : Initiator.Roster r.ini) (h : Stage c q data ds rsp r)
    (ho : Among c limit r t)
    (hne : ∀ inp p, t.event = .rx inp → r.ini.rx ≠ .handling (some c) p) :
    ensures (Reading.next env cfg c t) (fun _ r' => Stage c q data ds rsp r') r := by
  have haway : Away c r.ini := by cases h <;> assumption
  refine next_ensures ((Initiator.next_spares hs haway ho.offered ho.lasting hne).mono ?_)
  rintro _ s ⟨hsp, hrx⟩
  have hpending := pending_next (m := r.memory c t) ho hrx
  have hmem := hsp.mem
  rw [memory_eq hne] at hpending ⊢
  cases h with
  | waits done todo hds _ listed notCalled body tag txDone pending bytes =>
    exact .waits done todo hds hsp.away (hsp.listed.mpr listed) (hsp.called.trans notCalled)
      (hmem ▸ body) (hmem ▸ tag) (hmem ▸ txDone) (hpending.trans pending) bytes
  | returned _ unlisted called body status pending bytes =>
    exact .returned hsp.away (fun hc => unlisted (hsp.listed.mp hc)) (hsp.called.trans called)
      (hmem ▸ body) (hmem ▸ status) (hpending.trans pending) bytes

/-- What the handling of a PDU of the reply leaves as it is. -/
structure Handled (r r' : Reading) : Prop where
  rx : r'.ini.rx = .idle
  tx : r'.ini.tx = r.ini.tx
  left : r'.left = r.left
  params : r.left ≠ [] → r'.ini.vars.sessParams = r.ini.vars.sessParams

/-- The hash has what is listed. -/
theorem remove_isSome {s : Initiator.Session} (hs : Initiator.Roster s)
    (hc : c ∈ s.books.cmdHash.values) : (s.books.cmdHash.remove (s.books.mem c).tag).isSome := by
  obtain ⟨e, he, rfl⟩ := List.mem_map.mp hc
  by_contra hnone
  rw [Option.not_isSome_iff_eq_none, TagHash.remove_eq_none, TagHash.get_eq_none] at hnone
  exact hnone e.2 (hs.keys e he ▸ he)

/-- A completed command is no longer listed. -/
theorem unlisted_of_completed {s s' : Initiator.Session} (hs : Initiator.Roster s)
    (hc : c ∈ s.books.cmdHash.values) (h : Initiator.Completed c s s') :
    c ∉ s'.books.cmdHash.values := by
  obtain ⟨e, he, rfl⟩ := List.mem_map.mp hc
  have hnodup := hs.nodup_values
  have hentry : ((s.books.mem e.2).tag, e.2) ∈ s.books.cmdHash.entries := hs.keys e he ▸ he
  have hperm := (TagHash.perm_without hentry).map Prod.snd
  rw [TagHash.values, hperm.nodup_iff, List.map_cons, List.nodup_cons] at hnodup
  rw [h.cmdHash]
  exact hnodup.1

/-- A turn of the Rx worker that returns. -/
theorem next_rx {inp : Option RxPdu} {s : Initiator.Session} (he : t.event = .rx inp)
    (hrun : Initiator.rxWorkerProcI env cfg inp r.ini = .ret ⟨⟩ s) (hrx : r.ini.rx ≠ .idle) :
    Reading.next env cfg c t r = .ret ⟨⟩ ⟨s, r.memory c t, r.left⟩ := by
  have hnext : Initiator.next env cfg t.event r.ini = .ret ⟨⟩ s := by
    rw [he]
    exact hrun
  have hrest : r.rest c t = r.left := by
    refine if_neg fun h => ?_
    obtain ⟨p, hp⟩ := Option.isSome_iff_exists.mp h
    rw [he] at hp
    cases inp <;> simp [Initiator.Session.finds, hrx] at hp
  rw [Reading.next, hnext, hrest]

/-- A PDU with data puts its bytes in their place and leaves the others there. -/
theorem store_places (hreply : Reply limit q data ds rsp) {d : ReadData} (hd : d ∈ ds) {n : Nat}
    {counts : Nat → ℕ+} {s : Initiator.Session} {left : List RxPdu} {j : Nat}
    (hj : d.offset.toNat ≤ j ∧ j < d.offset.toNat + d.length.toNat ∨ r.HasByte q data j) :
    Reading.HasByte q data
      ⟨s, r.store { q with bytesFromdev := n } (arrival (sentData data d)) counts, left⟩ j := by
  have hbrings := hreply.brings (n := n) hd
  have hshort := hreply.read.short
  have htotal := hreply.read.total
  have hlen := hreply.length_part hd
  have hin : (arrival (sentData data d)).data = (data.drop d.offset.toNat).take d.length.toNat ++
      List.replicate (paddingLen d.length.toNat) 0 ++ [] := by
    rw [arrival, show (sentData data d).data =
      (data.drop d.offset.toNat).take d.length.toNat from rfl, hlen, List.append_nil]
  obtain ⟨v, vs, out, t', hsel, hmsg, -, -, hbytes⟩ := Initiator.receive_one (s := r.ini)
    (q := { q with bytesFromdev := n })
    (t := ⟨r.mem, fun i => counts i, [], (arrival (sentData data d)).data⟩) hreply.read.listed
    (UInt32.lt_iff_toNat_lt.mp (hreply.data d hd).2.2.2.1.length) htotal
    (show iovTotal q.recv.sg < 4294967296 by omega) hreply.nodup hreply.own hreply.total
      hbrings.placeable (fun i => by positivity) hin
  have hmem : r.store { q with bytesFromdev := n } (arrival (sentData data d)) counts = t'.mem := by
    rw [Reading.store, hbrings.decap]
    dsimp only
    rw [hsel]
    dsimp only
    rw [hmsg]
    rfl
  rw [hmem]
  exact hbytes j hj

/-- All bytes are in their place when all PDUs have been taken. -/
theorem gather_of_bytes (hreply : Reply limit q data ds rsp)
    (hbytes : ∀ d ∈ ds, ∀ j, d.offset.toNat ≤ j → j < d.offset.toNat + d.length.toNat →
      r.HasByte q data j) : r.mem.gather (iovCells q.recv.sg) = data := by
  refine List.ext_getElem? fun j => ?_
  rw [Memory.gather, List.getElem?_map]
  rcases Nat.lt_or_ge j q.pdu.transLen with hj | hj
  · obtain ⟨p, hp, hle, hlt⟩ := hreply.tiles.covers (Nat.zero_le j) hj
    obtain ⟨d, hd, rfl⟩ := List.mem_map.mp hp
    exact hbytes d hd j hle hlt
  · have htotal := hreply.read.total
    have hdata := hreply.total
    rw [List.getElem?_eq_none (by rw [length_iovCells]; omega),
      List.getElem?_eq_none (by omega)]
    rfl

/-- The memory after the Rx worker has handled a PDU of the read. -/
theorem memory_handling {inp : Option RxPdu} {p : RxPdu} {n : Nat} (he : t.event = .rx inp)
    (hrx : r.ini.rx = .handling (some c) p)
    (hbody : (r.ini.books.mem c).body = .scsi { q with bytesFromdev := n }) :
    r.memory c t = if iscsiOpcode p.header = opReadData then
      r.store { q with bytesFromdev := n } p t.counts else r.mem := by
  rw [Reading.memory, he, hrx, hbody]
  exact if_congr (and_iff_right rfl) rfl rfl

variable (env cfg) in
/-- The Rx worker handles the response when all data have come. -/
theorem handles_response (hreply : Reply limit q data ds rsp) (hs : Initiator.Roster r.ini)
    (away : Away c r.ini) (listed : c ∈ r.ini.books.cmdHash.values)
    (notCalled : r.ini.books.called.count c = 0)
    (body : (r.ini.books.mem c).body = .scsi { q with bytesFromdev := dataLength ds })
    (bytes : ∀ d ∈ ds, ∀ j, d.offset.toNat ≤ j → j < d.offset.toNat + d.length.toNat →
      r.HasByte q data j)
    (hleft : r.left = []) {inp : Option RxPdu} (he : t.event = .rx inp)
    (hrx : r.ini.rx = .handling (some c) (rspArrival rsp)) :
    ∃ r', Reading.next env cfg c t r = .ret ⟨⟩ r' ∧ Stage c q data ds rsp r' ∧ Handled r r' := by
  have hidle : r.ini.rx ≠ .idle := by simp [hrx]
  have hends := hreply.ends (n := dataLength ds)
  obtain ⟨_, hrun, s₁, hcomp, hbody, hstatus, rfl⟩ :=
    @Initiator.rxWorkerProcI_returns env cfg c _ r.ini _ rsp hends hreply.isRead body
      (remove_isSome hs listed) hrx inp
  have hmem := memory_handling he hrx body
  rw [hends.opcode, if_neg (by decide)] at hmem
  have hall := (hreply.dataLength_le (List.append_nil _).symm).2 rfl
  refine ⟨_, next_rx he hrun hidle, .returned ⟨?_, ?_, ?_⟩ ?_ ?_ ?_ hstatus ?_ ?_,
    ⟨rfl, hcomp.tx, rfl, fun hne => absurd hleft hne⟩⟩
  · exact hcomp.issued ▸ away.issued
  · exact hcomp.txQueue ▸ away.unqueued
  · exact hcomp.tx ▸ away.unheld
  · have hun := unlisted_of_completed hs listed hcomp
    exact hun
  · change s₁.books.called.count c = 1
    rw [hcomp.called, List.count_append, notCalled]
    simp
  · rw [← hall]
    exact hbody
  · exact hleft
  · rw [hmem]
    exact gather_of_bytes hreply bytes

/-- The count of the bytes goes on by those of the next PDU. -/
theorem dataLength_snoc {done todo : List ReadData} {d : ReadData}
    (hreply : Reply limit q data ds rsp) (hds : ds = (done ++ [d]) ++ todo) :
    Initiator.u32 (dataLength done + d.length.toNat) = dataLength (done ++ [d]) := by
  have hle := (hreply.dataLength_le hds).1
  have hshort := hreply.read.short
  have hlen : dataLength (done ++ [d]) = dataLength done + d.length.toNat := by
    rw [dataLength, List.map_append, List.sum_append]
    rfl
  rw [hlen]
  exact Nat.mod_eq_of_lt (by omega)

variable (env cfg) in
/-- The Rx worker handles the next PDU with data. -/
theorem handles_data (hreply : Reply limit q data ds rsp)
    (hlimit : r.ini.vars.sessParams.maxDataSegLength = limit) {done todo : List ReadData}
    {d : ReadData} (hds : ds = done ++ d :: todo) (away : Away c r.ini)
    (listed : c ∈ r.ini.books.cmdHash.values) (notCalled : r.ini.books.called.count c = 0)
    (body : (r.ini.books.mem c).body = .scsi { q with bytesFromdev := dataLength done })
    (tag : (r.ini.books.mem c).tag = q.pdu.tag) (txDone : (r.ini.books.mem c).txDone = true)
    (bytes : ∀ d ∈ done, ∀ j, d.offset.toNat ≤ j → j < d.offset.toNat + d.length.toNat →
      r.HasByte q data j)
    (hleft : r.left = todo.map (fun d => arrival (sentData data d)) ++ [rspArrival rsp])
    {inp : Option RxPdu} (he : t.event = .rx inp)
    (hrx : r.ini.rx = .handling (some c) (arrival (sentData data d))) :
    ∃ r', Reading.next env cfg c t r = .ret ⟨⟩ r' ∧ Stage c q data ds rsp r' ∧ Handled r r' := by
  have hidle : r.ini.rx ≠ .idle := by simp [hrx]
  have hd : d ∈ ds := hds ▸ List.mem_append_right _ List.mem_cons_self
  have hbrings := hreply.brings (n := dataLength done) hd
  rw [← hlimit] at hbrings
  obtain ⟨_, hrun, s₁, htakes, rfl⟩ :=
    @Initiator.rxWorkerProcI_takes env cfg c _ r.ini _ d hbrings hreply.isRead body hrx inp
  have hmem := memory_handling he hrx body
  rw [hbrings.opcode, if_pos rfl] at hmem
  have hds' : ds = (done ++ [d]) ++ todo := by rw [hds, List.append_assoc]; rfl
  have hsame := htakes.same
  have hkey := hsame.key
  refine ⟨_, next_rx he hrun hidle, .waits (done ++ [d]) todo hds' ⟨?_, ?_, ?_⟩ ?_ ?_ ?_ ?_ ?_
    hleft ?_, ⟨rfl, hsame.tx, rfl, fun _ => htakes.params⟩⟩
  · exact hsame.issued ▸ away.issued
  · exact hsame.txQueue ▸ away.unqueued
  · exact hsame.tx ▸ away.unheld
  · exact hsame.cmdHash ▸ listed
  · exact hsame.called ▸ notCalled
  · rw [← dataLength_snoc hreply hds']
    exact htakes.body
  · exact (congrArg Initiator.CmdKey.tag hkey).trans tag
  · exact (congrArg Initiator.CmdKey.txDone hkey).trans txDone
  · intro d' hd' j hlo hhi
    rw [hmem]
    refine store_places hreply hd ?_
    rcases List.mem_append.mp hd' with hd' | hd'
    · exact .inr (bytes d' hd' j hlo hhi)
    · obtain rfl := List.mem_singleton.mp hd'
      exact .inl ⟨hlo, hhi⟩

variable (env cfg) in
/-- The Rx worker handles a PDU of the reply. -/
theorem next_stage_handles (hreply : Reply limit q data ds rsp) (hs : Initiator.Roster r.ini)
    (h : Stage c q data ds rsp r) (hlimit : r.ini.vars.sessParams.maxDataSegLength = limit)
    {inp : Option RxPdu} {p : RxPdu} (he : t.event = .rx inp)
    (hrx : r.ini.rx = .handling (some c) p) : ∃ r', Reading.next env cfg c t r = .ret ⟨⟩ r' ∧
      Stage c q data ds rsp r' ∧ Handled r r' := by
  have hof : r.ini.rx.pduOf c = some p := by
    rw [hrx]
    exact if_pos rfl
  cases h with
  | returned _ _ _ _ _ pending _ =>
    rw [Reading.pending, hof] at pending
    exact absurd pending (List.cons_ne_nil p r.left)
  | waits done todo hds away listed notCalled body tag txDone pending bytes =>
    rw [Reading.pending, hof] at pending
    cases todo with
    | nil =>
      obtain ⟨rfl, hleft⟩ := List.cons.inj pending
      rw [List.append_nil] at hds
      subst hds
      exact handles_response env cfg hreply hs away listed notCalled body bytes hleft he hrx
    | cons d todo =>
      obtain ⟨rfl, hleft⟩ := List.cons.inj pending
      exact handles_data env cfg hreply hlimit hds away listed notCalled body tag txDone bytes hleft
        he hrx

/-! ## The run -/

/-- A turn takes the read from one stage to the next. -/
theorem next_stage (hreply : Reply limit q data ds rsp) (hs : Initiator.Roster r.ini)
    (h : Stage c q data ds rsp r) (ho : Among c limit r t) :
    ensures (Reading.next env cfg c t) (fun _ r' => Stage c q data ds rsp r') r := by
  by_cases hne : ∀ inp p, t.event = .rx inp → r.ini.rx ≠ .handling (some c) p
  · exact next_stage_spares hs h ho hne
  · push Not at hne
    obtain ⟨inp, p, he, hrx⟩ := hne
    obtain ⟨r', hret, hstage, -⟩ := next_stage_handles env cfg hreply hs h ho.limit he hrx
    exact ensures_of_ret hret hstage

/-- The condition allows what the commands of the session are counted under. -/
theorem Among.settling (h : Among c limit r t) :
    Initiator.Settling (fun _ => True) r.ini t.event := by
  have hlasting := h.lasting
  refine ⟨h.offered, ?_⟩
  revert hlasting
  cases t.event with
  | destroy => exact fun hl hstop => absurd (hl.symm.trans hstop) Bool.false_ne_true
  | enqueue => exact fun _ _ => trivial
  | _ => exact fun _ => trivial

/-- The session counts its commands, and the read is at a stage. -/
structure Tracked (c : Nat) (q : Initiator.ScsiCmd) (data : Bytes) (ds : List ReadData)
    (rsp : ScsiRsp) (r : Reading) : Prop where
  counted : Initiator.Counted (fun _ => True) r.ini
  stage : Stage c q data ds rsp r

variable (env cfg) in
theorem next_tracked (hreply : Reply limit q data ds rsp) (h : Tracked c q data ds rsp r)
    (ho : Among c limit r t) :
    ensures (Reading.next env cfg c t) (fun _ r' => Tracked c q data ds rsp r') r := by
  have hcounted : ensures (Reading.next env cfg c t)
      (fun _ r' => Initiator.Counted (fun _ => True) r'.ini) r :=
    next_ensures (Initiator.next_counted (fun _ => trivial) h.counted ho.settling)
  exact wp_mono (wp_and hcounted (next_stage hreply h.counted.roster h.stage ho))
    (fun _ _ h => ⟨h.1, h.2⟩) fun _ _ _ => trivial

/-- The target is about to answer the read. -/
theorem Asked.tracked {k : Nat} {s : Initiator.Session} {u u' : Local} {mem : Memory}
    (ha : Asked c k limit q s u) (hs : Initiator.Counted (fun _ => True) s)
    (hreplies : replies u u' = ds.map (fun d => arrival (sentData data d)) ++ [rspArrival rsp]) :
    Tracked c q data ds rsp ⟨s, mem, replies u u'⟩ := by
  refine ⟨hs, .waits [] ds rfl ha.away ha.listed (List.count_eq_zero_of_not_mem ha.notCalled) ?_
    ha.tag ha.txDone ?_ fun d hd => absurd hd List.not_mem_nil⟩
  · rw [ha.scsi]
    exact congrArg (fun n => Initiator.Body.scsi { q with bytesFromdev := n }) ha.nothing
  · rw [Reading.pending, ha.notHeard]
    exact hreplies

theorem reach_tracked (hreply : Reply limit q data ds rsp) {r₀ : Reading}
    (h₀ : Tracked c q data ds rsp r₀)
    (hr : Reach (Reading.next env cfg c) (Among c limit) r₀ r) : Tracked c q data ds rsp r :=
  hr.invariant h₀ fun _ _ h ho => next_tracked env cfg hreply h ho

/-- The read has come back with the data `data`. -/
structure Delivered (c : Nat) (q : Initiator.ScsiCmd) (data : Bytes) (r : Reading) : Prop where
  once : r.ini.books.called.count c = 1
  unlisted : c ∉ r.ini.books.cmdHash.values
  body : (r.ini.books.mem c).body = .scsi { q with bytesFromdev := q.pdu.transLen, status := 0 }
  status : (r.ini.books.mem c).status = 0
  bytes : r.mem.gather (iovCells q.recv.sg) = data

/-- The callback comes with the end of the reply. -/
theorem Stage.called_iff (h : Stage c q data ds rsp r) :
    c ∈ r.ini.books.called ↔ r.pending c = [] := by
  cases h with
  | waits done todo hds away listed notCalled body tag txDone pending bytes =>
    rw [pending]
    exact iff_of_false (List.count_eq_zero.mp notCalled) (by simp)
  | returned _ _ called _ _ pending _ =>
    exact iff_of_true (List.count_pos_iff.mp (by omega)) pending

theorem Stage.delivered (h : Stage c q data ds rsp r) (hc : c ∈ r.ini.books.called) :
    Delivered c q data r := by
  cases h with
  | waits done todo hds away listed notCalled body tag txDone pending bytes =>
    exact absurd hc (List.count_eq_zero.mp notCalled)
  | returned _ unlisted called body status _ bytes => exact ⟨called, unlisted, body, status, bytes⟩

/-! ## The Rx worker on its own -/

/-- What the Rx worker needs to take the reply. -/
structure Able (c limit : Nat) (r : Reading) : Prop where
  tx : r.ini.tx ≠ .exited
  limit : r.ini.vars.sessParams.maxDataSegLength = limit
  free : r.ini.rx = .idle ∨ (r.ini.rx.pduOf c).isSome

/-- A turn of the Rx worker. -/
def rxTurn (inp : Option RxPdu) : Turn := ⟨.rx inp, fun _ => 1⟩

/-- The turns of the Rx worker among those that leave the read alone. -/
def Alone (c limit : Nat) (r : Reading) (t : Turn) : Prop :=
  Among c limit r t ∧ ∃ inp, t.event = .rx inp

theorem alone_of_none (hlimit : r.ini.vars.sessParams.maxDataSegLength = limit) :
    Alone c limit r (rxTurn none) :=
  ⟨⟨trivial, trivial, hlimit, fun p hp => absurd hp (Option.not_mem_none p)⟩, none, rfl⟩

/-- While something of the reply is left, the read waits in the hash. -/
theorem Stage.waiting (hreply : Reply limit q data ds rsp) (h : Stage c q data ds rsp r) {p : RxPdu}
    {l : List RxPdu} (hp : r.pending c = p :: l) : (r.ini.books.mem c).txDone = true ∧
      c ∈ r.ini.books.cmdHash.values ∧ p.lookupTag = some (r.ini.books.mem c).tag := by
  cases h with
  | returned _ _ _ _ _ pending _ => exact absurd (hp.symm.trans pending) (List.cons_ne_nil p l)
  | waits done todo hds away listed notCalled body tag txDone pending bytes =>
    rw [pending] at hp
    refine ⟨txDone, listed, ?_⟩
    rw [tag]
    cases todo with
    | nil =>
      obtain ⟨rfl, -⟩ := List.cons.inj hp
      rw [(hreply.ends (n := 0)).lookup, hreply.rsp.1]
    | cons d todo =>
      obtain ⟨rfl, -⟩ := List.cons.inj hp
      have hd : d ∈ ds := hds ▸ List.mem_append_right _ List.mem_cons_self
      rw [(hreply.brings (n := 0) hd).lookup, (hreply.data d hd).1]

variable (env cfg) in
/-- The Rx worker handles the PDU that it has for the read. -/
theorem handle_pdu (hreply : Reply limit q data ds rsp) (h : Tracked c q data ds rsp r)
    (hlimit : r.ini.vars.sessParams.maxDataSegLength = limit) {p : RxPdu}
    (hof : r.ini.rx.pduOf c = some p) :
    ∃ r', Reach (Reading.next env cfg c) (Alone c limit) r r' ∧ Handled r r' := by
  -- the PDU is about to be handled
  have handling : ∀ r₁ : Reading, Tracked c q data ds rsp r₁ →
      r₁.ini.vars.sessParams.maxDataSegLength = limit → r₁.ini.rx = .handling (some c) p →
      ∃ r', Reach (Reading.next env cfg c) (Alone c limit) r₁ r' ∧ Handled r₁ r' := by
    intro r₁ h₁ hlimit₁ hrx
    obtain ⟨r', hret, -, hhandled⟩ := next_stage_handles env cfg (t := rxTurn none)
      hreply h₁.counted.roster h₁.stage hlimit₁ rfl hrx
    exact ⟨r', .tail .refl (alone_of_none hlimit₁) hret, hhandled⟩
  have hpending : r.pending c = p :: r.left := by
    rw [Reading.pending, hof]
    rfl
  cases hrx : r.ini.rx with
  | idle | exited =>
    rw [hrx] at hof
    exact absurd hof (Option.some_ne_none p).symm
  | handling o p' =>
    rw [hrx, RxPhase.pduOf] at hof
    split at hof
    · rename_i ho
      rw [ho, Option.some.inj hof] at hrx
      exact handling r h hlimit hrx
    · exact absurd hof (Option.some_ne_none p).symm
  | waiting d p' =>
    rw [hrx, RxPhase.pduOf] at hof
    split at hof
    · rename_i ho
      rw [ho, Option.some.inj hof] at hrx
      have hret : Reading.next env cfg c (rxTurn none) r = .ret ⟨⟩
          ⟨{ r.ini with rx := .handling (some c) p }, r.memory c (rxTurn none), r.left⟩ :=
        next_rx rfl (Initiator.rxWorkerProcI_goesOn hrx (h.stage.waiting hreply hpending).1 none)
          (by simp [hrx])
      have h₁ := (next_tracked env cfg hreply h
        (alone_of_none hlimit).1).of_ret hret
      obtain ⟨r', hreach, hhandled⟩ := handling _ h₁ hlimit rfl
      exact ⟨r', Reach.trans (.tail .refl (alone_of_none hlimit) hret) hreach,
        ⟨hhandled.rx, hhandled.tx, hhandled.left, hhandled.params⟩⟩
    · exact absurd hof (Option.some_ne_none p).symm

variable (env cfg) in
/-- The Rx worker takes the next PDU of the reply. -/
theorem take_pdu (hreply : Reply limit q data ds rsp) (h : Tracked c q data ds rsp r)
    (hable : Able c limit r) {p : RxPdu} {l : List RxPdu} (hp : r.pending c = p :: l) :
    ∃ r', Reach (Reading.next env cfg c) (Alone c limit) r r' ∧ r'.left = l ∧ r'.ini.rx = .idle ∧
      r'.ini.tx = r.ini.tx ∧ (l ≠ [] → r'.ini.vars.sessParams = r.ini.vars.sessParams) := by
  rcases hable.free with hidle | hof
  · have hnone : r.ini.rx.pduOf c = none := by
      rw [hidle]
      rfl
    have hleft : r.left = p :: l := by
      rw [Reading.pending, hnone] at hp
      exact hp
    obtain ⟨-, hlisted, hlookup⟩ := h.stage.waiting hreply hp
    have hget : r.ini.books.cmdHash.get (r.ini.books.mem c).tag = some c := by
      obtain ⟨e, he, hec⟩ := List.mem_map.mp hlisted
      refine TagHash.get_eq_some.mpr ?_
      rw [← hec, ← h.counted.roster.keys e he]
      exact he
    have hfinds : r.ini.finds c (.rx (some p)) = some p := by
      refine if_pos ⟨hidle, hable.tx, ?_⟩
      rw [hlookup]
      exact hget
    have hturn : Alone c limit r (rxTurn (some p)) := by
      refine ⟨⟨trivial, trivial, hable.limit, fun p' hp' => ?_⟩, some p, rfl⟩
      rw [hleft]
      exact hfinds.symm.trans hp'
    have hret : Reading.next env cfg c (rxTurn (some p)) r =
        .ret ⟨⟩ ⟨{ r.ini with rx := .waiting c p }, r.memory c (rxTurn (some p)), l⟩ := by
      have hrest : r.rest c (rxTurn (some p)) = l := by
        rw [Reading.rest, show (rxTurn (some p)).event = .rx (some p) from rfl, hfinds, hleft]
        rfl
      have hrun : Initiator.next env cfg (rxTurn (some p)).event r.ini =
          .ret ⟨⟩ { r.ini with rx := .waiting c p } :=
        Initiator.rxWorkerProcI_finds hidle hable.tx hlookup hget
      rw [Reading.next, hrun, hrest]
    have h₁ := (next_tracked env cfg hreply h hturn.1).of_ret hret
    obtain ⟨r', hreach, hhandled⟩ := handle_pdu env cfg hreply h₁ hable.limit
      (if_pos rfl)
    exact ⟨r', Reach.trans (.tail .refl hturn hret) hreach, hhandled.left, hhandled.rx, hhandled.tx,
      hhandled.params⟩
  · obtain ⟨p', hof⟩ := Option.isSome_iff_exists.mp hof
    have hleft : r.left = l := by
      rw [Reading.pending, hof] at hp
      exact (List.cons.inj hp).2
    obtain ⟨r', hreach, hhandled⟩ := handle_pdu env cfg hreply h hable.limit hof
    exact ⟨r', hreach, hhandled.left.trans hleft, hhandled.rx, hhandled.tx, hleft ▸ hhandled.params⟩

variable (env cfg) in
/-- The Rx worker takes all that is left of the reply. -/
theorem take_all (hreply : Reply limit q data ds rsp) {l : List RxPdu}
    (h : Tracked c q data ds rsp r) (hable : Able c limit r) (hp : r.pending c = l) :
    ∃ r', Reach (Reading.next env cfg c) (Alone c limit) r r' ∧ c ∈ r'.ini.books.called := by
  induction l generalizing r with
  | nil => exact ⟨r, .refl, h.stage.called_iff.mpr hp⟩
  | cons p l ih =>
    obtain ⟨r₁, hreach, hleft, hrx, htx, hparams⟩ :=
      take_pdu env cfg hreply h hable hp
    have h₁ : Tracked c q data ds rsp r₁ :=
      reach_tracked hreply h (hreach.mono fun _ _ ho => ho.1)
    have hp₁ : r₁.pending c = l := by
      rw [Reading.pending, hrx, hleft]
      rfl
    by_cases hl : l = []
    · exact ⟨r₁, hreach, h₁.stage.called_iff.mpr (hp₁.trans hl)⟩
    · obtain ⟨r', hreach', hc⟩ := ih h₁
        ⟨htx ▸ hable.tx, by rw [hparams hl]; exact hable.limit, .inl hrx⟩ hp₁
      exact ⟨r', hreach.trans hreach', hc⟩

end Turns

/-! ## What becomes of a read -/

section Results

variable {c k limit : Nat} {q : Initiator.ScsiCmd} {env : Env} {cfg : Initiator.TargetConfig}
  {s₀ s : Initiator.Session} {t t' : Local} {rc : Int} {mem : Memory} {r : Reading}

/-- The target has answered a read that waits in a session in which no R2T was lost.  Whatever other
commands do in the meantime, the read comes back when the last PDU of the reply has been handled and
not before, it comes back once, and then the buffers of the caller hold what the target has read. -/
theorem read_delivered (h₀ : Initiator.Fresh s₀)
    (hs : Reach (Initiator.next env cfg) (Initiator.Settling fun _ => True) s₀ s)
    (ha : Asked c k limit q s t) (hret : Target.deviceCommandDone k t = .ret rc t')
    (hr : Reach (Reading.next env cfg c) (Among c limit) ⟨s, mem, replies t t'⟩ r) :
    (c ∈ r.ini.books.called ↔ r.pending c = []) ∧ (c ∈ r.ini.books.called →
      Delivered c q (ReadBytes (t.slot.pool.cmdMem k).gatherList t) r) := by
  obtain ⟨ds, rsp, hreply, hreplies⟩ := ha.reply hret
  have hcounted := Initiator.counted_of_reach (fun _ => trivial) h₀ hs
  have htracked := reach_tracked hreply (ha.tracked hcounted hreplies) hr
  exact ⟨htracked.stage.called_iff, htracked.stage.delivered⟩

/-- The read can always be completed, and by the Rx worker alone, when it has no other PDU and the
Tx worker has not given up. -/
theorem read_completes (h₀ : Initiator.Fresh s₀)
    (hs : Reach (Initiator.next env cfg) (Initiator.Settling fun _ => True) s₀ s)
    (ha : Asked c k limit q s t) (hret : Target.deviceCommandDone k t = .ret rc t')
    (hr : Reach (Reading.next env cfg c) (Among c limit) ⟨s, mem, replies t t'⟩ r)
    (hable : Able c limit r) :
    ∃ r', Reach (Reading.next env cfg c) (Alone c limit) r r' ∧
      Delivered c q (ReadBytes (t.slot.pool.cmdMem k).gatherList t) r' := by
  obtain ⟨ds, rsp, hreply, hreplies⟩ := ha.reply hret
  have hcounted := Initiator.counted_of_reach (fun _ => trivial) h₀ hs
  have htracked := reach_tracked hreply (ha.tracked hcounted hreplies) hr
  obtain ⟨r', hreach, hc⟩ := take_all env cfg hreply htracked hable rfl
  have htracked' : Tracked c q _ ds rsp r' :=
    reach_tracked hreply htracked (hreach.mono fun _ _ ho => ho.1)
  exact ⟨r', hreach, htracked'.stage.delivered hc⟩

end Results

/-! ## A small read -/

instance (c limit : Nat) (r : Reading) (t : Turn) : Decidable (Among c limit r t) :=
  decidable_of_iff (Initiator.Offered r.ini t.event ∧ Initiator.Lasting c r.ini t.event ∧
      r.ini.vars.sessParams.maxDataSegLength = limit ∧
      ∀ p ∈ r.ini.finds c t.event, p ∈ r.left.head?)
    ⟨fun h => ⟨h.1, h.2.1, h.2.2.1, h.2.2.2⟩, fun h => ⟨h.1, h.2, h.3, h.4⟩⟩

/-- The events up to the read with the tag 7. -/
def smallAsk : List Initiator.Event :=
  Initiator.smallLogin ++ [.enqueue 1 7 (.scsi Initiator.smallReadCmd) true] ++ Initiator.smallSend

/-- A session that has sent a read of 8 bytes. -/
def smallSent : Initiator.Session :=
  (runList (Initiator.next Initiator.smallEnv Initiator.smallTarget)
    (Initiator.Settling fun _ => True) smallAsk Initiator.smallSession).getD Initiator.smallSession

theorem reach_smallSent :
    Reach (Initiator.next Initiator.smallEnv Initiator.smallTarget)
      (Initiator.Settling fun _ => True) Initiator.smallSession smallSent := by
  have hsome : (runList (Initiator.next Initiator.smallEnv Initiator.smallTarget)
      (Initiator.Settling fun _ => True) smallAsk Initiator.smallSession).isSome = true := by
    decide +kernel
  obtain ⟨s, hs⟩ := Option.isSome_iff_exists.mp hsome
  rw [smallSent, hs]
  exact reach_runList hs .refl

/-- The read with its tag. -/
def smallRead : Initiator.ScsiCmd :=
  { Initiator.smallReadCmd with
    pdu := { Initiator.smallReadCmd.pdu with tag := 7, cmdSN := 1, expStatSN := 1 } }

/-- A target that has read the 8 bytes. -/
def smallAnswer : Local :=
  (Target.reading 8 0).setPool { (Target.reading 8 0).slot.pool with
    cmds := ((TagHash.init 1).insert 7 0).getD (TagHash.init 1)
    cmdMem := fun i => { (Target.reading 8 0).slot.pool.cmdMem i with
      scsiCmd := { ((Target.reading 8 0).slot.pool.cmdMem i).scsiCmd with tag := 7 } } }

/-- The target has sent the reply. -/
def smallAnswered : Local := (Target.deviceCommandDone 0 smallAnswer).state

theorem deviceCommandDone_small :
    Target.deviceCommandDone 0 smallAnswer = .ret (-1) smallAnswered := rfl

theorem asked_small : Asked 1 0 0 smallRead smallSent smallAnswer where
  scsi := by decide +kernel
  nothing := rfl
  tag := by decide +kernel
  txDone := by decide +kernel
  away := ⟨by decide +kernel, by decide +kernel, by decide +kernel⟩
  listed := by decide +kernel
  notCalled := by decide +kernel
  notHeard := by decide +kernel
  read := ⟨rfl, rfl, by decide, rfl, by decide⟩
  nodup := by decide
  own := by decide
  done := ⟨rfl, rfl, rfl, rfl, rfl, by decide, by decide, rfl, fun _ h => absurd h List.not_mem_nil⟩
  lock := rfl
  itt := rfl
  size := rfl
  segment := rfl
  short := by decide

/-- Another read is submitted and sent while the reply arrives. -/
def smallTurns : List Turn :=
  [.enqueue 2 9 (.scsi Initiator.smallReadCmd) true,
    .rx (replies smallAnswer smallAnswered).head?, .tx, .rx none, .tx, .tx, .rx none, .tx,
    .rx (replies smallAnswer smallAnswered).getLast?, .rx none, .tx, .rx none].map fun e =>
      ⟨e, fun _ => 3⟩

/-- The read comes back before the other one. -/
theorem read_delivered_small : ∃ r,
    Reach (Reading.next Initiator.smallEnv Initiator.smallTarget 1) (Among 1 0)
      ⟨smallSent, smallMem, replies smallAnswer smallAnswered⟩ r ∧
    r.ini.books.cmdHash.values = [2] ∧
    Delivered 1 smallRead
      (ReadBytes (smallAnswer.slot.pool.cmdMem 0).gatherList smallAnswer) r := by
  have hrun : ∃ r, Reach (Reading.next Initiator.smallEnv Initiator.smallTarget 1) (Among 1 0)
      ⟨smallSent, smallMem, replies smallAnswer smallAnswered⟩ r ∧
      1 ∈ r.ini.books.called ∧ r.ini.books.cmdHash.values = [2] :=
    exists_reach smallTurns (by decide +kernel)
  obtain ⟨r, hr, hc, hother⟩ := hrun
  exact ⟨r, hr, hother, (read_delivered Initiator.fresh_smallSession reach_smallSent asked_small
    deviceCommandDone_small hr).2 hc⟩

/-- It can be completed from the start. -/
theorem read_completes_small : ∃ r,
    Reach (Reading.next Initiator.smallEnv Initiator.smallTarget 1) (Alone 1 0)
      ⟨smallSent, smallMem, replies smallAnswer smallAnswered⟩ r ∧
    Delivered 1 smallRead (ReadBytes (smallAnswer.slot.pool.cmdMem 0).gatherList smallAnswer) r :=
  read_completes Initiator.fresh_smallSession reach_smallSent asked_small deviceCommandDone_small
    .refl ⟨by decide +kernel, by decide +kernel, .inl (by decide +kernel)⟩

end Ost.Session
