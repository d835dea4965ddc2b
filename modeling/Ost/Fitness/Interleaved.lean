import Mathlib.Logic.Function.Basic
import Ost.Fitness.Workload

/-!
# Interleaved streams

Built with MPI, `fitness` runs on several nodes at once, and `--interleaved_wr` and
`--interleaved_rd` are there to deal a working set out to them.  A node begins behind the nodes of
lower rank and steps over all of them.

`main` computes the first offset as `(s.disp<<20) + g_interleaved_wr?((s.wrsz<<10)*g_myid):0`.  The
sum is the condition here, and so the displacement is lost.  When the working set is used up all
nodes go on at its begin, whatever their rank.  The streams are dealt out as they should be in the
first pass, if there is no displacement, and from the second pass on all nodes do the same.

Each node keeps offsets of its own, and what a node does is one step, as without MPI.  The phase
starts afresh, and `--scale_disp` is not given.
-/

namespace Ost.Fitness

open Ost.Prog

/-! ## The nodes -/

/-- What the nodes are started with. -/
structure Cluster where
  params : Params
  /-- `g_interleaved_wr`. -/
  interleavedWr : Bool
  /-- `g_interleaved_rd`. -/
  interleavedRd : Bool
  /-- `g_num_procs`. -/
  numProcs : Nat
  numProcs_pos : 0 < numProcs

/-- An offset of a node.  How often it has been set back and how many requests have been made since
are ghosts. -/
structure Cursor where
  offset : UInt64
  pass : Nat
  index : Nat
deriving DecidableEq, Repr

/-- The offsets of a node. -/
structure Node where
  wr : Cursor
  rd : Cursor
deriving DecidableEq, Repr

/-- A request that a node issues, with the pass it is part of and its number in the pass. -/
structure Share where
  node : Nat
  writing : Bool
  offset : UInt64
  len : UInt32
  pass : Nat
  index : Nat
deriving DecidableEq, Repr

/-- The nodes, and the requests they have issued, oldest first. -/
structure Nodes where
  node : Nat → Node
  requests : List Share

/-- The offset of a kind. -/
def Node.cursor (n : Node) (w : Bool) : Cursor := if w then n.wr else n.rd

/-- Set the offset of a kind. -/
def Node.setCursor (n : Node) (w : Bool) (k : Cursor) : Node :=
  if w then { n with wr := k } else { n with rd := k }

namespace Cluster

variable (c : Cluster)

/-- `g_interleaved_wr` or `g_interleaved_rd`. -/
def interleaved (w : Bool) : Bool := if w then c.interleavedWr else c.interleavedRd

/-- The first offset of the node of rank `i`. -/
def startOffset (w : Bool) (i : Nat) : UInt64 :=
  if (c.params.disp <<< 20) + (if c.interleaved w then 1 else 0) ≠ 0 then
    ((c.params.size w <<< 10) * UInt32.ofNat i).toUInt64
  else 0

/-- `main` sets the offsets of each node. -/
def start : Nodes :=
  { node := fun i => { wr := ⟨c.startOffset true i, 0, 0⟩, rd := ⟨c.startOffset false i, 0, 0⟩ }
    requests := [] }

/-- By how much a sequential request advances the offset. -/
def stepBytes (w : Bool) : UInt32 :=
  if c.params.stride w ≠ 0 then (c.params.size w <<< 10) + (c.params.stride w <<< 10)
  else (c.params.size w <<< 10) * (if c.interleaved w then UInt32.ofNat c.numProcs else 1)

/-- The next offset, at random. -/
def randomCursor (w : Bool) (r : Nat) (k : Cursor) : Prog WorkerStop Nodes Cursor :=
  if c.params.size w = 0 ∨ c.params.cap <<< 10 / (c.params.size w).toUInt64 = 0 then
    halt .divisionByZero
  else
    let place := UInt64.ofNat r % (c.params.cap <<< 10 / (c.params.size w).toUInt64)
    pure { k with
      offset := (place <<< 10) * (c.params.size w).toUInt64 + (c.params.disp <<< 20)
      index := k.index + 1 }

/-- The next offset, after a request at `k`. -/
def sequentialCursor (w : Bool) (k : Cursor) : Cursor :=
  let o := k.offset + (c.stepBytes w).toUInt64
  if (c.params.disp + c.params.cap) <<< 20 < o + (c.params.size w <<< 10).toUInt64 then
    ⟨c.params.disp <<< 20, k.pass + 1, 0⟩
  else ⟨o, k.pass, k.index + 1⟩

/-- The next offset. -/
def nextCursor (e : Turn) (w : Bool) (k : Cursor) : Prog WorkerStop Nodes Cursor :=
  if e.mode.val % 100 + 1 ≤ c.params.rnd w then c.randomCursor w e.place.val k
  else pure (c.sequentialCursor w k)

/-- Set the next offset, with one stream for both kinds. -/
def advance (w : Bool) (k : Cursor) (n : Node) : Node :=
  if c.params.str = 1 then (n.setCursor w k).setCursor (!w) k else n.setCursor w k

/-- `worker_proc_t` on the node of rank `i`, up to the issue of one request. -/
def workerTurn (i : Nat) (e : Turn) : Prog WorkerStop Nodes PUnit := do
  let s ← get
  let w : Bool := e.kind.val % 100 + 1 ≤ c.params.wr
  let k := (s.node i).cursor w
  let len := c.params.size w * 1024
  let next ← c.nextCursor e w k
  modify fun s => { s with node := Function.update s.node i (c.advance w next (s.node i)) }
  if isPastDevice c.params k.offset len then halt .pastDevice
  else modify fun s => { s with
    requests := s.requests ++
      [⟨i, w, k.offset, shorten c.params k.offset len, k.pass, k.index⟩] }

/-- A worker takes its turn on the node of rank `e.1`. -/
def next (e : Nat × Turn) : Prog WorkerStop Nodes PUnit :=
  guarded (e.1 < c.numProcs) (c.workerTurn e.1 e.2)

/-! ## Dealing out a working set -/

instance instDecidableOccurs (p : Params) : ∀ w, Decidable (p.Occurs w)
  | true => inferInstanceAs (Decidable (0 < p.wr))
  | false => inferInstanceAs (Decidable (p.wr < 100))

/-- The requests of the kind `w` are a stream that is dealt out to the nodes: they are interleaved,
sequential and without a stride, and they do not share their offset with requests of the other
kind. -/
structure Dealt (w : Bool) : Prop where
  accepted : c.params.Accepted
  /-- The capacity and the displacement were not negative. -/
  cap : c.params.cap.toNat < 2147483648
  disp : c.params.disp.toNat < 2147483648
  occurs : c.params.Occurs w
  interleaved : c.interleaved w = true
  sequential : c.params.rnd w = 0
  stride : c.params.stride w = 0
  alone : c.params.str = 1 → ¬c.params.Occurs (!w)
  /-- The working set has room for a request of each node. -/
  holds : c.numProcs * c.params.bytes w ≤ c.params.span

/-- A request has the offset that its node has it at, and ends in the working set. -/
def AtPlace (r : Share) : Prop :=
  r.offset.toNat = c.params.base + (r.index * c.numProcs + r.node) * c.params.bytes r.writing ∧
  r.offset.toNat + r.len.toNat ≤ c.params.base + c.params.span

instance instDecidableAtPlace (r : Share) : Decidable (c.AtPlace r) :=
  inferInstanceAs (Decidable (_ ∧ _))

/-- In the passes that `Pass` holds of, the nodes have their requests of the kind `w` at their
places, and no two nodes have one at the same place. -/
def Partitioned (w : Bool) (Pass : Nat → Prop) : Prop :=
  ∀ s, Reach c.next (fun _ _ => True) c.start s →
    ∀ r ∈ s.requests, r.writing = w → Pass r.pass → c.AtPlace r ∧
      ∀ r' ∈ s.requests, r'.writing = w → r'.pass = r.pass → r'.node ≠ r.node →
        r'.offset ≠ r.offset

end Cluster

/-! ## Arithmetic -/

section Arithmetic

variable {c : Cluster} {w : Bool} {k : Cursor} {i : Nat}

theorem Cluster.Dealt.end_lt (h : c.Dealt w) :
    c.params.base + c.params.span < 4503599627370496 := by
  have hc := h.cap
  have hd := h.disp
  unfold Params.base Params.span
  omega

theorem toNat_bytes_mul (h : c.Dealt w) (n : Nat) :
    ((c.params.size w <<< 10) * UInt32.ofNat n).toNat = n * c.params.bytes w % 4294967296 := by
  have hbytes : (c.params.size w <<< 10).toNat = c.params.bytes w := by
    rw [← bytes_shift h.accepted w, UInt32.toNat_toUInt64]
  rw [UInt32.toNat_mul, hbytes, UInt32.toNat_ofNat', Nat.mul_comm n]
  exact Nat.mul_mod_mod _ _ _

theorem Cluster.start_cursor (i : Nat) :
    (c.start.node i).cursor w = ⟨c.startOffset w i, 0, 0⟩ := by
  cases w <;> rfl

/-- A node begins behind those of lower rank, without the displacement. -/
theorem Cluster.Dealt.startOffset_eq (h : c.Dealt w) (i : Nat) :
    (c.startOffset w i).toNat = i * c.params.bytes w % 4294967296 := by
  have hne : (c.params.disp <<< 20) + (if c.interleaved w then 1 else 0) ≠ 0 := by
    rw [if_pos h.interleaved]
    intro h0
    have hsum := congrArg UInt64.toNat h0
    have hend := h.end_lt
    rw [UInt64.toNat_add, base_eq h.disp] at hsum
    change (c.params.base + 1) % 18446744073709551616 = 0 at hsum
    omega
  rw [Cluster.startOffset, if_pos hne, UInt32.toNat_toUInt64, toNat_bytes_mul h]

theorem Cluster.Dealt.stepBytes_eq (h : c.Dealt w) :
    (c.stepBytes w).toNat = c.numProcs * c.params.bytes w % 4294967296 := by
  rw [Cluster.stepBytes, if_neg (not_not.mpr h.stride), if_pos h.interleaved, toNat_bytes_mul h]

/-- The next offset is the begin of the working set, or a step ahead and with room for a
request. -/
theorem Cluster.Dealt.sequentialCursor_cases (h : c.Dealt w)
    (hk : k.offset.toNat + c.params.bytes w ≤ c.params.base + c.params.span) :
    c.sequentialCursor w k = ⟨c.params.disp <<< 20, k.pass + 1, 0⟩ ∨
      ∃ o : UInt64, c.sequentialCursor w k = ⟨o, k.pass, k.index + 1⟩ ∧
        o.toNat = k.offset.toNat + c.numProcs * c.params.bytes w % 4294967296 ∧
        o.toNat + c.params.bytes w ≤ c.params.base + c.params.span := by
  have hend := h.end_lt
  have hbytes := bytes_le h.accepted w
  have hstep := Nat.mod_lt (c.numProcs * c.params.bytes w) (show 0 < 4294967296 by decide)
  have hmove : (k.offset + (c.stepBytes w).toUInt64).toNat =
      k.offset.toNat + c.numProcs * c.params.bytes w % 4294967296 := by
    rw [UInt64.toNat_add, UInt32.toNat_toUInt64, h.stepBytes_eq]
    exact Nat.mod_eq_of_lt (by omega)
  have hroom : (k.offset + (c.stepBytes w).toUInt64 + (c.params.size w <<< 10).toUInt64).toNat =
      k.offset.toNat + c.numProcs * c.params.bytes w % 4294967296 + c.params.bytes w := by
    rw [UInt64.toNat_add, hmove, bytes_shift h.accepted]
    exact Nat.mod_eq_of_lt (by omega)
  rw [Cluster.sequentialCursor]
  by_cases hlt : (c.params.disp + c.params.cap) <<< 20 <
      k.offset + (c.stepBytes w).toUInt64 + (c.params.size w <<< 10).toUInt64
  · exact .inl (if_pos hlt)
  · refine .inr ⟨_, if_neg hlt, hmove, ?_⟩
    rw [UInt64.lt_iff_toNat_lt, end_eq h.cap h.disp, hroom] at hlt
    rw [hmove]
    omega

/-- A request that ends in the working set is not past the end of the disk. -/
theorem Cluster.Dealt.not_pastDevice (h : c.Dealt w) {o : UInt64}
    (ho : o.toNat + c.params.bytes w ≤ c.params.base + c.params.span) :
    ¬isPastDevice c.params o (c.params.size w * 1024) := by
  have hend := h.end_lt
  have hsum : (o + (c.params.size w * 1024).toUInt64).toNat = o.toNat + c.params.bytes w := by
    rw [UInt64.toNat_add, UInt32.toNat_toUInt64, bytes_mul h.accepted]
    exact Nat.mod_eq_of_lt (by omega)
  have htotal : ((c.params.disp <<< 20) + (c.params.cap <<< 20)).toNat =
      c.params.base + c.params.span := by
    rw [UInt64.toNat_add, base_eq h.disp, span_eq h.cap]
    exact Nat.mod_eq_of_lt (by omega)
  obtain ⟨-, -, -, -, hdisk⟩ := h.accepted
  intro hpast
  obtain ⟨gCap, htid, hlt⟩ := (Option.any_eq_true _ _).mp hpast
  have hle := hdisk gCap htid
  have hlt' := UInt64.lt_iff_toNat_lt.mp (of_decide_eq_true hlt)
  rw [UInt64.lt_iff_toNat_lt, htotal] at hle
  rw [hsum] at hlt'
  omega

/-- A request that ends in the working set is not longer than the size. -/
theorem Cluster.Dealt.shorten_le (h : c.Dealt w) {o : UInt64} (hbase : c.params.base = 0)
    (ho : o.toNat + c.params.bytes w ≤ c.params.span) :
    (shorten c.params o (c.params.size w * 1024)).toNat = c.params.bytes w := by
  have hend := h.end_lt
  have hsum : (o + (c.params.size w * 1024).toUInt64).toNat = o.toNat + c.params.bytes w := by
    rw [UInt64.toNat_add, UInt32.toNat_toUInt64, bytes_mul h.accepted]
    exact Nat.mod_eq_of_lt (by omega)
  have hfits : ¬(c.params.file = true ∧
      c.params.cap <<< 20 < o + (c.params.size w * 1024).toUInt64) := by
    rintro ⟨-, hlt⟩
    rw [UInt64.lt_iff_toNat_lt, span_eq h.cap, hsum] at hlt
    omega
  rw [shorten, if_neg hfits, bytes_mul h.accepted]

end Arithmetic

/-! ## What a node does -/

section Turns

variable {c : Cluster} {w u : Bool} {k : Cursor} {s : Nodes} {i j : Nat}

/-- The request at an offset. -/
def Cluster.share (c : Cluster) (i : Nat) (u : Bool) (k : Cursor) : Share :=
  ⟨i, u, k.offset, shorten c.params k.offset (c.params.size u * 1024), k.pass, k.index⟩

/-- The state after a request of the node of rank `i`. -/
def Nodes.issue (c : Cluster) (s : Nodes) (i : Nat) (u : Bool) (k : Cursor) : Nodes :=
  { node := Function.update s.node i (c.advance u k (s.node i))
    requests := s.requests ++ [c.share i u ((s.node i).cursor u)] }

/-- A request of one kind leaves the offset of the other alone. -/
theorem Cluster.Dealt.issue_cursor (h : c.Dealt w) (hu : c.params.Occurs u) :
    ((s.issue c i u k).node j).cursor w =
      if j = i ∧ u = w then k else (s.node j).cursor w := by
  by_cases hj : j = i
  · subst hj
    have hnode : (s.issue c j u k).node j = c.advance u k (s.node j) := Function.update_self ..
    rw [hnode, Cluster.advance]
    by_cases huw : u = w
    · subst huw
      rw [if_pos (show j = j ∧ u = u from ⟨rfl, rfl⟩)]
      split <;> cases u <;> rfl
    · have hother : u = !w := Bool.eq_not.mpr huw
      have hstr : ¬c.params.str = 1 := fun h1 => h.alone h1 (hother ▸ hu)
      rw [if_neg hstr, if_neg fun hcon => huw hcon.2, hother]
      cases w <;> rfl
  · have hnode : (s.issue c i u k).node j = s.node j := Function.update_of_ne hj ..
    rw [hnode, if_neg fun hcon => hj hcon.1]

/-- The next offset of a sequential stream. -/
theorem Cluster.nextCursor_spec (e : Turn) :
    ensures (c.nextCursor e u k)
      (fun k' s' => s' = s ∧ (c.params.rnd u = 0 → k' = c.sequentialCursor u k)) s := by
  refine (wp_ite _ _ _).mpr ⟨fun hmode => ?_, fun _ => ⟨rfl, fun _ => rfl⟩⟩
  refine (wp_ite _ _ _).mpr ⟨fun _ => trivial, fun _ => ⟨rfl, fun h0 => ?_⟩⟩
  rw [h0] at hmode
  exact absurd hmode (Nat.not_succ_le_zero _)

/-- A turn issues a request. -/
theorem Cluster.next_spec (e : Nat × Turn) :
    ensures (c.next e) (fun _ s' => s' = s ∨ e.1 < c.numProcs ∧ ∃ u k, c.params.Occurs u ∧
      (c.params.rnd u = 0 → k = c.sequentialCursor u ((s.node e.1).cursor u)) ∧
      s' = s.issue c e.1 u k) s := by
  refine (wp_guarded _ _).mpr ⟨fun hi => ?_, fun _ => .inl rfl⟩
  refine (wp_bind _ _).mpr (wp_get.mpr ?_)
  refine (wp_bind _ _).mpr (wp_mono (Cluster.nextCursor_spec e.2) ?_ fun _ _ => id)
  rintro k s' ⟨rfl, hk⟩
  refine (wp_bind _ _).mpr ((wp_modify _).mpr
    ((wp_ite _ _ _).mpr ⟨fun _ => trivial, fun _ => ?_⟩))
  exact .inr ⟨hi, _, k, e.2.occurs c.params, hk, rfl⟩

/-- A turn for a request of the kind `w`. -/
def turnFor (w : Bool) : Turn := ⟨0, if w then 0 else 99, 0, 0⟩

/-- The request of a node that has room for one. -/
theorem Cluster.Dealt.next_ret (h : c.Dealt w) (hi : i < c.numProcs)
    (ho : ((s.node i).cursor w).offset.toNat + c.params.bytes w ≤ c.params.base + c.params.span) :
    c.next (i, turnFor w) s =
      .ret ⟨⟩ (s.issue c i w (c.sequentialCursor w ((s.node i).cursor w))) := by
  have hkind : decide ((turnFor w).kind.val % 100 + 1 ≤ c.params.wr) = w := by
    have hocc := h.occurs
    cases w with
    | true => exact decide_eq_true hocc
    | false => exact decide_eq_false (Nat.not_le.mpr hocc)
  have hmode : ¬(turnFor w).mode.val % 100 + 1 ≤ c.params.rnd w := by
    rw [h.sequential]
    exact Nat.not_succ_le_zero _
  rw [Cluster.next, guarded, if_pos hi, Cluster.workerTurn, get_bind]
  simp only [hkind]
  rw [Cluster.nextCursor, if_neg hmode]
  exact congrFun (if_neg (h.not_pastDevice ho)) _

end Turns

/-! ## A node on its own -/

section Single

variable {c : Cluster} {s s' : Nodes} {t : Workload} {w : Bool} {i : Nat}

/-- The node of rank `i` stands where a process that is built without MPI stands. -/
structure Nodes.Shows (s : Nodes) (i : Nat) (t : Workload) : Prop where
  offset : ∀ w, ((s.node i).cursor w).offset = t.offset w
  requests : (s.requests.filter (·.node = i)).map (fun r => (r.writing, r.offset, r.len)) =
    t.requests.map fun r => (r.writing, r.offset, r.len)

/-- Without interleaving there is one way to advance. -/
theorem Cluster.sequentialCursor_offset (h : c.interleaved w = false) (k : Cursor) :
    (c.sequentialCursor w k).offset = sequentialOffset c.params w k.offset := by
  have hstep : c.stepBytes w = (c.params.size w <<< 10) + (c.params.stride w <<< 10) := by
    rw [stepBytes, h]
    split
    · rfl
    · rename_i hzero
      rw [not_not.mp hzero]
      simp
  rw [sequentialCursor, sequentialOffset, hstep]
  split <;> rfl

theorem Cluster.advance_offset (n : Node) (k : Cursor) (t : Workload)
    (h : ∀ u, (n.cursor u).offset = t.offset u) (u : Bool) :
    ((c.advance w k n).cursor u).offset = (Fitness.advance c.params w k.offset t).offset u := by
  have htrue : n.wr.offset = t.wrOffset := h true
  have hfalse : n.rd.offset = t.rdOffset := h false
  rw [advance, Fitness.advance]
  split <;> cases w <;> cases u <;>
    simp [Node.cursor, Node.setCursor, Workload.offset, Workload.setOffset, htrue, hfalse]

/-- The next offset is drawn and computed as without MPI. -/
theorem Cluster.nextCursor_shows (h : c.interleaved w = false) (e : Turn) (k : Cursor) :
    (∃ k', c.nextCursor e w k s = .ret k' s ∧
      nextOffset c.params e w k.offset t = .ret k'.offset t) ∨
    ∃ r, c.nextCursor e w k s = .halt r s ∧ nextOffset c.params e w k.offset t = .halt r t := by
  rw [nextCursor, nextOffset]
  split
  · rw [randomCursor, randomOffset]
    split
    · exact .inr ⟨_, rfl, rfl⟩
    · exact .inl ⟨_, rfl, rfl⟩
  · exact .inl ⟨_, rfl, congrArg (Outcome.ret · t) (sequentialCursor_offset h k).symm⟩

/-- Without interleaving a turn on a node is a turn of a process that is built without MPI. -/
theorem Cluster.workerTurn_shows (h : ∀ w, c.interleaved w = false) (hs : s.Shows i t) (e : Turn) :
    (∃ s' t', c.workerTurn i e s = .ret ⟨⟩ s' ∧ Fitness.workerTurn c.params e t = .ret ⟨⟩ t' ∧
      s'.Shows i t') ∨
    ∃ r s' t', c.workerTurn i e s = .halt r s' ∧ Fitness.workerTurn c.params e t = .halt r t' := by
  rw [workerTurn, Fitness.workerTurn, get_bind, get_bind]
  generalize (decide (e.kind.val % 100 + 1 ≤ c.params.wr) : Bool) = w
  rw [← hs.offset w]
  rcases nextCursor_shows (s := s) (t := t) (h w) e ((s.node i).cursor w) with
    ⟨k', hc, ht⟩ | ⟨r, hc, ht⟩
  · rw [bind_ret hc, bind_ret ht, modify_bind, modify_bind]
    split
    · exact .inr ⟨_, _, _, rfl, rfl⟩
    · refine .inl ⟨_, _, rfl, rfl, fun u => ?_, ?_⟩
      · change ((Function.update s.node i _ i).cursor u).offset = _
        rw [Function.update_self]
        exact advance_offset _ _ _ hs.offset u
      · have hreq : (Fitness.advance c.params w k'.offset t).requests = t.requests := by
          unfold Fitness.advance Workload.setOffset
          split <;> cases w <;> rfl
        simp [hreq, hs.requests]
  · rw [bind_halt hc, bind_halt ht]
    exact .inr ⟨_, _, _, rfl, rfl⟩

end Single
/-! ## Runs -/

section Runs

variable {c : Cluster} {w : Bool} {s : Nodes} {i : Nat}

/-- The passes in which the nodes do not all do the same: the first, or all of them when there is
but one node. -/
def Cluster.Apart (c : Cluster) (pass : Nat) : Prop := pass = 0 ∨ c.numProcs = 1

/-- The invariant. -/
structure Nodes.Sound (c : Cluster) (w : Bool) (s : Nodes) : Prop where
  requests : ∀ r ∈ s.requests, r.writing = w → c.Apart r.pass → r.node < c.numProcs ∧ c.AtPlace r
  cursors : ∀ i < c.numProcs, c.Apart ((s.node i).cursor w).pass →
    ((s.node i).cursor w).offset.toNat =
      (((s.node i).cursor w).index * c.numProcs + i) * c.params.bytes w ∧
    ((s.node i).cursor w).offset.toNat + c.params.bytes w ≤ c.params.span

/-- The requests of all nodes together are a number of 32 bits, and there is no displacement. -/
structure Cluster.Plain (c : Cluster) (w : Bool) : Prop extends c.Dealt w where
  zero : c.params.disp = 0
  fits : c.numProcs * c.params.bytes w < 4294967296

namespace Cluster.Plain

theorem base (h : c.Plain w) : c.params.base = 0 := by
  rw [Params.base, h.zero]
  rfl

theorem sound_start (h : c.Plain w) : c.start.Sound c w := by
  refine ⟨fun r hr => absurd hr List.not_mem_nil, fun i hi _ => ?_⟩
  have hle : (i + 1) * c.params.bytes w ≤ c.numProcs * c.params.bytes w :=
    Nat.mul_le_mul_right _ hi
  have hholds := h.holds
  have hfits := h.fits
  rw [Nat.succ_mul] at hle
  rw [Cluster.start_cursor]
  dsimp only
  rw [h.startOffset_eq, Nat.mod_eq_of_lt (by omega), Nat.zero_mul, Nat.zero_add]
  exact ⟨rfl, by omega⟩

theorem next_sound (h : c.Plain w) (hs : s.Sound c w) (e : Nat × Turn) :
    ensures (c.next e) (fun _ s' => s'.Sound c w) s := by
  refine (Cluster.next_spec e).mono fun _ s' hcase => ?_
  rcases hcase with rfl | ⟨hi, u, k, hu, hk, rfl⟩
  · exact hs
  constructor
  · -- The request that is added is the one that the offset had room for.
    refine List.forall_mem_append.mpr ⟨hs.requests, List.forall_mem_singleton.mpr ?_⟩
    intro huw hpass
    obtain rfl : u = w := huw
    obtain ⟨hplace, hroom⟩ := hs.cursors e.1 hi hpass
    refine ⟨hi, ?_, ?_⟩
    · rw [h.base, Nat.zero_add]
      exact hplace
    · change _ + (shorten c.params _ (c.params.size u * 1024)).toNat ≤ _
      rw [h.shorten_le h.base hroom, h.base, Nat.zero_add]
      exact hroom
  · intro j hj
    rw [h.issue_cursor hu]
    split
    · rename_i hsame
      obtain ⟨rfl, rfl⟩ := hsame
      rw [hk h.sequential]
      set k₀ := (s.node e.1).cursor u
      intro hpass
      by_cases hpass₀ : c.Apart k₀.pass
      · obtain ⟨hplace, hroom⟩ :
            k₀.offset.toNat = (k₀.index * c.numProcs + e.1) * c.params.bytes u ∧
              k₀.offset.toNat + c.params.bytes u ≤ c.params.span := hs.cursors e.1 hi hpass₀
        have hbase := h.base
        rcases h.sequentialCursor_cases (k := k₀) (by omega) with heq | ⟨o, heq, ho, hroom'⟩
        · rw [heq] at hpass ⊢
          have hone : c.numProcs = 1 := hpass.resolve_left (Nat.succ_ne_zero _)
          have hzero : e.1 = 0 := by omega
          have hholds := h.holds
          rw [hone, Nat.one_mul] at hholds
          dsimp only
          rw [base_eq h.disp, hbase, hzero, Nat.zero_mul, Nat.zero_mul]
          exact ⟨rfl, by omega⟩
        · rw [heq]
          dsimp only
          rw [Nat.mod_eq_of_lt h.fits] at ho
          refine ⟨?_, by omega⟩
          rw [ho, hplace, ← Nat.add_mul, Nat.succ_mul, Nat.add_right_comm]
      · -- The pass never goes back to one in which the nodes are apart.
        refine absurd (hpass.imp_left fun h0 => ?_) hpass₀
        unfold Cluster.sequentialCursor at h0
        dsimp only at h0
        split at h0
        · exact absurd h0 (Nat.succ_ne_zero _)
        · exact h0
    · exact hs.cursors j hj

/-- The nodes are apart, and have all their requests at their places. -/
theorem partitioned (h : c.Plain w) (hsize : 0 < c.params.bytes w ∨ c.numProcs = 1) :
    c.Partitioned w c.Apart := by
  intro s hs r hr hw hpass
  have hsound : s.Sound c w :=
    hs.invariant (P := Nodes.Sound c w) h.sound_start fun _ e hs _ => h.next_sound hs e
  obtain ⟨hi, hplace⟩ := hsound.requests r hr hw hpass
  refine ⟨hplace, fun r' hr' hw' hpass' hne hoffset => hne ?_⟩
  obtain ⟨hi', hplace'⟩ := hsound.requests r' hr' hw' (hpass' ▸ hpass)
  rcases hsize with hpos | hone
  · have heq := hplace'.1
    rw [hoffset, hplace.1, hw, hw'] at heq
    have hmul := Nat.eq_of_mul_eq_mul_right hpos (Nat.add_left_cancel heq)
    have hmod := congrArg (· % c.numProcs) hmul
    simp only [Nat.mul_add_mod_of_lt hi, Nat.mul_add_mod_of_lt hi'] at hmod
    exact hmod.symm
  · omega

end Cluster.Plain

/-- A run goes on with a request of a node that has room for one. -/
theorem Cluster.Dealt.reach_next (h : c.Dealt w) (hs : Reach c.next (fun _ _ => True) c.start s)
    (hi : i < c.numProcs)
    (ho : ((s.node i).cursor w).offset.toNat + c.params.bytes w ≤ c.params.base + c.params.span) :
    ∃ s', Reach c.next (fun _ _ => True) c.start s' ∧
      s'.requests = s.requests ++ [c.share i w ((s.node i).cursor w)] ∧
      ∀ j, (s'.node j).cursor w =
        if j = i then c.sequentialCursor w ((s.node i).cursor w) else (s.node j).cursor w := by
  refine ⟨_, hs.tail trivial (h.next_ret hi ho), rfl, fun j => ?_⟩
  rw [h.issue_cursor h.occurs]
  simp only [and_true]

theorem Cluster.Dealt.offset_of_partitioned (h : c.Dealt w) (hall : c.Partitioned w fun _ => True)
    (hs : Reach c.next (fun _ _ => True) c.start s) (hi : i < c.numProcs)
    (ho : ((s.node i).cursor w).offset.toNat + c.params.bytes w ≤ c.params.base + c.params.span) :
    ((s.node i).cursor w).offset.toNat =
      c.params.base + (((s.node i).cursor w).index * c.numProcs + i) * c.params.bytes w := by
  obtain ⟨s', hs', hreq, -⟩ := h.reach_next hs hi ho
  have hmem : c.share i w ((s.node i).cursor w) ∈ s'.requests := by
    rw [hreq]
    exact List.mem_append_right _ List.mem_cons_self
  exact (hall s' hs' _ hmem rfl trivial).1.1

/-- A node of higher rank leaves its place when it begins again. -/
theorem Cluster.Dealt.not_partitioned (h : c.Dealt w) (hbase : c.params.base = 0)
    (hn : 1 < c.numProcs) (hpos : 0 < c.params.bytes w)
    (hs : Reach c.next (fun _ _ => True) c.start s)
    (hroom : ((s.node 1).cursor w).offset.toNat + c.params.bytes w ≤ c.params.span) :
    ¬c.Partitioned w fun _ => True := by
  intro hall
  induction hm : c.params.span - ((s.node 1).cursor w).index using Nat.strong_induction_on
    generalizing s with
  | _ m ih =>
    set k := (s.node 1).cursor w
    have hroom' : k.offset.toNat + c.params.bytes w ≤ c.params.base + c.params.span := by omega
    have hplace : k.offset.toNat =
        c.params.base + (k.index * c.numProcs + 1) * c.params.bytes w :=
      h.offset_of_partitioned hall hs hn hroom'
    have hindex : k.index < c.params.span := by
      have hle : (k.index + 1) * 1 ≤ (k.index * c.numProcs + 1) * c.params.bytes w :=
        Nat.mul_le_mul (Nat.succ_le_succ (Nat.le_mul_of_pos_right _ c.numProcs_pos)) hpos
      omega
    obtain ⟨s', hs', -, hnode⟩ := h.reach_next hs hn hroom'
    have hcursor : (s'.node 1).cursor w = c.sequentialCursor w k := (hnode 1).trans (if_pos rfl)
    rcases h.sequentialCursor_cases hroom' with heq | ⟨o, heq, -, ho⟩
    · -- The node begins again, at zero.
      have hzero : (c.params.disp <<< 20).toNat = 0 := (base_eq h.disp).trans hbase
      have hholds := h.holds
      have hle : 1 * c.params.bytes w ≤ c.numProcs * c.params.bytes w :=
        Nat.mul_le_mul_right _ c.numProcs_pos
      rw [heq] at hcursor
      have hagain := h.offset_of_partitioned hall hs' hn (by
        rw [hcursor]
        dsimp only
        omega)
      rw [hcursor] at hagain
      dsimp only at hagain
      rw [hzero, Nat.zero_mul, Nat.zero_add, Nat.one_mul] at hagain
      omega
    · rw [heq] at hcursor
      refine ih _ ?_ hs' ?_ rfl
      · rw [hcursor]
        dsimp only
        omega
      · rw [hcursor]
        dsimp only
        omega

/-- The first request of the first node is at zero. -/
theorem Cluster.Dealt.base_of_partitioned (h : c.Dealt w) (hall : c.Partitioned w fun _ => True) :
    c.params.base = 0 := by
  have hholds := h.holds
  have hle : 1 * c.params.bytes w ≤ c.numProcs * c.params.bytes w :=
    Nat.mul_le_mul_right _ c.numProcs_pos
  have hstart : ((c.start.node 0).cursor w).offset.toNat = 0 := by
    rw [Cluster.start_cursor]
    dsimp only
    rw [h.startOffset_eq, Nat.zero_mul, Nat.zero_mod]
  have hplace := h.offset_of_partitioned hall .refl c.numProcs_pos (by omega)
  rw [hstart] at hplace
  omega

/-- Two nodes do not stay apart. -/
theorem Cluster.Dealt.numProcs_of_partitioned (h : c.Dealt w) (hbase : c.params.base = 0)
    (hall : c.Partitioned w fun _ => True) : c.numProcs = 1 := by
  by_contra hne
  have hn : 1 < c.numProcs := lt_of_le_of_ne c.numProcs_pos (Ne.symm hne)
  have hholds := h.holds
  have hbytes := bytes_le h.accepted w
  have hle : 2 * c.params.bytes w ≤ c.numProcs * c.params.bytes w := Nat.mul_le_mul_right _ hn
  have hroom : ∀ i ≤ 1, ((c.start.node i).cursor w).offset.toNat + c.params.bytes w ≤
      c.params.span := fun i hi => by
    have hi' : i * c.params.bytes w ≤ 1 * c.params.bytes w := Nat.mul_le_mul_right _ hi
    rw [Cluster.start_cursor]
    dsimp only
    rw [h.startOffset_eq, Nat.mod_eq_of_lt (by omega)]
    omega
  rcases Nat.eq_zero_or_pos (c.params.bytes w) with hzero | hpos
  · -- Requests of no bytes are all at the same place.
    have hroom₀ := hroom 0 (by decide)
    have hroom₁ := hroom 1 (by decide)
    obtain ⟨s, hs, hreq, hnode⟩ := h.reach_next .refl c.numProcs_pos (i := 0) (by omega)
    have hcursor : (s.node 1).cursor w = (c.start.node 1).cursor w :=
      (hnode 1).trans (if_neg (by decide))
    obtain ⟨s', hs', hreq', -⟩ := h.reach_next hs hn (by
      rw [hcursor]
      omega)
    have hplace := h.offset_of_partitioned hall .refl c.numProcs_pos (i := 0) (by omega)
    have hplace' := h.offset_of_partitioned hall .refl hn (by omega)
    rw [hzero, Nat.mul_zero] at hplace hplace'
    rw [hreq, hcursor] at hreq'
    have hmem : c.share 0 w ((c.start.node 0).cursor w) ∈ s'.requests := by
      rw [hreq']
      exact List.mem_append_left _ (List.mem_append_right _ List.mem_cons_self)
    have hmem' : c.share 1 w ((c.start.node 1).cursor w) ∈ s'.requests := by
      rw [hreq']
      exact List.mem_append_right _ List.mem_cons_self
    have hpass : (c.share 1 w ((c.start.node 1).cursor w)).pass =
        (c.share 0 w ((c.start.node 0).cursor w)).pass := by
      rw [Cluster.start_cursor, Cluster.start_cursor]
      rfl
    exact (hall s' hs' _ hmem rfl trivial).2 _ hmem' rfl hpass (by decide : 1 ≠ 0)
      (UInt64.toNat_inj.mp (hplace'.trans hplace.symm))
  · exact h.not_partitioned hbase hn hpos .refl (hroom 1 (by decide)) hall

/-- The working set is dealt out in all passes exactly when there is but one node, and no
displacement.  In the first pass it is dealt out if there is no displacement. -/
theorem interleaved_partitioned_iff (h : c.Dealt w) :
    (c.Partitioned w (fun _ => True) ↔ c.numProcs = 1 ∧ c.params.disp = 0) ∧
    (c.params.disp = 0 → c.params.size w ≠ 0 → c.numProcs * c.params.bytes w < 4294967296 →
      c.Partitioned w (· = 0)) := by
  have hbytes : c.params.size w ≠ 0 → 0 < c.params.bytes w := fun hne =>
    Nat.mul_pos (Nat.pos_of_ne_zero fun h0 => hne (UInt32.toNat_inj.mp h0)) (by decide)
  refine ⟨⟨fun hall => ?_, fun ⟨hone, hzero⟩ => ?_⟩, fun hzero hsize hfits => ?_⟩
  · have hbase := h.base_of_partitioned hall
    have hdisp : c.params.disp.toNat = 0 := by
      unfold Params.base at hbase
      omega
    exact ⟨h.numProcs_of_partitioned hbase hall, UInt64.toNat_inj.mp hdisp⟩
  · have hfits : c.numProcs * c.params.bytes w < 4294967296 := by
      have hle := bytes_le h.accepted w
      rw [hone]
      omega
    exact fun s hs r hr hw _ => (Cluster.Plain.mk h hzero hfits).partitioned
      (.inr hone) s hs r hr hw (.inr hone)
  · exact fun s hs r hr hw hpass =>
      (Cluster.Plain.mk h hzero hfits).partitioned (.inl (hbytes hsize)) s hs r hr hw (.inl hpass)

/-- Two nodes that write 256 KB at a time in 1 MB, which may be displaced by 1 MB. -/
def twoNodes (displaced : Bool) : Cluster :=
  { params := { cap := 1, disp := if displaced then 1 else 0, wr := 100, wrnd := 0, rrnd := 20
                wrsz := 256, rdsz := 256, wrStride := 0, rdStride := 0, str := 1, file := false
                device := true, mount := false, tid := none }
    interleavedWr := true, interleavedRd := false, numProcs := 2, numProcs_pos := Nat.two_pos }

theorem dealt_twoNodes (displaced : Bool) : (twoNodes displaced).Dealt true := by
  cases displaced with
  | true =>
    exact ⟨by decide +kernel, by decide, by decide, by decide, rfl, rfl, rfl, fun _ => by decide,
      by decide⟩
  | false =>
    exact ⟨by decide +kernel, by decide, by decide, by decide, rfl, rfl, rfl, fun _ => by decide,
      by decide⟩

/-- They are apart in the first pass only. -/
theorem interleaved_partitioned_iff_two :
    (twoNodes false).Partitioned true (· = 0) ∧ ¬(twoNodes false).Partitioned true fun _ => True :=
  ⟨(interleaved_partitioned_iff (dealt_twoNodes false)).2 rfl (by decide) (by decide),
    fun hall =>
      absurd ((interleaved_partitioned_iff (dealt_twoNodes false)).1.mp hall).1 (by decide)⟩

/-- With a displacement the first node begins before the working set.  Without one it shares the
begin of the working set with the other when they come to their third requests. -/
theorem interleaved_overlaps :
    (twoNodes true).Dealt true ∧ (twoNodes false).Dealt true ∧
    (∃ s, Reach (twoNodes true).next (fun _ _ => True) (twoNodes true).start s ∧
      ∃ r ∈ s.requests, r.offset.toNat < (twoNodes true).params.base) ∧
    ∃ s, Reach (twoNodes false).next (fun _ _ => True) (twoNodes false).start s ∧
      ∃ r ∈ s.requests, ∃ r' ∈ s.requests, r.node ≠ r'.node ∧ r.pass = r'.pass ∧
        r.offset = r'.offset := by
  refine ⟨dealt_twoNodes true, dealt_twoNodes false, ?_, ?_⟩
  · exact exists_reach [(0, turnFor true)] (by decide +kernel)
  · exact exists_reach [(0, turnFor true), (0, turnFor true), (0, turnFor true),
      (1, turnFor true), (1, turnFor true), (1, turnFor true)] (by decide +kernel)

end Runs

end Ost.Fitness
