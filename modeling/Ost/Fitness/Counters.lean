import Mathlib.Data.UInt
import Mathlib.Algebra.BigOperators.Group.List.Basic
import Mathlib.Algebra.BigOperators.Group.Finset.Piecewise
import Mathlib.Algebra.Order.Group.Multiset
import Ost.Prog.Run

/-!
# The counters of a sample

The workers of `fitness` count what they do in `s.c`, and `main` reads the counters twice, after
the warm-up and after the test.  Issued bytes are counted in `bytes` when a request goes out, and
completed ones in `bytes_actual`, together with `lat` and `ops`, after it has come back.  The
workers hold `s.c.lock` for this, `main` does not.

Here every access that another thread can come before is a step of its own, and any number of
workers interleave with `main`.  The lists of requests are ghosts: what has come back, what has been
counted in each of the fields, and what had come back when `main` began to take its counters.
-/

namespace Ost.Fitness

open Ost.Prog

/-! ## The workers and `main` -/

/-- A request of a worker, with the latency that it turns out to have.  Requests are told apart by
their numbers. -/
structure Request where
  number : Nat
  len : UInt32
  latency : UInt64
deriving DecidableEq, Repr

/-- Where a worker stands. -/
inductive WorkerStage where
  | /-- About to issue a request. -/
    ready
  | /-- Waiting for the request to be completed. -/
    busy (r : Request)
  | /-- The request has come back, and its latency is known. -/
    completed (r : Request)
  | /-- Holding the lock, with the latency of the request counted. -/
    countedLat (r : Request)
  | /-- Holding the lock, with the request counted in `ops` as well. -/
    countedOps (r : Request)
deriving DecidableEq, Repr

/-- Where `main` stands, named after its last step. -/
inductive MainStage where
  | warming | warmOps | warmLat | testing | testBytes | testOps | done
deriving DecidableEq, Repr

/-- `SAMPLE_COUNTERS_T`, without the times and the offsets. -/
structure SampleCounters where
  opsWarm : UInt64
  opsTest : UInt64
  ops : UInt64
  latWarm : UInt64
  latTest : UInt64
  lat : UInt64
  bytesWarm : UInt64
  bytesTest : UInt64
  bytes : UInt64
  bytesActual : UInt64
deriving DecidableEq, Repr

/-- The ghosts, each oldest first: the requests that have come back, those that are counted in the
fields, and those that had come back when `main` began to take the counters of the warm-up and of
the test.  `opsBase` is what `ops` was set to, less what had been counted in it then. -/
structure Ledger where
  completed : List Request
  bytes : List Request
  lat : List Request
  ops : List Request
  bytesActual : List Request
  opsBase : UInt64
  warmed : List Request
  tested : List Request
deriving DecidableEq, Repr

/-- A sample that is being taken. -/
structure Sample where
  c : SampleCounters
  workers : Nat → WorkerStage
  /-- `s.c.lock`. -/
  locked : Bool
  stage : MainStage
  ledger : Ledger

/-- The options that matter here: `qdep`, and whether there is a warm-up (`s.warm!=0 ||
s.term!=0`). -/
structure Options where
  qdep : Nat
  warmup : Bool

/-- After the `memset`, with the workers started. -/
def Sample.start : Sample :=
  { c := ⟨0, 0, 0, 0, 0, 0, 0, 0, 0, 0⟩, workers := fun _ => .ready, locked := false
    stage := .warming, ledger := ⟨[], [], [], [], [], 0, [], []⟩ }

namespace Sample

variable (s : Sample)

/-- Move a worker. -/
def moveTo (w : Nat) (stage : WorkerStage) : Sample :=
  { s with workers := Function.update s.workers w stage }

/-- The first locked section of `worker_proc_t`, as far as the counters go. -/
def issue (w : Nat) (r : Request) : Sample :=
  { s.moveTo w (.busy r) with
    c := { s.c with bytes := s.c.bytes + r.len.toUInt64 }
    ledger := { s.ledger with bytes := s.ledger.bytes ++ [r] } }

/-- The request comes back. -/
def complete (w : Nat) (r : Request) : Sample :=
  { s.moveTo w (.completed r) with
    ledger := { s.ledger with completed := s.ledger.completed ++ [r] } }

/-- `s.c.lat += latency`, behind the lock. -/
def countLat (w : Nat) (r : Request) : Sample :=
  { s.moveTo w (.countedLat r) with
    locked := true
    c := { s.c with lat := s.c.lat + r.latency }
    ledger := { s.ledger with lat := s.ledger.lat ++ [r] } }

/-- `s.c.ops++`. -/
def countOps (w : Nat) (r : Request) : Sample :=
  { s.moveTo w (.countedOps r) with
    c := { s.c with ops := s.c.ops + 1 }
    ledger := { s.ledger with ops := s.ledger.ops ++ [r] } }

/-- `s.c.bytes_actual += len`, and the end of the locked section. -/
def countBytes (w : Nat) (r : Request) : Sample :=
  { s.moveTo w .ready with
    locked := false
    c := { s.c with bytesActual := s.c.bytesActual + r.len.toUInt64 }
    ledger := { s.ledger with bytesActual := s.ledger.bytesActual ++ [r] } }

/-- The next step of a worker, which issues `r` when it is its turn to issue. -/
def work (w : Nat) (r : Request) : Sample :=
  match s.workers w with
  | .ready => if s.locked then s else s.issue w r
  | .busy r => s.complete w r
  | .completed r => if s.locked then s else s.countLat w r
  | .countedLat r => s.countOps w r
  | .countedOps r => s.countBytes w r

/-- The number of requests that have been counted in `ops`. -/
def counted : UInt64 := UInt64.ofNat s.ledger.ops.length

/-- With `--i_counters`, `main` sets `ops` in each round of the warm-up. -/
def setOps (x : UInt64) : Sample :=
  { s with
    c := { s.c with ops := x }
    ledger := { s.ledger with opsBase := x - s.counted } }

/-- The next of the steps with which `main` takes the counters.  Without a warm-up it goes to the
label `test` at once. -/
def read (warmup : Bool) : Sample :=
  match s.stage with
  | .warming =>
    if warmup then
      { s with
        stage := .warmOps, c := { s.c with opsWarm := s.c.ops }
        ledger := { s.ledger with warmed := s.ledger.completed } }
    else { s with stage := .testing }
  | .warmOps => { s with stage := .warmLat, c := { s.c with latWarm := s.c.lat } }
  | .warmLat => { s with stage := .testing, c := { s.c with bytesWarm := s.c.bytesActual } }
  | .testing =>
    { s with
      stage := .testBytes, c := { s.c with bytesTest := s.c.bytes - s.c.bytesWarm }
      ledger := { s.ledger with tested := s.ledger.completed } }
  | .testBytes => { s with stage := .testOps, c := { s.c with opsTest := s.c.ops - s.c.opsWarm } }
  | .testOps => { s with stage := .done, c := { s.c with latTest := s.c.lat - s.c.latWarm } }
  | .done => s

end Sample

/-- What can happen. -/
inductive SampleEvent where
  | /-- A worker makes a step. -/
    work (w : Nat) (r : Request)
  | /-- `main` sets `ops`. -/
    setOps (x : UInt64)
  | /-- `main` makes a step. -/
    read
deriving DecidableEq, Repr

/-- One event. -/
def sampleNext (o : Options) : SampleEvent → Prog Empty Sample PUnit
  | .work w r => modify fun s => if w < o.qdep then s.work w r else s
  | .setOps x => modify fun s => if o.warmup ∧ s.stage = .warming then s.setOps x else s
  | .read => modify fun s => s.read o.warmup

/-! ## Sums -/

/-- A sum over requests. -/
def total (f : Request → UInt64) (l : List Request) : UInt64 := (l.map f).sum

/-- The length of a request, as `bytes` counts it. -/
def Request.bytes (r : Request) : UInt64 := r.len.toUInt64

section Sums

variable (f : Request → UInt64) (l l' : List Request) (r : Request)

theorem total_append : total f (l ++ l') = total f l + total f l' := by
  rw [total, List.map_append, List.sum_append]
  rfl

theorem total_concat : total f (l ++ [r]) = total f l + f r := by
  rw [total_append, total, total, List.map_singleton, List.sum_singleton]

/-- What has been added since. -/
theorem total_sub : total f (l ++ l') - total f l = total f l' := by
  rw [total_append, add_sub_cancel_left]

variable {l l'}

theorem total_perm (h : l.Perm l') : total f l = total f l' := (h.map f).sum_eq

theorem ofNat_length : UInt64.ofNat l.length = total (fun _ => 1) l := by
  induction l with
  | nil => rfl
  | cons r l ih => rw [List.length_cons, UInt64.ofNat_add, ih, total, total, List.map_cons,
      List.sum_cons, add_comm]; rfl

end Sums

/-! ## The condition -/

namespace WorkerStage

/-- The request has come back, and is not counted in all of the fields. -/
def Counts : WorkerStage → Prop
  | .completed _ | .countedLat _ | .countedOps _ => True
  | .ready | .busy _ => False

instance : DecidablePred Counts
  | .completed _ | .countedLat _ | .countedOps _ => inferInstanceAs (Decidable True)
  | .ready | .busy _ => inferInstanceAs (Decidable False)

end WorkerStage

/-- Between two of the steps with which it takes counters, after a warm-up or after a test. -/
def MainStage.Reads : MainStage → Prop
  | .warmOps | .warmLat | .testBytes | .testOps => True
  | .warming | .testing | .done => False

instance : DecidablePred MainStage.Reads
  | .warmOps | .warmLat | .testBytes | .testOps => inferInstanceAs (Decidable True)
  | .warming | .testing | .done => inferInstanceAs (Decidable False)

/-- When `main` begins to take the counters of the warm-up, no worker has a request that has come
back and is not counted.  When it begins to take those of the test, none has a request at all.
While it takes them, no request is counted. -/
def Clean (o : Options) (s : Sample) : SampleEvent → Prop
  | .read =>
    (s.stage = .warming → o.warmup = true → ∀ w < o.qdep, ¬(s.workers w).Counts) ∧
      (s.stage = .testing → ∀ w < o.qdep, s.workers w = .ready)
  | .work w _ => s.stage.Reads → ¬(s.workers w).Counts
  | .setOps _ => True

instance (o : Options) (s : Sample) (e : SampleEvent) : Decidable (Clean o s e) :=
  match e with
  | .read => inferInstanceAs (Decidable (_ ∧ _))
  | .work _ _ => inferInstanceAs (Decidable (_ → _))
  | .setOps _ => inferInstanceAs (Decidable True)

/-! ## Where the requests are -/

namespace WorkerStage

/-- A request that has not come back. -/
def underWay : WorkerStage → Multiset Request
  | .busy r => {r}
  | _ => 0

/-- A request that has come back and is not counted in `lat`. -/
def awaitsLat : WorkerStage → Multiset Request
  | .completed r => {r}
  | _ => 0

/-- A request that has come back and is not counted in `ops`. -/
def awaitsOps : WorkerStage → Multiset Request
  | .completed r | .countedLat r => {r}
  | _ => 0

/-- A request that has come back and is not counted in `bytes_actual`. -/
def awaitsBytes : WorkerStage → Multiset Request
  | .completed r | .countedLat r | .countedOps r => {r}
  | _ => 0

end WorkerStage

namespace Sample

variable {o : Options} {s s' : Sample} {w : Nat} {st : WorkerStage} {r : Request}
  {f : WorkerStage → Multiset Request}

/-- What the workers have, together. -/
def fleet (o : Options) (f : WorkerStage → Multiset Request) (s : Sample) : Multiset Request :=
  ∑ w ∈ Finset.range o.qdep, f (s.workers w)

/-- A worker moves, and the others stay. -/
theorem fleet_moveTo (hw : w < o.qdep) :
    (s.moveTo w st).fleet o f + f (s.workers w) = s.fleet o f + f st := by
  have hmem : w ∈ Finset.range o.qdep := Finset.mem_range.mpr hw
  have hupdate : (fun v => f ((s.moveTo w st).workers v)) =
      Function.update (fun v => f (s.workers v)) w (f st) := by
    funext v
    by_cases hv : v = w
    · simp [moveTo, hv]
    · simp [moveTo, hv]
  have hold : s.fleet o f = f (s.workers w) + ∑ v ∈ Finset.range o.qdep \ {w}, f (s.workers v) := by
    rw [fleet, ← Finset.sum_sdiff (Finset.singleton_subset_iff.mpr hmem), Finset.sum_singleton,
      add_comm]
  rw [hold, fleet, hupdate, Finset.sum_update_of_mem hmem, add_right_comm, add_comm (f st),
    add_right_comm]

/-- A balance: what is in the first list is in the second, or with a worker. -/
def Balanced (o : Options) (f : WorkerStage → Multiset Request) (s : Sample) (l l' : List Request) :
    Prop := (l : Multiset Request) = l' + s.fleet o f

/-- Where no worker has anything. -/
theorem Balanced.settled {l l' : List Request} (h : s.Balanced o f l l')
    (hf : ∀ w < o.qdep, f (s.workers w) = 0) : l.Perm l' := by
  have hzero : s.fleet o f = 0 := Finset.sum_eq_zero fun w hw => hf w (Finset.mem_range.mp hw)
  rw [Balanced, hzero, add_zero] at h
  exact Multiset.coe_eq_coe.mp h

theorem coe_concat (l : List Request) (r : Request) :
    ((l ++ [r] : List Request) : Multiset Request) = l + {r} := (Multiset.coe_add l [r]).symm

section Balances

variable {l l' : List Request} (h : s.Balanced o f l l') (hw : w < o.qdep)
include h hw

/-- A request is new in the first list, and with a worker. -/
theorem Balanced.gets (hold : f (s.workers w) = 0) (hnew : f st = {r}) :
    (s.moveTo w st).Balanced o f (l ++ [r]) l' := by
  have hf : (s.moveTo w st).fleet o f + f (s.workers w) = s.fleet o f + f st := fleet_moveTo hw
  rw [hold, hnew, add_zero] at hf
  rw [Balanced, coe_concat, h, hf, add_assoc]

/-- A worker gives a request to the second list. -/
theorem Balanced.gives (hold : f (s.workers w) = {r}) (hnew : f st = 0) :
    (s.moveTo w st).Balanced o f l (l' ++ [r]) := by
  have hf : (s.moveTo w st).fleet o f + f (s.workers w) = s.fleet o f + f st := fleet_moveTo hw
  rw [hold, hnew, add_zero] at hf
  rw [Balanced, coe_concat, h, ← hf, add_assoc]
  exact congrArg _ (add_comm _ _)

theorem Balanced.keeps (hsame : f st = f (s.workers w)) : (s.moveTo w st).Balanced o f l l' := by
  have hf : (s.moveTo w st).fleet o f + f (s.workers w) = s.fleet o f + f st := fleet_moveTo hw
  rw [hsame] at hf
  rw [Balanced, add_right_cancel hf]
  exact h

end Balances

/-- Each request that was issued has come back or is under way, and each that has come back is
counted or awaits it. -/
structure Accounted (o : Options) (s : Sample) : Prop where
  bytes : s.Balanced o WorkerStage.underWay s.ledger.bytes s.ledger.completed
  lat : s.Balanced o WorkerStage.awaitsLat s.ledger.completed s.ledger.lat
  ops : s.Balanced o WorkerStage.awaitsOps s.ledger.completed s.ledger.ops
  bytesActual : s.Balanced o WorkerStage.awaitsBytes s.ledger.completed s.ledger.bytesActual

theorem Accounted.congr (h : Accounted o s) (hw : s'.workers = s.workers)
    (hl : s'.ledger = { s.ledger with
      opsBase := s'.ledger.opsBase, warmed := s'.ledger.warmed, tested := s'.ledger.tested }) :
    Accounted o s' := by
  have hf (f : WorkerStage → Multiset Request) : s'.fleet o f = s.fleet o f := by
    rw [fleet, fleet, hw]
  obtain ⟨hb, hla, ho, ha⟩ := h
  constructor <;> rw [Balanced, hl, hf] <;> assumption

theorem Accounted.work (h : Accounted o s) (hw : w < o.qdep) (r : Request) :
    Accounted o (s.work w r) := by
  obtain ⟨hb, hl, ho, ha⟩ := h
  unfold Sample.work
  split
  · rename_i hs
    split
    · exact ⟨hb, hl, ho, ha⟩
    · refine ⟨hb.gets hw ?_ rfl, hl.keeps hw ?_, ho.keeps hw ?_, ha.keeps hw ?_⟩ <;> rw [hs] <;> rfl
  · rename_i r hs
    refine ⟨hb.gives hw ?_ rfl, hl.gets hw ?_ rfl, ho.gets hw ?_ rfl, ha.gets hw ?_ rfl⟩ <;>
      rw [hs] <;> rfl
  · rename_i r hs
    split
    · exact ⟨hb, hl, ho, ha⟩
    · refine ⟨hb.keeps hw ?_, hl.gives hw ?_ rfl, ho.keeps hw ?_, ha.keeps hw ?_⟩ <;>
        rw [hs] <;> rfl
  · rename_i r hs
    refine ⟨hb.keeps hw ?_, hl.keeps hw ?_, ho.gives hw ?_ rfl, ha.keeps hw ?_⟩ <;> rw [hs] <;> rfl
  · rename_i r hs
    refine ⟨hb.keeps hw ?_, hl.keeps hw ?_, ho.keeps hw ?_, ha.gives hw ?_ rfl⟩ <;> rw [hs] <;> rfl

end Sample

/-! ## What the counters count -/

/-- The counters agree with the ledger. -/
structure Sample.Counted (s : Sample) : Prop where
  bytes : s.c.bytes = total Request.bytes s.ledger.bytes
  lat : s.c.lat = total Request.latency s.ledger.lat
  ops : s.c.ops = s.ledger.opsBase + total (fun _ => 1) s.ledger.ops
  bytesActual : s.c.bytesActual = total Request.bytes s.ledger.bytesActual

/-- The requests that are counted in the fields that `main` has yet to read are those that had come
back when it began. -/
def Sample.Settled (s : Sample) : Prop :=
  match s.stage with
  | .warmOps => s.ledger.lat.Perm s.ledger.warmed ∧ s.ledger.bytesActual.Perm s.ledger.warmed
  | .warmLat => s.ledger.bytesActual.Perm s.ledger.warmed
  | .testBytes => s.ledger.ops.Perm s.ledger.tested ∧ s.ledger.lat.Perm s.ledger.tested
  | .testOps => s.ledger.lat.Perm s.ledger.tested
  | .warming | .testing | .done => True

/-- What `main` has read agrees with the ledger. -/
def Sample.Read (s : Sample) : Prop :=
  match s.stage with
  | .warming => s.c.opsWarm = 0 ∧ s.c.latWarm = 0 ∧ s.c.bytesWarm = 0 ∧ s.ledger.warmed = []
  | .warmOps => s.ledger.warmed <+: s.ledger.completed ∧
      s.c.opsWarm = s.ledger.opsBase + total (fun _ => 1) s.ledger.warmed
  | .warmLat => s.ledger.warmed <+: s.ledger.completed ∧
      s.c.opsWarm = s.ledger.opsBase + total (fun _ => 1) s.ledger.warmed ∧
      s.c.latWarm = total Request.latency s.ledger.warmed
  | .testing => s.ledger.warmed <+: s.ledger.completed ∧
      s.c.opsWarm = s.ledger.opsBase + total (fun _ => 1) s.ledger.warmed ∧
      s.c.latWarm = total Request.latency s.ledger.warmed ∧
      s.c.bytesWarm = total Request.bytes s.ledger.warmed
  | .testBytes => s.ledger.warmed <+: s.ledger.tested ∧
      s.c.opsWarm = s.ledger.opsBase + total (fun _ => 1) s.ledger.warmed ∧
      s.c.latWarm = total Request.latency s.ledger.warmed ∧
      s.c.bytesTest = total Request.bytes s.ledger.tested - total Request.bytes s.ledger.warmed
  | .testOps => s.ledger.warmed <+: s.ledger.tested ∧
      s.c.opsTest = total (fun _ => 1) s.ledger.tested - total (fun _ => 1) s.ledger.warmed ∧
      s.c.latWarm = total Request.latency s.ledger.warmed ∧
      s.c.bytesTest = total Request.bytes s.ledger.tested - total Request.bytes s.ledger.warmed
  | .done => s.ledger.warmed <+: s.ledger.tested ∧
      s.c.opsTest = total (fun _ => 1) s.ledger.tested - total (fun _ => 1) s.ledger.warmed ∧
      s.c.latTest = total Request.latency s.ledger.tested - total Request.latency s.ledger.warmed ∧
      s.c.bytesTest = total Request.bytes s.ledger.tested - total Request.bytes s.ledger.warmed

namespace Sample

variable {o : Options} {s s' : Sample} {w : Nat}

/-- Workers do not disturb what `main` has read. -/
theorem Read.of_grows (h : s.Read) (hstage : s'.stage = s.stage)
    (hc : s'.c = { s.c with
      ops := s'.c.ops, lat := s'.c.lat, bytes := s'.c.bytes, bytesActual := s'.c.bytesActual })
    (hl : s'.ledger = { s.ledger with
      completed := s'.ledger.completed, bytes := s'.ledger.bytes, lat := s'.ledger.lat
      ops := s'.ledger.ops, bytesActual := s'.ledger.bytesActual })
    (hgrows : s.ledger.completed <+: s'.ledger.completed) : s'.Read := by
  unfold Read at *
  rw [hstage, hc, hl]
  cases hs : s.stage <;> simp only [hs] at h ⊢
  case warmOps => exact ⟨h.1.trans hgrows, h.2⟩
  case warmLat => exact ⟨h.1.trans hgrows, h.2⟩
  case testing => exact ⟨h.1.trans hgrows, h.2⟩
  all_goals exact h

/-- Workers that count nothing leave what is settled. -/
theorem Settled.of_eq (h : s.Settled) (hstage : s'.stage = s.stage)
    (hl : s'.ledger = { s.ledger with
      completed := s'.ledger.completed, bytes := s'.ledger.bytes }) : s'.Settled := by
  unfold Settled at *
  rw [hstage, hl]
  exact h

theorem Settled.of_not_reads (h : ¬s.stage.Reads) : s.Settled := by
  unfold Settled
  cases hs : s.stage with
  | warming | testing | done => trivial
  | warmOps | warmLat | testBytes | testOps =>
    rw [hs] at h
    exact absurd trivial h

/-- The invariant. -/
structure Sound (o : Options) (s : Sample) : Prop where
  accounted : s.Accounted o
  counted : s.Counted
  settled : s.Settled
  read : s.Read
  /-- Only the warm-up sets `ops`. -/
  base : o.warmup = false → s.ledger.opsBase = 0

theorem Counted.work (h : s.Counted) (w : Nat) (r : Request) : (s.work w r).Counted := by
  obtain ⟨hb, hl, ho, ha⟩ := h
  unfold Sample.work
  split
  · split
    · exact ⟨hb, hl, ho, ha⟩
    · exact ⟨(congrArg (· + r.bytes) hb).trans (total_concat _ _ _).symm, hl, ho, ha⟩
  · exact ⟨hb, hl, ho, ha⟩
  · rename_i r _
    split
    · exact ⟨hb, hl, ho, ha⟩
    · exact ⟨hb, (congrArg (· + r.latency) hl).trans (total_concat _ _ _).symm, ho, ha⟩
  · refine ⟨hb, hl, (congrArg (· + 1) ho).trans ?_, ha⟩
    rw [add_assoc]
    exact congrArg _ (total_concat (fun _ => 1) _ _).symm
  · rename_i r _
    exact ⟨hb, hl, ho, (congrArg (· + r.bytes) ha).trans (total_concat _ _ _).symm⟩

theorem Sound.work (h : Sound o s) (hw : w < o.qdep) (r : Request)
    (hclean : Clean o s (.work w r)) : Sound o (s.work w r) := by
  refine ⟨h.accounted.work hw r, h.counted.work w r, ?_, ?_, ?_⟩
  · by_cases hreads : s.stage.Reads
    · have hnot : ¬(s.workers w).Counts := hclean hreads
      unfold Sample.work
      split
      · split
        · exact h.settled
        · exact h.settled.of_eq rfl rfl
      · exact h.settled.of_eq rfl rfl
      all_goals
        rename_i hs
        rw [hs] at hnot
        exact absurd trivial hnot
    · have hstage : (s.work w r).stage = s.stage := by
        unfold Sample.work
        split <;> first | rfl | split <;> rfl
      exact .of_not_reads (hstage ▸ hreads)
  · unfold Sample.work
    split
    · split
      · exact h.read
      · exact h.read.of_grows rfl rfl rfl List.prefix_rfl
    · exact h.read.of_grows rfl rfl rfl (List.prefix_append _ _)
    · split
      · exact h.read
      · exact h.read.of_grows rfl rfl rfl List.prefix_rfl
    · exact h.read.of_grows rfl rfl rfl List.prefix_rfl
    · exact h.read.of_grows rfl rfl rfl List.prefix_rfl
  · unfold Sample.work
    split
    · split
      · exact h.base
      · exact h.base
    · exact h.base
    · split
      · exact h.base
      · exact h.base
    · exact h.base
    · exact h.base

/-- `main` sets `ops` before it reads it. -/
theorem Sound.setOps (h : Sound o s) (hwarm : o.warmup = true) (hs : s.stage = .warming)
    (x : UInt64) : Sound o (s.setOps x) where
  accounted := h.accounted.congr rfl rfl
  counted := { h.counted with
    ops := by
      rw [Sample.setOps, Sample.counted, ofNat_length, sub_add_cancel] }
  settled := h.settled
  read := by
    have hread := h.read
    unfold Read at *
    rw [hs] at hread
    rw [show (s.setOps x).stage = .warming from hs]
    exact hread
  base hf := by rw [hwarm] at hf; exact absurd hf (by simp)

/-- A worker that counts nothing has nothing to count. -/
theorem awaits_of_not_counts {st : WorkerStage} (h : ¬st.Counts) :
    st.awaitsLat = 0 ∧ st.awaitsOps = 0 ∧ st.awaitsBytes = 0 := by
  cases st with
  | ready | busy => exact ⟨rfl, rfl, rfl⟩
  | completed | countedLat | countedOps => exact absurd trivial h

/-- When no worker has anything to count, the requests that are counted are those that have come
back. -/
theorem Accounted.settled (h : Accounted o s) (hnot : ∀ w < o.qdep, ¬(s.workers w).Counts) :
    s.ledger.lat.Perm s.ledger.completed ∧ s.ledger.ops.Perm s.ledger.completed ∧
      s.ledger.bytesActual.Perm s.ledger.completed :=
  ⟨(h.lat.settled fun w hw => (awaits_of_not_counts (hnot w hw)).1).symm,
    (h.ops.settled fun w hw => (awaits_of_not_counts (hnot w hw)).2.1).symm,
    (h.bytesActual.settled fun w hw => (awaits_of_not_counts (hnot w hw)).2.2).symm⟩

theorem Sound.step_read (h : Sound o s) (hclean : Clean o s .read) : Sound o (s.read o.warmup) := by
  obtain ⟨hacc, ⟨hb, hl, ho, ha⟩, hset, hr, hbase⟩ := h
  unfold Read at hr
  unfold Settled at hset
  unfold Sample.read
  cases hs : s.stage <;> simp only [hs] at hr hset ⊢
  case warming =>
    obtain ⟨h₁, h₂, h₃, h₄⟩ := hr
    split
    · rename_i hw
      obtain ⟨hlat, hops, hbytes⟩ := hacc.settled (hclean.1 hs hw)
      refine ⟨hacc.congr rfl rfl, ⟨hb, hl, ho, ha⟩, ⟨hlat, hbytes⟩, ⟨List.prefix_rfl, ?_⟩, hbase⟩
      exact ho.trans (congrArg _ (total_perm _ hops))
    · rename_i hw
      refine ⟨hacc.congr rfl rfl, ⟨hb, hl, ho, ha⟩, trivial, ⟨?_, ?_, ?_, ?_⟩, hbase⟩
      · exact h₄ ▸ List.nil_prefix
      · rw [h₁, h₄, hbase (by simpa using hw)]
        rfl
      · rw [h₂, h₄]
        rfl
      · rw [h₃, h₄]
        rfl
  case warmOps =>
    exact ⟨hacc.congr rfl rfl, ⟨hb, hl, ho, ha⟩, hset.2,
      ⟨hr.1, hr.2, hl.trans (total_perm _ hset.1)⟩, hbase⟩
  case warmLat =>
    exact ⟨hacc.congr rfl rfl, ⟨hb, hl, ho, ha⟩, trivial,
      ⟨hr.1, hr.2.1, hr.2.2, ha.trans (total_perm _ hset)⟩, hbase⟩
  case testing =>
    obtain ⟨h₁, h₂, h₃, h₄⟩ := hr
    have hready := hclean.2 hs
    obtain ⟨hlat, hops, -⟩ := hacc.settled fun w hw => by
      rw [hready w hw]
      exact id
    have hissued : s.ledger.bytes.Perm s.ledger.completed :=
      hacc.bytes.settled fun w hw => by
        rw [hready w hw]
        rfl
    refine ⟨hacc.congr rfl rfl, ⟨hb, hl, ho, ha⟩, ⟨hops, hlat⟩, ⟨h₁, h₂, h₃, ?_⟩, hbase⟩
    rw [hb, h₄, total_perm _ hissued]
  case testBytes =>
    obtain ⟨h₁, h₂, h₃, h₄⟩ := hr
    refine ⟨hacc.congr rfl rfl, ⟨hb, hl, ho, ha⟩, hset.2, ⟨h₁, ?_, h₃, h₄⟩, hbase⟩
    rw [ho, h₂, add_sub_add_left_eq_sub, total_perm _ hset.1]
  case testOps =>
    obtain ⟨h₁, h₂, h₃, h₄⟩ := hr
    refine ⟨hacc.congr rfl rfl, ⟨hb, hl, ho, ha⟩, trivial, ⟨h₁, h₂, ?_, h₄⟩, hbase⟩
    rw [hl, h₃, total_perm _ hset]
  case done =>
    exact ⟨hacc.congr rfl rfl, ⟨hb, hl, ho, ha⟩, by unfold Settled; rw [hs]; trivial,
      by unfold Read; rw [hs]; exact hr, hbase⟩

theorem sound_start : Sound o .start := by
  have hnone (f : WorkerStage → Multiset Request) (hf : f .ready = 0) :
      Sample.start.Balanced o f [] [] := by
    have hzero : Sample.start.fleet o f = 0 := Finset.sum_eq_zero fun _ _ => hf
    rw [Balanced, hzero, add_zero]
  exact ⟨⟨hnone _ rfl, hnone _ rfl, hnone _ rfl, hnone _ rfl⟩, ⟨rfl, rfl, rfl, rfl⟩, trivial,
    ⟨rfl, rfl, rfl, rfl⟩, fun _ => rfl⟩

end Sample

theorem sampleNext_sound {o : Options} {s : Sample} {e : SampleEvent} (h : s.Sound o)
    (hclean : Clean o s e) : ensures (sampleNext o e) (fun _ s' => s'.Sound o) s := by
  cases e with
  | work w r =>
    show Sample.Sound o (if w < o.qdep then s.work w r else s)
    split
    · rename_i hw
      exact h.work hw r hclean
    · exact h
  | setOps x =>
    show Sample.Sound o (if o.warmup ∧ s.stage = .warming then s.setOps x else s)
    split
    · rename_i hw
      exact h.setOps hw.1 hw.2 x
    · exact h
  | read => exact h.step_read hclean

/-! ## The figures of a test -/

/-- The figures are those of the requests `l`. -/
structure Sample.Describes (s : Sample) (l : List Request) : Prop where
  bytesTest : s.c.bytesTest = total Request.bytes l
  latTest : s.c.latTest = total Request.latency l
  opsTest : s.c.opsTest = UInt64.ofNat l.length

/-- In a run in which `main` takes its counters while no request is half counted, and those of the
test while none is under way, its figures are those of the requests that came back between the
moments at which it began to take the two. -/
theorem counters_describe {o : Options} {s : Sample}
    (h : Reach (sampleNext o) (Clean o) .start s) (hs : s.stage = .done) :
    ∃ l, s.ledger.tested = s.ledger.warmed ++ l ∧ s.Describes l := by
  have hread := (h.invariant (P := Sample.Sound o) Sample.sound_start
    fun _ _ hi ok => sampleNext_sound hi ok).read
  unfold Sample.Read at hread
  rw [hs] at hread
  obtain ⟨⟨l, hl⟩, hops, hlat, hbytes⟩ := hread
  rw [← hl, total_sub] at hops hlat hbytes
  exact ⟨l, hl.symm, hbytes, hlat, hops.trans (ofNat_length (l := l)).symm⟩

/-- A request during the warm-up and another during the test, both of which come back in time. -/
theorem counters_describe_two : ∃ s, Reach (sampleNext ⟨1, true⟩) (Clean ⟨1, true⟩) .start s ∧
    s.c.bytesTest = 1024 ∧ ∃ l, s.ledger.tested = s.ledger.warmed ++ l ∧ s.Describes l := by
  have hrun : ∃ s, Reach (sampleNext ⟨1, true⟩) (Clean ⟨1, true⟩) .start s ∧ s.stage = .done ∧
      s.c.bytesTest = 1024 := exists_reach
    (List.replicate 5 (.work 0 ⟨0, 512, 7⟩) ++ List.replicate 3 .read ++
      List.replicate 5 (.work 0 ⟨1, 1024, 9⟩) ++ List.replicate 3 .read) (by decide +kernel)
  obtain ⟨s, h, hs, hb⟩ := hrun
  exact ⟨s, h, hb, counters_describe h hs⟩

/-- The bytes of a request that is still under way at the end of the test are counted as well. -/
theorem counters_in_flight : ∃ s, Reach (sampleNext ⟨1, true⟩) (fun _ _ => True) .start s ∧
    s.stage = .done ∧ ∀ l, s.ledger.tested = s.ledger.warmed ++ l → ¬s.Describes l := by
  have hrun : ∃ s, Reach (sampleNext ⟨1, true⟩) (fun _ _ => True) .start s ∧ s.stage = .done ∧
      s.ledger.tested = [] ∧ s.c.bytesTest = 4096 := exists_reach
    (List.replicate 3 .read ++ [.work 0 ⟨0, 4096, 7⟩] ++ List.replicate 3 .read) (by decide +kernel)
  obtain ⟨s, h, hs, ht, hb⟩ := hrun
  refine ⟨s, h, hs, fun l hl hd => ?_⟩
  obtain ⟨-, rfl⟩ := List.append_eq_nil_iff.mp (hl.symm.trans ht)
  exact absurd (hb.symm.trans hd.bytesTest) (by decide)

end Ost.Fitness
