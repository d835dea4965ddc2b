import Mathlib.Data.UInt
import Ost.Prog.Run

/-!
# The asynchronous test

`throughput_test` draws a sample of the parameters and runs `async_test` with it, and so on.  The
workers of a run share the offset `g_offset`.  Each of them moves it behind the lock, to a random
multiple of the request size or to the end of the request before, and the request that is issued
begins there.

A sequential offset starts again at zero when it becomes equal to `g_size`.  It does so as long as
it is a multiple of the request size.  The offset is kept from one run to the next, though, and a
run with larger requests may find an offset that is no multiple of their size.  Its sequential
requests then pass the end of the device, and do not come back.
-/

namespace Ost.Tests

open Ost.Prog

/-! ## Samples -/

/-- `MIN_REQUEST`. -/
def minRequest : Nat := 1024

/-- `MAX_REQUEST`. -/
def maxRequest : Nat := 262144

/-- `MIN_DEPTH`. -/
def minDepth : Nat := 1

/-- `MAX_DEPTH`. -/
def maxDepth : Nat := 32

/-- `MAX_SIZE`. -/
def maxSize : UInt64 := 262144 * 1024 * 1

/-- `MAX_OUTSTANDING`. -/
def maxOutstanding : Nat := 262144 * 16

/-- What `rand` returns to `RANDOMLY_SAMPLE`.  The think time is left out. -/
structure Draw where
  size : Fin 2147483648
  depth : Fin 2147483648
  read : Fin 2147483648
  random : Fin 2147483648

/-- The parameters of a run. -/
structure Sample where
  requestSize : Nat
  depth : Nat
  read : Nat
  random : Nat

/-- `RANDOMLY_SAMPLE`.  The percentages are between 0 and 100. -/
def randomlySample (d : Draw) : Sample :=
  { requestSize := 2 ^ (Nat.log2 minRequest +
      d.size.val % (Nat.log2 maxRequest - Nat.log2 minRequest + 1))
    depth := d.depth.val % (maxDepth - minDepth + 1) + minDepth
    read := d.read.val % (100 - 0 + 1) + 0
    random := d.random.val % (100 - 0 + 1) + 0 }

/-! ## The test -/

/-- A request that a worker issues. -/
structure Request where
  worker : Nat
  writing : Bool
  offset : UInt64
  len : UInt64
deriving DecidableEq, Repr

/-- The globals of the test, and how many workers are running.  The requests are a ghost: those that
have been issued, oldest first. -/
structure World where
  /-- `g_offset`. -/
  offset : UInt64
  /-- `g_size`. -/
  size : UInt64
  /-- `g_rqst`. -/
  rqst : UInt32
  /-- `g_random_percent`. -/
  randomPercent : Nat
  /-- `g_write_percent`. -/
  writePercent : Nat
  workers : Nat
  requests : List Request
deriving DecidableEq, Repr

/-- The globals as they are initialised. -/
def World.start : World :=
  { offset := 0, size := maxSize, rqst := 1024, randomPercent := 0, writePercent := 0, workers := 0
    requests := [] }

/-- Why the process ends. -/
inductive TestStop where
  | /-- A division by zero. -/
    divisionByZero
  | /-- "bad length". -/
    badLength
deriving DecidableEq, Repr

/-- `async_test`, up to the point where the workers run. -/
def asyncTest (maxSize : UInt64) (requestSize queueDepth readPercent randomPercent : Nat) :
    Prog TestStop World Int := do
  if maxDepth < queueDepth then return -1
  if maxRequest < requestSize then return -1
  if requestSize % 512 ≠ 0 then return -1
  modify fun w => { w with
    size := maxSize, rqst := UInt32.ofNat requestSize, writePercent := 100 - readPercent
    randomPercent, workers := queueDepth }
  return 0

/-- What `rand` returns to a worker: for the mode, for a random offset, and for the kind. -/
structure Rand where
  mode : Fin 2147483648
  place : Fin 2147483648
  kind : Fin 2147483648

/-- The next offset. -/
def nextOffset (r : Rand) (len : UInt64) (w : World) : Prog TestStop World UInt64 :=
  if r.mode.val % 100 + 1 ≤ w.randomPercent then
    if len = 0 ∨ w.size / len = 0 then halt .divisionByZero
    else pure (UInt64.ofNat r.place.val % (w.size / len) * len)
  else
    let offset := w.offset + len
    pure (if offset = w.size then 0 else offset)

/-- `worker_proc_t`, up to the issue of one request, when it samples. -/
def workerTurn (worker : Nat) (r : Rand) : Prog TestStop World PUnit := do
  let w ← get
  let len := w.rqst.toUInt64
  let offset ← nextOffset r len w
  modify fun w => { w with offset }
  if len % 512 ≠ 0 then halt .badLength
  else if maxRequest < len.toNat then pure ⟨⟩
  else modify fun w => { w with
    requests := w.requests ++ [⟨worker, r.kind.val % 100 + 1 ≤ w.writePercent, offset, len⟩] }

/-- What happens. -/
inductive Event where
  | /-- A sample is drawn, and `async_test` is called with it. -/
    sample (d : Draw)
  | /-- A worker takes its turn. -/
    turn (worker : Nat) (r : Rand)
  | /-- The workers are stopped. -/
    stop

/-- A sample is drawn between two runs, and is not drawn again because it allows for too many
outstanding bytes. -/
def Begins (w : World) (d : Draw) : Prop :=
  w.workers = 0 ∧ (randomlySample d).requestSize * (randomlySample d).depth ≤ maxOutstanding

instance instDecidableBegins (w : World) (d : Draw) : Decidable (Begins w d) :=
  inferInstanceAs (Decidable (_ ∧ _))

/-- One event of `throughput_test`. -/
def next : Event → Prog TestStop World PUnit
  | .sample d => do
    let w ← get
    if Begins w d then
      let s := randomlySample d
      let _ ← asyncTest maxSize s.requestSize s.depth s.read s.random
    return ⟨⟩
  | .turn worker r => do
    let w ← get
    guarded (worker < w.workers) (workerTurn worker r)
  | .stop => modify fun w => { w with workers := 0 }

/-! ## The condition -/

/-- Every request ends on the device. -/
def InRange (w : World) : Prop := ∀ r ∈ w.requests, r.offset.toNat + r.len.toNat ≤ w.size.toNat

instance instDecidableInRange (w : World) : Decidable (InRange w) :=
  inferInstanceAs (Decidable (∀ r ∈ w.requests, _))

/-- A run begins at a multiple of its request size, or all its requests are random. -/
def Aligned (w : World) : Event → Prop
  | .sample d => Begins w d →
    (randomlySample d).random = 100 ∨ (randomlySample d).requestSize ∣ w.offset.toNat
  | .turn _ _ | .stop => True

instance instDecidableAligned (w : World) : ∀ e, Decidable (Aligned w e)
  | .sample d => inferInstanceAs (Decidable (Begins w d → _ ∨ _))
  | .turn _ _ | .stop => isTrue trivial

/-- The workers take turns. -/
def IsTurn : Event → Prop
  | .turn _ _ => True
  | .sample _ | .stop => False

/-- Whatever the workers of the run do, their requests end on the device. -/
def RunInRange (w : World) (d : Draw) : Prop :=
  ∀ w₁ w₂, next (.sample d) w = .ret ⟨⟩ w₁ → Reach next (fun _ => IsTurn) w₁ w₂ → InRange w₂

/-! ## Request sizes -/

/-- A size that can be sampled: requests of this size tile the device. -/
structure Sized (n : Nat) : Prop where
  pos : 0 < n
  le : n ≤ maxRequest
  sectors : 512 ∣ n
  tiles : n ∣ maxSize.toNat

/-- The sizes that are sampled are powers of two. -/
theorem sized_sample (d : Draw) : Sized (randomlySample d).requestSize := by
  have hk : d.size.val % 9 ≤ 8 := by omega
  have heq : (randomlySample d).requestSize = 2 ^ (10 + d.size.val % 9) := rfl
  rw [heq]
  refine ⟨Nat.two_pow_pos _, ?_, ?_, ?_⟩
  · exact Nat.pow_le_pow_right (by decide) (show 10 + d.size.val % 9 ≤ 18 by omega)
  · exact pow_dvd_pow 2 (show 9 ≤ 10 + d.size.val % 9 by omega)
  · exact pow_dvd_pow 2 (show 10 + d.size.val % 9 ≤ 28 by omega)

theorem depth_sample (d : Draw) :
    0 < (randomlySample d).depth ∧ (randomlySample d).depth ≤ maxDepth := by
  have heq : (randomlySample d).depth = d.depth.val % 32 + 1 := rfl
  rw [heq, maxDepth]
  omega

theorem Sized.room {n o : Nat} (h : Sized n) (ho : n ∣ o) (hlt : o < maxSize.toNat) :
    o + n ≤ maxSize.toNat := by
  obtain ⟨a, rfl⟩ := ho
  obtain ⟨b, hb⟩ := h.tiles
  rw [hb] at hlt ⊢
  rw [← Nat.mul_succ]
  exact Nat.mul_le_mul_left n (Nat.lt_of_mul_lt_mul_left hlt)

/-! ## A turn -/

variable {w w' : World} {r : Rand} {worker : Nat} {d : Draw}

/-- The world after a request at `o`. -/
def World.issue (w : World) (worker : Nat) (r : Rand) (o : UInt64) : World :=
  { w with
    offset := o
    requests := w.requests ++
      [⟨worker, r.kind.val % 100 + 1 ≤ w.writePercent, o, w.rqst.toUInt64⟩] }

/-- Where the next request begins. -/
def Moves (w : World) (r : Rand) (o : Nat) : Prop :=
  if r.mode.val % 100 + 1 ≤ w.randomPercent then w.rqst.toNat ∣ o ∧ o < maxSize.toNat
  else o = if w.offset.toNat + w.rqst.toNat = maxSize.toNat then 0
    else w.offset.toNat + w.rqst.toNat

theorem nextOffset_ret (hsize : w.size = maxSize) (hbelow : w.offset.toNat < maxSize.toNat)
    (hn : Sized w.rqst.toNat) :
    ∃ o, nextOffset r w.rqst.toUInt64 w w = .ret o w ∧ Moves w r o.toNat := by
  have hlen : w.rqst.toUInt64.toNat = w.rqst.toNat := UInt32.toNat_toUInt64 _
  have hpos := hn.pos
  have hmax : maxSize.toNat = 268435456 := rfl
  unfold nextOffset Moves
  split
  · have hne : w.rqst.toUInt64 ≠ 0 := by
      intro h
      rw [h] at hlen
      exact absurd hlen.symm (Nat.ne_of_gt hpos)
    obtain ⟨b, hb⟩ := hn.tiles
    have hdiv : (w.size / w.rqst.toUInt64).toNat = b := by
      rw [UInt64.toNat_div, hlen, hsize, hb, Nat.mul_div_cancel_left b hpos]
    have hbpos : 0 < b := by
      refine Nat.pos_of_ne_zero ?_
      rintro rfl
      exact absurd hb (by rw [Nat.mul_zero]; decide)
    have hdne : w.size / w.rqst.toUInt64 ≠ 0 := by
      intro h
      rw [h] at hdiv
      exact absurd hdiv (Nat.ne_of_lt hbpos)
    rw [if_neg (not_or.mpr ⟨hne, hdne⟩)]
    refine ⟨_, rfl, ?_⟩
    have hmod : (UInt64.ofNat r.place.val % (w.size / w.rqst.toUInt64)).toNat < b := by
      rw [UInt64.toNat_mod, hdiv]
      exact Nat.mod_lt _ hbpos
    set k := UInt64.ofNat r.place.val % (w.size / w.rqst.toUInt64)
    have hle : k.toNat * w.rqst.toNat < maxSize.toNat := by
      rw [hb, Nat.mul_comm]
      exact (Nat.mul_lt_mul_left hpos).mpr hmod
    have hprod : (k * w.rqst.toUInt64).toNat = k.toNat * w.rqst.toNat := by
      rw [UInt64.toNat_mul, hlen]
      exact Nat.mod_eq_of_lt (by omega)
    rw [hprod]
    exact ⟨Nat.dvd_mul_left _ _, hle⟩
  · have hadd : (w.offset + w.rqst.toUInt64).toNat = w.offset.toNat + w.rqst.toNat := by
      have hle := hn.le
      rw [maxRequest] at hle
      rw [UInt64.toNat_add, hlen]
      exact Nat.mod_eq_of_lt (by omega)
    have hiff : w.offset + w.rqst.toUInt64 = w.size ↔
        w.offset.toNat + w.rqst.toNat = maxSize.toNat := by
      rw [← UInt64.toNat_inj, hadd, hsize]
    refine ⟨_, rfl, ?_⟩
    rw [apply_ite UInt64.toNat, hadd]
    simp only [hiff, UInt64.toNat_zero]

theorem workerTurn_ret (hsize : w.size = maxSize) (hbelow : w.offset.toNat < maxSize.toNat)
    (hn : Sized w.rqst.toNat) (worker : Nat) (r : Rand) :
    ∃ o, workerTurn worker r w = .ret ⟨⟩ (w.issue worker r o) ∧ Moves w r o.toNat := by
  obtain ⟨o, hrun, hmoves⟩ := @nextOffset_ret w r hsize hbelow hn
  refine ⟨o, ?_, hmoves⟩
  have hlen : w.rqst.toUInt64.toNat = w.rqst.toNat := UInt32.toNat_toUInt64 _
  have hsectors : w.rqst.toUInt64 % 512 = 0 := by
    rw [← UInt64.toNat_inj, UInt64.toNat_mod, hlen]
    exact Nat.mod_eq_zero_of_dvd hn.sectors
  have hle : ¬maxRequest < w.rqst.toUInt64.toNat := by
    rw [hlen]
    exact Nat.not_lt.mpr hn.le
  rw [workerTurn, get_bind, bind_ret hrun, modify_bind, if_neg (not_not.mpr hsectors), if_neg hle]
  rfl

/-! ## Runs -/

/-- The invariant. -/
structure Sound (w : World) : Prop where
  size : w.size = maxSize
  below : w.offset.toNat < maxSize.toNat
  inRange : InRange w
  running : 0 < w.workers → Sized w.rqst.toNat ∧
    (w.randomPercent = 100 ∨ w.rqst.toNat ∣ w.offset.toNat)

/-- An aligned offset moves to an aligned offset. -/
theorem Moves.aligned {o : Nat} (h : Moves w r o) (hbelow : w.offset.toNat < maxSize.toNat)
    (hn : Sized w.rqst.toNat) (ha : w.randomPercent = 100 ∨ w.rqst.toNat ∣ w.offset.toNat) :
    w.rqst.toNat ∣ o ∧ o < maxSize.toNat := by
  unfold Moves at h
  split at h
  · exact h
  · have hdvd : w.rqst.toNat ∣ w.offset.toNat := ha.resolve_left (by omega)
    have hroom := hn.room hdvd hbelow
    split at h
    · rw [h]
      exact ⟨Nat.dvd_zero _, by decide⟩
    · rw [h]
      exact ⟨Nat.dvd_add hdvd (Nat.dvd_refl _), by omega⟩

theorem next_sample_ret (hw : Begins w d) :
    next (.sample d) w = .ret ⟨⟩ { w with
      size := maxSize, rqst := UInt32.ofNat (randomlySample d).requestSize
      writePercent := 100 - (randomlySample d).read
      randomPercent := (randomlySample d).random, workers := (randomlySample d).depth } := by
  have hn := sized_sample d
  rw [next, get_bind, if_pos hw, asyncTest, if_neg (Nat.not_lt.mpr (depth_sample d).2),
    if_neg (Nat.not_lt.mpr hn.le), if_neg (not_not.mpr (Nat.mod_eq_zero_of_dvd hn.sectors))]
  rfl

theorem next_sample_of_not_begins (hw : ¬Begins w d) : next (.sample d) w = .ret ⟨⟩ w := by
  rw [next, get_bind, if_neg hw]
  rfl

theorem toNat_requestSize (d : Draw) :
    (UInt32.ofNat (randomlySample d).requestSize).toNat = (randomlySample d).requestSize := by
  have hle := (sized_sample d).le
  rw [maxRequest] at hle
  exact UInt32.toNat_ofNat_of_lt' (show _ < 4294967296 by omega)

theorem InRange.issue (h : InRange w) {o : UInt64} (ho : o.toNat + w.rqst.toNat ≤ w.size.toNat) :
    InRange (w.issue worker r o) := by
  refine List.forall_mem_append.mpr ⟨h, List.forall_mem_singleton.mpr ?_⟩
  rw [UInt32.toNat_toUInt64]
  exact ho

theorem next_sound {e : Event} (h : Sound w) (hok : Aligned w e) :
    ensures (next e) (fun _ w' => Sound w') w := by
  cases e with
  | sample d =>
    by_cases hw : Begins w d
    · refine ensures_of_ret (next_sample_ret hw) ?_
      exact ⟨rfl, h.below, h.size ▸ h.inRange, fun _ => by
        dsimp only
        rw [toNat_requestSize]
        exact ⟨sized_sample d, hok hw⟩⟩
    · exact ensures_of_ret (next_sample_of_not_begins hw) h
  | turn worker r =>
    refine (wp_bind _ _).mpr (wp_get.mpr ((wp_guarded _ _).mpr ⟨fun hworker => ?_, fun _ => h⟩))
    obtain ⟨hn, ha⟩ := h.running (Nat.zero_lt_of_lt hworker)
    obtain ⟨o, hrun, hmoves⟩ := workerTurn_ret h.size h.below hn worker r
    obtain ⟨hdvd, hlt⟩ := hmoves.aligned h.below hn ha
    refine ensures_of_ret hrun ⟨h.size, hlt, h.inRange.issue ?_, fun _ => ⟨hn, .inr hdvd⟩⟩
    rw [h.size]
    exact hn.room hdvd hlt
  | stop => exact ⟨h.size, h.below, h.inRange, fun h0 => absurd h0 (Nat.lt_irrefl 0)⟩

theorem sound_start : Sound World.start :=
  ⟨rfl, by decide, List.forall_mem_nil _, fun h => absurd h (Nat.lt_irrefl 0)⟩

/-- The invariant of runs that begin aligned. -/
theorem sound_reachable (h : Reach next Aligned World.start w) : Sound w :=
  h.invariant sound_start fun _ _ hs hok => next_sound hs hok

/-! ## Runs that begin elsewhere -/

/-- The run of a worker that reads on from `w`. -/
structure Adrift (w : World) : Prop where
  size : w.size = maxSize
  below : w.offset.toNat < maxSize.toNat
  workers : 0 < w.workers
  sized : Sized w.rqst.toNat
  sequential : w.randomPercent < 100
  unaligned : ¬w.rqst.toNat ∣ w.offset.toNat

theorem mod_lt_rand (n : Nat) : n % 2147483648 < 2147483648 := Nat.mod_lt _ (by decide)

/-- A value of `rand`. -/
def randValue (n : Nat) : Fin 2147483648 := ⟨n % 2147483648, mod_lt_rand n⟩

/-- A sequential turn is possible. -/
def readOn : Rand := ⟨randValue 99, randValue 0, randValue 0⟩

/-- Reading on leads past the end of the device. -/
theorem Adrift.leaves {w₁ : World} (h : Adrift w) (hr : Reach next (fun _ => IsTurn) w₁ w) :
    ∃ w', Reach next (fun _ => IsTurn) w₁ w' ∧ ¬InRange w' := by
  induction hk : maxSize.toNat - w.offset.toNat using Nat.strong_induction_on generalizing w with
  | _ k ih =>
    obtain ⟨o, hrun, hmoves⟩ := workerTurn_ret h.size h.below h.sized 0 readOn
    have hpos := h.sized.pos
    have hseq : ¬readOn.mode.val % 100 + 1 ≤ w.randomPercent := Nat.not_le.mpr h.sequential
    have hnot : ¬w.offset.toNat + w.rqst.toNat = maxSize.toNat := by
      intro heq
      refine h.unaligned ((Nat.dvd_add_left (Nat.dvd_refl w.rqst.toNat)).mp ?_)
      rw [heq]
      exact h.sized.tiles
    rw [Moves, if_neg hseq, if_neg hnot] at hmoves
    have hnext : next (.turn 0 readOn) w = .ret ⟨⟩ (w.issue 0 readOn o) := by
      rw [next, get_bind, guarded, if_pos h.workers, hrun]
    have hturn : IsTurn (.turn 0 readOn) := trivial
    have hreach : Reach next (fun _ => IsTurn) w₁ (w.issue 0 readOn o) := hr.tail hturn hnext
    by_cases hin : o.toNat + w.rqst.toNat ≤ maxSize.toNat
    · refine ih (maxSize.toNat - o.toNat) ?_ (w := w.issue 0 readOn o) ?_ hreach rfl
      · have hbelow := h.below
        omega
      · refine ⟨h.size, show o.toNat < _ by omega, h.workers, h.sized, h.sequential, ?_⟩
        change ¬w.rqst.toNat ∣ o.toNat
        rw [hmoves]
        exact fun hd => h.unaligned ((Nat.dvd_add_left (Nat.dvd_refl w.rqst.toNat)).mp hd)
    · refine ⟨_, hreach, fun hrange => hin ?_⟩
      have hlast := hrange _ (List.mem_append_right _ List.mem_cons_self)
      rw [UInt32.toNat_toUInt64] at hlast
      change o.toNat + w.rqst.toNat ≤ w.size.toNat at hlast
      rwa [h.size] at hlast

/-- Whatever the workers of a run do, their requests end on the device exactly when the run begins
aligned. -/
theorem runInRange_iff (h : Sound w) (hw : Begins w d) :
    RunInRange w d ↔ Aligned w (.sample d) := by
  constructor
  · intro hall _
    by_contra hnot
    rw [not_or] at hnot
    have hrun := next_sample_ret hw
    have hdrift : Adrift { w with
        size := maxSize, rqst := UInt32.ofNat (randomlySample d).requestSize
        writePercent := 100 - (randomlySample d).read
        randomPercent := (randomlySample d).random, workers := (randomlySample d).depth } := by
      refine ⟨rfl, h.below, (depth_sample d).1, ?_, ?_, ?_⟩
      · exact (toNat_requestSize d).symm ▸ sized_sample d
      · have hle : (randomlySample d).random ≤ 100 := Nat.lt_succ_iff.mp (Nat.mod_lt _ (by decide))
        exact lt_of_le_of_ne hle hnot.1
      · dsimp only
        rw [toNat_requestSize]
        exact hnot.2
    obtain ⟨w', hreach, hout⟩ := hdrift.leaves .refl
    exact hout (hall _ _ hrun hreach)
  · intro ha w₁ w₂ hrun hreach
    have hsound : Sound w₁ := (next_sound h ha).of_ret hrun
    refine (hreach.invariant (P := Sound) hsound fun v e hv he => ?_).inRange
    refine next_sound hv ?_
    cases e with
    | turn worker r => trivial
    | sample d => exact he.elim
    | stop => exact he.elim

/-- In every sequence of runs that all begin aligned the requests end on the device, and so they do
in the run that begins next, whatever its workers do, exactly when it begins aligned too. -/
theorem asyncTest_inRange (h : Reach next Aligned World.start w) :
    InRange w ∧ ∀ d, Begins w d → (RunInRange w d ↔ Aligned w (.sample d)) :=
  ⟨(sound_reachable h).inRange, fun _ hw => runInRange_iff (sound_reachable h) hw⟩

/-- A draw of the smallest requests, half of them random. -/
def smallRequests : Draw := ⟨randValue 0, randValue 0, randValue 0, randValue 50⟩

/-- A draw of the largest requests, half of them random. -/
def largeRequests : Draw := ⟨randValue 8, randValue 0, randValue 0, randValue 50⟩

/-- Large requests, and then small ones. -/
theorem asyncTest_inRange_small :
    ∃ w, Reach next Aligned World.start w ∧ w.requests.length = 2 ∧ InRange w := by
  have hrun : ∃ w, Reach next Aligned World.start w ∧ w.requests.length = 2 :=
    exists_reach [.sample largeRequests, .turn 0 readOn, .stop, .sample smallRequests,
      .turn 0 readOn] (by decide +kernel)
  obtain ⟨w, hw, hlen⟩ := hrun
  exact ⟨w, hw, hlen, (asyncTest_inRange hw).1⟩

/-- A small request at the end of the device, and then a large one behind it. -/
theorem asyncTest_leaves :
    ∃ w, Reach next (fun _ _ => True) World.start w ∧ ¬InRange w :=
  exists_reach [.sample smallRequests, .turn 0 ⟨0, 262143, 0⟩, .stop, .sample largeRequests,
    .turn 0 readOn] (by decide +kernel)

end Ost.Tests
