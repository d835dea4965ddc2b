import Mathlib.Data.UInt
import Ost.Prog.Run

/-!
# Where the workers read and write

The workers of `fitness` share two offsets, one for writes and one for reads.  A worker takes its
request from the offset of its kind and then computes the next offset, either at random or by
advancing over the request and a stride.  An advance that leaves no room for another request of
this kind starts again at the displacement.  With `str` set to one the other kind takes over the
new offset as well.  All this happens behind `s.c.lock`, so it is one step here.

Three things can go wrong.  A random offset is computed with a division by the size and a
remainder by the number of requests that fit, and nothing keeps either from being zero.  With one
stream the room that is left is that for one kind, and the other may need more.  And the end of
the file that a request is shortened to is counted from the beginning of the file, so with a
displacement there are offsets beyond it, and the shortened length wraps.

This is the tool as it is built without MPI, when it replays no trace.
-/

namespace Ost.Fitness

open Ost.Prog

/-! ## The parameters -/

/-- The fields of `s` that matter for a sample, `true` standing for writes where there is one for
each kind.  `device` and `mount` tell whether these options were given, `file` whether a file was
named, and `tid` is the capacity of the disk with `--tid`. -/
structure Params where
  cap : UInt64
  disp : UInt64
  wr : Nat
  wrnd : Nat
  rrnd : Nat
  wrsz : UInt32
  rdsz : UInt32
  wrStride : UInt32
  rdStride : UInt32
  str : Int
  file : Bool
  device : Bool
  mount : Bool
  tid : Option UInt64
deriving DecidableEq, Repr

/-- `MAX_REQUEST_SIZE`. -/
def maxRequestSize : UInt32 := 256

namespace Params

variable (p : Params)

/-- `wrsz` or `rdsz`. -/
def size (w : Bool) : UInt32 := if w then p.wrsz else p.rdsz

/-- `wrnd` or `rrnd`. -/
def rnd (w : Bool) : Nat := if w then p.wrnd else p.rrnd

/-- `wr_stride` or `rd_stride`. -/
def stride (w : Bool) : UInt32 := if w then p.wrStride else p.rdStride

/-- What `main` accepts: the ranges of the percentages and of the sizes, the modes that go
together, and a working set that ends on the disk. -/
def Accepted : Prop :=
  (p.wr ≤ 100 ∧ p.wrnd ≤ 100 ∧ p.rrnd ≤ 100) ∧
  (p.wrsz ≤ maxRequestSize ∧ p.rdsz ≤ maxRequestSize) ∧
  (if p.mount then p.device = true ∧ p.file = true else ¬(p.file = true ∧ p.device = true)) ∧
  (p.file = true ∨ p.device = true ∨ p.tid.isSome) ∧
  ∀ gCap ∈ p.tid, ¬gCap < (p.disp <<< 20) + (p.cap <<< 20)

instance instDecidableAccepted : Decidable p.Accepted :=
  have : Decidable (∀ gCap ∈ p.tid, ¬gCap < (p.disp <<< 20) + (p.cap <<< 20)) :=
    Option.decidableForallMem p.tid
  inferInstanceAs (Decidable (_ ∧ _ ∧ _ ∧ _ ∧ _))

end Params

/-! ## The workers -/

/-- A request that is issued, by which worker. -/
structure Issued where
  worker : Nat
  writing : Bool
  offset : UInt64
  len : UInt32
deriving DecidableEq, Repr

/-- The offsets of `s.c`.  The requests are a ghost: those that have been issued, oldest first. -/
structure Workload where
  wrOffset : UInt64
  rdOffset : UInt64
  requests : List Issued
deriving DecidableEq, Repr

/-- Why the process ends. -/
inductive WorkerStop where
  | /-- A division by zero. -/
    divisionByZero
  | /-- "accessing past device". -/
    pastDevice
deriving DecidableEq, Repr

/-- A worker takes its turn, and these are the numbers that `rand` returns to it: for the kind, for
the mode of the next offset, and for the next offset if it is random. -/
structure Turn where
  worker : Nat
  kind : Fin 2147483648
  mode : Fin 2147483648
  place : Fin 2147483648
deriving DecidableEq, Repr

namespace Workload

/-- The offset of a kind. -/
def offset (s : Workload) (w : Bool) : UInt64 := if w then s.wrOffset else s.rdOffset

/-- Set the offset of a kind. -/
def setOffset (s : Workload) (w : Bool) (o : UInt64) : Workload :=
  if w then { s with wrOffset := o } else { s with rdOffset := o }

/-- `main` sets the offsets for an iteration.  A phase that continues another starts with the
offsets that are left. -/
def start (p : Params) : Option (UInt64 × UInt64) → Workload
  | none => { wrOffset := p.disp <<< 20, rdOffset := p.disp <<< 20, requests := [] }
  | some (lastWr, lastRd) => { wrOffset := lastWr, rdOffset := lastRd, requests := [] }

end Workload

section Worker

variable (p : Params)

/-- The next offset, at random. -/
def randomOffset (w : Bool) (r : Nat) : Prog WorkerStop Workload UInt64 :=
  if p.size w = 0 ∨ p.cap <<< 10 / (p.size w).toUInt64 = 0 then halt .divisionByZero
  else pure (((UInt64.ofNat r % (p.cap <<< 10 / (p.size w).toUInt64)) <<< 10) *
    (p.size w).toUInt64 + (p.disp <<< 20))

/-- The next offset, after a request at `o`. -/
def sequentialOffset (w : Bool) (o : UInt64) : UInt64 :=
  let o' := o + ((p.size w <<< 10) + (p.stride w <<< 10)).toUInt64
  if (p.disp + p.cap) <<< 20 < o' + (p.size w <<< 10).toUInt64 then p.disp <<< 20 else o'

/-- The next offset. -/
def nextOffset (e : Turn) (w : Bool) (o : UInt64) : Prog WorkerStop Workload UInt64 :=
  if e.mode.val % 100 + 1 ≤ p.rnd w then randomOffset p w e.place.val
  else pure (sequentialOffset p w o)

/-- Set the next offset, with one stream for both kinds. -/
def advance (w : Bool) (o : UInt64) (s : Workload) : Workload :=
  if p.str = 1 then (s.setOffset w o).setOffset (!w) o else s.setOffset w o

/-- Whether a request is refused because it is past the end of the disk. -/
def isPastDevice (o : UInt64) (len : UInt32) : Bool :=
  p.tid.any fun gCap => gCap < o + len.toUInt64

/-- A request that passes the end of the file is shortened. -/
def shorten (o : UInt64) (len : UInt32) : UInt32 :=
  if p.file ∧ p.cap <<< 20 < o + len.toUInt64 then ((p.cap <<< 20) - o).toUInt32 else len

/-- `worker_proc_t`, up to the issue of one request. -/
def workerTurn (e : Turn) : Prog WorkerStop Workload PUnit := do
  let s ← get
  let w : Bool := e.kind.val % 100 + 1 ≤ p.wr
  let o := s.offset w
  let len := p.size w * 1024
  let next ← nextOffset p e w o
  modify (advance p w next)
  if isPastDevice p o len then halt .pastDevice
  else modify fun s => { s with requests := s.requests ++ [⟨e.worker, w, o, shorten p o len⟩] }

/-! ## The working set -/

namespace Params

/-- A request lies in the working set and has the configured size, or ends with the file. -/
def Inside (r : Issued) : Prop :=
  p.disp.toNat * 1048576 ≤ r.offset.toNat ∧
  r.offset.toNat + r.len.toNat ≤ (p.disp.toNat + p.cap.toNat) * 1048576 ∧
  (r.len = p.size r.writing * 1024 ∨
    p.file = true ∧ r.len < p.size r.writing * 1024 ∧
      r.offset.toNat + r.len.toNat = p.cap.toNat * 1048576)

instance (r : Issued) : Decidable (p.Inside r) := by
  unfold Inside
  infer_instance

/-- All requests that are issued from `s₀` on lie in the working set, and nothing is divided by
zero. -/
def Contained (s₀ : Workload) : Prop :=
  ∀ s, Reach (workerTurn p) (fun _ _ => True) s₀ s →
    (∀ r ∈ s.requests, p.Inside r) ∧ ∀ e s', workerTurn p e s ≠ .halt .divisionByZero s'

/-! ## Offsets that leave room -/

/-- Where the working set begins. -/
def base : Nat := p.disp.toNat * 1048576

/-- How long it is. -/
def span : Nat := p.cap.toNat * 1048576

/-- The length of a request. -/
def bytes (w : Bool) : Nat := (p.size w).toNat * 1024

/-- By how much a request advances the offset. -/
def pace (w : Bool) : Nat := ((p.size w <<< 10) + (p.stride w <<< 10)).toNat

/-- Whether there are requests of this kind. -/
def Occurs (w : Bool) : Prop := if w then 0 < p.wr else p.wr < 100

/-- Whether what requests of the kind `w` compute is used for requests of the kind `v`. -/
def Serves (w v : Bool) : Prop := p.Occurs w ∧ p.Occurs v ∧ (w = v ∨ p.str = 1)

/-- A request of the kind `w` has room at `o`: it ends in the working set, and with a file it
begins in the file.  A request that is past the end of the disk is not issued. -/
def Room (w : Bool) (o : Nat) : Prop :=
  (∃ gCap ∈ p.tid, gCap.toNat < o + p.bytes w ∧ o + p.bytes w < 18446744073709551616) ∨
  o + p.bytes w ≤ p.base + p.span ∧ (p.file = true → o ≤ p.span)

/-- An offset that the kind `v` can come to: it begins with an offset of the start, the begin of the
working set or a multiple of a size that is drawn at random, and a number of advances follow. -/
def Spot (s₀ : Workload) (v : Bool) (o : Nat) : Prop :=
  ∃ (w : Bool) (b : Nat) (n : Bool → Nat), p.Serves w v ∧
    (b = (s₀.offset w).toNat ∨ b = p.base ∨
      0 < p.rnd w ∧ ∃ j < 2147483648, b = p.base + j * p.bytes w) ∧
    (∀ u, 0 < n u → p.Serves u v ∧ p.rnd u < 100) ∧
    o = b + n true * p.pace true + n false * p.pace false

/-- The parameters leave room wherever an offset can come to lie. -/
structure Fits (s₀ : Workload) : Prop where
  /-- The capacity and the displacement were not negative. -/
  cap : p.cap.toNat < 2147483648
  disp : p.disp.toNat < 2147483648
  /-- Random offsets have something to be drawn from. -/
  nonempty : ∀ w, p.Occurs w → 0 < p.rnd w → p.size w ≠ 0 ∧ p.cap ≠ 0
  /-- The first offset. -/
  first : ∀ w, p.Occurs w → p.base ≤ (s₀.offset w).toNat ∧ p.Room w (s₀.offset w).toNat
  /-- The begin of the working set. -/
  again : ∀ w v, p.Serves w v → p.rnd w < 100 → p.Room v p.base
  /-- Random offsets. -/
  drawn : ∀ w v, p.Serves w v → 0 < p.rnd w → ∀ j < 2147483648, (j + 1) * p.bytes w ≤ p.span →
    p.Room v (p.base + j * p.bytes w)
  /-- Advances from where there is room for all that use the offset. -/
  moved : ∀ w v, p.Serves w v → p.rnd w < 100 → ∀ o, p.Spot s₀ w o →
    (o = (s₀.offset w).toNat ∨ ∀ u, p.Serves w u → p.Room u o) →
    o + p.bytes w ≤ p.base + p.span → o + p.pace w + p.bytes w ≤ p.base + p.span →
    p.Room v (o + p.pace w)

end Params

end Worker

/-! ## Arithmetic -/

section Arithmetic

variable {p : Params} {w : Bool}

theorem size_le (hp : p.Accepted) (w : Bool) : (p.size w).toNat ≤ 256 := by
  obtain ⟨-, ⟨hw, hr⟩, -⟩ := hp
  cases w
  · exact UInt32.le_iff_toNat_le.mp hr
  · exact UInt32.le_iff_toNat_le.mp hw

theorem toNat_shiftLeft_twenty {x : UInt64} (hx : x.toNat < 8589934592) :
    (x <<< 20).toNat = x.toNat * 1048576 := by
  rw [UInt64.toNat_shiftLeft]
  change x.toNat <<< 20 % 18446744073709551616 = _
  rw [Nat.shiftLeft_eq]
  omega

theorem toNat_shiftLeft_ten {x : UInt64} (hx : x.toNat < 8589934592) :
    (x <<< 10).toNat = x.toNat * 1024 := by
  rw [UInt64.toNat_shiftLeft]
  change x.toNat <<< 10 % 18446744073709551616 = _
  rw [Nat.shiftLeft_eq]
  omega

theorem base_eq (h : p.disp.toNat < 2147483648) : (p.disp <<< 20).toNat = p.base :=
  toNat_shiftLeft_twenty (by omega)

theorem span_eq (h : p.cap.toNat < 2147483648) : (p.cap <<< 20).toNat = p.span :=
  toNat_shiftLeft_twenty (by omega)

theorem end_eq (hc : p.cap.toNat < 2147483648) (hd : p.disp.toNat < 2147483648) :
    ((p.disp + p.cap) <<< 20).toNat = p.base + p.span := by
  have hsum : (p.disp + p.cap).toNat = p.disp.toNat + p.cap.toNat := by
    rw [UInt64.toNat_add]
    omega
  rw [toNat_shiftLeft_twenty (by omega), hsum, Nat.add_mul]
  rfl

theorem bytes_shift (hp : p.Accepted) (w : Bool) :
    (p.size w <<< 10).toUInt64.toNat = p.bytes w := by
  have hsize := size_le hp w
  rw [UInt32.toNat_toUInt64, UInt32.toNat_shiftLeft]
  change (p.size w).toNat <<< 10 % 4294967296 = _
  rw [Nat.shiftLeft_eq, Params.bytes]
  omega

theorem bytes_mul (hp : p.Accepted) (w : Bool) : (p.size w * 1024).toNat = p.bytes w := by
  have hsize := size_le hp w
  rw [UInt32.toNat_mul, Params.bytes]
  change (p.size w).toNat * 1024 % 4294967296 = _
  omega

theorem bytes_le (hp : p.Accepted) (w : Bool) : p.bytes w ≤ 262144 := by
  have hsize := size_le hp w
  unfold Params.bytes
  omega

/-- A random offset is a multiple of the size, with room for a request. -/
theorem wp_randomOffset (hp : p.Accepted) (hc : p.cap.toNat < 2147483648)
    (hd : p.disp.toNat < 2147483648) (hsize : p.size w ≠ 0) (hcap : p.cap ≠ 0) {r : Nat}
    (hr : r < 2147483648) {Q : UInt64 → Workload → Prop} {E : WorkerStop → Workload → Prop}
    {s : Workload}
    (hQ : ∀ o j, j < 2147483648 → (j + 1) * p.bytes w ≤ p.span →
      o.toNat = p.base + j * p.bytes w → Q o s) : wp (randomOffset p w r) Q E s := by
  have hle := size_le hp w
  have hpos : 0 < (p.size w).toNat := Nat.pos_of_ne_zero fun h => hsize (UInt32.toNat_inj.mp h)
  have hcap' : 0 < p.cap.toNat := Nat.pos_of_ne_zero fun h => hcap (UInt64.toNat_inj.mp h)
  set n := p.cap <<< 10 / (p.size w).toUInt64 with hn
  have hn' : n.toNat = p.cap.toNat * 1024 / (p.size w).toNat := by
    rw [hn, UInt64.toNat_div, toNat_shiftLeft_ten (by omega), UInt32.toNat_toUInt64]
  have hnpos : 0 < n.toNat := by
    rw [hn']
    exact Nat.div_pos (by omega) hpos
  have hne : n ≠ 0 := by
    rintro h
    rw [h] at hnpos
    exact absurd hnpos (by decide)
  rw [randomOffset, ← hn, if_neg (not_or.mpr ⟨hsize, hne⟩)]
  set j := r % n.toNat with hj
  have hjn : j < n.toNat := Nat.mod_lt _ hnpos
  have hjr : j < 2147483648 := Nat.lt_of_le_of_lt (Nat.mod_le _ _) hr
  have hfit : (j + 1) * (p.size w).toNat ≤ p.cap.toNat * 1024 := by
    refine le_trans (Nat.mul_le_mul_right _ hjn) ?_
    rw [hn']
    exact Nat.div_mul_le_self _ _
  have hmod : (UInt64.ofNat r % n).toNat = j := by
    rw [UInt64.toNat_mod, UInt64.toNat_ofNat_of_lt' (show _ < 18446744073709551616 by omega)]
  refine hQ _ j hjr ?_ ?_
  · rw [Params.bytes, Params.span, ← Nat.mul_assoc]
    omega
  · have hprod : j * 1024 * (p.size w).toNat = j * p.bytes w := by
      rw [Params.bytes, Nat.mul_assoc, Nat.mul_comm 1024]
    have hbound : j * (p.size w).toNat ≤ p.cap.toNat * 1024 :=
      le_trans (Nat.mul_le_mul_right _ (Nat.le_succ j)) hfit
    have hbound' : j * p.bytes w ≤ p.cap.toNat * 1048576 := by
      rw [Params.bytes, ← Nat.mul_assoc]
      omega
    have hbase : p.base < 2251799813685248 := by
      unfold Params.base
      omega
    rw [UInt64.toNat_add, UInt64.toNat_mul, toNat_shiftLeft_ten (by omega), hmod,
      UInt32.toNat_toUInt64, base_eq hd, hprod, Nat.mod_eq_of_lt (by omega),
      Nat.mod_eq_of_lt (by omega)]
    exact Nat.add_comm _ _

/-- A sequential offset is the begin of the working set or an advance that leaves room. -/
theorem sequentialOffset_spec (hp : p.Accepted) (hc : p.cap.toNat < 2147483648)
    (hd : p.disp.toNat < 2147483648) {o : UInt64}
    (ho : o.toNat + p.bytes w ≤ p.base + p.span) :
    (sequentialOffset p w o).toNat = p.base ∨
      (sequentialOffset p w o).toNat = o.toNat + p.pace w ∧
        o.toNat + p.pace w + p.bytes w ≤ p.base + p.span := by
  have hend : p.base + p.span < 4503599627370496 := by
    unfold Params.base Params.span
    omega
  have hpace : p.pace w < 4294967296 := UInt32.toNat_lt _
  have hbytes := bytes_le hp w
  have hmove : (o + ((p.size w <<< 10) + (p.stride w <<< 10)).toUInt64).toNat =
      o.toNat + p.pace w := by
    rw [UInt64.toNat_add, UInt32.toNat_toUInt64]
    exact Nat.mod_eq_of_lt (by unfold Params.pace at hpace; omega)
  have hroom : (o + ((p.size w <<< 10) + (p.stride w <<< 10)).toUInt64 +
      (p.size w <<< 10).toUInt64).toNat = o.toNat + p.pace w + p.bytes w := by
    rw [UInt64.toNat_add, hmove, bytes_shift hp]
    exact Nat.mod_eq_of_lt (by omega)
  unfold sequentialOffset
  simp only [UInt64.lt_iff_toNat_lt, end_eq hc hd, hroom]
  split
  · exact .inl (base_eq hd)
  · exact .inr ⟨hmove, by omega⟩

end Arithmetic

/-! ## What a worker does -/

section Turns

variable {p : Params} {s₀ s : Workload}

/-- What holds of the offset of a kind. -/
structure Params.Held (p : Params) (s₀ : Workload) (w : Bool) (o : Nat) : Prop where
  base : p.base ≤ o
  room : p.Room w o
  spot : p.Spot s₀ w o
  shared : o = (s₀.offset w).toNat ∨ ∀ u, p.Serves w u → p.Room u o

/-- The invariant. -/
def Workload.Sound (p : Params) (s s₀ : Workload) : Prop :=
  (∀ r ∈ s.requests, p.Inside r) ∧ ∀ w, p.Occurs w → p.Held s₀ w (s.offset w).toNat

theorem Params.Serves.refl {w : Bool} (h : p.Occurs w) : p.Serves w w := ⟨h, h, .inl rfl⟩

theorem Params.Serves.trans {u w v : Bool} (h : p.Serves u w) (h' : p.Serves w v) :
    p.Serves u v := by
  refine ⟨h.1, h'.2.1, ?_⟩
  rcases h.2.2 with rfl | hstr
  · exact h'.2.2
  · exact .inr hstr

/-- A spot of one kind is one of every kind that it serves. -/
theorem Params.Spot.serve {w v : Bool} {o : Nat} (h : p.Spot s₀ w o) (hs : p.Serves w v) :
    p.Spot s₀ v o := by
  obtain ⟨u, b, n, hu, hb, hn, ho⟩ := h
  exact ⟨u, b, n, hu.trans hs, hb, fun u hpos => ⟨(hn u hpos).1.trans hs, (hn u hpos).2⟩, ho⟩

/-- An advance leads from spot to spot. -/
theorem Params.Spot.move {w : Bool} {o : Nat} (h : p.Spot s₀ w o) (hw : p.Occurs w)
    (hrnd : p.rnd w < 100) : p.Spot s₀ w (o + p.pace w) := by
  obtain ⟨u, b, n, hu, hb, hn, ho⟩ := h
  refine ⟨u, b, Function.update n w (n w + 1), hu, hb, fun v hpos => ?_, ?_⟩
  · rcases eq_or_ne v w with rfl | hv
    · exact ⟨.refl hw, hrnd⟩
    · rw [Function.update_of_ne hv] at hpos
      exact hn v hpos
  · rw [ho]
    cases w
    · rw [Function.update_self, Function.update_of_ne (by decide), Nat.succ_mul]
      omega
    · rw [Function.update_self, Function.update_of_ne (by decide), Nat.succ_mul]
      omega

/-- What is at hand for an offset that all kinds it serves have room at. -/
theorem Params.Held.of_room {w : Bool} {o : Nat} (hbase : p.base ≤ o)
    (hroom : ∀ v, p.Serves w v → p.Room v o) (hspot : p.Spot s₀ w o) :
    ∀ v, p.Serves w v → p.Held s₀ v o := fun v hv =>
  ⟨hbase, hroom v hv, hspot.serve hv, .inr fun u hu => hroom u (hv.trans hu)⟩

/-- The next offset is held for every kind that it serves. -/
theorem wp_nextOffset (hp : p.Accepted) (hfits : p.Fits s₀) {w : Bool} {o : UInt64}
    (hw : p.Occurs w) (ho : p.Held s₀ w o.toNat) (e : Turn)
    (hin : isPastDevice p o (p.size w * 1024) = false → o.toNat + p.bytes w ≤ p.base + p.span) :
    wp (nextOffset p e w o)
      (fun next s' => s' = s ∧ (isPastDevice p o (p.size w * 1024) = false →
        ∀ v, p.Serves w v → p.Held s₀ v next.toNat)) (fun _ _ => False) s := by
  refine (wp_ite _ _ _).mpr ⟨fun hmode => ?_, fun hmode => ?_⟩
  · have hrnd : 0 < p.rnd w := by omega
    obtain ⟨hsize, hcap⟩ := hfits.nonempty w hw hrnd
    refine wp_randomOffset hp hfits.cap hfits.disp hsize hcap e.place.isLt
      fun o' j hj hfit ho' => ?_
    refine ⟨rfl, fun _ => ?_⟩
    rw [ho']
    refine Params.Held.of_room (Nat.le_add_right _ _)
      (fun v hv => hfits.drawn w v hv hrnd j hj hfit) ?_
    exact ⟨w, _, fun _ => 0, .refl hw, .inr (.inr ⟨hrnd, j, hj, rfl⟩),
      fun _ h => absurd h (Nat.lt_irrefl 0), by simp only [Nat.zero_mul, Nat.add_zero]⟩
  · have hrnd : p.rnd w < 100 := by omega
    refine ⟨rfl, fun hissued => ?_⟩
    rcases sequentialOffset_spec hp hfits.cap hfits.disp (hin hissued) with hnext | ⟨hnext, hroom⟩
    · rw [hnext]
      refine Params.Held.of_room (Nat.le_refl _) (fun v hv => hfits.again w v hv hrnd) ?_
      exact ⟨w, _, fun _ => 0, .refl hw, .inr (.inl rfl), fun _ h => absurd h (Nat.lt_irrefl 0),
        by simp only [Nat.zero_mul, Nat.add_zero]⟩
    · rw [hnext]
      exact Params.Held.of_room (Nat.le_add_right_of_le ho.base)
        (fun v hv => hfits.moved w v hv hrnd _ ho.spot ho.shared (hin hissued) hroom)
        (ho.spot.move hw hrnd)

/-- A request that is not past the end of the disk ends in the working set. -/
theorem Params.Held.ends (hp : p.Accepted) {w : Bool} {o : UInt64} (ho : p.Held s₀ w o.toNat)
    (hissued : isPastDevice p o (p.size w * 1024) = false) :
    o.toNat + p.bytes w ≤ p.base + p.span ∧ (p.file = true → o.toNat ≤ p.span) := by
  rcases ho.room with ⟨gCap, htid, hlt, hsmall⟩ | hroom
  · have hsum : (o + (p.size w * 1024).toUInt64).toNat = o.toNat + p.bytes w := by
      rw [UInt64.toNat_add, UInt32.toNat_toUInt64, bytes_mul hp]
      exact Nat.mod_eq_of_lt hsmall
    have hpast : isPastDevice p o (p.size w * 1024) = true := by
      rw [isPastDevice, Option.mem_def.mp htid, Option.any_some]
      refine decide_eq_true (UInt64.lt_iff_toNat_lt.mpr ?_)
      rw [hsum]
      exact hlt
    rw [hpast] at hissued
    exact absurd hissued (by decide)
  · exact hroom

/-- The request that is issued. -/
theorem Params.Held.inside (hp : p.Accepted) (hfits : p.Fits s₀) {w : Bool} {o : UInt64}
    (ho : p.Held s₀ w o.toNat) (hissued : isPastDevice p o (p.size w * 1024) = false)
    (worker : Nat) : p.Inside ⟨worker, w, o, shorten p o (p.size w * 1024)⟩ := by
  obtain ⟨hend, hfile⟩ := ho.ends hp hissued
  have hbytes := bytes_le hp w
  have hbound : p.base + p.span < 4503599627370496 := by
    have hc := hfits.cap
    have hd := hfits.disp
    unfold Params.base Params.span
    omega
  have hsum : (o + (p.size w * 1024).toUInt64).toNat = o.toNat + p.bytes w := by
    rw [UInt64.toNat_add, UInt32.toNat_toUInt64, bytes_mul hp]
    exact Nat.mod_eq_of_lt (by omega)
  have htotal : p.base + p.span = (p.disp.toNat + p.cap.toNat) * 1048576 := (Nat.add_mul _ _ _).symm
  refine ⟨ho.base, ?_⟩
  rw [← htotal]
  change o.toNat + (shorten p o (p.size w * 1024)).toNat ≤ p.base + p.span ∧ _
  unfold shorten
  split
  · rename_i hpass
    obtain ⟨hf, hlt⟩ := hpass
    have hin := hfile hf
    rw [UInt64.lt_iff_toNat_lt, span_eq hfits.cap, hsum] at hlt
    have hrest : ((p.cap <<< 20) - o).toUInt32.toNat = p.span - o.toNat := by
      rw [UInt64.toNat_toUInt32, UInt64.toNat_sub_of_le _ _ (by
        rw [UInt64.le_iff_toNat_le, span_eq hfits.cap]
        exact hin), span_eq hfits.cap]
      exact Nat.mod_eq_of_lt (by omega)
    refine ⟨by rw [hrest]; omega, .inr ⟨hf, ?_, ?_⟩⟩
    · refine UInt32.lt_iff_toNat_lt.mpr ?_
      change ((p.cap <<< 20) - o).toUInt32.toNat < (p.size w * 1024).toNat
      rw [hrest, bytes_mul hp]
      omega
    · change o.toNat + ((p.cap <<< 20) - o).toUInt32.toNat = p.span
      rw [hrest]
      omega
  · exact ⟨by rw [bytes_mul hp]; exact hend, .inl rfl⟩

/-- Setting the next offset. -/
theorem advance_offset (w v : Bool) (next : UInt64) :
    (advance p w next s).offset v = if w = v ∨ p.str = 1 then next else s.offset v := by
  unfold advance
  by_cases hstr : p.str = 1
  · rw [if_pos hstr, if_pos (.inr hstr)]
    cases w <;> cases v <;> rfl
  · rw [if_neg hstr]
    cases w <;> cases v <;> simp [hstr, Workload.setOffset, Workload.offset]

theorem advance_requests (w : Bool) (next : UInt64) :
    (advance p w next s).requests = s.requests := by
  unfold advance
  split <;> cases w <;> rfl

/-- The kind of a request occurs. -/
theorem Turn.occurs (e : Turn) (p : Params) :
    p.Occurs (decide (e.kind.val % 100 + 1 ≤ p.wr)) := by
  unfold Params.Occurs
  split
  · rename_i hkind
    have hle := of_decide_eq_true hkind
    omega
  · rename_i hkind
    have hlt : ¬e.kind.val % 100 + 1 ≤ p.wr := fun h => hkind (decide_eq_true h)
    omega

/-- One turn. -/
theorem workerTurn_sound (hp : p.Accepted) (hfits : p.Fits s₀) (h : s.Sound p s₀) (e : Turn) :
    wp (workerTurn p e) (fun _ s' => s'.Sound p s₀) (fun stop _ => stop ≠ .divisionByZero) s := by
  obtain ⟨hissued, hheld⟩ := h
  unfold workerTurn
  rw [wp_bind, wp_get]
  have hocc := e.occurs p
  set w : Bool := decide (e.kind.val % 100 + 1 ≤ p.wr)
  have ho := hheld w hocc
  refine (wp_bind _ _).mpr (wp_mono (wp_nextOffset hp hfits hocc ho e fun hin => (ho.ends hp hin).1)
    ?_ fun _ _ h => h.elim)
  rintro next s₁ ⟨rfl, hnext⟩
  rw [wp_bind, wp_modify]
  refine (wp_ite _ _ _).mpr ⟨fun _ => WorkerStop.noConfusion, fun hpast => ?_⟩
  have hin : isPastDevice p (s₁.offset w) (p.size w * 1024) = false := Bool.eq_false_iff.mpr hpast
  refine ⟨?_, fun v hv => ?_⟩
  · change ∀ r ∈ (advance p w next s₁).requests ++ [_], p.Inside r
    rw [advance_requests]
    refine List.forall_mem_append.mpr ⟨hissued, ?_⟩
    exact List.forall_mem_singleton.mpr (ho.inside hp hfits hin e.worker)
  · change p.Held s₀ v ((advance p w next s₁).offset v).toNat
    rw [advance_offset]
    split
    · exact hnext hin v ⟨hocc, hv, ‹_›⟩
    · exact hheld v hv

/-- The invariant holds at the start. -/
theorem Workload.sound_start (hreq : s₀.requests = []) (hfits : p.Fits s₀) : s₀.Sound p s₀ := by
  refine ⟨?_, fun w hw => ?_⟩
  · rw [hreq]
    exact List.forall_mem_nil _
  · obtain ⟨hbase, hroom⟩ := hfits.first w hw
    exact ⟨hbase, hroom, ⟨w, _, fun _ => 0, .refl hw, .inl rfl,
      fun _ h => absurd h (Nat.lt_irrefl 0), by simp only [Nat.zero_mul, Nat.add_zero]⟩, .inl rfl⟩

end Turns

/-! ## Runs -/

section Runs

variable (p : Params)

/-- The requests of an iteration lie in the working set if the parameters leave room wherever an
offset can come to lie. -/
theorem workload_contained (hp : p.Accepted) (last : Option (UInt64 × UInt64))
    (hfits : p.Fits (.start p last)) : p.Contained (.start p last) := by
  intro s hs
  have hreq : (Workload.start p last).requests = [] := by cases last <;> rfl
  have hsound : s.Sound p (.start p last) :=
    hs.invariant (P := fun s => s.Sound p (.start p last)) (Workload.sound_start hreq hfits)
      fun s e h _ => wp_mono (workerTurn_sound hp hfits h e) (fun _ _ => id) fun _ _ _ => trivial
  refine ⟨hsound.1, fun e s' hhalt => ?_⟩
  exact (workerTurn_sound hp hfits hsound e).of_halt hhalt rfl

variable {p}

/-- The parameters leave room when the capacity is not zero, random requests have a size, a file is
used from its beginning, and the kinds of requests that share an offset have the same size. -/
theorem Params.fits_of_plain (hp : p.Accepted) (hc : p.cap.toNat < 2147483648)
    (hd : p.disp.toNat < 2147483648) (hcap : p.cap ≠ 0)
    (hsize : ∀ w, p.Occurs w → 0 < p.rnd w → p.size w ≠ 0) (hfile : p.file = true → p.disp = 0)
    (hsame : p.str = 1 → (∀ w, p.Occurs w) → p.wrsz = p.rdsz) : p.Fits (.start p none) := by
  have hcap' : 0 < p.cap.toNat := Nat.pos_of_ne_zero fun h => hcap (UInt64.toNat_inj.mp h)
  have hroom : ∀ w o, o + p.bytes w ≤ p.base + p.span → p.Room w o := fun w o h => by
    refine .inr ⟨h, fun hf => ?_⟩
    have hbase : p.base = 0 := by
      rw [Params.base, hfile hf, UInt64.toNat_zero, Nat.zero_mul]
    omega
  have hbase : ∀ w, p.Room w p.base := fun w => by
    have hbytes := bytes_le hp w
    refine hroom w _ ?_
    unfold Params.span
    omega
  have hserves : ∀ w v, p.Serves w v → p.bytes w = p.bytes v := fun w v ⟨hw, hv, hs⟩ => by
    rcases hs with rfl | hstr
    · rfl
    · by_cases hwv : w = v
      · rw [hwv]
      · have hall : ∀ u, p.Occurs u := fun u => by
          rcases Bool.eq_or_eq_not u w with rfl | rfl
          · exact hw
          · rwa [Bool.eq_not.mpr hwv, Bool.not_not]
        have heq : ∀ u, p.size u = p.rdsz := fun u => by
          rw [Params.size, hsame hstr hall, ite_self]
        rw [Params.bytes, Params.bytes, heq, heq]
  refine ⟨hc, hd, fun w hw hrnd => ⟨hsize w hw hrnd, hcap⟩, fun w _ => ?_,
    fun w v _ _ => hbase v, fun w v hs _ j _ hfit => ?_, fun w v hs _ o _ _ _ hfit => ?_⟩
  · have hstart : ((Workload.start p none).offset w).toNat = p.base := by
      cases w
      · exact base_eq hd
      · exact base_eq hd
    rw [hstart]
    exact ⟨Nat.le_refl _, hbase w⟩
  · refine hroom v _ ?_
    rw [← hserves w v hs]
    rw [Nat.succ_mul] at hfit
    omega
  · refine hroom v _ ?_
    rw [← hserves w v hs]
    exact hfit

/-- What `main` draws for a disk of 256 MB when it is told no more than `--tid`: small writes and
large reads. -/
def drawnParams : Params :=
  { cap := 128, disp := 0, wr := 20, wrnd := 20, rrnd := 20, wrsz := 1, rdsz := 256
    wrStride := 0, rdStride := 0, str := 1, file := false, device := false, mount := false
    tid := some 268435456 }

/-- With reads as small as the writes the requests lie in the working set. -/
theorem workload_contained_drawn :
    Params.Contained { drawnParams with rdsz := 1 } (.start { drawnParams with rdsz := 1 } none) :=
  workload_contained { drawnParams with rdsz := 1 } (by decide +kernel) none
    (Params.fits_of_plain (by decide +kernel) (by decide) (by decide) (by decide)
      (fun w _ _ => by cases w <;> decide) (fun h => absurd h (by decide)) fun _ _ => rfl)

/-- A write draws the last KB of the working set, and the read that follows starts there. -/
theorem workload_leaves :
    ¬∀ p : Params, p.Accepted → p.Contained (.start p none) := by
  intro h
  have hrun : ∃ s, Reach (workerTurn drawnParams) (fun _ _ => True) (.start drawnParams none) s ∧
      ∃ r ∈ s.requests, ¬drawnParams.Inside r :=
    exists_reach [⟨0, 0, 0, 131071⟩, ⟨0, 50, 50, 0⟩] (by decide +kernel)
  obtain ⟨s, hs, r, hr, hout⟩ := hrun
  exact hout ((h drawnParams (by decide +kernel) s hs).1 r hr)

end Runs

end Ost.Fitness
