import Ost.Driver.Queue
import Mathlib.Data.UInt
import Mathlib.Algebra.Group.Prod
import Mathlib.Algebra.BigOperators.Group.List.Basic

/-!
# The gauges of the host driver

Five of the statistics of a LUN are gauges: they count the commands that are outstanding, in all
and by class, and two more add up their bytes.  Here is what the gauges should say, the load
of the accepted commands of the LUN, and how far the three functions of the driver keep them
to it.
-/

namespace Ost.Driver

open Ost.Iscsi Ost.Prog

/-! ## Loads -/

/-- The class a command is counted in. -/
inductive Class where
  | wr
  | rd
  | bidi
  | other
deriving DecidableEq, Repr

/-- The class of a command. -/
def ScsiCmnd.class (p : ScsiCmnd) : Class :=
  if p.transfers then
    match p.direction with
    | .toDevice => .wr
    | .fromDevice => .rd
    | .other => .bidi
  else .other

variable (cfg : Config)

/-- The bytes a command sends. -/
def ScsiCmnd.bytesTx (p : ScsiCmnd) : Nat :=
  if (p.transfer cfg).output then (p.transfer cfg).transLen.toNat else 0

/-- The bytes a command receives. -/
def ScsiCmnd.bytesRx (p : ScsiCmnd) : Nat :=
  if (p.transfer cfg).input then
    if (p.transfer cfg).output then (p.transfer cfg).bidiTransLen.toNat
    else (p.transfer cfg).transLen.toNat
  else 0

/-- The gauges of a LUN: outstanding commands, in all and by class, and queued bytes. -/
abbrev Gauges := Int × Int × Int × Int × Int × UInt64 × UInt64

/-- The gauges in the statistics. -/
def DriverStats.gauges (st : DriverStats) : Gauges :=
  (st.outstanding, st.outstandingWr, st.outstandingRd, st.outstandingBidi, st.outstandingOther,
    st.qBytesTx, st.qBytesRx)

/-- One if a command is of a class. -/
def ScsiCmnd.one (p : ScsiCmnd) (k : Class) : Int := if p.class = k then 1 else 0

/-- What a command adds to the gauges. -/
def ScsiCmnd.load (p : ScsiCmnd) : Gauges :=
  (1, p.one .wr, p.one .rd, p.one .bidi, p.one .other, UInt64.ofNat (p.bytesTx cfg),
    UInt64.ofNat (p.bytesRx cfg))

/-- The accepted commands of a LUN. -/
def Host.pending (s : Host) (tid lun : Nat) : List ScsiCmnd :=
  (s.accepted.map Prod.snd).filter fun p => p.tid = tid ∧ p.lun = lun

/-- The gauges say what is pending on the LUN. -/
structure Accounted (tid lun : Nat) (s : Host) : Prop where
  outstanding : (s.stats tid lun).outstanding = (s.pending tid lun).length
  wr : (s.stats tid lun).outstandingWr = (s.pending tid lun).countP (·.class = .wr)
  rd : (s.stats tid lun).outstandingRd = (s.pending tid lun).countP (·.class = .rd)
  bidi : (s.stats tid lun).outstandingBidi = (s.pending tid lun).countP (·.class = .bidi)
  other : (s.stats tid lun).outstandingOther = (s.pending tid lun).countP (·.class = .other)
  total : (s.stats tid lun).outstanding = (s.stats tid lun).outstandingWr +
    (s.stats tid lun).outstandingRd + (s.stats tid lun).outstandingBidi +
    (s.stats tid lun).outstandingOther
  tx : (s.stats tid lun).qBytesTx.toNat = ((s.pending tid lun).map (·.bytesTx cfg)).sum
  rx : (s.stats tid lun).qBytesRx.toNat = ((s.pending tid lun).map (·.bytesRx cfg)).sum

/-! ## The statistics of one call -/

theorem gauges_issue (p : ScsiCmnd) (st : DriverStats) :
    (st.issue cfg p).gauges = st.gauges + p.load cfg := by
  unfold DriverStats.issue ScsiCmnd.load ScsiCmnd.one ScsiCmnd.class ScsiCmnd.bytesTx
    ScsiCmnd.bytesRx ScsiCmnd.transfer
  by_cases ht : p.transfers = true
  · cases p.direction <;> simp [ht, DriverStats.gauges]
  · simp [ht, DriverStats.gauges]

/-- What counting a command out takes away. -/
def DriverCmd.discharge (p : ScsiCmnd) (c : DriverCmd) (aborted : Bool) : Gauges :=
  if aborted then (1, 0, 0, 0, 0, 0, 0)
  else
    (1, if c.todev then 1 else 0, if c.fromdev && !c.todev then 1 else 0,
      if c.fromdev && c.todev && cfg.osdBidi then 1 else 0, if c.fromdev then 0 else 1,
      if c.todev then p.bufflen.toUInt64 else 0,
      if c.fromdev then
        if c.todev then if cfg.osdBidi then p.bidiBufflen.toUInt64 else 0 else p.bufflen.toUInt64
      else 0)

theorem gauges_complete (p : ScsiCmnd) (c : DriverCmd) (r : Completion) (st : DriverStats) :
    (st.complete cfg p c r).gauges = st.gauges - c.discharge cfg p r.aborted := by
  unfold DriverStats.complete DriverCmd.discharge
  cases r.aborted
  · cases c.todev <;> cases c.fromdev <;> cases cfg.osdBidi <;>
      simp [DriverStats.gauges]
  · simp [DriverStats.gauges]

/-- A command takes away what it added just when it was not aborted and sent no data. -/
theorem discharge_eq_load_iff {p : ScsiCmnd} {c : DriverCmd} (aborted : Bool)
    (hfrom : c.fromdev = (p.transfer cfg).input) (hto : c.todev = (p.transfer cfg).output) :
    c.discharge cfg p aborted = p.load cfg ↔ aborted = false ∧ c.todev = false := by
  unfold DriverCmd.discharge ScsiCmnd.load ScsiCmnd.one ScsiCmnd.class ScsiCmnd.bytesTx
    ScsiCmnd.bytesRx
  rw [hfrom, hto]
  unfold ScsiCmnd.transfer
  cases aborted <;> by_cases ht : p.transfers = true <;> cases p.direction <;>
    simp [ht]

/-- A reset keeps the gauges just when no more than 32 bits of bytes are queued, and as many in
one direction as in the other. -/
theorem gauges_reset_iff (st : DriverStats) :
    st.reset.gauges = st.gauges ↔ st.qBytesTx < 4294967296 ∧ st.qBytesRx = st.qBytesTx := by
  have hlow : st.qBytesTx.toUInt32.toUInt64 = st.qBytesTx ↔ st.qBytesTx < 4294967296 := by
    rw [← UInt64.toNat_inj, UInt32.toNat_toUInt64, UInt64.toNat_toUInt32, UInt64.lt_iff_toNat_lt]
    change st.qBytesTx.toNat % 4294967296 = st.qBytesTx.toNat ↔ st.qBytesTx.toNat < 4294967296
    omega
  simp only [DriverStats.gauges, DriverStats.reset, Prod.mk.injEq, true_and, hlow]
  constructor
  · rintro ⟨h, h'⟩
    exact ⟨h, h'.symm.trans (hlow.mpr h)⟩
  · rintro ⟨h, h'⟩
    exact ⟨h, (hlow.mpr h).trans h'.symm⟩

/-! ## Sums of loads -/

/-- The sum of the loads of a list of commands, gauge by gauge. -/
theorem sum_load (l : List ScsiCmnd) :
    (l.map (·.load cfg)).sum = ((l.length : Int), (l.countP (·.class = .wr) : Int),
      (l.countP (·.class = .rd) : Int), (l.countP (·.class = .bidi) : Int),
      (l.countP (·.class = .other) : Int), UInt64.ofNat (l.map (·.bytesTx cfg)).sum,
      UInt64.ofNat (l.map (·.bytesRx cfg)).sum) := by
  induction l with
  | nil => rfl
  | cons p l ih =>
    have one (k : Class) (q : ScsiCmnd → Bool) (hq : ∀ p, q p = decide (p.class = k)) :
        ((p :: l).countP q : Int) = p.one k + (l.countP q : Int) := by
      rw [List.countP_cons, hq, ScsiCmnd.one]
      by_cases h : p.class = k <;> simp [h, Int.add_comm]
    rw [List.map_cons, List.sum_cons, ih, one .wr _ fun _ => rfl, one .rd _ fun _ => rfl,
      one .bidi _ fun _ => rfl, one .other _ fun _ => rfl]
    simp only [ScsiCmnd.load, Prod.mk_add_mk, List.length_cons, List.map_cons, List.sum_cons,
      UInt64.ofNat_add, Nat.cast_add, Nat.cast_one, Int.add_comm]

theorem sum_load_filter_cons (p : ScsiCmnd) (l : List ScsiCmnd) (tid lun : Nat) :
    (((p :: l).filter fun p => p.tid = tid ∧ p.lun = lun).map (·.load cfg)).sum =
      (if p.tid = tid ∧ p.lun = lun then p.load cfg else 0) +
        ((l.filter fun p => p.tid = tid ∧ p.lun = lun).map (·.load cfg)).sum := by
  rw [List.filter_cons]
  by_cases hp : p.tid = tid ∧ p.lun = lun
  · rw [if_pos (decide_eq_true hp), if_pos hp, List.map_cons, List.sum_cons]
  · rw [if_neg fun h => hp (of_decide_eq_true h), if_neg hp, zero_add]

/-- Every command is of one class. -/
theorem length_eq_classes (l : List ScsiCmnd) :
    l.length = l.countP (·.class = .wr) + l.countP (·.class = .rd) +
      l.countP (·.class = .bidi) + l.countP (·.class = .other) := by
  induction l with
  | nil => rfl
  | cons p l ih =>
    simp only [List.length_cons, List.countP_cons, ih]
    cases p.class <;> simp <;> omega

theorem bytes_lt (p : ScsiCmnd) :
    p.bytesTx cfg < 4294967296 ∧ p.bytesRx cfg < 4294967296 := by
  have lt (x : UInt32) : x.toNat < 4294967296 := x.toNat_lt
  unfold ScsiCmnd.bytesTx ScsiCmnd.bytesRx
  refine ⟨?_, ?_⟩
  · split
    · exact lt _
    · decide
  · split
    · split <;> exact lt _
    · decide

theorem toNat_ofNat_sum {f : ScsiCmnd → Nat} (hf : ∀ p, f p < 4294967296) {l : List ScsiCmnd}
    (hl : l.length ≤ configInitiatorQueueDepth) :
    (UInt64.ofNat (l.map f).sum).toNat = (l.map f).sum := by
  have hsum : (l.map f).sum ≤ l.length * 4294967296 := by
    clear hl
    induction l with
    | nil => exact Nat.le_refl 0
    | cons p l ih =>
      have := hf p
      rw [List.map_cons, List.sum_cons, List.length_cons]
      omega
  rw [UInt64.toNat_ofNat']
  unfold configInitiatorQueueDepth at hl
  omega

/-! ## The books of a LUN -/

/-- The structures and the gauges of a LUN in order, but for a load that is counted and not yet
booked. -/
structure Ledger (tid lun : Nat) (x : Gauges) (s : Host) : Prop where
  /-- An accepted command is in its structure. -/
  slot : ∀ i p, (i, p) ∈ s.accepted → (s.cmds i).callbackArg = some p
  /-- A structure in use for the LUN is one of an accepted command. -/
  known : ∀ i p, (s.cmds i).callbackArg = some p → p.tid = tid ∧ p.lun = lun → (i, p) ∈ s.accepted
  /-- A structure has the directions of its command. -/
  flags : ∀ i p, (s.cmds i).callbackArg = some p →
    (s.cmds i).fromdev = (p.transfer cfg).input ∧ (s.cmds i).todev = (p.transfer cfg).output
  free : ∀ i ∈ s.cmdQ, (s.cmds i).callbackArg = none
  nodupQ : s.cmdQ.Nodup
  nodup : (s.accepted.map Prod.fst).Nodup
  small : ∀ i p, i ∈ s.cmdQ ∨ (s.cmds i).callbackArg = some p → i < configInitiatorQueueDepth
  /-- The gauges are the sum of the loads. -/
  balanced : (s.stats tid lun).gauges = ((s.pending tid lun).map (·.load cfg)).sum + x

variable {tid lun : Nat} {s : Host}

theorem Ledger.length_le {x : Gauges} (h : Ledger cfg tid lun x s) :
    (s.pending tid lun).length ≤ configInitiatorQueueDepth := by
  have hsub : s.accepted.map Prod.fst ⊆ List.range configInitiatorQueueDepth := by
    intro i hi
    obtain ⟨⟨i, p⟩, hp, rfl⟩ := List.mem_map.mp hi
    exact List.mem_range.mpr (h.small i p (.inr (h.slot i p hp)))
  have hle := (h.nodup.subperm hsub).length_le
  rw [List.length_map, List.length_range] at hle
  refine (List.length_filter_le _ _).trans ?_
  rwa [List.length_map]

/-- Books in order say that the gauges are right. -/
theorem Ledger.accounted (h : Ledger cfg tid lun 0 s) : Accounted cfg tid lun s := by
  have hb := h.balanced
  rw [add_zero, sum_load] at hb
  simp only [DriverStats.gauges, Prod.mk.injEq] at hb
  obtain ⟨h₁, h₂, h₃, h₄, h₅, h₆, h₇⟩ := hb
  refine ⟨h₁, h₂, h₃, h₄, h₅, ?_, ?_, ?_⟩
  · rw [h₁, h₂, h₃, h₄, h₅]
    exact_mod_cast length_eq_classes _
  · rw [h₆]
    exact toNat_ofNat_sum (fun p => (bytes_lt cfg p).1) (h.length_le cfg)
  · rw [h₇]
    exact toNat_ofNat_sum (fun p => (bytes_lt cfg p).2) (h.length_le cfg)

/-- The books of a new driver are in order. -/
theorem ledger_init (cmds : Nat → DriverCmd) : Ledger cfg tid lun 0 (Host.init cmds) where
  slot _ _ h := nomatch h
  known _ _ h _ := nomatch h
  flags _ _ h := nomatch h
  free _ _ := rfl
  nodupQ := List.nodup_range
  nodup := List.nodup_nil
  small _ _ h := List.mem_range.mp (h.resolve_right nofun)
  balanced := rfl

/-- When a call keeps the gauges of a LUN. -/
def CallOk (tid lun : Nat) (s : Host) : Call → Prop
  | .queuecommand p enqueue => p.tid = tid ∧ p.lun = lun → cfg.isRamdisk p.tid = false →
      (p.useSg ≠ 0 → s.iovecs ≠ 0) ∧ s.cmdQ ≠ [] ∧ p.cmdLen ≤ configIscsiMaxAhsLen ∧
        enqueue = .queued
  | .done i r => ∀ p ∈ (s.cmds i).callbackArg, p.tid = tid ∧ p.lun = lun →
      r.aborted = false ∧ (s.cmds i).todev = false
  | .reset => (s.stats tid lun).qBytesTx < 4294967296 ∧
      (s.stats tid lun).qBytesRx = (s.stats tid lun).qBytesTx

instance (tid lun : Nat) (s : Host) (e : Call) : Decidable (CallOk cfg tid lun s e) := by
  cases e <;> unfold CallOk <;> infer_instance

/-! ### Steps of the books -/

variable {x : Gauges} {p : ScsiCmnd}

/-- Statistics of a LUN after those of the LUN of a command were changed. -/
theorem Ledger.onStats (h : Ledger cfg tid lun x s) {f : DriverStats → DriverStats} {y : Gauges}
    (hf : p.tid = tid ∧ p.lun = lun → (f (s.stats tid lun)).gauges =
      ((s.pending tid lun).map (·.load cfg)).sum + y)
    (hy : ¬(p.tid = tid ∧ p.lun = lun) → y = x) :
    ensures (onStats p f) (fun _ s' => Ledger cfg tid lun y s' ∧ s'.cmds = s.cmds ∧
      s'.cmdQ = s.cmdQ ∧ s'.iovecs = s.iovecs ∧ s'.accepted = s.accepted) s := by
  refine And.intro ?_ ⟨rfl, rfl, rfl, rfl⟩
  refine { h with balanced := ?_ }
  change DriverStats.gauges (if tid = p.tid ∧ lun = p.lun then _ else _) = _
  by_cases hp : p.tid = tid ∧ p.lun = lun
  · rw [if_pos ⟨hp.1.symm, hp.2.symm⟩]
    exact hf hp
  · rw [if_neg fun hp' => hp ⟨hp'.1.symm, hp'.2.symm⟩, hy hp]
    exact h.balanced

theorem Ledger.take (h : Ledger cfg tid lun x s) {i : Nat} {cmdQ : List Nat}
    (hq : s.cmdQ = i :: cmdQ) : Ledger cfg tid lun x { s with cmdQ } :=
  { h with
    free := fun j hj => h.free j (hq ▸ List.mem_cons_of_mem _ hj)
    nodupQ := (List.nodup_cons.mp (hq ▸ h.nodupQ)).2
    small := fun j q hj => h.small j q (hj.imp_left fun hj => hq ▸ List.mem_cons_of_mem _ hj) }

/-- The structure `i` filled for the command `p`. -/
structure Filled (i : Nat) (p : ScsiCmnd) (c : DriverCmd) (s : Host) : Prop where
  notFree : i ∉ s.cmdQ
  small : i < configInitiatorQueueDepth
  unused : (s.cmds i).callbackArg = none
  callbackArg : c.callbackArg = some p
  fromdev : c.fromdev = (p.transfer cfg).input
  todev : c.todev = (p.transfer cfg).output

/-- A structure is filled for a command of another LUN. -/
theorem Ledger.store (h : Ledger cfg tid lun x s) {i : Nat} {c : DriverCmd}
    (hc : Filled cfg i p c s) (hp : ¬(p.tid = tid ∧ p.lun = lun)) :
    Ledger cfg tid lun x { s with cmds := fun j => if j = i then c else s.cmds j } where
  slot j q hj := by
    have hji : j ≠ i := by
      rintro rfl
      exact nomatch hc.unused.symm.trans (h.slot _ _ hj)
    simpa only [if_neg hji] using h.slot j q hj
  known j q hj hq := by
    dsimp only at hj
    split at hj
    · obtain rfl := Option.some.inj (hc.callbackArg.symm.trans hj)
      exact absurd hq hp
    · exact h.known j q hj hq
  flags j q hj := by
    dsimp only at hj ⊢
    split at hj
    · obtain rfl := Option.some.inj (hc.callbackArg.symm.trans hj)
      simp only [if_pos ‹j = i›]
      exact ⟨hc.fromdev, hc.todev⟩
    · simp only [if_neg ‹¬j = i›]
      exact h.flags j q hj
  free j hj := by
    have hji : j ≠ i := fun e => hc.notFree (e ▸ hj)
    simpa only [if_neg hji] using h.free j hj
  nodupQ := h.nodupQ
  nodup := h.nodup
  small j q hj := by
    by_cases hji : j = i
    · exact hji ▸ hc.small
    · simp only [if_neg hji] at hj
      exact h.small j q hj
  balanced := h.balanced

/-- A structure is filled, and the command is accepted. -/
theorem Ledger.accept {i : Nat} {c : DriverCmd} (hc : Filled cfg i p c s)
    (h : Ledger cfg tid lun (if p.tid = tid ∧ p.lun = lun then p.load cfg else 0) s) :
    Ledger cfg tid lun 0 { s with
      cmds := fun j => if j = i then c else s.cmds j
      accepted := s.accepted ++ [(i, p)] } where
  slot j q hj := by
    rcases List.mem_append.mp hj with hold | hnew
    · have hji : j ≠ i := by
        rintro rfl
        exact nomatch hc.unused.symm.trans (h.slot _ _ hold)
      simpa only [if_neg hji] using h.slot j q hold
    · obtain ⟨rfl, rfl⟩ := Prod.mk.inj (List.mem_singleton.mp hnew)
      simpa only [if_true] using hc.callbackArg
  known j q hj hq := by
    dsimp only at hj
    split at hj
    · obtain rfl := Option.some.inj (hc.callbackArg.symm.trans hj)
      exact List.mem_append_right _ (List.mem_singleton.mpr (by rw [‹j = i›]))
    · exact List.mem_append_left _ (h.known j q hj hq)
  flags j q hj := by
    dsimp only at hj ⊢
    split at hj
    · obtain rfl := Option.some.inj (hc.callbackArg.symm.trans hj)
      simp only [if_pos ‹j = i›]
      exact ⟨hc.fromdev, hc.todev⟩
    · simp only [if_neg ‹¬j = i›]
      exact h.flags j q hj
  free j hj := by
    have hji : j ≠ i := fun e => hc.notFree (e ▸ hj)
    simpa only [if_neg hji] using h.free j hj
  nodupQ := h.nodupQ
  nodup := by
    rw [List.map_append, List.map_singleton, List.nodup_append]
    refine ⟨h.nodup, List.nodup_singleton _, ?_⟩
    rintro j hj _ hi rfl
    obtain rfl := List.mem_singleton.mp hi
    obtain ⟨⟨k, q⟩, hq, rfl⟩ := List.mem_map.mp hj
    exact nomatch hc.unused.symm.trans (h.slot _ _ hq)
  small j q hj := by
    by_cases hji : j = i
    · exact hji ▸ hc.small
    · simp only [if_neg hji] at hj
      exact h.small j q hj
  balanced := by
    have hb := h.balanced
    change (s.stats tid lun).gauges = _
    rw [hb]
    simp only [Host.pending, List.map_append, List.map_singleton, List.filter_append,
      List.sum_append, add_zero, sum_load_filter_cons, List.filter_nil, List.map_nil,
      List.sum_nil]

/-- `iscsi_queuecommand` keeps the books. -/
theorem ledger_queuecommand (h : Ledger cfg tid lun 0 s) (p : ScsiCmnd) (enqueue : Enqueue)
    (ok : CallOk cfg tid lun s (.queuecommand p enqueue)) :
    ensures (iscsiQueuecommand cfg p enqueue) (fun _ s' => Ledger cfg tid lun 0 s') s := by
  refine (wp_ite _ _ _).mpr ⟨fun _ => h, fun hram => ?_⟩
  -- the load is counted first, and booked only where the command is accepted
  have count : ensures (onStats p (·.issue cfg p)) _ s :=
    h.onStats cfg (y := if p.tid = tid ∧ p.lun = lun then p.load cfg else 0)
      (fun hp => by rw [gauges_issue, h.balanced, add_zero, if_pos hp]) fun hp => if_neg hp
  refine ensures.bind count fun _ s₁ hcount => ?_
  obtain ⟨h₁, hcmds, hq, hiov, -⟩ := hcount
  have settled (hp : ¬(p.tid = tid ∧ p.lun = lun)) {s' : Host}
      (h' : Ledger cfg tid lun (if p.tid = tid ∧ p.lun = lun then p.load cfg else 0) s') :
      Ledger cfg tid lun 0 s' := by rwa [if_neg hp] at h'
  have accepted (hp : p.tid = tid ∧ p.lun = lun) := ok hp (by simpa using hram)
  refine (wp_bind _ _).mpr ((wp_ite _ _ _).mpr ⟨fun hfail => ?_, fun _ => ?_⟩)
  · refine settled (fun hp => ?_) h₁
    simp only [Bool.and_eq_true, decide_eq_true_eq, hiov] at hfail
    exact (accepted hp).1 hfail.1 hfail.2
  refine ensures.bind (P := fun _ s₂ => Ledger cfg tid lun
    (if p.tid = tid ∧ p.lun = lun then p.load cfg else 0) s₂ ∧ s₂.cmds = s₁.cmds ∧
      s₂.cmdQ = s₁.cmdQ) ?_ fun _ s₂ hkept => ?_
  · exact (wp_guarded _ _).mpr ⟨fun _ => And.intro { h₁ with } ⟨rfl, rfl⟩, fun _ => ⟨h₁, rfl, rfl⟩⟩
  obtain ⟨h₂, hcmds₂, hq₂⟩ := hkept
  refine (wp_bind _ _).mpr (wp_get.mpr ?_)
  cases hq₃ : s₂.cmdQ with
  | nil =>
    refine settled (fun hp => (accepted hp).2.1 ?_) h₂
    rw [← hq, ← hq₂, hq₃]
  | cons i cmdQ =>
    have h₃ := h₂.take cfg hq₃
    have hi : i ∉ cmdQ := (List.nodup_cons.mp (hq₃ ▸ h₂.nodupQ)).1
    have hmem : i ∈ s₂.cmdQ := hq₃ ▸ List.mem_cons_self
    have filled (c : DriverCmd) (hc : c.callbackArg = some p)
        (hfrom : c.fromdev = (p.transfer cfg).input) (hto : c.todev = (p.transfer cfg).output) :
        Filled cfg i p c { s₂ with cmdQ } :=
      ⟨hi, h₂.small i p (.inl hmem), h₂.free i hmem, hc, hfrom, hto⟩
    refine (wp_bind _ _).mpr ((wp_ite _ _ _).mpr ⟨fun hlen => ?_, fun _ => ?_⟩)
    · refine settled (fun hp => ?_) h₃
      simp only [Bool.and_eq_true, decide_eq_true_eq] at hlen
      exact absurd (accepted hp).2.2.1 (Nat.not_le.mpr hlen.2)
    refine (wp_ite _ _ _).mpr ⟨fun href => ?_, fun _ => ?_⟩
    · refine settled (fun hp => ?_) h₃
      cases href.symm.trans (accepted hp).2.2.2
    refine (wp_bind _ _).mpr ((wp_ite _ _ _).mpr ⟨fun hfail => ?_, fun _ => ?_⟩)
    · have hp : ¬(p.tid = tid ∧ p.lun = lun) := fun hp => by
        cases hfail.symm.trans (accepted hp).2.2.2
      exact (settled hp h₃).store cfg (filled _ rfl rfl rfl) hp
    · exact Ledger.accept cfg (filled _ rfl rfl rfl) h₃

/-- Striking the command of a structure off the accepted commands. -/
structure Struck (A A' : List (Nat × ScsiCmnd)) (i : Nat) (y : Gauges) : Prop where
  mem : ∀ j q, (j, q) ∈ A' ↔ (j, q) ∈ A ∧ j ≠ i
  nodup : (A'.map Prod.fst).Nodup
  sum : (((A.map Prod.snd).filter fun p => p.tid = tid ∧ p.lun = lun).map (·.load cfg)).sum =
    y + (((A'.map Prod.snd).filter fun p => p.tid = tid ∧ p.lun = lun).map (·.load cfg)).sum

/-- The callback strikes off the command of its structure. -/
theorem Ledger.struck (h : Ledger cfg tid lun x s) {i : Nat}
    (hp : (s.cmds i).callbackArg = some p) :
    @Struck cfg tid lun s.accepted (s.accepted.eraseP fun a => a.1 = i) i
      (if p.tid = tid ∧ p.lun = lun then p.load cfg else 0) := by
  by_cases hmem : (i, p) ∈ s.accepted
  · obtain ⟨⟨j, q⟩, l₁, l₂, -, hj, hl, herase⟩ :=
      List.exists_of_eraseP (p := fun a : Nat × ScsiCmnd => decide (a.1 = i)) hmem
        (decide_eq_true rfl)
    obtain rfl : j = i := of_decide_eq_true hj
    obtain rfl : q = p := Option.some.inj ((h.slot j q (hl ▸ by simp)).symm.trans hp)
    have hnd := h.nodup
    rw [hl, List.map_append, List.map_cons, List.nodup_middle, List.nodup_cons,
      ← List.map_append] at hnd
    rw [herase]
    refine ⟨fun k q' => ?_, hnd.2, ?_⟩
    · have hne : (k, q') ∈ l₁ ++ l₂ → k ≠ j := by
        rintro hk rfl
        exact hnd.1 (List.mem_map.mpr ⟨_, hk, rfl⟩)
      rw [hl]
      simp only [List.mem_append, List.mem_cons, Prod.mk.injEq] at hne ⊢
      tauto
    · rw [hl]
      simp only [List.map_append, List.map_cons, List.filter_append, List.sum_append,
        sum_load_filter_cons]
      exact add_left_comm _ _ _
  · have hnone : ∀ a ∈ s.accepted, ¬ decide (a.1 = i) = true := by
      rintro ⟨j, q⟩ ha hj
      obtain rfl : j = i := of_decide_eq_true hj
      obtain rfl : q = p := Option.some.inj ((h.slot j q ha).symm.trans hp)
      exact hmem ha
    rw [List.eraseP_of_forall_not hnone]
    refine ⟨fun j q => ⟨fun hj => ⟨hj, ?_⟩, And.left⟩, h.nodup, ?_⟩
    · rintro rfl
      exact hnone _ hj (decide_eq_true rfl)
    · rw [if_neg fun hhere => hmem (h.known i p hp hhere), zero_add]

/-- A structure goes back to the queue, and its command is struck off. -/
theorem Ledger.release {i : Nat} (hp : (s.cmds i).callbackArg = some p)
    (h : Ledger cfg tid lun (if p.tid = tid ∧ p.lun = lun then -p.load cfg else 0) s)
    (iovecs : Nat) :
    Ledger cfg tid lun 0
      { s with
        cmds := fun j => if j = i then { s.cmds j with callbackArg := none } else s.cmds j
        cmdQ := s.cmdQ ++ [i]
        iovecs
        accepted := s.accepted.eraseP fun a => a.1 = i } := by
  have struck := h.struck cfg hp
  have other {j : Nat} {q : ScsiCmnd} (hj : (if j = i then { s.cmds j with callbackArg := none }
      else s.cmds j).callbackArg = some q) : j ≠ i ∧ (s.cmds j).callbackArg = some q := by
    split at hj
    · exact nomatch hj
    · exact ⟨‹_›, hj⟩
  constructor
  · intro j q hj
    obtain ⟨hj, hji⟩ := (struck.mem j q).mp hj
    simpa only [if_neg hji] using h.slot j q hj
  · intro j q hj hq
    obtain ⟨hji, hj⟩ := other hj
    exact (struck.mem j q).mpr ⟨h.known j q hj hq, hji⟩
  · intro j q hj
    obtain ⟨hji, hj⟩ := other hj
    simpa only [if_neg hji] using h.flags j q hj
  · intro j hj
    by_cases hji : j = i
    · simp only [if_pos hji]
    · simp only [if_neg hji]
      exact h.free j ((List.mem_append.mp hj).resolve_right fun h => hji (List.mem_singleton.mp h))
  · refine List.nodup_append.mpr ⟨h.nodupQ, List.nodup_singleton _, ?_⟩
    rintro j hj _ hi rfl
    obtain rfl := List.mem_singleton.mp hi
    exact nomatch (h.free _ hj).symm.trans hp
  · exact struck.nodup
  · rintro j q (hj | hj)
    · rcases List.mem_append.mp hj with hj | hj
      · exact h.small j q (.inl hj)
      · exact List.mem_singleton.mp hj ▸ h.small i p (.inr hp)
    · exact h.small j q (.inr (other hj).2)
  · have hb := h.balanced
    change (s.stats tid lun).gauges = _
    rw [hb, Host.pending, struck.sum, add_zero, Host.pending]
    split
    · exact (add_comm _ _).trans (neg_add_cancel_left _ _)
    · rw [zero_add, add_zero]

/-- `iscsi_done` keeps the books. -/
theorem ledger_done (h : Ledger cfg tid lun 0 s) (i : Nat) (r : Completion)
    (ok : CallOk cfg tid lun s (.done i r)) :
    ensures (iscsiDone cfg i r) (fun _ s' => Ledger cfg tid lun 0 s') s := by
  refine (wp_bind _ _).mpr (wp_get.mpr ?_)
  dsimp only
  cases hp : (s.cmds i).callbackArg with
  | none => exact h
  | some p =>
    obtain ⟨hfrom, hto⟩ := h.flags i p hp
    have count : ensures (onStats p (·.complete cfg p (s.cmds i) r)) _ s :=
      h.onStats cfg (y := if p.tid = tid ∧ p.lun = lun then -p.load cfg else 0)
        (fun hhere => by
          rw [gauges_complete, h.balanced, add_zero, if_pos hhere,
            (discharge_eq_load_iff cfg _ hfrom hto).mpr (ok p hp hhere), sub_eq_add_neg])
        fun hhere => if_neg hhere
    refine ensures.bind count fun _ s₁ hcount => ?_
    obtain ⟨h₁, hcmds, -⟩ := hcount
    have hp₁ : (s₁.cmds i).callbackArg = some p := by rw [hcmds, hp]
    refine (wp_bind _ _).mpr ((wp_bind _ _).mpr ((wp_guarded _ _).mpr ⟨fun _ => ?_, fun _ => ?_⟩))
    · exact Ledger.release cfg hp₁ h₁ _
    · exact Ledger.release cfg hp₁ h₁ _

theorem ledger_reset (h : Ledger cfg tid lun 0 s) (ok : CallOk cfg tid lun s .reset) :
    ensures statsReset (fun _ s' => Ledger cfg tid lun 0 s') s := by
  refine { h with balanced := ?_ }
  exact ((gauges_reset_iff _).mpr ok).trans h.balanced

/-- Every call that meets the condition keeps the books. -/
theorem ledger_next (h : Ledger cfg tid lun 0 s) (e : Call) (ok : CallOk cfg tid lun s e) :
    ensures (next cfg e) (fun _ s' => Ledger cfg tid lun 0 s') s := by
  cases e with
  | queuecommand p enqueue => exact (wp_bind _ _).mpr (ledger_queuecommand cfg h p enqueue ok)
  | done i r => exact (wp_bind _ _).mpr (ledger_done cfg h i r ok)
  | reset => exact (wp_bind _ _).mpr (ledger_reset cfg h ok)

/-! ## Runs -/

/-- **Request accounting.** In every run of the driver whose calls meet the condition for a LUN,
the gauges of the LUN say what is pending on it. -/
theorem gauges_accounted (tid lun : Nat) (cmds : Nat → DriverCmd) (s : Host)
    (h : Reach (next cfg) (CallOk cfg tid lun) (Host.init cmds) s) : Accounted cfg tid lun s :=
  (h.invariant (P := Ledger cfg tid lun 0) (ledger_init cfg cmds) fun _ e hs ok =>
    ledger_next cfg hs e ok).accounted

/-- A command with 512 bytes of data. -/
def smallCommand (direction : Direction) (op : UInt8) : ScsiCmnd :=
  { tid := 0, lun := 0, cmnd := op :: List.replicate 15 0, cmdLen := 16, direction
    bufflen := 512, bidiBufflen := 0, useSg := 0 }

/-- A driver with one target and no ramdisk. -/
def plainConfig : Config := { osdBidi := false, numTargets := 1, ramdiskBlocks := 0 }

/-- Structures that have not been used yet. -/
def freshCmds (_ : Nat) : DriverCmd :=
  { callbackArg := none, hostScribble := false, fromdev := false, todev := false, length := 0
    transLen := 0, bidiTransLen := 0, ahs := [], ahsLen := 0 }

/-- Two reads, of which the first completes. -/
theorem gauges_accounted_reads : ∃ s,
    Reach (next plainConfig) (CallOk plainConfig 0 0) (Host.init freshCmds) s ∧
      (s.pending 0 0).length = 1 ∧ Accounted plainConfig 0 0 s := by
  have hrun : ∃ s, Reach (next plainConfig) (CallOk plainConfig 0 0) (Host.init freshCmds) s ∧
      (s.pending 0 0).length = 1 := exists_reach
    [.queuecommand (smallCommand .fromDevice 0x28) .queued,
      .queuecommand (smallCommand .fromDevice 0x28) .queued,
      .done 0 { status := 0, scsiStatus := 0, aborted := false, usec := 7 }] (by decide +kernel)
  obtain ⟨s, hs, hlen⟩ := hrun
  exact ⟨s, hs, hlen, gauges_accounted plainConfig 0 0 freshCmds s hs⟩

/-- A write that completes is counted out as a write and once more as a command of no class. -/
theorem gauges_miscounted_write : ∃ s,
    Reach (next plainConfig) (fun _ _ => True) (Host.init freshCmds) s ∧
      s.pending 0 0 = [] ∧ ¬Accounted plainConfig 0 0 s := by
  have hrun : ∃ s, Reach (next plainConfig) (fun _ _ => True) (Host.init freshCmds) s ∧
      s.pending 0 0 = [] ∧ (s.stats 0 0).outstandingOther = -1 := exists_reach
    [.queuecommand (smallCommand .toDevice 0x2a) .queued,
      .done 0 { status := 0, scsiStatus := 0, aborted := false, usec := 7 }] (by decide +kernel)
  obtain ⟨s, hs, hlen, hother⟩ := hrun
  refine ⟨s, hs, hlen, fun h => ?_⟩
  have := h.other
  rw [hother, hlen] at this
  exact absurd this (by decide)

end Ost.Driver
