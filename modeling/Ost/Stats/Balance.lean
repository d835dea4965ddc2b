import Ost.Prog.Run
import Ost.Stats.Counters

/-!
# What the counters of a device agree on

Commands arrive, are completed in any order, and the counters are reset in between.  The world keeps
beside the counters the commands that are outstanding and those that have been completed since the
last reset, which nothing reads: they say what the counters ought to count.
-/

namespace Ost.Stats

open Ost.Iscsi Ost.Util Ost.Prog

/-! ## Kinds of commands -/

/-- The kinds that are counted apart. -/
inductive Kind where
  | write
  | read
  | other
deriving DecidableEq, Repr

/-- The kind of a CDB. -/
def kindOf (cdb : Bytes) : Kind :=
  if isWrite cdb then .write else if isRead cdb then .read else .other

namespace OstDeviceCounters

variable (c : OstDeviceCounters)

/-- The outstanding commands of a kind. -/
def outstandingOf : Kind → UInt64
  | .write => c.outstandingWr
  | .read => c.outstandingRd
  | .other => c.outstandingOther

/-- The blocks of a kind. -/
def blocksOf : Kind → UInt64
  | .write => c.blocksWr
  | .read => c.blocksRd
  | .other => 0

/-- The totals are those of the kinds. -/
structure Summed : Prop where
  ops : c.ops = c.opsWr + c.opsRd + c.opsOther
  lats : c.lats = c.latsWr + c.latsRd + c.latsOther
  blocks : c.blocks = c.blocksWr + c.blocksRd

end OstDeviceCounters

/-! ## What an event does to the counters -/

/-- A command that arrives is outstanding. -/
structure Arrived (k : Kind) (c c' : OstDeviceCounters) : Prop where
  outstanding : c'.outstanding = c.outstanding + 1
  outstandingOf : ∀ k', c'.outstandingOf k' = c.outstandingOf k' + if k = k' then 1 else 0
  blocksOf : c'.blocksOf = c.blocksOf
  summed : c.Summed → c'.Summed

/-- A command that is completed is outstanding no more, and it moved a number of blocks. -/
structure Completed (k : Kind) (len : UInt64) (c c' : OstDeviceCounters) : Prop where
  outstanding : c'.outstanding = c.outstanding - 1
  outstandingOf : ∀ k', c'.outstandingOf k' = c.outstandingOf k' - if k = k' then 1 else 0
  blocksOf : ∀ k', k' ≠ .other → c'.blocksOf k' = c.blocksOf k' + if k = k' then len else 0
  summed : c.Summed → c'.Summed

theorem absInt_keeps (x : UInt64) (c : OstDeviceCounters) :
    ensures (absInt x) (fun _ c' => c' = c) c := by
  rw [absInt]
  exact (wp_ite _ _ _).mpr ⟨fun _ => trivial, fun _ => rfl⟩

theorem arrived_of {k : Kind} {c c' : OstDeviceCounters} (hall : c'.outstanding = c.outstanding + 1)
    (hkind : c'.outstandingOf k = c.outstandingOf k + 1)
    (hother : ∀ k', k ≠ k' → c'.outstandingOf k' = c.outstandingOf k')
    (hblocks : c'.blocksOf = c.blocksOf) (hsum : c.Summed → c'.Summed) : Arrived k c c' := by
  refine ⟨hall, fun k' => ?_, hblocks, hsum⟩
  by_cases hk : k = k'
  · rw [if_pos hk, ← hk, hkind]
  · rw [if_neg hk, hother k' hk, UInt64.add_zero]

/-- `ost_update_counters_pre` takes in a write or a read. -/
theorem ostUpdateCountersPre_arrived (writing : Bool) (lba : UInt64) (len : UInt32)
    (c : OstDeviceCounters) :
    ensures (ostUpdateCountersPre writing lba len)
      (fun _ c' => Arrived (if writing then .write else .read) c c') c := by
  rw [ostUpdateCountersPre]
  refine (wp_bind _ _).mpr ((wp_modify _).mpr ((wp_bind _ _).mpr (wp_get.mpr ?_)))
  refine (absInt_keeps _ _).bind ?_
  rintro jump _ rfl
  refine (wp_bind _ _).mpr ((wp_modify _).mpr ?_)
  dsimp only
  refine (wp_ite _ _ _).mpr ⟨fun hw => ?_, fun hw => ?_⟩
  · refine (wp_bind _ _).mpr ((wp_modify _).mpr ((wp_bind _ _).mpr (wp_get.mpr ?_)))
    refine (absInt_keeps _ _).bind ?_
    rintro jump _ rfl
    refine (wp_bind _ _).mpr ((wp_modify _).mpr ((wp_pure _).mpr ?_))
    rw [if_pos hw]
    refine arrived_of rfl rfl (fun k' hk => ?_) (funext fun k' => by cases k' <;> rfl)
      fun h => ⟨h.ops, h.lats, h.blocks⟩
    cases k' with
    | write => exact absurd rfl hk
    | read => rfl
    | other => rfl
  · refine (wp_bind _ _).mpr ((wp_modify _).mpr ((wp_bind _ _).mpr (wp_get.mpr ?_)))
    refine (absInt_keeps _ _).bind ?_
    rintro jump _ rfl
    refine (wp_bind _ _).mpr ((wp_modify _).mpr ((wp_pure _).mpr ?_))
    rw [if_neg hw]
    refine arrived_of rfl rfl (fun k' hk => ?_) (funext fun k' => by cases k' <;> rfl)
      fun h => ⟨h.ops, h.lats, h.blocks⟩
    cases k' with
    | write => rfl
    | read => exact absurd rfl hk
    | other => rfl

theorem kindOf_rw {cdb : Bytes} (hrw : (isWrite cdb || isRead cdb) = true) :
    kindOf cdb = if isWrite cdb then .write else .read := by
  rw [kindOf]
  by_cases hw : isWrite cdb = true
  · rw [if_pos hw, if_pos hw]
  · rw [if_neg hw, if_neg hw, if_pos ((Bool.or_eq_true_iff.mp hrw).resolve_left hw)]

theorem kindOf_other {cdb : Bytes} (hrw : ¬(isWrite cdb || isRead cdb) = true) :
    kindOf cdb = .other := by
  rw [Bool.or_eq_true_iff, not_or] at hrw
  rw [kindOf, if_neg hrw.1, if_neg hrw.2]

/-- `ost_update_counters_pre_via_cdb` takes in one command of the CDB's kind. -/
theorem ostUpdateCountersPreViaCdb_arrived (cdb : Bytes) (c : OstDeviceCounters) :
    ensures (ostUpdateCountersPreViaCdb cdb) (fun _ c' => Arrived (kindOf cdb) c c') c := by
  rw [ostUpdateCountersPreViaCdb]
  refine (wp_ite _ _ _).mpr ⟨fun hrw => ?_, fun hrw => ?_⟩
  · rw [kindOf_rw hrw]
    exact ostUpdateCountersPre_arrived _ _ _ c
  · rw [kindOf_other hrw]
    refine (wp_bind _ _).mpr ((wp_modify _).mpr ((wp_pure _).mpr ?_))
    refine arrived_of rfl rfl (fun k' hk => ?_) (funext fun k' => by cases k' <;> rfl)
      fun h => ⟨?_, h.lats, h.blocks⟩
    · cases k' with
      | write => rfl
      | read => rfl
      | other => exact absurd rfl hk
    · dsimp only
      rw [h.ops, UInt64.add_assoc]

theorem completed_of {k : Kind} {len : UInt64} {c c' : OstDeviceCounters}
    (hall : c'.outstanding = c.outstanding - 1)
    (hkind : c'.outstandingOf k = c.outstandingOf k - 1)
    (hblocks : k ≠ .other → c'.blocksOf k = c.blocksOf k + len)
    (hother : ∀ k', k ≠ k' → c'.outstandingOf k' = c.outstandingOf k' ∧
      c'.blocksOf k' = c.blocksOf k')
    (hsum : c.Summed → c'.Summed) : Completed k len c c' := by
  refine ⟨hall, fun k' => ?_, fun k' hk' => ?_, hsum⟩
  · by_cases hk : k = k'
    · rw [if_pos hk, ← hk, hkind]
    · rw [if_neg hk, (hother k' hk).1, UInt64.sub_zero]
  · by_cases hk : k = k'
    · rw [if_pos hk, ← hk, hblocks (hk ▸ hk')]
    · rw [if_neg hk, (hother k' hk).2, UInt64.add_zero]

/-- `ost_update_counters_post` gives back a write or a read. -/
theorem ostUpdateCountersPost_completed (writing : Bool) (len lat : UInt32)
    (c : OstDeviceCounters) : ensures (ostUpdateCountersPost writing len lat)
      (fun _ c' => Completed (if writing then .write else .read) len.toUInt64 c c') c := by
  rw [ostUpdateCountersPost]
  refine (wp_bind _ _).mpr ((wp_modify _).mpr ?_)
  dsimp only
  refine (wp_ite _ _ _).mpr ⟨fun hw => ?_, fun hw => ?_⟩
  · refine (wp_bind _ _).mpr ((wp_modify _).mpr ((wp_pure _).mpr ?_))
    rw [if_pos hw]
    refine completed_of rfl rfl (fun _ => rfl) (fun k' hk => ?_) fun h => ⟨?_, ?_, ?_⟩
    · cases k' with
      | write => exact absurd rfl hk
      | read => exact ⟨rfl, rfl⟩
      | other => exact ⟨rfl, rfl⟩
    · dsimp only
      rw [h.ops]
      ac_rfl
    · dsimp only
      rw [h.lats]
      ac_rfl
    · dsimp only
      rw [h.blocks]
      ac_rfl
  · refine (wp_bind _ _).mpr ((wp_modify _).mpr ((wp_pure _).mpr ?_))
    rw [if_neg hw]
    refine completed_of rfl rfl (fun _ => rfl) (fun k' hk => ?_) fun h => ⟨?_, ?_, ?_⟩
    · cases k' with
      | write => exact ⟨rfl, rfl⟩
      | read => exact absurd rfl hk
      | other => exact ⟨rfl, rfl⟩
    · dsimp only
      rw [h.ops]
      ac_rfl
    · dsimp only
      rw [h.lats]
      ac_rfl
    · dsimp only
      rw [h.blocks]
      ac_rfl

/-- `ost_update_counters_post_via_cdb` gives back one command of the CDB's kind. -/
theorem ostUpdateCountersPostViaCdb_completed (cdb : Bytes) (lat : UInt32) (stale : UInt16)
    (c : OstDeviceCounters) :
    ensures (ostUpdateCountersPostViaCdb cdb lat stale)
      (fun _ c' => Completed (kindOf cdb)
        (UInt32.ofNat (stale.toNat * 65536 + cdbLength cdb)).toUInt64 c c') c := by
  rw [ostUpdateCountersPostViaCdb]
  refine (wp_ite _ _ _).mpr ⟨fun hrw => ?_, fun hrw => ?_⟩
  · rw [kindOf_rw hrw]
    exact ostUpdateCountersPost_completed _ _ _ c
  · rw [kindOf_other hrw]
    refine (wp_bind _ _).mpr ((wp_modify _).mpr ((wp_pure _).mpr ?_))
    refine completed_of rfl rfl (fun hk => absurd rfl hk) (fun k' hk => ?_)
      fun h => ⟨h.ops, ?_, h.blocks⟩
    · cases k' with
      | write => exact ⟨rfl, rfl⟩
      | read => exact ⟨rfl, rfl⟩
      | other => exact absurd rfl hk
    · dsimp only
      rw [h.lats]
      ac_rfl

/-- `ost_reset_counters` leaves only what is outstanding. -/
theorem ostResetCounters_spec (c : OstDeviceCounters) :
    ensures ostResetCounters (fun _ c' => c'.outstanding = c.outstanding ∧
      c'.outstandingOf = c.outstandingOf ∧ c'.blocksOf = (fun _ => 0) ∧ c'.Summed) c :=
  (wp_modify _).mpr ⟨rfl, funext fun k => by cases k <;> rfl, funext fun k => by cases k <;> rfl,
    ⟨rfl, rfl, rfl⟩⟩

/-! ## The world -/

/-- The counters of a device, the commands that are outstanding, and those that have been completed
since the last reset. -/
structure World where
  counters : OstDeviceCounters
  pending : List Bytes
  completed : List Bytes
deriving DecidableEq, Repr

/-- The world before the first command. -/
def World.start : World := ⟨.zero, [], []⟩

/-- What happens to the counters. -/
inductive Event where
  | /-- A command arrives. -/
    arrive (cdb : Bytes)
  | /-- A command is completed; `stale` is what the uninitialised half of its length holds. -/
    complete (cdb : Bytes) (lat : UInt32) (stale : UInt16)
  | /-- The counters are reset. -/
    reset
deriving DecidableEq, Repr

/-- A function on the counters, in the world. -/
def onCounters {α : Type} (x : CountersProg α) : Prog Halt World α := fun w =>
  match x w.counters with
  | .ret a c => .ret a { w with counters := c }
  | .halt e c => .halt e { w with counters := c }

/-- What happens. -/
def next : Event → Prog Halt World PUnit
  | .arrive cdb => do
    let _ ← onCounters (ostUpdateCountersPreViaCdb cdb)
    modify fun w => { w with pending := cdb :: w.pending }
  | .complete cdb lat stale => do
    let _ ← onCounters (ostUpdateCountersPostViaCdb cdb lat stale)
    modify fun w => { w with pending := w.pending.erase cdb, completed := cdb :: w.completed }
  | .reset => do
    onCounters ostResetCounters
    modify fun w => { w with completed := [] }

/-- Only a command that has arrived is completed. -/
def Allowed (w : World) : Event → Prop
  | .complete cdb _ _ => cdb ∈ w.pending
  | _ => True

/-- The half of its length that is not initialised is zero, for a read or a write. -/
def Clean : Event → Prop
  | .complete cdb _ stale => kindOf cdb ≠ .other → stale = 0
  | _ => True

instance instDecidableAllowed (w : World) : (e : Event) → Decidable (Allowed w e)
  | .complete cdb _ _ => inferInstanceAs (Decidable (cdb ∈ w.pending))
  | .arrive _ | .reset => .isTrue trivial

instance instDecidableClean : (e : Event) → Decidable (Clean e)
  | .complete cdb _ stale => inferInstanceAs (Decidable (kindOf cdb ≠ .other → stale = 0))
  | .arrive _ | .reset => .isTrue trivial

/-- What it does to the counters it does to the world. -/
theorem ensures_onCounters {α : Type} {x : CountersProg α} {w : World}
    {Q : OstDeviceCounters → Prop} (h : ensures x (fun _ c => Q c) w.counters) :
    ensures (onCounters x) (fun _ w' => ∃ c, w' = { w with counters := c } ∧ Q c) w := by
  cases hx : x w.counters with
  | ret a c =>
    have hrun : onCounters x w = .ret a { w with counters := c } := by rw [onCounters, hx]
    exact ensures_of_ret hrun ⟨c, rfl, h.of_ret hx⟩
  | halt e c =>
    have hrun : onCounters x w = .halt e { w with counters := c } := by rw [onCounters, hx]
    rw [ensures, wp, hrun]
    trivial

/-! ## Balance -/

/-- The transfer lengths of the commands of a kind, summed up. -/
def lengths (k : Kind) (cdbs : List Bytes) : Nat :=
  ((cdbs.filter fun cdb => kindOf cdb = k).map cdbLength).sum

/-- The counters count the commands. -/
structure Balanced (w : World) : Prop where
  outstanding : w.counters.outstanding = UInt64.ofNat w.pending.length
  outstandingOf : ∀ k, w.counters.outstandingOf k =
    UInt64.ofNat (w.pending.countP fun cdb => kindOf cdb = k)
  blocksOf : ∀ k, k ≠ .other → w.counters.blocksOf k = UInt64.ofNat (lengths k w.completed)
  summed : w.counters.Summed

theorem length_eq_kinds (cdbs : List Bytes) : cdbs.length =
    (cdbs.countP fun cdb => kindOf cdb = .write) + (cdbs.countP fun cdb => kindOf cdb = .read) +
      cdbs.countP fun cdb => kindOf cdb = .other := by
  induction cdbs with
  | nil => rfl
  | cons cdb cdbs ih =>
    rw [List.length_cons, ih, List.countP_cons, List.countP_cons, List.countP_cons]
    cases kindOf cdb <;> simp <;> omega

/-- The outstanding commands of the kinds are those that are outstanding. -/
theorem Balanced.outstanding_eq {w : World} (h : Balanced w) : w.counters.outstanding =
    w.counters.outstandingWr + w.counters.outstandingRd + w.counters.outstandingOther := by
  have hall := h.outstanding
  have hwr := h.outstandingOf .write
  have hrd := h.outstandingOf .read
  have hother := h.outstandingOf .other
  rw [length_eq_kinds, UInt64.ofNat_add, UInt64.ofNat_add, ← hwr, ← hrd, ← hother] at hall
  exact hall

theorem balanced_start : Balanced World.start :=
  ⟨rfl, fun k => by cases k <;> rfl, fun k _ => by cases k <;> rfl, ⟨rfl, rfl, rfl⟩⟩

theorem lengths_cons (k : Kind) (cdb : Bytes) (cdbs : List Bytes) :
    lengths k (cdb :: cdbs) = lengths k cdbs + if kindOf cdb = k then cdbLength cdb else 0 := by
  rw [lengths, List.filter_cons]
  by_cases hk : kindOf cdb = k
  · rw [if_pos (decide_eq_true hk), if_pos hk, List.map_cons, List.sum_cons, Nat.add_comm, lengths]
  · rw [if_neg (mt of_decide_eq_true hk), if_neg hk, lengths, Nat.add_zero]

theorem cdbLength_lt (cdb : Bytes) : cdbLength cdb < 65536 := be16_lt cdb 7

/-- The length of four bytes is the length in the CDB just when the other two bytes are zero. -/
theorem length_exact_iff {stale : UInt16} {len : Nat} (hlen : len < 65536) :
    (UInt32.ofNat (stale.toNat * 65536 + len)).toUInt64 = UInt64.ofNat len ↔ stale = 0 := by
  have hstale := stale.toNat_lt
  rw [← UInt64.toNat_inj, UInt32.toNat_toUInt64, UInt32.toNat_ofNat', UInt64.toNat_ofNat',
    ← UInt16.toNat_inj, UInt16.toNat_zero]
  omega

/-- An arrival keeps the balance. -/
theorem Balanced.arrive {w : World} {cdb : Bytes} {c : OstDeviceCounters} (h : Balanced w)
    (hc : Arrived (kindOf cdb) w.counters c) :
    Balanced { w with counters := c, pending := cdb :: w.pending } := by
  refine ⟨?_, fun k => ?_, fun k hk => ?_, hc.summed h.summed⟩
  · rw [hc.outstanding, h.outstanding, List.length_cons, UInt64.ofNat_add]
    rfl
  · rw [hc.outstandingOf, h.outstandingOf, List.countP_cons, UInt64.ofNat_add]
    by_cases hk : kindOf cdb = k
    · rw [if_pos hk, if_pos (decide_eq_true hk)]
      rfl
    · rw [if_neg hk, if_neg (mt of_decide_eq_true hk)]
      rfl
  · rw [hc.blocksOf]
    exact h.blocksOf k hk

/-- A completion keeps it just when the blocks that are counted are those of the CDB. -/
theorem Balanced.complete_iff {w : World} {cdb : Bytes} {len : UInt64} {c : OstDeviceCounters}
    (h : Balanced w) (hmem : cdb ∈ w.pending) (hc : Completed (kindOf cdb) len w.counters c) :
    Balanced ⟨c, w.pending.erase cdb, cdb :: w.completed⟩ ↔
      (kindOf cdb ≠ .other → len = UInt64.ofNat (cdbLength cdb)) := by
  have hperm := List.perm_cons_erase hmem
  constructor
  · intro hb hk
    have hblocks := hb.blocksOf (kindOf cdb) hk
    rw [hc.blocksOf _ hk, if_pos rfl, h.blocksOf _ hk, lengths_cons, if_pos rfl,
      UInt64.ofNat_add, UInt64.add_right_inj] at hblocks
    exact hblocks
  · intro hlen
    refine ⟨?_, fun k => ?_, fun k hk => ?_, hc.summed h.summed⟩
    · rw [hc.outstanding, h.outstanding, hperm.length_eq, List.length_cons, UInt64.ofNat_add]
      exact UInt64.add_sub_cancel _ _
    · rw [hc.outstandingOf, h.outstandingOf, hperm.countP_eq, List.countP_cons, UInt64.ofNat_add]
      by_cases hk : kindOf cdb = k
      · rw [if_pos hk, if_pos (decide_eq_true hk)]
        exact UInt64.add_sub_cancel _ _
      · rw [if_neg hk, if_neg (mt of_decide_eq_true hk)]
        exact UInt64.add_sub_cancel _ _
    · rw [hc.blocksOf k hk, h.blocksOf k hk, lengths_cons, UInt64.ofNat_add]
      by_cases hk' : kindOf cdb = k
      · rw [if_pos hk', if_pos hk', hlen (hk' ▸ hk)]
      · rw [if_neg hk', if_neg hk']
        rfl

/-- **One event** keeps the balance just when it is clean. -/
theorem balanced_step {w : World} {e : Event} (h : Balanced w) (hallowed : Allowed w e) :
    ensures (next e) (fun _ w' => Balanced w' ↔ Clean e) w := by
  cases e with
  | arrive cdb =>
    refine (ensures_onCounters (ostUpdateCountersPreViaCdb_arrived cdb w.counters)).bind ?_
    rintro _ _ ⟨c, rfl, hc⟩
    exact (wp_modify _).mpr (iff_of_true (h.arrive hc) trivial)
  | complete cdb lat stale =>
    refine (ensures_onCounters
      (ostUpdateCountersPostViaCdb_completed cdb lat stale w.counters)).bind ?_
    rintro _ _ ⟨c, rfl, hc⟩
    refine (wp_modify _).mpr ((h.complete_iff hallowed hc).trans ?_)
    rw [length_exact_iff (cdbLength_lt cdb)]
    exact Iff.rfl
  | reset =>
    refine (ensures_onCounters (ostResetCounters_spec w.counters)).bind ?_
    rintro _ _ ⟨c, rfl, hout, houtOf, hblocks, hsum⟩
    refine (wp_modify _).mpr (iff_of_true ⟨?_, fun k => ?_, fun k _ => ?_, hsum⟩ trivial)
    · exact hout.trans h.outstanding
    · exact (congrFun houtOf k).trans (h.outstandingOf k)
    · exact congrFun hblocks k

/-- A write of eight blocks. -/
def writeEight : Bytes := [0x2a, 0, 0, 0, 0, 0, 0, 0, 8, 0]

end Ost.Stats
