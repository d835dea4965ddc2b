import Mathlib.Data.Nat.Dist
import Ost.Stats.Counters

/-!
# Distances between commands

`jumps` sums up how far each command is from the end of the one before it, and `jumps_wr` and
`jumps_rd` do so for the writes and for the reads alone.  Each of the three is the same walk over a
list of commands, which is compared with the distances themselves.
-/

namespace Ost.Stats

open Ost.Iscsi Ost.Util Ost.Prog

/-- A read or a write that arrives. -/
structure RwCommand where
  writing : Bool
  lba : UInt64
  len : UInt32
deriving DecidableEq, Repr

/-- The read or write that a CDB stands for. -/
def RwCommand.ofCdb (cdb : Bytes) : RwCommand where
  writing := isWrite cdb
  lba := (be32 cdb 2).toUInt64
  len := UInt32.ofNat (cdbLength cdb)

/-- It is counted as that command. -/
theorem ostUpdateCountersPreViaCdb_rw {cdb : Bytes} (hrw : (isWrite cdb || isRead cdb) = true) :
    ostUpdateCountersPreViaCdb cdb = ostUpdateCountersPre (RwCommand.ofCdb cdb).writing
      (RwCommand.ofCdb cdb).lba (RwCommand.ofCdb cdb).len :=
  if_pos hrw

/-- Commands arrive one after another. -/
def preAll : List RwCommand → CountersProg PUnit
  | [] => return ⟨⟩
  | c :: cs => do
    let _ ← ostUpdateCountersPre c.writing c.lba c.len
    preAll cs

/-- The distances of commands from the end of the one before, when the last one ended at `pos`. -/
def distances (pos : Nat) : List RwCommand → List Nat
  | [] => []
  | c :: cs => Nat.dist c.lba.toNat pos :: distances (c.lba.toNat + c.len.toNat) cs

/-! ## One distance -/

/-- What `absInt` returns. -/
def jump? (x : UInt64) : Option UInt64 :=
  let low := x.toUInt32
  if low = 0x80000000 then none else some (if low < 0x80000000 then low else -low).toUInt64

theorem wp_absInt {x : UInt64} {Q : UInt64 → OstDeviceCounters → Prop}
    {E : Halt → OstDeviceCounters → Prop} {c : OstDeviceCounters} :
    wp (absInt x) Q E c ↔ (jump? x = none → E .fault c) ∧ ∀ d, jump? x = some d → Q d c := by
  rw [absInt, jump?]
  split
  · simp
  · simp

theorem toNat_jump? {x d : UInt64} (h : jump? x = some d) :
    d.toNat = if x.toNat % 4294967296 < 2147483648 then x.toNat % 4294967296
      else 4294967296 - x.toNat % 4294967296 := by
  have hlow : x.toUInt32.toNat = x.toNat % 4294967296 := UInt64.toNat_toUInt32 x
  rw [jump?] at h
  split at h
  · exact absurd h (Option.some_ne_none d).symm
  · obtain rfl := Option.some.inj h
    rw [UInt32.toNat_toUInt64, ← hlow]
    by_cases hneg : x.toUInt32 < 0x80000000
    · have hlt : x.toUInt32.toNat < 2147483648 := UInt32.lt_iff_toNat_lt.mp hneg
      rw [if_pos hneg, if_pos hlt]
    · have hge : ¬x.toUInt32.toNat < 2147483648 := fun h => hneg (UInt32.lt_iff_toNat_lt.mpr h)
      rw [if_neg hneg, if_neg hge, UInt32.toNat_neg, UInt32.size]
      omega

theorem jump?_eq_none {x : UInt64} : jump? x = none ↔ x.toNat % 4294967296 = 2147483648 := by
  rw [← UInt64.toNat_toUInt32, jump?]
  by_cases hmin : x.toUInt32 = 0x80000000
  · rw [if_pos hmin, hmin]
    exact iff_of_true rfl rfl
  · rw [if_neg hmin]
    refine iff_of_false (Option.some_ne_none _) fun h => hmin (UInt32.toNat_inj.mp h)

theorem jump?_lt {x d : UInt64} (h : jump? x = some d) : d.toNat < 2147483648 := by
  have hne : x.toNat % 4294967296 ≠ 2147483648 := by
    intro hmin
    rw [jump?_eq_none.mpr hmin] at h
    exact absurd h (Option.some_ne_none d).symm
  rw [toNat_jump? h]
  split <;> omega

theorem jump?_of_lt {lba : UInt64} {pos : Nat} (hshort : Nat.dist lba.toNat pos < 2147483648) :
    jump? (lba - UInt64.ofNat pos) = some (UInt64.ofNat (Nat.dist lba.toNat pos)) := by
  have hlba := lba.toNat_lt
  have hsub : (lba - UInt64.ofNat pos).toNat =
      (18446744073709551616 - pos % 18446744073709551616 + lba.toNat) % 18446744073709551616 := by
    rw [UInt64.toNat_sub, UInt64.toNat_ofNat']
  rw [Nat.dist] at hshort ⊢
  cases hjump : jump? (lba - UInt64.ofNat pos) with
  | none =>
    rw [jump?_eq_none, hsub] at hjump
    omega
  | some d =>
    have hd := toNat_jump? hjump
    rw [hsub] at hd
    refine congrArg some (UInt64.toNat_inj.mp ?_)
    rw [hd, UInt64.toNat_ofNat']
    split <;> omega

/-! ## One walk -/

/-- A walk over commands: the sum of the distances, and where the last command ended. -/
def walk : List RwCommand → UInt64 × UInt64 → Option (UInt64 × UInt64)
  | [], t => some t
  | c :: cs, t => (jump? (c.lba - t.2)).bind fun d => walk cs (t.1 + d, c.lba + c.len.toUInt64)

theorem ofNat_end (c : RwCommand) :
    c.lba + c.len.toUInt64 = UInt64.ofNat (c.lba.toNat + c.len.toNat) := by
  rw [UInt64.ofNat_add, UInt64.ofNat_toNat, ← UInt32.toNat_toUInt64, UInt64.ofNat_toNat]

theorem walk_le {cs : List RwCommand} {pos : Nat} {j j' l : UInt64}
    (h : walk cs (j, UInt64.ofNat pos) = some (j', l)) :
    j'.toNat ≤ j.toNat + (distances pos cs).sum := by
  induction cs generalizing pos j with
  | nil =>
    obtain ⟨rfl, -⟩ := Prod.mk.inj (Option.some.inj h)
    exact Nat.le_add_right _ _
  | cons c cs ih =>
    obtain ⟨d, hd, hrest⟩ := Option.bind_eq_some_iff.mp h
    rw [ofNat_end] at hrest
    have hle := ih hrest
    dsimp only at hle
    have hdist : d.toNat ≤ Nat.dist c.lba.toNat pos := by
      by_cases hshort : Nat.dist c.lba.toNat pos < 2147483648
      · rw [jump?_of_lt hshort] at hd
        obtain rfl := Option.some.inj hd
        rw [UInt64.toNat_ofNat']
        exact Nat.mod_le _ _
      · exact ((jump?_lt hd).trans_le (not_lt.mp hshort)).le
    rw [distances, List.sum_cons]
    have hmod := Nat.mod_le (j.toNat + d.toNat) (2 ^ 64)
    rw [← UInt64.toNat_add] at hmod
    omega

/-- A walk is exact just when no distance is too long and their sum is not too large. -/
theorem walk_exact_iff {cs : List RwCommand} {pos : Nat} {j : UInt64} :
    (∃ j' l, walk cs (j, UInt64.ofNat pos) = some (j', l) ∧
      j'.toNat = j.toNat + (distances pos cs).sum) ↔
    (∀ d ∈ distances pos cs, d < 2147483648) ∧
      j.toNat + (distances pos cs).sum < 18446744073709551616 := by
  induction cs generalizing pos j with
  | nil =>
    have hlt := j.toNat_lt
    refine iff_of_true ⟨j, UInt64.ofNat pos, rfl, rfl⟩ ⟨fun d hd => absurd hd List.not_mem_nil, ?_⟩
    exact hlt
  | cons c cs ih =>
    rw [distances, List.sum_cons, List.forall_mem_cons]
    constructor
    · rintro ⟨j', l, hwalk, hsum⟩
      obtain ⟨d, hd, hrest⟩ := Option.bind_eq_some_iff.mp hwalk
      rw [ofNat_end] at hrest
      have hle := walk_le hrest
      dsimp only at hle
      have hj' := j'.toNat_lt
      have hmod := Nat.mod_le (j.toNat + d.toNat) (2 ^ 64)
      rw [← UInt64.toNat_add] at hmod
      have hshort : Nat.dist c.lba.toNat pos < 2147483648 := by
        have hd' := jump?_lt hd
        omega
      rw [jump?_of_lt hshort] at hd
      obtain rfl := Option.some.inj hd
      rw [UInt64.toNat_ofNat', Nat.mod_eq_of_lt (by omega)] at hmod
      have hexact := (@ih (c.lba.toNat + c.len.toNat)
        (j + UInt64.ofNat (Nat.dist c.lba.toNat pos))).mp ⟨j', l, hrest, by omega⟩
      exact ⟨⟨hshort, hexact.1⟩, by omega⟩
    · rintro ⟨⟨hshort, hrest⟩, hsum⟩
      have hadd : (j + UInt64.ofNat (Nat.dist c.lba.toNat pos)).toNat =
          j.toNat + Nat.dist c.lba.toNat pos := by
        rw [UInt64.toNat_add, UInt64.toNat_ofNat']
        omega
      obtain ⟨j', l, hwalk, hj'⟩ := (@ih (c.lba.toNat + c.len.toNat)
        (j + UInt64.ofNat (Nat.dist c.lba.toNat pos))).mpr ⟨hrest, by omega⟩
      refine ⟨j', l, ?_, by omega⟩
      rw [walk, jump?_of_lt hshort, Option.bind_some, ofNat_end]
      exact hwalk

/-! ## The counters -/

/-- The writes, and the reads. -/
def ofKind (writing : Bool) (cs : List RwCommand) : List RwCommand :=
  cs.filter fun c => c.writing == writing

namespace OstDeviceCounters

variable (c : OstDeviceCounters)

/-- The walk over all commands. -/
def walkAll : UInt64 × UInt64 := (c.jumps, c.lastLba)

/-- The walk over the commands of one kind. -/
def walkOf (writing : Bool) : UInt64 × UInt64 :=
  if writing then (c.jumpsWr, c.lastLbaWr) else (c.jumpsRd, c.lastLbaRd)

end OstDeviceCounters

/-- One step of a walk. -/
def walkStep (c : RwCommand) (t : UInt64 × UInt64) : Option (UInt64 × UInt64) :=
  (jump? (c.lba - t.2)).map fun d => (t.1 + d, c.lba + c.len.toUInt64)

theorem walk_cons (c : RwCommand) (cs : List RwCommand) (t : UInt64 × UInt64) :
    walk (c :: cs) t = (walkStep c t).bind (walk cs) := by
  rw [walk, walkStep, Option.bind_map]
  rfl

/-- A command takes a step of two of the walks. -/
theorem ostUpdateCountersPre_walks (cmd : RwCommand) (c : OstDeviceCounters) :
    wp (ostUpdateCountersPre cmd.writing cmd.lba cmd.len)
      (fun _ c' => walkStep cmd c.walkAll = some c'.walkAll ∧
        walkStep cmd (c.walkOf cmd.writing) = some (c'.walkOf cmd.writing) ∧
        c'.walkOf (!cmd.writing) = c.walkOf (!cmd.writing))
      (fun _ _ => walkStep cmd c.walkAll = none ∨
        walkStep cmd (c.walkOf cmd.writing) = none) c := by
  have hnone {t : UInt64 × UInt64} (h : jump? (cmd.lba - t.2) = none) : walkStep cmd t = none := by
    rw [walkStep, h, Option.map_none]
  have hsome {t : UInt64 × UInt64} {d : UInt64} (h : jump? (cmd.lba - t.2) = some d) :
      walkStep cmd t = some (t.1 + d, cmd.lba + cmd.len.toUInt64) := by
    rw [walkStep, h, Option.map_some]
  rw [ostUpdateCountersPre, wp_bind, wp_modify]
  refine (wp_bind _ _).mpr (wp_get.mpr ((wp_bind _ _).mpr (wp_absInt.mpr ⟨fun h => .inl ?_, ?_⟩)))
  · exact hnone (t := c.walkAll) h
  intro d hd
  refine (wp_bind _ _).mpr ((wp_modify _).mpr ?_)
  dsimp only
  refine (wp_ite _ _ _).mpr ⟨fun hw => ?_, fun hw => ?_⟩
  · rw [hw]
    refine (wp_bind _ _).mpr ((wp_modify _).mpr ((wp_bind _ _).mpr (wp_get.mpr ?_)))
    refine (wp_bind _ _).mpr (wp_absInt.mpr ⟨fun h => .inr ?_, fun d' hd' => ?_⟩)
    · exact hnone (t := c.walkOf true) h
    · exact (wp_bind _ _).mpr ((wp_modify _).mpr ((wp_pure _).mpr
        ⟨hsome (t := c.walkAll) hd, hsome (t := c.walkOf true) hd', rfl⟩))
  · rw [Bool.eq_false_iff.mpr hw]
    refine (wp_bind _ _).mpr ((wp_modify _).mpr ((wp_bind _ _).mpr (wp_get.mpr ?_)))
    refine (wp_bind _ _).mpr (wp_absInt.mpr ⟨fun h => .inr ?_, fun d' hd' => ?_⟩)
    · exact hnone (t := c.walkOf false) h
    · exact (wp_bind _ _).mpr ((wp_modify _).mpr ((wp_pure _).mpr
        ⟨hsome (t := c.walkAll) hd, hsome (t := c.walkOf false) hd', rfl⟩))

/-- Commands take their walks. -/
theorem preAll_walks (cs : List RwCommand) (c : OstDeviceCounters) :
    wp (preAll cs)
      (fun _ c' => walk cs c.walkAll = some c'.walkAll ∧
        ∀ w, walk (ofKind w cs) (c.walkOf w) = some (c'.walkOf w))
      (fun _ _ => walk cs c.walkAll = none ∨ ∃ w, walk (ofKind w cs) (c.walkOf w) = none) c := by
  induction cs generalizing c with
  | nil =>
    rw [preAll, wp_pure]
    exact ⟨rfl, fun w => rfl⟩
  | cons cmd cs ih =>
    have hkinds (w : Bool) (t : UInt64 × UInt64) : walk (ofKind w (cmd :: cs)) t =
        if cmd.writing = w then (walkStep cmd t).bind (walk (ofKind w cs))
        else walk (ofKind w cs) t := by
      rw [ofKind, List.filter_cons]
      by_cases hw : cmd.writing = w
      · rw [if_pos hw, if_pos (beq_iff_eq.mpr hw), walk_cons, ofKind]
      · rw [if_neg hw, if_neg (mt beq_iff_eq.mp hw), ofKind]
    rw [preAll, wp_bind]
    refine wp_mono (ostUpdateCountersPre_walks cmd c) ?_ ?_
    · rintro _ c₁ ⟨hall, hkind, hother⟩
      have hstep (w : Bool) : walk (ofKind w (cmd :: cs)) (c.walkOf w) =
          walk (ofKind w cs) (c₁.walkOf w) := by
        rw [hkinds]
        by_cases hw : cmd.writing = w
        · rw [if_pos hw, ← hw, hkind, Option.bind_some]
        · rw [if_neg hw]
          have hw' : w = !cmd.writing := by
            revert hw
            cases w <;> cases cmd.writing <;> decide
          rw [hw', hother]
      rw [walk_cons, hall, Option.bind_some]
      simp only [hstep]
      exact ih c₁
    · rintro e c₁ (hall | hkind)
      · exact .inl (by rw [walk_cons, hall, Option.bind_none])
      · exact .inr ⟨cmd.writing, by rw [hkinds, if_pos rfl, hkind, Option.bind_none]⟩

/-! ## From a reset -/

/-- A reset starts the walks at block zero. -/
theorem ostResetCounters_walks (c : OstDeviceCounters) :
    wp ostResetCounters
      (fun _ c' => c'.walkAll = (0, UInt64.ofNat 0) ∧ ∀ w, c'.walkOf w = (0, UInt64.ofNat 0))
      (fun _ _ => False) c := by
  rw [ostResetCounters, wp_modify]
  refine ⟨rfl, fun w => ?_⟩
  cases w <;> rfl

/-- The distances that one of the walks sums up are short, and their sum is a number of 64 bits. -/
def Local (cs : List RwCommand) : Prop :=
  (∀ d ∈ distances 0 cs, d < 2147483648) ∧ (distances 0 cs).sum < 18446744073709551616

/-- The commands that come after a reset, and the three sums. -/
def JumpsExact (cs : List RwCommand) (c : OstDeviceCounters) : Prop :=
  ∃ c', (do ostResetCounters; preAll cs : CountersProg PUnit) c = .ret ⟨⟩ c' ∧
    c'.jumps.toNat = (distances 0 cs).sum ∧
    c'.jumpsWr.toNat = (distances 0 (ofKind true cs)).sum ∧
    c'.jumpsRd.toNat = (distances 0 (ofKind false cs)).sum

theorem local_iff {cs : List RwCommand} : Local cs ↔
    ∃ t, walk cs (0, UInt64.ofNat 0) = some t ∧ t.1.toNat = (distances 0 cs).sum := by
  have hexact := @walk_exact_iff cs 0 0
  rw [UInt64.toNat_zero, Nat.zero_add] at hexact
  rw [Local, ← hexact, Prod.exists]

/-- The walks that the commands after a reset take. -/
theorem reset_preAll_walks (cs : List RwCommand) (c : OstDeviceCounters) :
    wp (do ostResetCounters; preAll cs : CountersProg PUnit)
      (fun _ c' => walk cs (0, UInt64.ofNat 0) = some c'.walkAll ∧
        ∀ w, walk (ofKind w cs) (0, UInt64.ofNat 0) = some (c'.walkOf w))
      (fun _ _ => walk cs (0, UInt64.ofNat 0) = none ∨
        ∃ w, walk (ofKind w cs) (0, UInt64.ofNat 0) = none) c := by
  refine (wp_bind _ _).mpr (wp_mono (ostResetCounters_walks c) ?_ fun _ _ => False.elim)
  rintro _ c₀ ⟨hall, hkind⟩
  have hwalks := preAll_walks cs c₀
  simp only [hall, hkind] at hwalks
  exact hwalks

/-- **The sums of the distances** are exact just when, over all commands, over the writes and over
the reads, no distance exceeds what an `int` holds and the sum fits. -/
theorem jumps_exact_iff (cs : List RwCommand) (c : OstDeviceCounters) :
    JumpsExact cs c ↔ Local cs ∧ Local (ofKind true cs) ∧ Local (ofKind false cs) := by
  have hrun := reset_preAll_walks cs c
  constructor
  · rintro ⟨c', hret, hjumps, hwr, hrd⟩
    obtain ⟨hall, hkind⟩ := hrun.of_ret hret
    exact ⟨local_iff.mpr ⟨_, hall, hjumps⟩, local_iff.mpr ⟨_, hkind true, hwr⟩,
      local_iff.mpr ⟨_, hkind false, hrd⟩⟩
  · rintro ⟨hall, hwr, hrd⟩
    obtain ⟨t, hwalk, ht⟩ := local_iff.mp hall
    have hlocal (w : Bool) : Local (ofKind w cs) := by
      cases w
      · exact hrd
      · exact hwr
    have hkinds (w : Bool) := local_iff.mp (hlocal w)
    have hreturns : wp (do ostResetCounters; preAll cs : CountersProg PUnit)
        (fun _ c' => walk cs (0, UInt64.ofNat 0) = some c'.walkAll ∧
          ∀ w, walk (ofKind w cs) (0, UInt64.ofNat 0) = some (c'.walkOf w))
        (fun _ _ => False) c := by
      refine wp_mono hrun (fun _ _ => id) ?_
      rintro _ _ (hnone | ⟨w, hnone⟩)
      · rw [hwalk] at hnone
        exact Option.some_ne_none t hnone
      · obtain ⟨t', hwalk', -⟩ := hkinds w
        rw [hwalk'] at hnone
        exact Option.some_ne_none t' hnone
    obtain ⟨_, c', hret, hall', hkind'⟩ := hreturns.returns
    have hsum (w : Bool) : (c'.walkOf w).1.toNat = (distances 0 (ofKind w cs)).sum := by
      obtain ⟨t', hwalk', ht'⟩ := hkinds w
      obtain rfl := Option.some.inj ((hkind' w).symm.trans hwalk')
      exact ht'
    obtain rfl := Option.some.inj (hall'.symm.trans hwalk)
    exact ⟨c', hret, ht, hsum true, hsum false⟩

/-- A `READ_10` of eight blocks at block 2147483649. -/
def farRead : Bytes := [0x28, 0, 0x80, 0, 0, 1, 0, 0, 8, 0]

/-- It is a command that arrives, and it comes to be counted as if it were at block 2147483647. -/
theorem jumps_cut :
    ostUpdateCountersPreViaCdb farRead = ostUpdateCountersPre false 2147483649 8 ∧
    ¬∀ cs c, JumpsExact cs c := by
  have hcmd : RwCommand.ofCdb farRead = ⟨false, 2147483649, 8⟩ := by decide +kernel
  refine ⟨by rw [ostUpdateCountersPreViaCdb_rw (by decide), hcmd], fun h => ?_⟩
  obtain ⟨c', hret, hjumps, -⟩ := h [RwCommand.ofCdb farRead] OstDeviceCounters.zero
  have hcut : ((do ostResetCounters; preAll [RwCommand.ofCdb farRead] : CountersProg PUnit)
      OstDeviceCounters.zero).state.jumps = 2147483647 := by decide +kernel
  have hdist : (distances 0 [RwCommand.ofCdb farRead]).sum = 2147483649 := by decide +kernel
  rw [hret] at hcut
  rw [show c'.jumps = 2147483647 from hcut, hdist] at hjumps
  exact absurd hjumps (by decide)

end Ost.Stats
