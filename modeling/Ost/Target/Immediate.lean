import Ost.Prog.Run
import Ost.Target.Moves
import Ost.Target.ScsiRequest

/-!
# Room for what comes with a command

`scsi_command_t` reads the AHS of a command into an array of 128 bytes, and its immediate data into
one of 65536.  It compares the length of the AHS with the size of the array and reads it anyway, and
it compares the length of the data with two limits of the session, which may be negotiated to be
larger than the array or not to be there at all.

The loop over the AHS goes on by the length that a segment gives for itself, which may be zero.
-/

namespace Ost.Target

open Ost.Iscsi Ost.Util Ost.Param Ost.Prog Ost.Disk

/-! ## What is stored -/

section Stored

variable (c : Nat) (s : Local)

/-- What `readAhs` stores in the array `ahs`. -/
def ahsStored : Bytes := s.slot.conn.rx.take (s.slot.pool.cmdMem c).scsiCmd.ahsLen

/-- What `readImmediate` stores in the array `immediate`. -/
def immediateStored : Bytes :=
  let p := s.slot.login.sessParams
  let len := (s.slot.pool.cmdMem c).scsiCmd.length
  if p.immediateData = true ∧ (p.maxDataSegLength = 0 ∨ len ≤ p.maxDataSegLength) then
    s.slot.conn.rx.take len
  else []

/-- The loop over the AHS does not fault. -/
theorem parseAhs_halts (mem : Bytes) (len fuel pos : Nat) :
    wp (parseAhs c mem len fuel pos) (fun _ _ => True) (fun e _ => e = .hang) s := by
  induction fuel generalizing pos s with
  | zero => rfl
  | succ fuel ih =>
    rw [parseAhs]
    refine (wp_ite _ _ _).mpr ⟨fun _ => trivial, fun _ => (wp_ite _ _ _).mpr ⟨fun _ => ?_, fun _ =>
      (wp_ite _ _ _).mpr ⟨fun _ => ?_, fun _ => trivial⟩⟩⟩
    · exact (wp_bind _ _).mpr ((wp_modifyScsi _ _).mpr (ih _ _))
    · exact (wp_bind _ _).mpr ((wp_modifyScsi _ _).mpr (ih _ _))

variable {c s}

/-- A program that faults just when something holds. -/
theorem faults_iff {α : Type} {x : Handler α} {P : Prop}
    (h : wp x (fun _ _ => ¬P) (fun e _ => e = .fault ↔ P) s) :
    (∃ s', x s = .halt .fault s') ↔ P := by
  constructor
  · rintro ⟨s', hrun⟩
    exact (h.of_halt hrun).mp rfl
  · intro hP
    cases hrun : x s with
    | ret a s' => exact absurd hP (h.of_ret hrun)
    | halt e s' =>
      obtain rfl := (h.of_halt hrun).mpr hP
      exact ⟨s', rfl⟩

/-- An AHS that does not fit its array is written past its end. -/
theorem readAhs_faults :
    (∃ s', readAhs c s = .halt .fault s') ↔ configIscsiMaxAhsLen < (ahsStored c s).length := by
  refine faults_iff ?_
  rw [readAhs, wp_bind, wp_getCmd]
  refine (wp_ite _ _ _).mpr ⟨fun hzero => ?_, fun _ => ?_⟩
  · rw [wp_pure, ahsStored, hzero]
    exact Nat.not_lt_zero _
  · rw [wp_bind]
    refine wp_mono (sockRecv_spec _ s) ?_ fun _ _ h => h.elim
    rintro ⟨rc, bs⟩ s₁ ⟨-, rfl, -⟩
    rw [wp_bind]
    refine (wp_guarded _ _).mpr ⟨fun hbig => iff_of_true rfl hbig, fun hfits => ?_⟩
    refine (wp_bind _ _).mpr
      ((wp_modifyScsi _ _).mpr ((wp_ite _ _ _).mpr ⟨fun _ => hfits, fun _ => ?_⟩))
    refine wp_mono (parseAhs_halts _ _ _ _ _ _) (fun _ _ _ => hfits) fun e _ he => ?_
    exact iff_of_false (fun hfault => absurd (he.symm.trans hfault) (by decide)) hfits

/-- Immediate data that do not fit their array are written past its end. -/
theorem readImmediate_faults :
    (∃ s', readImmediate c s = .halt .fault s') ↔
      configTargetMaxImmediate < (immediateStored c s).length := by
  refine faults_iff ?_
  rw [readImmediate, wp_bind, wp_getCmd, wp_bind, wp_getLogin]
  dsimp only
  refine (wp_ite _ _ _).mpr
    ⟨fun hzero => ?_, fun _ => (wp_ite _ _ _).mpr ⟨fun hoff => ?_, fun hon =>
    (wp_ite _ _ _).mpr ⟨fun hlong => ?_, fun hshort => ?_⟩⟩⟩
  · rw [wp_pure, immediateStored, hzero, List.take_zero, ite_self]
    exact Nat.not_lt_zero _
  · rw [wp_pure, immediateStored, if_neg fun h => absurd h.1 (by simpa using hoff)]
    exact Nat.not_lt_zero _
  · have hlong : s.slot.login.sessParams.maxDataSegLength ≠ 0 ∧
        s.slot.login.sessParams.maxDataSegLength < (s.slot.pool.cmdMem c).scsiCmd.length := by
      simpa using hlong
    rw [wp_pure, immediateStored, if_neg (by omega)]
    exact Nat.not_lt_zero _
  · have hstored : immediateStored c s =
        s.slot.conn.rx.take (s.slot.pool.cmdMem c).scsiCmd.length := by
      refine if_pos ⟨by simpa using hon, ?_⟩
      simp only [ne_eq, Bool.and_eq_true, decide_eq_true_eq, not_and] at hshort
      omega
    rw [wp_bind, hstored]
    refine wp_mono (sockRecv_spec _ s) ?_ fun _ _ h => h.elim
    rintro ⟨rc, bs⟩ s₁ ⟨-, rfl, -⟩
    rw [wp_bind]
    refine (wp_guarded _ _).mpr ⟨fun hbig => iff_of_true rfl hbig, fun hfits => ?_⟩
    refine (wp_bind _ _).mpr ((wp_modifyCmd _ _).mpr ((wp_bind _ _).mpr ?_))
    exact (wp_guarded _ _).mpr ⟨fun _ => iff_of_false (by decide) hfits, fun _ => hfits⟩

end Stored

/-! ## The request up to its data -/

section Request

variable {h : Nat} {hdr : Bytes} {c : Nat} {q : Fifo Nat} {s : Local}

/-- The state in which `scsi_command_t` looks for an AHS. -/
def loaded (h : Nat) (hdr : Bytes) (c : Nat) (q : Fifo Nat) (s : Local) : Local :=
  ((s.setPool { s.slot.pool with cmdQ := q }).setCmd c
    { TargetCmd.zero with
      header := h, scsiCmd := ScsiCmd.ofPdu (iscsiScsiCmdDecap hdr).2 }).setSeq
    { s.slot.seq with expCmdSN := iscsiCmdSN hdr }

theorem loaded_cmd (h : Nat) (hdr : Bytes) (c : Nat) (q : Fifo Nat) (s : Local) :
    (loaded h hdr c q s).slot.pool.cmdMem c = { TargetCmd.zero with
      header := h, scsiCmd := ScsiCmd.ofPdu (iscsiScsiCmdDecap hdr).2 } := Function.update_self ..

/-- The header is that of a command, and its length is within the limits of the session. -/
structure Checked (hdr : Bytes) (c : Nat) (q : Fifo Nat) (s : Local) : Prop where
  cmdQ : s.slot.pool.cmdQ.remove = some (c, q)
  header : (iscsiScsiCmdDecap hdr).1 = 0
  limits : SessParams.tooLong s.slot.login.sessParams (iscsiLen hdr) = false

/-- Such a request gets as far as the AHS. -/
theorem scsiCommandT_checked (id : Nat) (hs : Checked hdr c q s) :
    scsiCommandT id h hdr s =
      (do if !(← readAhs c) then scsiError c else scsiQueue id c : Handler Int)
        (loaded h hdr c q s) := by
  have htake : takeCmd s = .ret (some c) (s.setPool { s.slot.pool with cmdQ := q }) := by
    rw [takeCmd, onPool, hs.cmdQ]
  rw [scsiCommandT, bind_ret htake]
  dsimp only
  rw [if_neg (not_not.mpr hs.header)]
  change (if SessParams.tooLong s.slot.login.sessParams (iscsiLen hdr) = true then scsiError c
    else _ : Handler Int) (loaded h hdr c q s) = _
  rw [if_neg (by rw [hs.limits]; decide)]

/-- The state in which it looks for immediate data. -/
def advanced (c : Nat) (s : Local) : Local :=
  (s.setSeq { s.slot.seq with
    expCmdSN := s.slot.seq.expCmdSN + 1, maxCmdSN := s.slot.seq.maxCmdSN + 1 }).setCmd c
    (s.slot.pool.cmdMem c).toDevice

theorem advanced_cmd (c : Nat) (s : Local) :
    (advanced c s).slot.pool.cmdMem c = (s.slot.pool.cmdMem c).toDevice := Function.update_self ..

theorem readAhs_none (h : (s.slot.pool.cmdMem c).scsiCmd.ahsLen = 0) :
    readAhs c s = .ret true s := by
  rw [readAhs]
  change (if (s.slot.pool.cmdMem c).scsiCmd.ahsLen = 0 then pure true else _ : Handler Bool) s = _
  rw [if_pos h]
  rfl

/-- A request whose AHS was read gets as far as the immediate data. -/
theorem scsiQueue_advanced (id : Nat) : scsiQueue id c s =
    (do
      if !(← readImmediate c) then return -1
      if !(← hashCommand c) then return -1
      logDev (.queued id c)
      if (← deviceEnqueue id c) ≠ 0 then scsiError c
      else return 0 : Handler Int) (advanced c s) := rfl

end Request

/-! ## Immediate data -/

section Immediate

variable {p : SessParams}

/-- In a session with the parameters `p` a request for the command `c` has got as far as its
immediate data. -/
inductive Admitted (p : SessParams) (c : Nat) : Local → Prop where
  | intro {h : Nat} {hdr : Bytes} {q : Fifo Nat} {s s₁ : Local} (hs : Checked hdr c q s)
    (hp : s.slot.login.sessParams = p) (hahs : readAhs c (loaded h hdr c q s) = .ret true s₁) :
    Admitted p c (advanced c s₁)

/-- One of the two limits is there, and is not above the size of the array. -/
def Limited (p : SessParams) : Prop :=
  0 < p.firstBurstLength ∧ p.firstBurstLength ≤ configTargetMaxImmediate ∨
    0 < p.maxDataSegLength ∧ p.maxDataSegLength ≤ configTargetMaxImmediate

theorem Limited.le {len : Nat} (h : Limited p) (hlen : SessParams.tooLong p len = false) :
    len ≤ configTargetMaxImmediate := by
  simp only [SessParams.tooLong, Bool.or_eq_false_iff, Bool.and_eq_false_iff,
    decide_eq_false_iff_not] at hlen
  rcases h with ⟨hpos, hle⟩ | ⟨hpos, hle⟩ <;> omega

/-- Without a limit that is not above the size of the array, the size and one more is a length
within the limits. -/
theorem tooLong_of_not_limited (h : ¬Limited p) :
    SessParams.tooLong p (configTargetMaxImmediate + 1) = false := by
  rw [Limited, not_or] at h
  simp only [SessParams.tooLong, Bool.or_eq_false_iff, Bool.and_eq_false_iff,
    decide_eq_false_iff_not]
  omega

/-- An admitted request is in its session, and its length is within the limits. -/
theorem Admitted.length {c : Nat} {s : Local} (hs : Admitted p c s) :
    s.slot.login.sessParams = p ∧
      SessParams.tooLong p (s.slot.pool.cmdMem c).scsiCmd.length = false := by
  obtain ⟨hs, rfl, hahs⟩ := hs
  rename_i h hdr q s s₁
  obtain ⟨rx, t, rfl, hcore⟩ := ((readAhs_spec c _).of_ret hahs).2
  have hlength : t.scsiCmd.length = iscsiLen hdr := by
    rw [loaded_cmd] at hcore
    exact congrArg (fun t => t.scsiCmd.length) hcore
  refine ⟨rfl, ?_⟩
  rw [advanced_cmd, show (((loaded h hdr c q s).setConn
    { (loaded h hdr c q s).slot.conn with rx }).setCmd c t).slot.pool.cmdMem c = t from
      Function.update_self .., TargetCmd.toDevice, hlength]
  exact hs.limits

theorem Admitted.fits {c : Nat} {s : Local} (hs : Admitted p c s)
    (hlimit : p.immediateData = false ∨ Limited p) :
    (immediateStored c s).length ≤ configTargetMaxImmediate := by
  obtain ⟨rfl, hlen⟩ := hs.length
  rw [immediateStored]
  split
  · rename_i hon
    rcases hlimit with hoff | hlimit
    · exact absurd (hoff.symm.trans hon.1) Bool.false_ne_true
    · exact (List.length_take_le _ _).trans (hlimit.le hlen)
  · exact Nat.zero_le _

/-- A session with some parameters, and what arrives in it. -/
def arriving (p : SessParams) (rx : Bytes) : Local :=
  { slot := { Slot.fresh with
      conn := { Slot.fresh.conn with rx, isOpen := true }
      login := { Slot.fresh.login with sessParams := p } }
    dev := Device.start smallDisk (fun _ _ => 1) (-1) [], nopFlag := false }

theorem arriving_cmdQ (p : SessParams) (rx : Bytes) :
    ∃ c q, (arriving p rx).slot.pool.cmdQ.remove = some (c, q) := by
  have hlist : (arriving p rx).slot.pool.cmdQ.toList = List.range configTargetMaxQueue :=
    toList_fillQueue (by decide)
  cases hcmd : (arriving p rx).slot.pool.cmdQ.remove with
  | none =>
    rw [Fifo.remove_none hcmd] at hlist
    exact absurd (congrArg List.length hlist) (by decide)
  | some r => exact ⟨r.1, r.2, rfl⟩

/-- The header of a command with 65537 bytes of data. -/
def longHeader : Bytes := request 0x01 0x80 65537 1 65537 0

/-- Without one there is a command whose data do not fit. -/
theorem exists_admitted (hdata : p.immediateData = true) (hlimit : ¬Limited p) :
    ∃ c s, Admitted p c s ∧ configTargetMaxImmediate < (immediateStored c s).length := by
  obtain ⟨c, q, hcmd⟩ := arriving_cmdQ p (List.replicate 65540 0)
  have hs : Checked longHeader c q (arriving p (List.replicate 65540 0)) :=
    ⟨hcmd, by decide, tooLong_of_not_limited hlimit⟩
  have hahs := readAhs_none (c := c)
    (s := loaded 0 longHeader c q (arriving p (List.replicate 65540 0)))
    (by rw [loaded_cmd]; decide)
  refine ⟨c, _, .intro hs rfl hahs, ?_⟩
  have hmdsl := tooLong_of_not_limited hlimit
  simp only [SessParams.tooLong, Bool.or_eq_false_iff, Bool.and_eq_false_iff,
    decide_eq_false_iff_not] at hmdsl
  have hlen : ((advanced c (loaded 0 longHeader c q (arriving p
      (List.replicate 65540 0)))).slot.pool.cmdMem c).scsiCmd.length = 65537 := by
    rw [advanced_cmd, loaded_cmd]
    decide
  have hstored : immediateStored c (advanced c (loaded 0 longHeader c q (arriving p
      (List.replicate 65540 0)))) = (List.replicate 65540 (0 : UInt8)).take 65537 := by
    rw [immediateStored, hlen]
    refine if_pos ⟨hdata, ?_⟩
    change p.maxDataSegLength = 0 ∨ 65537 ≤ p.maxDataSegLength
    rw [configTargetMaxImmediate] at hmdsl
    omega
  rw [hstored, List.length_take, List.length_replicate]
  decide

end Immediate

/-! ## The AHS -/

section Ahs

/-- There is a segment of a known type at the place `pos`. -/
def Segment (mem : Bytes) (len pos : Nat) : Prop :=
  pos + 1 < len ∧ (byte mem (pos + 2) = 1 ∨ byte mem (pos + 2) = 2)

/-- The places that the loop comes to from the place `start` on, by the lengths that the segments
give for themselves. -/
def AhsWalk (mem : Bytes) (len start pos : Nat) : Prop :=
  Relation.ReflTransGen (fun p p' => Segment mem len p ∧ p' = p + be16 mem p) start pos

/-- From the place `start` on the loop never comes to a segment of a known type with the length
0. -/
def AhsEnds (mem : Bytes) (len start : Nat) : Prop :=
  ∀ pos, AhsWalk mem len start pos → Segment mem len pos → be16 mem pos ≠ 0

variable {mem : Bytes} {len c : Nat}

theorem parseAhs_succ (fuel pos : Nat) (s : Local) :
    ¬Segment mem len pos ∧ (∃ ok, parseAhs c mem len (fuel + 1) pos s = .ret ok s) ∨
    Segment mem len pos ∧
      ∃ s', parseAhs c mem len (fuel + 1) pos s =
        parseAhs c mem len fuel (pos + be16 mem pos) s' := by
  rw [parseAhs, Segment]
  by_cases hdone : len ≤ pos + 1
  · rw [if_pos hdone]
    exact .inl ⟨fun h => absurd h.1 (not_lt.mpr hdone), true, rfl⟩
  rw [if_neg hdone]
  by_cases h₁ : byte mem (pos + 2) = 1
  · rw [if_pos h₁]
    exact .inr ⟨⟨not_le.mp hdone, .inl h₁⟩, _, rfl⟩
  rw [if_neg h₁]
  by_cases h₂ : byte mem (pos + 2) = 2
  · rw [if_pos h₂]
    exact .inr ⟨⟨not_le.mp hdone, .inr h₂⟩, _, rfl⟩
  · rw [if_neg h₂]
    exact .inl ⟨fun h => h.2.elim h₁ h₂, false, rfl⟩

/-- After a segment the loop ends when it ends from the next place on, and the segment has a
length. -/
theorem AhsEnds.step {pos : Nat} (hseg : Segment mem len pos) :
    AhsEnds mem len pos ↔ be16 mem pos ≠ 0 ∧ AhsEnds mem len (pos + be16 mem pos) := by
  refine ⟨fun h => ⟨h pos .refl hseg, fun p hp => h p (.head ⟨hseg, rfl⟩ hp)⟩, ?_⟩
  rintro ⟨hpos, hrest⟩ p hp
  rcases Relation.ReflTransGen.cases_head hp with rfl | ⟨_, ⟨-, rfl⟩, hp⟩
  · exact fun _ => hpos
  · exact hrest p hp

theorem AhsEnds.of_not_segment {pos : Nat} (hseg : ¬Segment mem len pos) : AhsEnds mem len pos := by
  intro p hp
  rcases Relation.ReflTransGen.cases_head hp with rfl | ⟨_, ⟨h, -⟩, -⟩
  · exact fun h => absurd h hseg
  · exact absurd h hseg

/-- When the loop has returned, it came to no segment of length 0. -/
theorem ahsEnds_of_ret {fuel pos : Nat} {s s' : Local} {ok : Bool}
    (hrun : parseAhs c mem len fuel pos s = .ret ok s') : AhsEnds mem len pos := by
  induction fuel generalizing pos s with
  | zero => exact absurd hrun (by intro h; cases h)
  | succ fuel ih =>
    rcases parseAhs_succ fuel pos s with ⟨hseg, -⟩ | ⟨hseg, s₁, heq⟩
    · exact .of_not_segment hseg
    · have hrest := ih (heq ▸ hrun)
      refine (AhsEnds.step hseg).mpr ⟨fun hzero => ?_, hrest⟩
      -- with length 0 the rest of the walk starts at the same segment
      rw [hzero, Nat.add_zero] at hrest
      exact hrest pos .refl hseg hzero

/-- When it comes to none, it has returned after as many turns as there are bytes. -/
theorem AhsEnds.ret {pos : Nat} (h : AhsEnds mem len pos) {fuel : Nat} (hfuel : 0 < fuel)
    (hlen : len < pos + fuel) (s : Local) :
    ∃ ok s', parseAhs c mem len fuel pos s = .ret ok s' := by
  induction fuel generalizing pos s with
  | zero => exact absurd hfuel (lt_irrefl 0)
  | succ fuel ih =>
    rcases parseAhs_succ fuel pos s with ⟨-, ok, hrun⟩ | ⟨hseg, s₁, heq⟩
    · exact ⟨ok, s, hrun⟩
    · have hin := hseg.1
      obtain ⟨hpos, hrest⟩ := (AhsEnds.step hseg).mp h
      rw [heq]
      exact ih hrest (by omega) (by omega) s₁

/-- The loop returns, for some number of turns, just when it comes to no segment of length 0. -/
theorem parseAhs_returns_iff (s : Local) :
    (∃ fuel ok s', parseAhs c mem len fuel 0 s = .ret ok s') ↔ AhsEnds mem len 0 := by
  constructor
  · rintro ⟨fuel, ok, s', hrun⟩
    exact ahsEnds_of_ret hrun
  · intro h
    exact ⟨len + 1, h.ret (Nat.succ_pos _) (by omega) s⟩

variable {hdr : Bytes}

/-- An AHS of one segment. -/
def oneSegment (b : UInt8) : Bytes := [0, b, 1] ++ List.replicate 256 0

theorem ahsOk_oneSegment {b : UInt8} (hb : 2 < b.toNat) : ahsOk (oneSegment b) b.toNat = true := by
  have hall : ∀ k < 256, 2 < k → ahsOk (oneSegment (UInt8.ofNat k)) k = true := by decide +kernel
  have hb' := hall b.toNat b.toNat_lt hb
  rwa [UInt8.ofNat_toNat] at hb'

/-- The AHS of every accepted command fits just when its length does. -/
theorem ahsStored_le_iff (hrc : (iscsiScsiCmdDecap hdr).1 = 0) :
    (∀ h c q s, Checked hdr c q s → ahsOk s.slot.conn.rx (byte hdr 4).toNat = true →
      (ahsStored c (loaded h hdr c q s)).length ≤ configIscsiMaxAhsLen) ↔
    (byte hdr 4).toNat ≤ configIscsiMaxAhsLen := by
  constructor
  · intro hall
    by_contra hbig
    rw [configIscsiMaxAhsLen, not_le] at hbig
    obtain ⟨c, q, hcmd⟩ := arriving_cmdQ SessParams.zero (oneSegment (byte hdr 4))
    have hfits := hall 0 c q _ ⟨hcmd, hrc, rfl⟩ (ahsOk_oneSegment (by omega))
    rw [ahsStored, loaded_cmd] at hfits
    change ((oneSegment (byte hdr 4)).take (byte hdr 4).toNat).length ≤ 128 at hfits
    rw [List.length_take, oneSegment, List.length_append, List.length_replicate] at hfits
    have hlt := (byte hdr 4).toNat_lt
    omega
  · intro hle h c q s _ _
    rw [ahsStored, loaded_cmd]
    exact (List.length_take_le _ _).trans hle

end Ahs

/-! ## The request -/

/-- What an accepted command brings fits just when the session has a limit that is not above the
size of the array of the immediate data, or does not take any; and the AHS is not longer than its
array, and has no segment of length 0 that the loop comes to.  What does not fit is written past the
end of its array, by the two parts of `scsiCommandT` that read it. -/
theorem scsiCommandT_fits (p : SessParams) (hdr mem : Bytes) (len c : Nat) (s : Local) :
    ((∀ c s, Admitted p c s → (immediateStored c s).length ≤ configTargetMaxImmediate) ↔
      p.immediateData = false ∨ Limited p) ∧
    ((iscsiScsiCmdDecap hdr).1 = 0 →
      ((∀ h c q s, Checked hdr c q s → ahsOk s.slot.conn.rx (byte hdr 4).toNat = true →
        (ahsStored c (loaded h hdr c q s)).length ≤ configIscsiMaxAhsLen) ↔
      (byte hdr 4).toNat ≤ configIscsiMaxAhsLen)) ∧
    ((∃ fuel ok s', parseAhs c mem len fuel 0 s = .ret ok s') ↔ AhsEnds mem len 0) ∧
    ((∃ s', readImmediate c s = .halt .fault s') ↔
      configTargetMaxImmediate < (immediateStored c s).length) ∧
    ((∃ s', readAhs c s = .halt .fault s') ↔ configIscsiMaxAhsLen < (ahsStored c s).length) ∧
    (∀ id h q, Checked hdr c q s → scsiCommandT id h hdr s =
      (do if !(← readAhs c) then scsiError c else scsiQueue id c : Handler Int)
        (loaded h hdr c q s)) ∧
    ∀ id, scsiQueue id c s =
      (do
        if !(← readImmediate c) then return -1
        if !(← hashCommand c) then return -1
        logDev (.queued id c)
        if (← deviceEnqueue id c) ≠ 0 then scsiError c
        else return 0 : Handler Int) (advanced c s) := by
  refine ⟨⟨fun hall => ?_, fun hlimit c s hs => hs.fits hlimit⟩, ahsStored_le_iff,
    parseAhs_returns_iff s, readImmediate_faults, readAhs_faults,
    fun id _ _ hs => scsiCommandT_checked id hs, fun id => scsiQueue_advanced id⟩
  by_contra hnot
  rw [not_or] at hnot
  obtain ⟨c, s, hs, hbig⟩ := exists_admitted (by simpa using hnot.1) hnot.2
  exact absurd (hall c s hs) (not_le.mpr hbig)

/-- The parameters of a session whose client asks for nothing. -/
def plainParams : SessParams :=
  { maxBurstLength := 262144, firstBurstLength := 65536, maxDataSegLength := 8192
    initialR2t := true, immediateData := true }

/-- In such a session there is room; for a command without an AHS there is; and an AHS of one
segment of four bytes is read. -/
theorem scsiCommandT_fits_plain :
    (∀ c s, Admitted plainParams c s → (immediateStored c s).length ≤ configTargetMaxImmediate) ∧
    (∀ h c q s, Checked longHeader c q s → ahsOk s.slot.conn.rx 0 = true →
      (ahsStored c (loaded h longHeader c q s)).length ≤ configIscsiMaxAhsLen) ∧
    ∃ fuel ok s', parseAhs 0 [0, 4, 1, 0] 4 fuel 0 (arriving plainParams []) = .ret ok s' := by
  have h := scsiCommandT_fits plainParams longHeader [0, 4, 1, 0] 4 0 (arriving plainParams [])
  exact ⟨h.1.mpr (.inr (.inl (by decide))), (h.2.1 (by decide)).mpr (by decide),
    h.2.2.1.mpr ((AhsEnds.step (by rw [Segment]; decide)).mpr
      ⟨by decide, .of_not_segment (by rw [Segment]; decide)⟩)⟩

/-- A login request for long data segments and long bursts. -/
def greedyLogin : Bytes :=
  request 0x43 0x87 90 1 0 0 ++ cstr "InitiatorName=i" ++ [0] ++ cstr "TargetName=tgt1" ++ [0] ++
    cstr "MaxRecvDataSegmentLength=1048576" ++ [0] ++ cstr "FirstBurstLength=1048576" ++ [0, 0, 0]

/-- A client negotiates parameters with which there are commands whose data do not fit; an AHS of
132 bytes does not fit; and the loop over an AHS with a segment of length 0 does not end. -/
theorem scsiCommandT_overruns :
    (∃ w, Reach (step smallEnv) (fun _ _ => True) smallWorld w ∧ ∃ c s,
      Admitted (w.slots 0).login.sessParams c s ∧
        configTargetMaxImmediate < (immediateStored c s).length) ∧
    (¬∀ h c q s, Checked (put8 longHeader 4 132) c q s →
      ahsOk s.slot.conn.rx (byte (put8 longHeader 4 132) 4).toNat = true →
      (ahsStored c (loaded h (put8 longHeader 4 132) c q s)).length ≤ configIscsiMaxAhsLen) ∧
    ¬∃ fuel ok s', parseAhs 0 [0, 0, 1, 0] 4 fuel 0 (arriving plainParams []) = .ret ok s' := by
  refine ⟨?_, fun hall => ?_, fun hret => ?_⟩
  · have hreach : ∃ w, Reach (step smallEnv) (fun _ _ => True) smallWorld w ∧
        (w.slots 0).login.sessParams = { plainParams with
          firstBurstLength := 1048576, maxDataSegLength := 1048576 } := by
      refine exists_reach [.accept (client greedyLogin), .rx 0] ?_
      decide +kernel
    obtain ⟨w, hw, hparams⟩ := hreach
    refine ⟨w, hw, ?_⟩
    rw [hparams]
    refine exists_admitted rfl ?_
    rw [Limited]
    decide
  · exact absurd ((ahsStored_le_iff (by decide)).mp hall) (by decide)
  · exact absurd ((parseAhs_returns_iff _).mp hret 0 .refl (by rw [Segment]; decide)) (by decide)

end Ost.Target
