import Ost.Disk.Outcome
import Ost.Prog.Returns
import Ost.Util.Tiling

/-!
# R2Ts tile what is missing

`target_transfer_data` asks for the data of a write that have not arrived.  The R2Ts that it sends
follow one another, none exceeds `MaxBurstLength`, and if all could be sent they reach the end of
the transfer.

A limit of zero means that there is none, but the loop compares with it all the same.  It then asks
for zero bytes again and again, and only a failed transmission ends it.  And the lock that a failed
transmission has left behind is waited for forever.
-/

namespace Ost.Disk

open Ost.Iscsi Ost.Util Ost.Param Ost.Prog Ost.Target

variable (c : Nat)

/-! ## R2Ts -/

/-- The part of the transfer that an R2T asks for. -/
def piece (r : R2t) : Nat × Nat := (r.offset.toNat, r.length.toNat)

/-- From `s` to `s'` R2Ts for the command `tag` have been handed to the socket, each for at least
one byte.  They tile the transfer from `start` on, up to `stop` if all were sent, and none exceeds
`max`, where zero is no limit. -/
def Requested (tag : UInt32) (max start stop : Nat) (ok : Bool) (s s' : Local) : Prop :=
  ∃ (l : List Sent) (rs : List R2t) (b : Nat), s'.slot.conn.sent = s.slot.conn.sent ++ l ∧
    l.map Sent.pdu = rs.map TargetPdu.r2t ∧
    (∀ r ∈ rs, r.tag = tag ∧ 0 < r.length.toNat ∧ (max = 0 ∨ r.length.toNat ≤ max)) ∧
    Tiles start (rs.map piece) b ∧ b ≤ stop ∧
    (ok = true → b = stop ∧ ∀ x ∈ l, x.ok = true)

/-! ## One R2T -/

/-- Whether the next transmission succeeds. -/
def goesOut (k : Conn) : Bool := k.isOpen && k.tx.headD true

theorem send_header (pdu : TargetPdu) (k : Conn) :
    k.send pdu (some []) =
      (goesOut k, { k with tx := k.tx.tail, sent := k.sent ++ [⟨pdu, [], goesOut k⟩] }) := by
  unfold Conn.send Conn.sendMsg goesOut
  cases k.isOpen && k.tx.headD true <;> rfl

/-- With the lock of the session free an R2T is one transmission.  The lock is kept when it
fails. -/
theorem wp_sendR2t {Q : Bool → Local → Prop} {E : Halt → Local → Prop} {s : Local} (r : R2t)
    (hlock : s.slot.conn.slock = false) :
    wp (sendLeaky (.r2t r) (some [])) Q E s ↔
      Q (goesOut s.slot.conn) (s.setConn { s.slot.conn with
        tx := s.slot.conn.tx.tail, slock := !goesOut s.slot.conn
        sent := s.slot.conn.sent ++ [⟨.r2t r, [], goesOut s.slot.conn⟩] }) := by
  simp only [sendLeaky, lockSession, unlockSession, sockSend, wp_bind, wp_get, wp_ite, wp_onConn,
    wp_pure, wp_guarded, wp_halt, hlock, Bool.false_eq_true, false_implies, true_and,
    not_false_eq_true, true_implies, send_header]
  have hs : goesOut { s.slot.conn with slock := true } = goesOut s.slot.conn := rfl
  cases hok : goesOut s.slot.conn <;> simp [Local.setConn, hs, hok]

/-! ## The loop -/

variable {c}

/-- With a limit the loop makes progress and ends. -/
theorem sendR2ts_requested (fuel transferred remaining : Nat) {s : Local} {a : ScsiCmd}
    {max : Nat} (ha : (s.slot.pool.cmdMem c).scsiCmd = a)
    (hmax : s.slot.login.sessParams.maxBurstLength = max) (hlock : s.slot.conn.slock = false)
    (hsum : a.bytesTodev + transferred + remaining = a.transLen) (hlt : a.transLen < 4294967296)
    (hne : max ≠ 0) (hfuel : remaining < fuel) :
    wp (sendR2ts c fuel transferred remaining)
      (fun ok s' => Requested a.tag max (a.bytesTodev + transferred) a.transLen ok s s')
      (fun _ _ => False) s := by
  induction fuel generalizing transferred remaining s with
  | zero => omega
  | succ fuel ih =>
    refine (wp_ite _ _ _).mpr ⟨fun h => ⟨[], [], _, by simp, rfl, by simp, .nil _, by omega,
      fun _ => ⟨by omega, by simp⟩⟩, fun hrem => ?_⟩
    simp only [wp_bind, wp_getCmd, wp_getLogin, wp_getSeq, ha, hmax]
    generalize hd : (if remaining > max then max else remaining) = desired
    have hdle : desired ≤ remaining := by split at hd <;> omega
    have hdmax : max = 0 ∨ desired ≤ max := by split at hd <;> omega
    have hdpos : 0 < desired := by split at hd <;> omega
    have hoff : (UInt32.ofNat (a.bytesTodev + transferred)).toNat = a.bytesTodev + transferred :=
      UInt32.toNat_ofNat_of_lt' (show _ < 4294967296 by omega)
    have hlen : (UInt32.ofNat desired).toNat = desired :=
      UInt32.toNat_ofNat_of_lt' (show _ < 4294967296 by omega)
    refine (wp_sendR2t _ hlock).mpr ?_
    cases hok : goesOut s.slot.conn with
    | true =>
      simp only [Bool.not_true, Bool.false_eq_true, if_false, wp_bind, wp_modifyCmd]
      have hw : w32 (transferred + desired) = transferred + desired :=
        Nat.mod_eq_of_lt (by omega)
      rw [hw]
      refine wp_mono (ih _ (remaining - desired) ?_ hmax rfl (by omega) (by omega)) ?_ fun _ _ => id
      · simpa [Local.setCmd, Local.setConn, Local.setPool] using ha
      · rintro ok s' ⟨l, rs, b, hsent, hpdu, hr, ht, hb, hall⟩
        refine ⟨_ :: l, _ :: rs, b, hsent.trans (List.append_assoc _ _ _),
          by rw [List.map_cons, List.map_cons, hpdu], ?_, ?_, hb, fun h => ⟨(hall h).1, ?_⟩⟩
        · exact List.forall_mem_cons.mpr ⟨⟨rfl, by rw [hlen]; exact ⟨hdpos, hdmax⟩⟩, hr⟩
        · rw [List.map_cons, piece, hoff, hlen]
          exact .cons (by rwa [Nat.add_assoc])
        · exact List.forall_mem_cons.mpr ⟨rfl, (hall h).2⟩
    | false =>
      simp only [Bool.not_false, if_true, wp_pure]
      refine ⟨[_], [_], a.bytesTodev + transferred + desired, rfl, rfl, ?_, ?_, ?_, by simp⟩
      · rintro r hr
        obtain rfl := List.mem_singleton.mp hr
        exact ⟨rfl, by rw [hlen]; exact ⟨hdpos, hdmax⟩⟩
      · rw [List.map_singleton, piece, hoff, hlen]
        exact .cons (.nil _)
      · omega

/-- From `s` to `s'` the first PDU that has been handed to the socket is an R2T for no bytes. -/
def Empty (s s' : Local) : Prop :=
  ∃ (r : R2t) (x : Sent) (l : List Sent), x.pdu = .r2t r ∧ r.length = 0 ∧
    s'.slot.conn.sent = s.slot.conn.sent ++ x :: l

/-- Without a limit the loop asks for no bytes, and does not end by itself. -/
theorem sendR2ts_unlimited (fuel transferred remaining : Nat) {s : Local}
    (hmax : s.slot.login.sessParams.maxBurstLength = 0) (hrem : remaining ≠ 0) :
    ensures (sendR2ts c fuel transferred remaining) (fun ok s' => ok = false ∧ Empty s s') s := by
  induction fuel generalizing transferred s with
  | zero => trivial
  | succ fuel ih =>
    simp only [sendR2ts, ensures, wp_ite, wp_pure, wp_bind, wp_getCmd, wp_getLogin, wp_getSeq, hmax]
    refine ⟨fun h => absurd h hrem, fun _ => ?_⟩
    rw [if_pos (Nat.pos_of_ne_zero hrem)]
    refine wp_mono (sendLeaky_spec _ _ s) (fun ok s₁ h₁ => ?_) fun _ _ _ => trivial
    obtain ⟨⟨d, n, b, rfl, _⟩, _⟩ := h₁
    refine ⟨fun _ => ⟨trivial, _, _, [], rfl, rfl, rfl⟩, fun _ => ?_⟩
    simp only [wp_modifyCmd, Nat.sub_zero]
    refine wp_mono (ih _ hmax) ?_ fun _ _ _ => trivial
    rintro ok' s₂ ⟨hok', r, x, l, hx, hr, hsent⟩
    exact ⟨hok', _, _, x :: l, rfl, rfl, hsent.trans (List.append_assoc _ _ _)⟩

theorem Empty.not_requested {s s' : Local} (h : Empty s s') {tag : UInt32} {max start stop : Nat}
    {ok : Bool} : ¬Requested tag max start stop ok s s' := by
  rintro ⟨l, rs, b, hsent, hpdu, hr, -⟩
  obtain ⟨r, x, l', hx, hzero, hsent'⟩ := h
  obtain rfl := List.append_cancel_left (hsent.symm.trans hsent')
  cases rs with
  | nil => exact absurd hpdu (List.cons_ne_nil _ _)
  | cons r' rs =>
    have hr' := (hr r' List.mem_cons_self).2.1
    obtain rfl := TargetPdu.r2t.inj (hx.symm.trans (List.cons.inj hpdu).1)
    rw [hzero] at hr'
    exact Nat.lt_irrefl 0 hr'

/-- The loop waits for a lock that is kept. -/
theorem sendR2ts_locked (fuel transferred remaining : Nat) {s : Local}
    (hlock : s.slot.conn.slock = true) (hrem : remaining ≠ 0) :
    ensures (sendR2ts c fuel transferred remaining) (fun _ _ => False) s := by
  cases fuel with
  | zero => trivial
  | succ fuel =>
    simp [sendR2ts, ensures, wp_ite, hrem, sendLeaky, lockSession, hlock, wp_getCmd, wp_getLogin,
      wp_getSeq]

/-! ## `target_transfer_data` -/

variable (c)

/-- The data that are missing have to be asked for. -/
def Asks (s : Local) : Prop :=
  s.slot.login.sessParams.initialR2t = true ∨ s.slot.login.sessParams.firstBurstLength ≠ 0 ∧
    s.slot.login.sessParams.firstBurstLength ≤ (s.slot.pool.cmdMem c).scsiCmd.bytesTodev

/-- The number of bytes that are missing. -/
def missing (s : Local) : Nat :=
  (s.slot.pool.cmdMem c).scsiCmd.transLen - (s.slot.pool.cmdMem c).scsiCmd.bytesTodev

/-- The R2Ts sent from `s` to `s'` tile the missing data.  All are sent unless a transmission
fails, and none when the initiator sends the data unasked. -/
def Tiled (s : Local) (rc : Int) (s' : Local) : Prop :=
  let a := (s.slot.pool.cmdMem c).scsiCmd
  (Asks c s → Requested a.tag s.slot.login.sessParams.maxBurstLength a.bytesTodev a.transLen
    (rc == 0) s s' ∧ (rc ≠ 0 → ¬s.slot.conn.Reliable)) ∧
  (¬Asks c s → rc = 0 ∧ s'.slot.conn.sent = s.slot.conn.sent)

/-- The loop comes to an end with what it is for. -/
def Ends (s : Local) : Prop :=
  s.slot.conn.slock = false ∧ s.slot.login.sessParams.maxBurstLength ≠ 0

variable {c} {s : Local}

/-- What `target_transfer_data` does when data are missing. -/
theorem targetTransferData_missing (enqueue : Nat → Handler Int)
    (hlt : (s.slot.pool.cmdMem c).scsiCmd.bytesTodev < (s.slot.pool.cmdMem c).scsiCmd.transLen)
    (hle : (s.slot.pool.cmdMem c).scsiCmd.transLen ≤ 2147483647)
    {Q : Int → Local → Prop} {E : Halt → Local → Prop} :
    wp (targetTransferData enqueue c) Q E s ↔
      wp (requestData c) (fun ok s' => if ok = true then
        Q 0 (s'.setCmd c { s'.slot.pool.cmdMem c with ready := true }) else Q (-1) s') E s := by
  have hne : sub32 (s.slot.pool.cmdMem c).scsiCmd.transLen
      (s.slot.pool.cmdMem c).scsiCmd.bytesTodev ≠ 0 := by
    unfold sub32
    omega
  simp only [targetTransferData, wp_bind, wp_getCmd, if_neg hne]
  refine ⟨fun hw => wp_mono hw ?_ fun _ _ => id, fun hw => wp_mono hw ?_ fun _ _ => id⟩
  all_goals
    intro ok s' h
    cases ok <;> simpa [wp_modifyCmd] using h

/-- What `target_transfer_data` asks for when data are missing. -/
theorem wp_requestData
    (hlt : (s.slot.pool.cmdMem c).scsiCmd.bytesTodev < (s.slot.pool.cmdMem c).scsiCmd.transLen)
    (hle : (s.slot.pool.cmdMem c).scsiCmd.transLen ≤ 2147483647)
    {Q : Bool → Local → Prop} {E : Halt → Local → Prop} :
    wp (requestData c) Q E s ↔
      (Asks c s → ∃ fuel, fuel = s.slot.conn.tx.length + missing c s + 1 ∧
        wp (sendR2ts c fuel 0 (missing c s)) Q E s) ∧ (¬Asks c s → Q true s) := by
  have hrem : sub32 (s.slot.pool.cmdMem c).scsiCmd.transLen
      (s.slot.pool.cmdMem c).scsiCmd.bytesTodev = missing c s := by
    unfold sub32 missing
    omega
  simp only [requestData, wp_bind, wp_getCmd, wp_getLogin, wp_ite, wp_get, wp_pure, hrem,
    exists_eq_left, Asks, Bool.or_eq_true, Bool.and_eq_true, decide_eq_true_eq, ge_iff_le]

/-- What the loop does when a limit of zero or a lock that is kept meets missing data. -/
theorem sendR2ts_fails (fuel transferred remaining : Nat) (hrem : remaining ≠ 0) (h : ¬Ends s) :
    ensures (sendR2ts c fuel transferred remaining)
      (fun ok s' => ok = false ∧ Empty s s' ∧ ¬s.slot.conn.Reliable) s := by
  cases hlock : s.slot.conn.slock with
  | true =>
    exact (sendR2ts_locked fuel transferred remaining hlock hrem).mono fun _ _ h => h.elim
  | false =>
    have hmax : s.slot.login.sessParams.maxBurstLength = 0 := by simpa [Ends, hlock] using h
    have hzero := sendR2ts_unlimited (c := c) fuel transferred remaining hmax hrem
    have hfail := sendR2ts_spec c fuel transferred remaining s
    exact wp_mono (wp_and hzero hfail) (fun ok _ h => ⟨h.1.1, h.1.2, h.2 h.1.1⟩)
      fun _ _ _ => trivial

theorem targetTransferData_fails (enqueue : Nat → Handler Int)
    (hlt : (s.slot.pool.cmdMem c).scsiCmd.bytesTodev < (s.slot.pool.cmdMem c).scsiCmd.transLen)
    (hle : (s.slot.pool.cmdMem c).scsiCmd.transLen ≤ 2147483647) (hasks : Asks c s)
    (hends : ¬Ends s) : ensures (targetTransferData enqueue c)
      (fun _ s' => Empty s s' ∧ ¬s.slot.conn.Reliable) s := by
  refine (targetTransferData_missing enqueue hlt hle).mpr ?_
  refine (wp_requestData hlt hle).mpr ⟨fun _ => ⟨_, rfl, ?_⟩, fun h => absurd hasks h⟩
  refine (sendR2ts_fails _ 0 _ (Nat.sub_ne_zero_of_lt hlt) hends).mono ?_
  rintro ok s' ⟨rfl, h⟩
  exact h

/-- While every transmission succeeds it does not return. -/
theorem targetTransferData_endless (enqueue : Nat → Handler Int)
    (hlt : (s.slot.pool.cmdMem c).scsiCmd.bytesTodev < (s.slot.pool.cmdMem c).scsiCmd.transLen)
    (hle : (s.slot.pool.cmdMem c).scsiCmd.transLen ≤ 2147483647) (hasks : Asks c s)
    (hends : ¬Ends s) (hrel : s.slot.conn.Reliable) (rc : Int) (s' : Local) :
    targetTransferData enqueue c s ≠ .ret rc s' := fun hret =>
  ((targetTransferData_fails enqueue hlt hle hasks hends).of_ret hret).2 hrel

/-- `target_transfer_data` returns, and the R2Ts that it sends tile the missing data, if and only
if no R2Ts are needed, or the lock is free and there is a limit. -/
theorem targetTransferData_tiled (enqueue : Nat → Handler Int)
    (hlt : (s.slot.pool.cmdMem c).scsiCmd.bytesTodev < (s.slot.pool.cmdMem c).scsiCmd.transLen)
    (hle : (s.slot.pool.cmdMem c).scsiCmd.transLen ≤ 2147483647) :
    (∃ rc s', targetTransferData enqueue c s = .ret rc s' ∧ Tiled c s rc s') ↔
      (Asks c s → Ends s) := by
  constructor
  · rintro ⟨rc, s', hret, htiled⟩ hasks
    by_contra hends
    exact ((targetTransferData_fails enqueue hlt hle hasks hends).of_ret hret).1.not_requested
      (htiled.1 hasks).1
  · intro hends
    refine wp.returns ((targetTransferData_missing enqueue hlt hle).mpr ?_)
    refine (wp_requestData hlt hle).mpr ⟨fun hasks => ⟨_, rfl, ?_⟩, fun hasks => ?_⟩
    · obtain ⟨hlock, hne⟩ := hends hasks
      have hsum : (s.slot.pool.cmdMem c).scsiCmd.bytesTodev + 0 + missing c s =
          (s.slot.pool.cmdMem c).scsiCmd.transLen := Nat.add_sub_cancel' hlt.le
      have hwp := sendR2ts_requested (s.slot.conn.tx.length + missing c s + 1) 0 (missing c s)
        rfl rfl hlock hsum (by omega) hne (by omega)
      refine wp_mono (wp_and hwp (sendR2ts_spec c _ 0 _ s)) ?_ fun _ _ h => h.1
      rintro (_ | _) s' ⟨hreq, hfail⟩
      · exact ⟨fun _ => ⟨hreq, fun _ => hfail rfl⟩, fun h => absurd hasks h⟩
      · exact ⟨fun _ => ⟨hreq, by simp⟩, fun h => absurd hasks h⟩
    · exact ⟨fun h => absurd h hasks, fun _ => ⟨rfl, rfl⟩⟩

theorem size_lt_8 : 8 * 512 < 18446744073709551616 := by decide

/-- A session in which a write of 1024 bytes waits for all its data. -/
def waitingWrite (maxBurstLength : Nat) : Local :=
  { slot := { Slot.fresh with
      phase := .running
      conn := { Slot.fresh.conn with isOpen := true }
      login := { Slot.fresh.login with
        isFullFeature := true
        sessParams := { SessParams.zero with maxBurstLength, initialR2t := true } }
      pool := { Slot.fresh.pool with cmdMem := fun _ => { TargetCmd.zero with
        scsiCmd := { ScsiCmd.zero with todev := true, tag := 1, transLen := 1024 } } } }
    dev := Device.start
      { type := .ram, numBlocks := 8, blockLen := 512, numLuns := 1, direct := false
        blockLen_mem := blockLen_mem_512, numLuns_le := numLuns_le_1, size_lt := size_lt_8 }
      (fun _ _ => 0) (-1) []
    nopFlag := false }

/-- With a limit of 512 bytes the R2Ts tile the transfer. -/
theorem targetTransferData_tiled_512 : ∃ rc s',
    targetTransferData (fun _ => pure 0) 0 (waitingWrite 512) = .ret rc s' ∧
      Tiled 0 (waitingWrite 512) rc s' :=
  (targetTransferData_tiled (fun _ => pure 0) (by decide) (by decide)).mpr fun _ =>
    ⟨rfl, by decide⟩

/-- With a limit of zero, which stands for none, `target_transfer_data` does not return. -/
theorem targetTransferData_unlimited : Asks 0 (waitingWrite 0) ∧
    ∀ rc s', targetTransferData (fun _ => pure 0) 0 (waitingWrite 0) ≠ .ret rc s' := by
  exact ⟨.inl rfl, targetTransferData_endless _ (by decide) (by decide) (.inl rfl)
    (fun h => h.2 rfl) ⟨rfl, fun b hb => absurd hb List.not_mem_nil⟩⟩

end Ost.Disk
