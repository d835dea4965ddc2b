import Mathlib.Data.List.Forall2
import Ost.Iscsi.Pdu
import Ost.Prog.Run

/-!
# The pings of a target

A target may ping its initiator with a NOP-In of its own.  `nop_in_i`, which the Rx worker runs,
notes what the reply has to carry in `g_nop_out[tid]` and sets `g_nop_out_waiting[tid]`, and the
Tx worker sends the reply when it has nothing else to send.

Here every statement of the two workers that touches these arrays is a step of its own, and the
workers of any number of sessions interleave.  `nop_in_i` clears its entry with
`memset(&g_nop_out, ...)`, which is the entry of session 0.

`asked` and `sent` are what the session has received and sent so far.
-/

namespace Ost.Initiator

open Ost.Iscsi Ost.Prog

/-! ## The workers -/

/-- What the Rx worker does: nothing, or the `n`-th store for a NOP-In. -/
inductive RxStage where
  | idle
  | storing (n : Nat) (r : NopIn)
deriving DecidableEq, Repr

/-- What the Tx worker does with the entry of its session. -/
inductive TxStage where
  | idle
  | /-- It has seen the flag and is in `nop_out_i`. -/
    taken
  | /-- It has the header. -/
    built (q : NopOut)
  | /-- It has sent the reply, and resets the flag next. -/
    sent
  | /-- The socket has failed. -/
    stopped
deriving DecidableEq, Repr

/-- A session of the initiator. -/
structure PingSession where
  /-- `g_nop_out[tid]`, without the data. -/
  slot : NopOut
  /-- `g_nop_out_waiting[tid]`. -/
  waiting : Bool
  rx : RxStage
  tx : TxStage
  cmdSN : UInt32
  expStatSN : UInt32
  asked : List NopIn
  sent : List NopOut
deriving DecidableEq, Repr

/-- The sessions. -/
abbrev Pings : Type := Nat → PingSession

/-- A NOP-Out that was cleared. -/
def NopOut.zero : NopOut :=
  { immediate := false, length := 0, lun := 0, tag := 0, transferTag := 0, cmdSN := 0
    expStatSN := 0 }

/-- Change a session. -/
def onSession (i : Nat) (f : PingSession → PingSession) : Prog Empty Pings PUnit :=
  modify fun s => Function.update s i (f (s i))

/-- `nop_in_i` up to its stores.  It refuses a PDU with a tag or data. -/
def PingSession.receive (r : NopIn) (p : PingSession) : PingSession :=
  if p.rx = .idle ∧ r.tag = 0xffffffff ∧ r.length = 0 ∧ r.transferTag ≠ 0xffffffff then
    { p with rx := .storing 0 r, asked := p.asked ++ [r] }
  else p

/-- The stores of `nop_in_i` into the entry of its session. -/
def storeField (n : Nat) (r : NopIn) (expStatSN : UInt32) (q : NopOut) : NopOut :=
  match n with
  | 1 => { q with tag := 0xffffffff }
  | 2 => { q with immediate := true }
  | 3 => { q with transferTag := r.transferTag }
  | 4 => { q with lun := r.lun }
  | 5 => { q with expStatSN }
  | _ => { q with cmdSN := r.expCmdSN }

/-- The number of the last store, `ISCSI_WAKE_ELSE`. -/
def lastStore : Nat := 7

/-- One store of `nop_in_i` behind the `memset`. -/
def PingSession.store (n : Nat) (r : NopIn) (p : PingSession) : PingSession :=
  if n = lastStore then { p with waiting := true, rx := .idle }
  else { p with slot := storeField n r p.expStatSN p.slot, rx := .storing (n + 1) r }

/-- The next store of `nop_in_i`. -/
def pingStore (i : Nat) : Prog Empty Pings PUnit := do
  match ((← get) i).rx with
  | .idle => pure ⟨⟩
  | .storing 0 r => do
    onSession 0 fun p => { p with slot := NopOut.zero }
    onSession i fun p => { p with rx := .storing 1 r }
  | .storing n r => onSession i (·.store n r)

/-- The Tx worker finds the flag set. -/
def PingSession.take (p : PingSession) : PingSession :=
  if p.tx = .idle ∧ p.waiting = true then { p with tx := .taken } else p

/-- `nop_out_i` up to `iscsi_nop_out_encap`. -/
def PingSession.build (p : PingSession) : PingSession :=
  if p.tx = .taken then
    let q := { p.slot with cmdSN := p.cmdSN, expStatSN := p.expStatSN }
    { p with
      slot := q, tx := .built q
      cmdSN := if q.tag = 0xffffffff then p.cmdSN else p.cmdSN + 1 }
  else p

/-- `nop_out_i` sends the reply. -/
def PingSession.send (ok : Bool) (p : PingSession) : PingSession :=
  match p.tx with
  | .built q => if ok then { p with tx := .sent, sent := p.sent ++ [q] }
    else { p with tx := .stopped }
  | _ => p

/-- The Tx worker resets the flag. -/
def PingSession.reset (p : PingSession) : PingSession :=
  if p.tx = .sent then { p with tx := .idle, waiting := false } else p

/-- What can happen. -/
inductive PingEvent where
  | /-- A NOP-In arrives. -/
    receive (i : Nat) (r : NopIn)
  | store (i : Nat)
  | take (i : Nat)
  | build (i : Nat)
  | send (i : Nat) (ok : Bool)
  | reset (i : Nat)
  | /-- Other PDUs change the numbers of the session. -/
    traffic (i : Nat) (cmdSN expStatSN : UInt32)
deriving DecidableEq, Repr

/-- One event. -/
def pingNext : PingEvent → Prog Empty Pings PUnit
  | .receive i r => onSession i (·.receive r)
  | .store i => pingStore i
  | .take i => onSession i (·.take)
  | .build i => onSession i (·.build)
  | .send i ok => onSession i (·.send ok)
  | .reset i => onSession i (·.reset)
  | .traffic i cmdSN expStatSN => onSession i ({ · with cmdSN, expStatSN })

/-- A session that nothing has been asked of. -/
def PingSession.init : PingSession :=
  { slot := NopOut.zero, waiting := false, rx := .idle, tx := .idle, cmdSN := 0, expStatSN := 0
    asked := [], sent := [] }

/-! ## RepliesTo -/

/-- A NOP-Out answers a NOP-In. -/
structure RepliesTo (r : NopIn) (q : NopOut) : Prop where
  tag : q.tag = 0xffffffff
  immediate : q.immediate = true
  transferTag : q.transferTag = r.transferTag
  lun : q.lun = r.lun

/-- The pings of a session are answered. -/
structure PingSession.Answered (p : PingSession) : Prop where
  /-- What was sent answers what was asked first, one for one. -/
  own : ∃ first rest, p.asked = first ++ rest ∧ List.Forall₂ RepliesTo first p.sent
  /-- When the workers have nothing left to do, everything is answered. -/
  all : p.rx = .idle → p.tx = .idle → p.waiting = false → List.Forall₂ RepliesTo p.asked p.sent

/-! ## The condition -/

/-- The entry holds a reply that the Tx worker has not read yet. -/
def PingSession.Queued (p : PingSession) : Prop :=
  p.waiting = true ∧ (p.tx = .idle ∨ p.tx = .taken)

/-- How many stores the Rx worker has made into the entry of its session. -/
def PingSession.stored (p : PingSession) : Nat :=
  match p.rx with
  | .idle => 0
  | .storing n _ => n - 1

/-- The condition on a step.
* `nop_in_i` clears the entry of session 0 while that holds neither a reply nor a part of one.
* It stores into the entry of its own session while that holds no reply, and sets the flag while
  it is not set.
* A reply can be sent. -/
def PingOk (s : Pings) : PingEvent → Prop
  | .store i => match (s i).rx with
    | .idle => True
    | .storing n _ => (n = 0 → ¬(s 0).Queued ∧ (s 0).stored = 0) ∧ (n = 1 → ¬(s i).Queued) ∧
      (n = lastStore → (s i).waiting = false)
  | .send _ ok => ok = true
  | _ => True

instance (p : PingSession) : Decidable p.Queued := inferInstanceAs (Decidable (_ ∧ (_ ∨ _)))

instance (s : Pings) : (e : PingEvent) → Decidable (PingOk s e)
  | .store i =>
    match h : (s i).rx with
    | .idle => .isTrue (by simp [PingOk, h])
    | .storing n _ => decidable_of_iff ((n = 0 → ¬(s 0).Queued ∧ (s 0).stored = 0) ∧
        (n = 1 → ¬(s i).Queued) ∧ (n = lastStore → (s i).waiting = false)) (by simp [PingOk, h])
  | .send _ ok => inferInstanceAs (Decidable (ok = true))
  | .receive .. | .take _ | .build _ | .reset _ | .traffic .. => inferInstanceAs (Decidable True)

/-! ## The invariant -/

/-- What the Rx worker is handling. -/
def RxStage.pending : RxStage → List NopIn
  | .idle => []
  | .storing _ r => [r]

/-- What the first stores have left in the entry. -/
structure Stored (n : Nat) (r : NopIn) (q : NopOut) : Prop where
  tag : 1 < n → q.tag = 0xffffffff
  immediate : 2 < n → q.immediate = true
  transferTag : 3 < n → q.transferTag = r.transferTag
  lun : 4 < n → q.lun = r.lun

/-- What the Tx worker still has to answer: from the entry, or with the header it has built. -/
def PingSession.Holds (p : PingSession) (mid : List NopIn) : Prop :=
  match p.tx, p.waiting with
  | .idle, false | .sent, true => mid = []
  | .idle, true | .taken, true => ∃ r, mid = [r] ∧ RepliesTo r p.slot
  | .built q, true => ∃ r, mid = [r] ∧ RepliesTo r q
  | _, _ => False

/-- What the Rx worker has stored.  It has only begun while the entry holds a reply. -/
def PingSession.Stores (p : PingSession) : Prop :=
  ∀ n r, p.rx = .storing n r →
    n ≤ lastStore ∧ (p.Queued → n ≤ 1) ∧ (¬p.Queued → Stored n r p.slot)

/-- The invariant of a session. -/
structure PingSession.Serves (p : PingSession) : Prop where
  asked : ∃ first mid, p.asked = first ++ mid ++ p.rx.pending ∧
    List.Forall₂ RepliesTo first p.sent ∧ p.Holds mid
  stores : p.Stores

namespace PingSession

variable {p : PingSession}

/-- A few stores have no effect yet. -/
theorem stored_of_le {n : Nat} (hn : n ≤ 1) (r : NopIn) (q : NopOut) : Stored n r q := by
  constructor <;> intro h <;> omega

/-- What the invariant is for. -/
theorem Serves.answered (h : p.Serves) : p.Answered := by
  obtain ⟨first, mid, hasked, hanswers, hholds⟩ := h.asked
  refine ⟨⟨first, mid ++ p.rx.pending, by rw [hasked, List.append_assoc], hanswers⟩,
    fun hrx htx hwaiting => ?_⟩
  have hmid : mid = [] := by
    rw [Holds, htx, hwaiting] at hholds
    exact hholds
  rw [hasked, hrx, hmid]
  simpa [RxStage.pending] using hanswers

theorem Serves.receive (h : p.Serves) (r : NopIn) : (p.receive r).Serves := by
  unfold PingSession.receive
  split
  · rename_i hc
    obtain ⟨first, mid, hasked, hanswers, hholds⟩ := h.asked
    rw [hc.1] at hasked
    refine ⟨⟨first, mid, ?_, hanswers, hholds⟩, fun n r' hrx => ?_⟩
    · simp [hasked, RxStage.pending]
    · obtain ⟨rfl, rfl⟩ := RxStage.storing.inj hrx
      exact ⟨by decide, fun _ => by decide, fun _ => stored_of_le (by decide) _ _⟩
  · exact h

theorem Serves.take (h : p.Serves) : p.take.Serves := by
  unfold PingSession.take
  split
  · rename_i hc
    obtain ⟨htx, hwaiting⟩ := hc
    obtain ⟨first, mid, hasked, hanswers, hholds⟩ := h.asked
    rw [Holds, htx, hwaiting] at hholds
    refine ⟨⟨first, mid, hasked, hanswers, ?_⟩, fun n r hrx => ?_⟩
    · simpa only [Holds, hwaiting] using hholds
    · obtain ⟨hn, hqueued, -⟩ := h.stores n r hrx
      have hn1 := hqueued ⟨hwaiting, .inl htx⟩
      exact ⟨hn, fun _ => hn1, fun _ => stored_of_le hn1 _ _⟩
  · exact h

theorem Serves.build (h : p.Serves) : p.build.Serves := by
  unfold PingSession.build
  split
  · rename_i htx
    obtain ⟨first, mid, hasked, hanswers, hholds⟩ := h.asked
    cases hwaiting : p.waiting with
    | false => simp [Holds, htx, hwaiting] at hholds
    | true =>
      simp only [Holds, htx, hwaiting] at hholds
      obtain ⟨r, rfl, hr⟩ := hholds
      refine ⟨⟨first, [r], hasked, hanswers, ?_⟩, fun n r' hrx => ?_⟩
      · simp only [Holds]
        exact ⟨r, rfl, hr.tag, hr.immediate, hr.transferTag, hr.lun⟩
      · obtain ⟨hn, hqueued, -⟩ := h.stores n r' hrx
        have hn1 := hqueued ⟨hwaiting, .inr htx⟩
        exact ⟨hn, fun _ => hn1, fun _ => stored_of_le hn1 _ _⟩
  · exact h

theorem Serves.send (h : p.Serves) : (p.send true).Serves := by
  unfold PingSession.send
  split
  · rename_i q htx
    obtain ⟨first, mid, hasked, hanswers, hholds⟩ := h.asked
    cases hwaiting : p.waiting with
    | false => simp [Holds, htx, hwaiting] at hholds
    | true =>
      simp only [Holds, htx, hwaiting] at hholds
      obtain ⟨r, rfl, hr⟩ := hholds
      refine ⟨⟨first ++ [r], [], ?_, ?_, ?_⟩, fun n r' hrx => ?_⟩
      · simpa using hasked
      · exact List.rel_append hanswers (.cons hr .nil)
      · simp [Holds]
      · obtain ⟨hn, -, hstored⟩ := h.stores n r' hrx
        refine ⟨hn, fun hq => ?_, fun _ => hstored fun hq => ?_⟩
        · rcases hq.2 with hq | hq <;> exact nomatch hq
        · rcases hq.2 with hq | hq <;> exact nomatch htx.symm.trans hq
  · exact h

theorem Serves.reset (h : p.Serves) : p.reset.Serves := by
  unfold PingSession.reset
  split
  · rename_i htx
    obtain ⟨first, mid, hasked, hanswers, hholds⟩ := h.asked
    refine ⟨⟨first, mid, hasked, hanswers, ?_⟩, fun n r hrx => ?_⟩
    · cases hwaiting : p.waiting <;> simp_all [Holds]
    · obtain ⟨hn, -, hstored⟩ := h.stores n r hrx
      refine ⟨hn, fun hq => (nomatch hq.1), fun _ => hstored fun hq => ?_⟩
      rcases hq.2 with hq | hq <;> exact nomatch htx.symm.trans hq
  · exact h

/-- One more store. -/
theorem stored_storeField {n : Nat} {r : NopIn} {q : NopOut} (h : Stored n r q) (hn : 0 < n)
    (hlast : n < lastStore) (expStatSN : UInt32) :
    Stored (n + 1) r (storeField n r expStatSN q) := by
  obtain ⟨htag, himmediate, htransferTag, hlun⟩ := h
  unfold lastStore at hlast
  interval_cases n <;> constructor <;> intro hlt <;>
    first
    | rfl
    | exact htag (by decide)
    | exact himmediate (by decide)
    | exact htransferTag (by decide)
    | exact hlun (by decide)
    | exact absurd hlt (by decide)

/-- A store into the entry, which holds no reply, or the flag. -/
theorem Serves.store (h : p.Serves) {n : Nat} {r : NopIn} (hrx : p.rx = .storing n r) (hn : 0 < n)
    (hfree : n = 1 → ¬p.Queued) (hflag : n = lastStore → p.waiting = false) :
    (p.store n r).Serves := by
  obtain ⟨hlast, hqueued, hstored⟩ := h.stores n r hrx
  obtain ⟨first, mid, hasked, hanswers, hholds⟩ := h.asked
  have hfree : ¬p.Queued := fun hq => hfree (Nat.le_antisymm (hqueued hq) hn) hq
  have hstored := hstored hfree
  rw [hrx] at hasked
  unfold PingSession.store
  split
  · rename_i h7
    -- the flag was not set, so that the Tx worker has nothing else to answer
    have hwaiting := hflag h7
    have htx : p.tx = .idle ∧ mid = [] := by
      cases htx : p.tx <;> simp_all [Holds]
    subst h7
    refine ⟨⟨first, [r], ?_, hanswers, ?_⟩, fun n r' hrx' => nomatch hrx'⟩
    · simpa [htx.2, RxStage.pending] using hasked
    · simp only [Holds, htx.1]
      exact ⟨r, rfl, hstored.tag (by decide), hstored.immediate (by decide),
        hstored.transferTag (by decide), hstored.lun (by decide)⟩
  · rename_i h7
    refine ⟨⟨first, mid, hasked, hanswers, ?_⟩, fun n' r' hrx' => ?_⟩
    · unfold Holds at hholds ⊢
      dsimp only
      split at hholds <;> simp_all [Queued]
    · obtain ⟨rfl, rfl⟩ := RxStage.storing.inj hrx'
      have hlt : n < lastStore := Nat.lt_of_le_of_ne hlast h7
      exact ⟨hlt, fun hq => absurd hq hfree, fun _ => stored_storeField hstored hn hlt _⟩

/-- An entry that holds no reply, nor a part of one, is cleared. -/
theorem Serves.clear (h : p.Serves) (hfree : ¬p.Queued) (hstored : p.stored = 0) :
    Serves { p with slot := NopOut.zero } := by
  obtain ⟨first, mid, hasked, hanswers, hholds⟩ := h.asked
  refine ⟨⟨first, mid, hasked, hanswers, ?_⟩, fun n r hrx => ?_⟩
  · unfold Holds at hholds ⊢
    dsimp only
    split at hholds <;> simp_all [Queued]
  · have hn1 : n ≤ 1 := by
      have hrx : p.rx = .storing n r := hrx
      rw [PingSession.stored, hrx] at hstored
      exact Nat.le_of_sub_eq_zero hstored
    exact ⟨(h.stores n r hrx).1, fun _ => hn1, fun _ => stored_of_le hn1 _ _⟩

/-- The `memset` is done. -/
theorem Serves.cleared (h : p.Serves) {r : NopIn} (hrx : p.rx = .storing 0 r) :
    Serves { p with rx := .storing 1 r } := by
  obtain ⟨first, mid, hasked, hanswers, hholds⟩ := h.asked
  rw [hrx] at hasked
  refine ⟨⟨first, mid, hasked, hanswers, hholds⟩, fun n r' hrx' => ?_⟩
  obtain ⟨rfl, rfl⟩ := RxStage.storing.inj hrx'
  exact ⟨by decide, fun _ => by decide, fun _ => stored_of_le (by decide) _ _⟩

theorem Serves.traffic (h : p.Serves) (cmdSN expStatSN : UInt32) :
    Serves { p with cmdSN, expStatSN } := ⟨h.asked, h.stores⟩

theorem serves_init : PingSession.init.Serves :=
  ⟨⟨[], [], rfl, .nil, rfl⟩, nofun⟩

end PingSession

/-! ## Runs -/

variable {s : Pings}

/-- A change of one session. -/
theorem serves_update (h : ∀ j, (s j).Serves) (i : Nat) {p : PingSession} (hp : p.Serves) :
    ∀ j, (Function.update s i p j).Serves := by
  intro j
  by_cases hj : j = i
  · rwa [hj, Function.update_self]
  · rw [Function.update_of_ne hj]
    exact h j

theorem ensures_onSession (h : ∀ j, (s j).Serves) {i : Nat} {f : PingSession → PingSession}
    (hf : (f (s i)).Serves) : ensures (onSession i f) (fun _ s' => ∀ j, (s' j).Serves) s :=
  (wp_modify _).mpr (serves_update h i hf)

/-- Every event that meets the condition keeps the invariant of all sessions. -/
theorem serves_pingNext (h : ∀ j, (s j).Serves) (e : PingEvent) (ok : PingOk s e) :
    ensures (pingNext e) (fun _ s' => ∀ j, (s' j).Serves) s := by
  cases e with
  | receive i r => exact ensures_onSession h ((h i).receive r)
  | take i => exact ensures_onSession h (h i).take
  | build i => exact ensures_onSession h (h i).build
  | send i sent =>
    obtain rfl : sent = true := ok
    exact ensures_onSession h (h i).send
  | reset i => exact ensures_onSession h (h i).reset
  | traffic i cmdSN expStatSN =>
    exact ensures_onSession h (f := fun p => { p with cmdSN, expStatSN })
      ((h i).traffic cmdSN expStatSN)
  | store i =>
    refine (wp_bind _ _).mpr ?_
    change ensures (match (s i).rx with | .idle => _ | .storing 0 r => _ | .storing n r => _) _ s
    unfold PingOk at ok
    dsimp only at ok
    split
    · exact h
    · rename_i r hrx
      simp only [hrx] at ok
      obtain ⟨hfree, hstored⟩ := ok.1 trivial
      have h₁ := serves_update h 0 ((h 0).clear hfree hstored)
      refine (wp_bind _ _).mpr
        ((wp_modify _).mpr (ensures_onSession h₁ ((h₁ i).cleared (r := r) ?_)))
      by_cases hi : i = 0
      · subst hi
        rwa [Function.update_self]
      · rwa [Function.update_of_ne hi]
    · rename_i n r hn hrx
      simp only [hrx] at ok
      have hpos : 0 < n := Nat.pos_of_ne_zero fun h0 => hn (h0 ▸ rfl)
      exact ensures_onSession h ((h i).store hrx hpos ok.2.1 ok.2.2)

/-- In a run whose steps meet the condition, every ping is answered once, on its own session and
with its own fields. -/
theorem pings_answered (s : Pings) (h : Reach pingNext PingOk (fun _ => PingSession.init) s)
    (i : Nat) : (s i).Answered :=
  (h.invariant (P := fun s : Pings => ∀ j, (s j).Serves) (fun _ => PingSession.serves_init)
    (fun _ e hs ok => serves_pingNext hs e ok) i).answered

/-- A NOP-In that asks for a reply. -/
def smallNopIn (transferTag : UInt32) : NopIn :=
  { length := 0, lun := 3, tag := 0xffffffff, transferTag, statSN := 1, expCmdSN := 1
    maxCmdSN := 8 }

/-- A session receives a NOP-In, and the Rx worker notes it. -/
def noted (i : Nat) (transferTag : UInt32) : List PingEvent :=
  .receive i (smallNopIn transferTag) :: List.replicate 8 (.store i)

/-- Two sessions are pinged at the same time. -/
theorem pings_answered_two : ∃ s,
    Reach pingNext PingOk (fun _ => PingSession.init) s ∧ (s 1).sent.length = 1 ∧
      (s 2).sent.length = 1 ∧ (s 1).Answered ∧ (s 2).Answered := by
  have hrun : ∃ s, Reach pingNext PingOk (fun _ => PingSession.init) s ∧
      (s 1).sent.length = 1 ∧ (s 2).sent.length = 1 := exists_reach
    (noted 1 5 ++ [.take 1] ++ noted 2 6 ++ [.build 1, .take 2, .build 2, .send 2 true,
      .send 1 true, .reset 1, .reset 2]) (by decide +kernel)
  obtain ⟨s, hs, h₁, h₂⟩ := hrun
  exact ⟨s, hs, h₁, h₂, pings_answered s hs 1, pings_answered s hs 2⟩

/-- A ping of session 1 clears the reply of session 0. -/
theorem pings_cleared : ∃ s,
    Reach pingNext (fun _ _ => True) (fun _ => PingSession.init) s ∧ ¬(s 0).Answered := by
  have hrun : ∃ s, Reach pingNext (fun _ _ => True) (fun _ => PingSession.init) s ∧
      (s 0).sent.map NopOut.tag = [0] := exists_reach
    (noted 0 5 ++ noted 1 6 ++ [.take 0, .build 0, .send 0 true]) (by decide +kernel)
  obtain ⟨s, hs, htags⟩ := hrun
  refine ⟨s, hs, fun h => ?_⟩
  obtain ⟨q, hq, htag⟩ := List.map_eq_singleton_iff.mp htags
  obtain ⟨first, rest, -, hanswers⟩ := h.own
  rw [hq] at hanswers
  obtain ⟨r, _, hr, -⟩ := List.forall₂_cons_right_iff.mp hanswers
  exact absurd (hr.tag.symm.trans htag) (by decide)

end Ost.Initiator
