import Mathlib.Data.List.Perm.Basic
import Ost.Initiator.Calls
import Ost.Initiator.Custody

/-!
# The lifetime of a command

Any number of calls of `initiator_abort` and `session_destroy_i` may be under way while the workers
go on and other commands are submitted.  `Orderly` says what the bad moments of a step are.  In a
run without them a command is in the queue, in the hash, with the Tx worker, or with a call that
has taken it, until its callback is run.
-/

namespace Ost.Initiator

open Ost.Iscsi Ost.Util Ost.Param Ost.Prog

/-! ## The condition -/

/-- A step of `initiator_abort` for the command `c`, when `own` are the commands that the caller has
taken.  The callback of `c` has not been run, and there is room for a command that goes back to the
queue.  At the end the command still is marked as aborted, and nobody else has it. -/
def Session.abortOrderly (s : Session) (carried own : List Nat) (c : Nat) : AbortPhase → Prop
  | .scan _ => c ∉ s.books.called
  | .pass _ _ => c ∉ s.books.called ∧ s.books.room = true
  | .finish _ => c ∉ s.books.called ∧ (s.books.mem c).aborted = true ∧
      c ∉ s.books.txQueue.toList ∧ carried.count c ≤ own.count c ∧
      s.tx.holds ≠ some c ∧ s.rx.holds ≠ some c

instance (s : Session) (carried own : List Nat) (c : Nat) :
    ∀ phase, Decidable (s.abortOrderly carried own c phase)
  | .scan _ => inferInstanceAs (Decidable (_ ∉ _))
  | .pass _ _ => inferInstanceAs (Decidable (_ ∉ _ ∧ _ = true))
  | .finish _ => inferInstanceAs (Decidable (_ ∉ _ ∧ _ = true ∧ _ ∉ _ ∧ _ ≤ _ ∧ _ ≠ _ ∧ _ ≠ _))

/-- `session_destroy_i` has commands in its own queue when its call of `initiator_abort` returns. -/
def DrainPhase.leaves : DrainPhase → Bool
  | .abort (some tmp) _ (.finish _) => !tmp.toList.isEmpty
  | _ => false

/-- A step of `session_destroy_i`: there is room for a command that it puts into its own queue or
back, and the callback of a command that it aborts returns 0 while it has others. -/
def Session.drainOrderly (s : Session) (carried : List Nat) (p : DrainPhase) : Prop :=
  match p with
  | .empty tmp => ∀ d ∈ s.books.txQueue.toList.head?,
      (s.books.mem d).body.isControl = true ∨ tmp.toList.length < tmp.capacity
  | .refill tmp => tmp.toList = [] ∨ s.books.room = true
  | .requeue _ => s.books.room = true
  | .abort _ c phase => s.abortOrderly carried p.carried c phase ∧
      (p.leaves = true → (s.books.mem c).callbackOk = true)
  | .hash | .close => True

instance (s : Session) (carried : List Nat) : ∀ p, Decidable (s.drainOrderly carried p)
  | .empty _ => inferInstanceAs (Decidable (∀ _ ∈ (_ : Option Nat), _))
  | .refill _ => inferInstanceAs (Decidable (_ = _ ∨ _ = true))
  | .requeue _ => inferInstanceAs (Decidable (_ = true))
  | .abort .. => inferInstanceAs (Decidable (Session.abortOrderly .. ∧ (_ = true → _ = true)))
  | .hash | .close => isTrue trivial

/-- The condition on a step. -/
def Orderly (t : Threads) : ThreadEvent → Prop
  | .session e => Offered t.session e ∧ match e with
    | .tx => t.session.txOrderly
    | .rx _ => t.session.rxOrderly t.carried
    | _ => True
  | .abort i => ∀ a ∈ t.aborts[i]?,
      t.session.abortOrderly t.carried a.phase.carried a.cmd a.phase
  | .drain => ∀ p ∈ t.drain, t.session.drainOrderly t.carried p

instance (t : Threads) : ∀ e, Decidable (Orderly t e)
  | .session .tx => inferInstanceAs (Decidable (Offered t.session .tx ∧ t.session.txOrderly))
  | .session (.rx inp) =>
    inferInstanceAs (Decidable (Offered t.session (.rx inp) ∧ t.session.rxOrderly t.carried))
  | .session (.start _) | .session .fullFeature | .session (.enqueue ..) | .session (.control ..)
  | .session (.abort _) | .session .fail | .session .stop | .session .destroy =>
    inferInstanceAs (Decidable (Offered t.session _ ∧ True))
  | .abort i => inferInstanceAs (Decidable (∀ a ∈ t.aborts[i]?, _))
  | .drain => inferInstanceAs (Decidable (∀ p ∈ t.drain, _))

/-! ## Steps of the calls -/

variable {K L : Multiset Nat} {s s' : Session} {c x : Nat} {start : Option Nat} {q tmp : Fifo Nat}
  {carried own : List Nat}

/-- The queue changes, and what is gone or new is carried. -/
theorem step_withQueue (hs : Custody K s) (hcap : q.capacity = s.books.txQueue.capacity)
    (h : (q.toList : Multiset Nat) + L = (s.ledger K).queue) : Step K L s (s.withQueue q) := by
  have hl : (s.withQueue q).ledger L = s.ledger K := by
    have hq : (s.withQueue q).ledger L =
        { s.ledger K with queue := (q.toList : Multiset Nat) + L } := rfl
    rw [hq, h]
  refine ⟨by rw [hl], ⟨hs.filed.n_pos, hcap.trans hs.filed.capacity, hs.filed.keys, hs.filed.tags,
    hs.filed.taken, fun d hd => ?_, hs.filed.workers⟩, fun _ _ => rfl⟩
  rw [hl]
  exact hs.filed.kept d hd

/-- A call takes a command from the queue. -/
theorem step_unqueue (hs : Custody K s) (hr : s.books.txQueue.remove = some (x, q)) :
    Step K (x ::ₘ K) s (s.withQueue q) := by
  obtain ⟨hl, hcap⟩ := Fifo.remove_some hr
  refine step_withQueue hs hcap ?_
  rw [Session.ledger, hl, ← Multiset.cons_coe, Multiset.cons_add, Multiset.add_cons]

/-- A call puts a command into the queue. -/
theorem step_requeue (hs : Custody (x ::ₘ K) s) (hi : s.books.txQueue.insert x = some q) :
    Step (x ::ₘ K) K s (s.withQueue q) := by
  obtain ⟨hl, hcap⟩ := Fifo.insert_some hi
  refine step_withQueue hs hcap ?_
  rw [queue_append hl, Session.ledger, Session.ledger, Multiset.add_cons]

/-- `session_destroy_i` takes a command from the hash. -/
theorem step_unhash (hs : Custody K s) (htx : s.tx = .exited) (hrx : s.rx = .exited)
    {t : TagHash Nat} (hr : s.books.cmdHash.removeHead = some (x, t)) :
    Step K (x ::ₘ K) s (s.withHash t) := by
  obtain ⟨⟨tag, hp⟩, hn⟩ := TagHash.removeHead_some hr
  have hv : (s.ledger K).table = x ::ₘ (t.values : Multiset Nat) := by
    rw [Session.ledger, Multiset.cons_coe]
    exact Multiset.coe_eq_coe.mpr (by simpa [TagHash.values] using hp.map (·.2))
  have hl : (s.withHash t).ledger (x ::ₘ K) = { s.ledger K with
      table := (t.values : Multiset Nat), queue := x ::ₘ (s.ledger K).queue } := by
    rw [Session.ledger, Multiset.add_cons]
    rfl
  refine ⟨?_, ⟨?_, hs.filed.capacity, fun e he => hs.filed.keys e ?_, hs.filed.tags, ?_, ?_,
    hs.filed.workers⟩, fun _ _ => rfl⟩
  · rw [hl]
    refine .single (.requeue x _ hv ?_ fun _ => ?_)
    · simp [Session.ledger, hrx, RxPhase.holds]
    · simp [Session.ledger, htx, TxPhase.holds]
  · exact hn.symm ▸ hs.filed.n_pos
  · exact hp.mem_iff.mpr (List.mem_cons_of_mem _ he)
  · intro d hd
    exact absurd (htx.symm.trans hd) (by simp)
  · intro d hd
    change s.tx = _ ∨ s.tx = _ ∨ s.tx = _ at hd
    simp [htx] at hd

/-- `initiator_abort` marks its command. -/
theorem step_abortBegin (hs : Custody K s) (hc : s.books.Live c) :
    ensures (abortBegin c) (fun _ s' => Step K K s s') s :=
  Still.step (still_setCmd rfl rfl) hs hc fun _ he => Function.update_of_ne he _ _

/-- The step in which `c` is given back. -/
theorem step_done (hs : Custody K s) (hc : s.books.Live c) (ha : (s.books.mem c).aborted = true)
    (hq : c ∉ s.books.txQueue.toList) (hcount : K.count c ≤ 1) (htx : s.tx.holds ≠ some c)
    (hrx : s.rx.holds ≠ some c) : ensures (iscsiDoneI c)
      (fun ok s' => ok = (s.books.mem c).callbackOk ∧ Step K (K.erase c) s s') s :=
  wp_mono (iscsiDoneI_completes c (.inr ha))
    (fun _ _ h => ⟨h.1, step_of_completed hs hc htx hrx hq hcount h.2.2⟩) fun _ _ _ => trivial

/-- The call has found nothing but its own command. -/
def AbortPhase.Found (c : Nat) (phase : AbortPhase) : Prop :=
  ∀ x, phase = .finish (some x) → x = c

theorem AbortPhase.found_scan : (AbortPhase.scan start).Found c := fun _ h => by cases h

theorem AbortPhase.found_none : (AbortPhase.finish none).Found c := fun _ h => by cases h

/-- Looking at a command. -/
theorem abortStep_scan_step (hs : Custody K s) (hc : s.books.Live c) :
    ensures (abortStep c (.scan start)) (fun r s' => ∃ phase, r = .inl phase ∧
      phase.Found c ∧ Step K (phase.carried + K) s s') s := by
  refine wp_intro (fun r s' h => ?_) fun _ _ _ => trivial
  rcases hr : s.books.txQueue.remove with _ | ⟨x, q⟩
  · rw [abortStep_empty hr] at h
    obtain ⟨rfl, rfl⟩ := Outcome.ret.inj h
    refine ⟨_, rfl, AbortPhase.found_none, ?_⟩
    simpa [AbortPhase.carried] using Step.refl hs.filed
  rw [abortStep_look hr] at h
  obtain ⟨rfl, rfl⟩ := Outcome.ret.inj h
  have hstep := step_unqueue hs hr
  have hx : s.books.Live x := by
    refine hs.queued ?_
    rw [(Fifo.remove_some hr).1]
    exact List.mem_cons_self
  refine ⟨_, rfl, fun y hy => ?_, ?_⟩
  · split at hy
    · rename_i htag
      obtain rfl := Option.some.inj (AbortPhase.finish.inj hy)
      exact hs.filed.tags x c hx hc htag
    · cases hy
  · split <;> simpa [AbortPhase.carried] using hstep

/-- Putting it back. -/
theorem abortStep_pass_step (hs : Custody (x ::ₘ K) s) (hroom : s.books.room = true) :
    ensures (abortStep c (.pass start x)) (fun r s' => ∃ phase, r = .inl phase ∧
      phase.Found c ∧ Step (x ::ₘ K) (phase.carried + K) s s') s := by
  refine wp_intro (fun r s' h => ?_) fun _ _ _ => trivial
  rcases hi : s.books.txQueue.insert x with _ | q
  · rw [room_of_insert_none hi] at hroom
    cases hroom
  rw [abortStep_pass hi] at h
  obtain ⟨rfl, rfl⟩ := Outcome.ret.inj h
  have hstep := step_requeue hs hi
  refine ⟨_, rfl, fun y hy => ?_, ?_⟩
  · split at hy <;> cases hy
  · split <;> simpa [AbortPhase.carried] using hstep

/-- What a step of `initiator_abort` moves: it goes on, or it gives its command back. -/
def AbortMoves (c : Nat) (phase : AbortPhase) (L : Multiset Nat) (s : Session)
    (r : AbortPhase ⊕ Bool) (s' : Session) : Prop :=
  r.elim (fun phase' => phase'.Found c ∧ Step (phase.carried + L) (phase'.carried + L) s s')
    fun ok => ok = (s.books.mem c).callbackOk ∧ (∃ ptr, phase = .finish ptr) ∧
      Step (phase.carried + L) ((phase.carried + L : Multiset Nat).erase c) s s'

/-- A step of `initiator_abort`, when its command is in no more than one pair of hands at the
end. -/
theorem abortStep_step {phase : AbortPhase} (hs : Custody (phase.carried + L) s)
    (hc : s.books.Live c) (ho : s.abortOrderly carried own c phase)
    (hcount : ∀ ptr, phase = .finish ptr → (phase.carried + L : Multiset Nat).count c ≤ 1) :
    ensures (abortStep c phase) (AbortMoves c phase L s) s := by
  cases phase with
  | scan start =>
    have hL : ((AbortPhase.scan start).carried : Multiset Nat) + L = L := Multiset.zero_add L
    rw [hL] at hs
    refine (abortStep_scan_step hs hc).mono ?_
    rintro _ s' ⟨phase, rfl, hf, hstep⟩
    exact ⟨hf, hL.symm ▸ hstep⟩
  | pass start x =>
    have hL : ((AbortPhase.pass start x).carried : Multiset Nat) + L = x ::ₘ L :=
      Multiset.singleton_add x L
    rw [hL] at hs
    refine (abortStep_pass_step hs ho.2).mono ?_
    rintro _ s' ⟨phase, rfl, hf, hstep⟩
    exact ⟨hf, hL.symm ▸ hstep⟩
  | finish ptr =>
    obtain ⟨-, ha, hq, -, htx, hrx⟩ := ho
    rw [ensures, abortStep, wp_bind]
    refine (step_done hs hc ha hq (hcount ptr rfl) htx hrx).mono ?_
    rintro ok s' ⟨rfl, hstep⟩
    exact ⟨rfl, ⟨ptr, rfl⟩, hstep⟩

/-- `session_destroy_i` aborts a command that is queued or outstanding only once, and
`initiator_abort` has found nothing but that command. -/
def DrainPhase.Found (s : Session) (p : DrainPhase) : Prop :=
  ∀ tmp c phase, p = .abort tmp c phase → phase.Found c ∧ (s.books.mem c).body.type ≠ .scsi

/-- What a step of `session_destroy_i` moves: it goes on, or it is left without commands. -/
def DrainMoves (p : DrainPhase) (L : Multiset Nat) (s : Session) (r : DrainPhase ⊕ Int)
    (s' : Session) : Prop :=
  r.elim (fun p' => p'.Found s' ∧ Step (p.carried + L) (p'.carried + L) s s')
    fun _ => Step (p.carried + L) L s s'

/-- It goes on with anything but `initiator_abort`. -/
theorem DrainMoves.on {p p' : DrainPhase} (hp : ∀ tmp c phase, p' ≠ .abort tmp c phase)
    (h : Step (p.carried + L) (p'.carried + L) s s') : DrainMoves p L s (.inl p') s' :=
  ⟨fun tmp c phase he => absurd he (hp tmp c phase), h⟩

/-- It begins to abort a command that it has taken. -/
theorem step_drainAbort (hs : Custody K s) (htake : Step K (c ::ₘ K) s s')
    (hcalled : s'.books.called = s.books.called) (hc : (s'.books.mem c).body.isControl = true) :
    ensures (abortBegin c) (fun _ s'' => Step K (c ::ₘ K) s s'' ∧
      ∀ tmp, (DrainPhase.abort tmp c (.scan none)).Found s'') s' := by
  have hs' := htake.custody hs
  refine (step_abortBegin hs' (hs'.carried (Multiset.mem_cons_self c K))).mono ?_
  intro _ s'' hstep
  refine ⟨htake.trans hstep hcalled, fun tmp tmp' d phase hp => ?_⟩
  obtain ⟨-, rfl, rfl⟩ := DrainPhase.abort.inj hp
  refine ⟨AbortPhase.found_scan, ?_⟩
  have hsolo : (s'.ledger (c ::ₘ K)).solo c := by
    intro htype
    rw [Body.isControl, htype] at hc
    cases hc
  have hi := (hs'.carried (Multiset.mem_cons_self c K)).1
  exact (hstep.moves.issued hi).2.mpr hsolo

theorem drainStep_empty_step (hs : Custody (tmp.toList + L) s)
    (ho : s.drainOrderly carried (.empty tmp)) :
    ensures (drainStep (.empty tmp)) (DrainMoves (.empty tmp) L s) s := by
  simp only [ensures, drainStep, wp_bind]
  rw [wp_queueRemove]
  refine ⟨fun _ => .on (by simp) (.refl hs.filed), fun c q hr => ?_⟩
  have htake := step_unqueue hs hr
  simp only [wp_bind, wp_getCmd]
  refine (wp_ite _ _ _).mpr ⟨fun hc => ?_, fun hc => ?_⟩
  · rw [wp_bind]
    refine (step_drainAbort hs htake rfl hc).mono ?_
    rintro _ s' ⟨hstep, hf⟩
    refine ⟨hf _, ?_⟩
    have hcarried : ((DrainPhase.abort (some tmp) c (.scan none)).carried : Multiset Nat) + L =
        c ::ₘ ((tmp.toList : Multiset Nat) + L) := by
      simp [DrainPhase.carried, AbortPhase.carried, ← Multiset.cons_coe]
    rw [hcarried]
    exact hstep
  · have hroom : tmp.toList.length < tmp.capacity := by
      refine (ho c ?_).resolve_left hc
      rw [(Fifo.remove_some hr).1]
      rfl
    rcases hi : tmp.insert c with _ | tmp'
    · exact absurd (Fifo.insert_none hi) hroom.ne
    refine .on (by simp) ?_
    have hcarried : ((DrainPhase.empty tmp').carried : Multiset Nat) + L =
        c ::ₘ ((tmp.toList : Multiset Nat) + L) := by
      simp only [DrainPhase.carried, (Fifo.insert_some hi).1]
      rw [← Multiset.coe_add, Multiset.coe_singleton, Multiset.add_comm (tmp.toList : Multiset Nat),
        Multiset.add_assoc, Multiset.singleton_add]
    rw [hcarried]
    exact htake

theorem drainStep_refill_step (hs : Custody (tmp.toList + L) s)
    (ho : s.drainOrderly carried (.refill tmp)) :
    ensures (drainStep (.refill tmp)) (DrainMoves (.refill tmp) L s) s := by
  rcases hr : tmp.remove with _ | ⟨c, tmp'⟩
  · have hnil := Fifo.remove_none hr
    simp only [ensures, drainStep, hr]
    refine .on (by simp) ?_
    simp only [DrainPhase.carried, hnil]
    exact Step.refl (by simpa [hnil] using hs.filed)
  obtain ⟨hl, -⟩ := Fifo.remove_some hr
  have hroom : s.books.room = true := ho.resolve_left (by simp [hl])
  have hcarried : (tmp.toList : Multiset Nat) + L = c ::ₘ ((tmp'.toList : Multiset Nat) + L) := by
    rw [hl, ← Multiset.cons_coe, Multiset.cons_add]
  rw [hcarried] at hs
  simp only [ensures, drainStep, hr, wp_bind]
  rw [wp_queueInsert]
  refine ⟨fun hi => ?_, fun q hi => ?_⟩
  · rw [room_of_insert_none hi] at hroom
    cases hroom
  refine (wp_ite _ _ _).mpr ⟨fun h => absurd h (by decide), fun _ => ?_⟩
  change DrainMoves (.refill tmp) L s (.inl (.refill tmp')) (s.withQueue q)
  refine .on (by simp) ?_
  change Step ((tmp.toList : Multiset Nat) + L) _ s _
  rw [hcarried]
  exact step_requeue hs hi

/-- The workers have stopped. -/
structure Session.Resting (s : Session) : Prop where
  tx : s.tx = .exited
  rx : s.rx = .exited

theorem drainStep_hash_step (hs : Custody L s) (hw : s.Resting) :
    ensures (drainStep .hash) (DrainMoves .hash L s) s := by
  have hnil : ((DrainPhase.hash.carried : Multiset Nat)) + L = L := Multiset.zero_add L
  simp only [ensures, drainStep, wp_bind]
  rw [wp_hashTakeHead]
  refine ⟨fun _ => .on (by simp) (.refl (hnil.symm ▸ hs.filed)), fun c t hr => ?_⟩
  have htake := step_unhash hs hw.tx hw.rx hr
  simp only [wp_bind, wp_getCmd]
  refine (wp_ite _ _ _).mpr ⟨fun hc => ?_, fun hc => ?_⟩
  · rw [wp_bind]
    refine (step_drainAbort hs htake rfl hc).mono ?_
    rintro _ s' ⟨hstep, hf⟩
    refine ⟨hf _, ?_⟩
    rw [hnil]
    exact hstep
  · refine .on (by simp) ?_
    rw [hnil]
    exact htake

theorem drainStep_requeue_step (hs : Custody (c ::ₘ L) s)
    (ho : s.drainOrderly carried (.requeue c)) :
    ensures (drainStep (.requeue c)) (DrainMoves (.requeue c) L s) s := by
  have hc := hs.carried (Multiset.mem_cons_self c L)
  have hroom : s.books.room = true := ho
  have hreset : Step (c ::ₘ L) (c ::ₘ L) s (s.setCmd c (s.books.mem c).reset) := by
    refine Still.step (still_setCmd ?_ rfl) hs hc fun _ he => Function.update_of_ne he _ _
    simp only [InitiatorCmd.reset, Body.reset]
    split <;> simp_all [Body.type]
  simp only [ensures, drainStep, wp_bind, wp_modifyCmd]
  rw [wp_queueInsert]
  refine ⟨fun hi => ?_, fun q hi => ?_⟩
  · have hfull : s.books.room = false := room_of_insert_none hi
    rw [hfull] at hroom
    cases hroom
  refine (wp_ite _ _ _).mpr ⟨fun h => absurd h (by decide), fun _ => ?_⟩
  have hnil : ((DrainPhase.hash.carried : Multiset Nat)) + L = L := Multiset.zero_add L
  refine .on (by simp) ?_
  rw [hnil]
  exact hreset.trans (step_requeue (hreset.custody hs) hi) rfl

theorem drainStep_close_step (hs : Custody L s) (hw : s.Resting) :
    ensures (drainStep .close) (DrainMoves .close L s) s := by
  have hnil : ((DrainPhase.close.carried : Multiset Nat)) + L = L := Multiset.zero_add L
  simp only [ensures, drainStep, wp_bind, wp_gets]
  refine (wp_ite _ _ _).mpr ⟨fun _ => ?_, fun _ => ?_⟩
  · change Step _ L s s
    rw [hnil]
    exact .refl hs.filed
  · change Step _ L s { s with flags := .zero }
    rw [hnil]
    exact ⟨.refl, ⟨hs.filed.n_pos, hs.filed.capacity, hs.filed.keys, hs.filed.tags, hs.filed.taken,
      hs.filed.kept, fun _ => ⟨hw.tx, hw.rx⟩⟩, fun _ _ => rfl⟩

/-- `session_destroy_i` is in `initiator_abort`. -/
theorem drainStep_abort_step {tmp : Option (Fifo Nat)} {phase : AbortPhase}
    (hs : Custody ((DrainPhase.abort tmp c phase).carried + L) s)
    (hf : (DrainPhase.abort tmp c phase).Found s)
    (ho : s.drainOrderly carried (.abort tmp c phase)) :
    ensures (drainStep (.abort tmp c phase)) (DrainMoves (.abort tmp c phase) L s) s := by
  obtain ⟨hfound, htype⟩ := hf _ _ _ rfl
  -- The rest that `session_destroy_i` has taken stays where it is.
  set R : Multiset Nat := (tmp.toList.flatMap Fifo.toList : Multiset Nat) + L with hR
  have hcarried : ∀ phase' : AbortPhase,
      ((DrainPhase.abort tmp c phase').carried : Multiset Nat) + L =
        phase'.carried + c ::ₘ R := by
    intro phase'
    rw [DrainPhase.carried, List.cons_append, ← Multiset.cons_coe, ← Multiset.coe_add,
      Multiset.cons_add, Multiset.add_assoc, Multiset.add_cons]
  have hs' := hs
  rw [hcarried] at hs'
  have hmem : c ∈ (phase.carried + c ::ₘ R : Multiset Nat) := by simp
  have hc := hs'.carried hmem
  have honce := (hs'.sound.solo_once c htype).1
  have hcount : (phase.carried + c ::ₘ R : Multiset Nat).count c ≤ 1 := by
    refine le_trans ?_ honce
    rw [Session.ledger, Multiset.count_add _ (s.books.txQueue.toList : Multiset Nat)]
    exact Nat.le_add_left _ _
  rw [ensures, drainStep, wp_bind]
  refine (abortStep_step hs' hc ho.1 fun _ _ => hcount).mono ?_
  rintro (phase' | ok) s' h
  · obtain ⟨hf', hstep⟩ := h
    refine ⟨fun _ _ _ hp => ?_, ?_⟩
    · obtain ⟨-, rfl, rfl⟩ := DrainPhase.abort.inj hp
      exact ⟨hf', (hstep.moves.issued hc.1).2.mpr htype⟩
    · rw [hcarried, hcarried]
      exact hstep
  obtain ⟨rfl, ⟨ptr, rfl⟩, hstep⟩ := h
  have hnone : ptr = none := by
    rcases ptr with _ | x
    · rfl
    obtain rfl := hfound x rfl
    simp [AbortPhase.carried] at hcount
  subst hnone
  have herase : ((AbortPhase.finish none).carried + c ::ₘ R : Multiset Nat).erase c = R := by
    simp [AbortPhase.carried]
  rw [herase] at hstep
  refine (wp_ite _ _ _).mpr ⟨fun _ => ⟨fun _ _ _ hp => ?_, ?_⟩, fun hfail => ?_⟩
  · cases tmp <;> cases hp
  · rw [hcarried]
    have hresume : ((DrainPhase.resume tmp).carried : Multiset Nat) + L = R := by
      cases tmp <;> simp [DrainPhase.resume, DrainPhase.carried, hR]
    rw [hresume]
    exact hstep
  · have hempty : R = L := by
      rcases tmp with _ | tmp
      · simp [hR]
      · have hl : tmp.toList = [] := by
          by_contra hne
          exact hfail (ho.2 (by simpa [DrainPhase.leaves] using hne))
        simp [hR, hl]
    change Step _ L s s'
    rw [hcarried]
    exact hempty ▸ hstep

/-- A step of `session_destroy_i`. -/
theorem drainStep_step {p : DrainPhase} (hs : Custody (p.carried + L) s) (hw : s.Resting)
    (hf : p.Found s) (ho : s.drainOrderly carried p) :
    ensures (drainStep p) (DrainMoves p L s) s := by
  cases p with
  | empty tmp => exact drainStep_empty_step hs ho
  | refill tmp => exact drainStep_refill_step hs ho
  | hash => exact drainStep_hash_step (by simpa [DrainPhase.carried] using hs) hw
  | requeue c => exact drainStep_requeue_step (by simpa [DrainPhase.carried] using hs) ho
  | close => exact drainStep_close_step (by simpa [DrainPhase.carried] using hs) hw
  | abort tmp c phase => exact drainStep_abort_step hs hf ho

/-! ## What the calls leave alone -/

/-- The workers are where they were. -/
abbrev Inert : Session → Session → Prop := Prog.Keeps fun s => (s.tx, s.rx)

theorem Session.Resting.inert (h : s.Resting) (hs : Inert s s') : s'.Resting := by
  obtain ⟨htx, hrx⟩ := Prod.mk.inj hs
  exact ⟨htx.trans h.tx, hrx.trans h.rx⟩

section Instances

variable (c : Nat)

instance inert_modifyCmd (f : InitiatorCmd → InitiatorCmd) : Within Inert (modifyCmd c f) :=
  ⟨fun _ => rfl⟩

instance inert_getCmd : Within Inert (getCmd c) := ⟨fun _ => rfl⟩

instance inert_setStatus (x : Int) : Within Inert (setStatus c x) := ⟨fun _ => rfl⟩

instance inert_runCallback : Within Inert (runCallback c) := ⟨fun _ => rfl⟩

instance inert_queueRemove : Within Inert queueRemove :=
  ⟨fun _ => wp_queueRemove.mpr ⟨fun _ => rfl, fun _ _ _ => rfl⟩⟩

instance inert_queueInsert : Within Inert (queueInsert c) :=
  ⟨fun _ => (wp_queueInsert c).mpr ⟨fun _ => rfl, fun _ _ => rfl⟩⟩

instance inert_hashDelete (tag : UInt32) : Within Inert (hashDelete tag) :=
  ⟨fun _ => (wp_hashDelete tag).mpr ⟨fun _ => rfl, fun _ _ _ => rfl⟩⟩

instance inert_hashTakeHead : Within Inert hashTakeHead :=
  ⟨fun _ => wp_hashTakeHead.mpr ⟨fun _ => rfl, fun _ _ _ => rfl⟩⟩

instance inert_iscsiDoneI : Within Inert (iscsiDoneI c) := by
  unfold iscsiDoneI
  infer_instance

instance inert_abortBegin : Within Inert (abortBegin c) := by
  unfold abortBegin
  infer_instance

instance inert_abortStep (phase : AbortPhase) : Within Inert (abortStep c phase) := by
  cases phase with
  | scan start =>
    refine .bind inferInstance ?_
    rintro (_ | ptr) <;> infer_instance
  | pass start ptr =>
    rw [abortStep]
    infer_instance
  | finish ptr =>
    rw [abortStep]
    infer_instance

instance inert_submit (t : InitiatorCmd) : Within Inert (submit c t) := by
  have hmodify : Within Inert (modify fun s =>
      s.setBooks { s.books with issued := s.books.issued ++ [c] } : Handler PUnit) :=
    within_modify fun _ => rfl
  unfold submit
  infer_instance

end Instances

instance inert_drainStep (p : DrainPhase) : Within Inert (drainStep p) := by
  cases p with
  | empty tmp =>
    refine .bind inferInstance ?_
    rintro (_ | c)
    · infer_instance
    · refine .bind inferInstance fun t => .ite _ ?_
      cases tmp.insert c <;> infer_instance
  | refill tmp =>
    rw [drainStep]
    rcases tmp.remove with _ | ⟨c, tmp'⟩ <;> infer_instance
  | hash =>
    refine .bind inferInstance ?_
    rintro (_ | c) <;> infer_instance
  | requeue c =>
    rw [drainStep]
    infer_instance
  | close =>
    have hflags : Within Inert (modifyFlags fun _ => .zero) := within_modify fun _ => rfl
    rw [drainStep]
    infer_instance
  | abort tmp c phase =>
    refine .bind inferInstance ?_
    rintro (_ | ok) <;> infer_instance

/-! ## Events of the session -/

variable {env : Env} {cfg : TargetConfig} {e : Event}

/-- The calls that only begin are steps of their own. -/
def Event.begins : Event → Bool
  | .abort _ | .destroy => true
  | _ => false

/-- Every other event moves the commands that the calls have not taken. -/
theorem next_step (hs : Custody carried s) (hb : e.begins = false) (ho : Offered s e)
    (htx : e = .tx → s.txOrderly) (hrx : ∀ inp, e = .rx inp → s.rxOrderly carried) :
    ensures (next env cfg e) (fun _ s' => Step carried carried s s') s := by
  cases e with
  | start params => exact start_step hs params
  | fullFeature =>
    simp only [ensures, next, getFullFeature, wp_bind, wp_getFlags]
    refine (wp_ite _ _ _).mpr ⟨fun _ => ?_, fun _ => .refl hs.filed⟩
    exact step_vars (b := s.stopping) hs (f := { s.flags with fullFeature := true }) id
  | enqueue c tag body ok => exact submit_step hs ho.1 ho.2
  | control c tag body d =>
    simp only [ensures, next, submitControl, wp_bind, wp_getVars, wp_modifyVars, wp_getFlags]
    have hvars : Step carried carried s (s.setVars (s.vars.numbering body)) :=
      step_vars (f := s.flags) (b := s.stopping) hs id
    refine (wp_ite _ _ _).mpr ⟨fun _ => hvars, fun _ => ?_⟩
    refine (submit_step (hvars.custody hs) ho.2.1 ?_).mono fun _ s' h => hvars.trans h rfl
    have hfree := ho.2.2
    cases body <;> exact hfree
  | tx => exact tx_step hs (htx rfl)
  | rx inp => exact rx_step hs (hrx inp rfl) inp
  | fail =>
    rw [ensures, next, wp_setError]
    exact step_vars (v := s.vars) (b := s.stopping) hs id
  | stop =>
    simp only [ensures, next, sessionStop, wp_bind, wp_getFlags]
    refine (wp_ite _ _ _).mpr ⟨fun _ => ?_, fun _ => .refl hs.filed⟩
    exact step_vars (v := s.vars) (f := { s.flags with destroying := true }) hs id
  | abort c => cases hb
  | destroy => cases hb

/-- Workers that have stopped are started by `session_init_i` only. -/
theorem resting_next (hw : s.Resting) (hb : e.begins = false)
    (hstart : ∀ params, e ≠ .start params) :
    ensures (next env cfg e) (fun _ s' => s'.Resting) s := by
  cases e with
  | start params => exact absurd rfl (hstart params)
  | fullFeature =>
    simp only [ensures, next, getFullFeature, wp_bind, wp_getFlags]
    exact (wp_ite _ _ _).mpr ⟨fun _ => ⟨hw.tx, hw.rx⟩, fun _ => hw⟩
  | enqueue c tag body ok =>
    exact ((inert_submit c _).run s).mono fun _ _ h => hw.inert h
  | control c tag body d =>
    simp only [ensures, next, submitControl, wp_bind, wp_getVars, wp_modifyVars, wp_getFlags]
    have hvars : (s.setVars (s.vars.numbering body)).Resting := ⟨hw.tx, hw.rx⟩
    refine (wp_ite _ _ _).mpr ⟨fun _ => hvars, fun _ => ?_⟩
    exact ((inert_submit c _).run _).mono fun _ _ h => hvars.inert h
  | tx =>
    simp only [ensures, next, txWorkerProcI, wp_bind, wp_get, hw.tx]
    exact hw
  | rx inp =>
    simp only [ensures, next, rxWorkerProcI, wp_bind, wp_get, hw.rx]
    exact hw
  | fail =>
    rw [ensures, next, wp_setError]
    exact ⟨hw.tx, hw.rx⟩
  | stop =>
    simp only [ensures, next, sessionStop, wp_bind, wp_getFlags]
    exact (wp_ite _ _ _).mpr ⟨fun _ => ⟨hw.tx, hw.rx⟩, fun _ => hw⟩
  | abort c => cases hb
  | destroy => cases hb

/-! ## Runs -/

variable {t t' : Threads}

/-- The invariant of a session with calls under way. -/
structure Threads.Custody (t : Threads) : Prop where
  session : Initiator.Custody t.carried t.session
  aborts : ∀ a ∈ t.aborts, a.cmd ∈ t.session.books.issued ∧ a.phase.Found a.cmd
  drain : ∀ p, t.drain = some p → t.session.Resting ∧ p.Found t.session

/-- What a step does. -/
structure ThreadStep (t t' : Threads) : Prop where
  step : Step t.carried t'.carried t.session t'.session
  custody : t'.Custody

/-- Without the commands that the call `i` of `initiator_abort` has taken. -/
def Threads.withoutAbort (t : Threads) (i : Nat) : Threads :=
  { t with aborts := t.aborts.eraseIdx i }

theorem Threads.carried_abort {i : Nat} {a : AbortCall} (h : t.aborts[i]? = some a) :
    (t.carried : Multiset Nat) = a.phase.carried + (t.withoutAbort i).carried := by
  obtain ⟨hi, rfl⟩ := List.getElem?_eq_some_iff.mp h
  have hp := (List.getElem_cons_eraseIdx_perm hi).flatMap_right fun a => a.phase.carried
  rw [Multiset.coe_add]
  refine (Multiset.coe_eq_coe.mpr ?_).symm
  rw [Threads.carried, Threads.carried, ← List.append_assoc]
  exact List.Perm.append_right _ (by simpa [Threads.withoutAbort] using hp)

theorem Threads.carried_drain {p : DrainPhase} (h : t.drain = some p) :
    (t.carried : Multiset Nat) = p.carried + ({ t with drain := none } : Threads).carried := by
  rw [Multiset.coe_add]
  refine Multiset.coe_eq_coe.mpr ?_
  simp only [Threads.carried, h, Option.toList_some, Option.toList_none, List.flatMap_nil,
    List.flatMap_cons, List.append_nil]
  exact List.perm_append_comm

/-- A command that `session_destroy_i` aborts has been submitted. -/
theorem Threads.Custody.aborting (ht : t.Custody) {tmp : Option (Fifo Nat)} {phase : AbortPhase}
    (h : t.drain = some (.abort tmp c phase)) : c ∈ t.session.books.issued := by
  refine (ht.session.carried ?_).1
  rw [Threads.carried_drain h]
  simp [DrainPhase.carried]

/-- Only the session changes, and the commands that calls have taken stay where they are. -/
theorem Threads.Custody.session_step (ht : t.Custody) (h : Step t.carried t.carried t.session s)
    (hw : t.drain.isSome = true → s.Resting) : ThreadStep t { t with session := s } where
  step := h
  custody :=
    { session := h.custody ht.session
      aborts := fun a ha => ⟨(h.moves.issued (ht.aborts a ha).1).1, (ht.aborts a ha).2⟩
      drain := fun p hp => by
        refine ⟨hw (by rw [show t.drain = some p from hp]; rfl), fun tmp d phase he => ?_⟩
        subst he
        obtain ⟨hf, htype⟩ := (ht.drain _ hp).2 _ _ _ rfl
        exact ⟨hf, (h.moves.issued (ht.aborting hp)).2.mpr htype⟩ }

theorem wp_inSession {α : Type} {x : Handler α} {Q : α → Threads → Prop}
    {E : Halt → Threads → Prop} : wp (inSession x) Q E t ↔
      wp x (fun a s => Q a { t with session := s }) (fun e s => E e { t with session := s })
        t.session := wp_zoom

/-- An event of the session in which no call begins. -/
theorem session_event_step (ht : t.Custody) (hb : e.begins = false)
    (hstart : ∀ params, e = .start params → t.drain = none) (ho : Orderly t (.session e)) :
    ensures (inSession (next env cfg e)) (fun _ t' => ThreadStep t t') t := by
  have hstep : ensures (next env cfg e) (fun _ s => Step t.carried t.carried t.session s)
      t.session := by
    refine next_step ht.session hb ho.1 ?_ ?_
    · rintro rfl
      exact ho.2
    · rintro inp rfl
      exact ho.2
  rw [ensures, wp_inSession]
  by_cases hd : t.drain.isSome = true
  · obtain ⟨p, hp⟩ := Option.isSome_iff_exists.mp hd
    have hw : ensures (next env cfg e) (fun _ s => s.Resting) t.session := by
      refine resting_next (ht.drain p hp).1 hb fun params he => ?_
      rw [hstart params he] at hp
      cases hp
    exact wp_mono (wp_and hstep hw) (fun _ s h => ht.session_step h.1 fun _ => h.2)
      fun _ _ _ => trivial
  · exact hstep.mono fun _ s h => ht.session_step h fun hsome => absurd hsome hd

theorem ThreadStep.refl (ht : t.Custody) : ThreadStep t t := ⟨.refl ht.session.filed, ht⟩

/-- `initiator_abort` begins. -/
theorem abortBegin_step (ht : t.Custody) (hc : t.session.books.Live c) :
    ensures (sessionNext env cfg (.abort c)) (fun _ t' => ThreadStep t t') t := by
  simp only [ensures, sessionNext, wp_bind]
  rw [wp_inSession]
  refine wp_mono (wp_and (step_abortBegin ht.session hc) ((inert_abortBegin c).run t.session))
    ?_ fun _ _ _ => trivial
  rintro _ s ⟨hstep, hinert⟩
  have h := ht.session_step hstep fun hd => by
    obtain ⟨p, hp⟩ := Option.isSome_iff_exists.mp hd
    exact (ht.drain p hp).1.inert hinert
  have hcarried : ({ t with session := s, aborts := t.aborts ++ [⟨c, .scan none⟩] } :
      Threads).carried = t.carried := by
    simp [Threads.carried, AbortPhase.carried]
  refine ⟨hcarried.symm ▸ h.step, hcarried.symm ▸ h.custody.session, fun a ha => ?_,
    h.custody.drain⟩
  rcases List.mem_append.mp ha with ha | ha
  · exact h.custody.aborts a ha
  · obtain rfl := List.mem_singleton.mp ha
    exact ⟨(hstep.moves.issued hc.1).1, AbortPhase.found_scan⟩

/-- `session_destroy_i` goes on when the workers have stopped. -/
theorem drainBegin_step (ht : t.Custody) :
    ensures (sessionNext env cfg .destroy) (fun _ t' => ThreadStep t t') t := by
  simp only [ensures, sessionNext, onManager, wp_bind, wp_get]
  refine (wp_guarded _ _).mpr ⟨fun hd => ?_, fun _ => .refl ht⟩
  rw [wp_bind, wp_inSession]
  simp only [drainBegin, wp_bind, wp_get]
  refine (wp_guarded _ _).mpr ⟨fun hst => ?_, fun hst => ?_⟩
  · refine (wp_ite _ _ _).mpr ⟨fun _ => ?_, fun h => absurd hst h⟩
    have hw : t.session.Resting := by
      simp only [Session.stopped, Bool.and_eq_true, beq_iff_eq] at hst
      exact ⟨hst.1.2, hst.2⟩
    have h := ht.session_step
      (s := { t.session with stopping := false, accepted := [], answers := [] })
      (step_vars (v := t.session.vars) (f := t.session.flags) ht.session id) fun _ => ⟨hw.tx, hw.rx⟩
    have hcarried : ({ t with
        session := { t.session with stopping := false, accepted := [], answers := [] }
        drain := some (.empty (.init (configInitiatorQueueDepth - 1))) } : Threads).carried =
        t.carried := by
      simp only [Threads.carried, Option.isNone_iff_eq_none.mp hd, Option.toList_some,
        Option.toList_none, List.flatMap_nil, List.flatMap_cons, DrainPhase.carried]
      rfl
    refine ⟨hcarried.symm ▸ h.step, hcarried.symm ▸ h.custody.session, h.custody.aborts, ?_⟩
    rintro p hp
    obtain rfl := Option.some.inj hp
    exact ⟨⟨hw.tx, hw.rx⟩, fun _ _ _ he => by cases he⟩
  · exact (wp_ite _ _ _).mpr ⟨fun h => absurd h hst, fun _ => .refl ht⟩

/-- What `initiator_abort` had taken is gone with its command. -/
theorem erase_carried {phase : AbortPhase} (hf : phase.Found c) {ptr : Option Nat}
    (hp : phase = .finish ptr)
    (hcount : (phase.carried + L : Multiset Nat).count c ≤ phase.carried.count c) :
    (phase.carried + L : Multiset Nat).count c ≤ 1 ∧
      (phase.carried + L : Multiset Nat).erase c = L := by
  subst hp
  rcases ptr with _ | x
  · have hnil : ((AbortPhase.finish none).carried : Multiset Nat) + L = L := Multiset.zero_add L
    rw [hnil] at hcount ⊢
    have hzero : L.count c = 0 := Nat.le_zero.mp hcount
    exact ⟨hzero ▸ Nat.zero_le _, Multiset.erase_of_notMem (Multiset.count_eq_zero.mp hzero)⟩
  · obtain rfl := hf x rfl
    have hcons : ((AbortPhase.finish (some x)).carried : Multiset Nat) + L = x ::ₘ L :=
      Multiset.singleton_add x L
    rw [hcons] at hcount ⊢
    refine ⟨hcount.trans ?_, Multiset.erase_cons_head _ _⟩
    simp [AbortPhase.carried]

/-- A call of `initiator_abort` goes on. -/
theorem abort_step (ht : t.Custody) {i : Nat} (ho : Orderly t (.abort i)) :
    ensures (threadNext env cfg (.abort i)) (fun _ t' => ThreadStep t t') t := by
  simp only [ensures, threadNext, wp_bind, wp_get]
  rcases ha : t.aborts[i]? with _ | a
  · exact .refl ht
  have ho' := ho a ha
  have hmem := List.mem_of_getElem? ha
  obtain ⟨hissued, hfound⟩ := ht.aborts a hmem
  have hcarried := Threads.carried_abort ha
  set L : List Nat := (t.withoutAbort i).carried with hL
  have hs := ht.session
  rw [hcarried] at hs
  have hlive : t.session.books.Live a.cmd := ⟨hissued, by
    revert ho'
    cases a.phase with
    | scan start => exact id
    | pass start x => exact And.left
    | finish ptr => exact And.left⟩
  have hown : ∀ ptr, a.phase = .finish ptr →
      (a.phase.carried + L : Multiset Nat).count a.cmd ≤ a.phase.carried.count a.cmd := by
    intro ptr hptr
    rw [hptr] at ho'
    rw [← hcarried, hptr, Multiset.coe_count]
    exact ho'.2.2.2.1
  rw [wp_bind, wp_inSession]
  refine wp_mono (wp_and (abortStep_step hs hlive ho' fun ptr hptr =>
    (erase_carried hfound hptr (hown ptr hptr)).1) ((inert_abortStep a.cmd a.phase).run t.session))
    ?_ fun _ _ _ => trivial
  rintro r s ⟨hmoves, hinert⟩
  -- The call gets to the phase of `as`, where `K` is what all calls carry.
  have later : ∀ (as : List AbortCall) (K : Multiset Nat),
      ((⟨s, as, t.drain⟩ : Threads).carried : Multiset Nat) = K → Step t.carried K t.session s →
      (∀ b ∈ as, b ∈ t.aborts ∨ b.cmd = a.cmd ∧ b.phase.Found a.cmd) →
      ThreadStep t ⟨s, as, t.drain⟩ := by
    intro as K hK hstep has
    rw [← hK] at hstep
    refine ⟨hstep, hstep.custody ht.session, fun b hb => ?_, fun p hp => ?_⟩
    · rcases has b hb with hb | ⟨hc, hf⟩
      · exact ⟨(hstep.moves.issued (ht.aborts b hb).1).1, (ht.aborts b hb).2⟩
      · rw [hc]
        exact ⟨(hstep.moves.issued hissued).1, hf⟩
    · refine ⟨(ht.drain p hp).1.inert hinert, fun tmp d phase he => ?_⟩
      subst he
      obtain ⟨hf, htype⟩ := (ht.drain _ hp).2 _ _ _ rfl
      exact ⟨hf, (hstep.moves.issued (ht.aborting hp)).2.mpr htype⟩
  rcases r with phase | ok
  · obtain ⟨hf, hstep⟩ := hmoves
    refine later _ _ ?_ (hcarried ▸ hstep) fun b hb => ?_
    · have hi := (List.getElem?_eq_some_iff.mp ha).1
      have hset : (t.aborts.set i ⟨a.cmd, phase⟩)[i]? = some ⟨a.cmd, phase⟩ :=
        List.getElem?_set_self hi
      rw [Threads.carried_abort (t := ⟨s, t.aborts.set i ⟨a.cmd, phase⟩, t.drain⟩) hset]
      simp [Threads.withoutAbort, Threads.carried, hL, List.eraseIdx_set_eq]
    · rcases List.mem_or_eq_of_mem_set hb with hb | rfl
      · exact .inl hb
      · exact .inr ⟨rfl, hf⟩
  · obtain ⟨-, ⟨ptr, hptr⟩, hstep⟩ := hmoves
    rw [(erase_carried hfound hptr (hown ptr hptr)).2, ← hcarried] at hstep
    exact later _ _ rfl hstep fun b hb => .inl (List.mem_of_mem_eraseIdx hb)

/-- `session_destroy_i` goes on. -/
theorem drain_step (ht : t.Custody) (ho : Orderly t .drain) :
    ensures (threadNext env cfg .drain) (fun _ t' => ThreadStep t t') t := by
  simp only [ensures, threadNext, wp_bind, wp_get]
  rcases hp : t.drain with _ | p
  · exact .refl ht
  obtain ⟨hw, hf⟩ := ht.drain p hp
  have hcarried := Threads.carried_drain hp
  set L : List Nat := ({ t with drain := none } : Threads).carried
  have hs := ht.session
  rw [hcarried] at hs
  rw [wp_bind, wp_inSession]
  refine wp_mono (wp_and (drainStep_step hs hw hf (ho p hp)) ((inert_drainStep p).run t.session))
    ?_ fun _ _ _ => trivial
  rintro r s ⟨hmoves, hinert⟩
  -- `session_destroy_i` gets to `d`, where `K` is what all calls carry.
  have later : ∀ (d : Option DrainPhase) (K : Multiset Nat),
      ((⟨s, t.aborts, d⟩ : Threads).carried : Multiset Nat) = K → Step t.carried K t.session s →
      (∀ p', d = some p' → p'.Found s) → ThreadStep t ⟨s, t.aborts, d⟩ := by
    intro d K hK hstep hd
    rw [← hK] at hstep
    refine ⟨hstep, hstep.custody ht.session, fun b hb => ?_, fun p' hp' => ?_⟩
    · exact ⟨(hstep.moves.issued (ht.aborts b hb).1).1, (ht.aborts b hb).2⟩
    · exact ⟨hw.inert hinert, hd p' hp'⟩
  rcases r with p' | rc
  · obtain ⟨hf', hstep⟩ := hmoves
    refine later _ _ (Threads.carried_drain (t := ⟨s, t.aborts, some p'⟩) rfl) (hcarried ▸ hstep) ?_
    rintro p'' hp''
    exact Option.some.inj hp'' ▸ hf'
  · exact later none L rfl (hcarried ▸ hmoves) fun p' hp' => by cases hp'

/-- Every step of an orderly run is a sequence of moves of the ledger. -/
theorem thread_step (ht : t.Custody) {e : ThreadEvent} (ho : Orderly t e) :
    ensures (threadNext env cfg e) (fun _ t' => ThreadStep t t') t := by
  cases e with
  | abort i => exact abort_step ht ho
  | drain => exact drain_step ht ho
  | session e =>
    have other : ∀ {e : Event}, e.begins = false → (∀ params, e ≠ .start params) →
        Orderly t (.session e) → ensures (inSession (next env cfg e))
        (fun _ t' => ThreadStep t t') t :=
      fun hb hstart => session_event_step ht hb fun params he => absurd he (hstart params)
    have managed : ∀ {e : Event}, e.begins = false → Orderly t (.session e) →
        ensures (onManager (inSession (next env cfg e))) (fun _ t' => ThreadStep t t') t := by
      intro e hb ho
      simp only [ensures, onManager, wp_bind, wp_get]
      refine (wp_guarded _ _).mpr ⟨fun hd => ?_, fun _ => .refl ht⟩
      exact session_event_step ht hb (fun _ _ => Option.isNone_iff_eq_none.mp hd) ho
    cases e with
    | abort c =>
      have h : ensures (sessionNext env cfg (.abort c)) (fun _ t' => ThreadStep t t') t :=
        abortBegin_step ht ho.1
      exact h
    | destroy =>
      have h : ensures (sessionNext env cfg .destroy) (fun _ t' => ThreadStep t t') t :=
        drainBegin_step ht
      exact h
    | start params => exact managed rfl ho
    | stop => exact managed rfl ho
    | fullFeature => exact other rfl (by simp) ho
    | enqueue c tag body ok => exact other rfl (by simp) ho
    | control c tag body d => exact other rfl (by simp) ho
    | tx => exact other rfl (by simp) ho
    | rx inp => exact other rfl (by simp) ho
    | fail => exact other rfl (by simp) ho

/-- A session that has not been started has no commands. -/
theorem Fresh.custody (h : Fresh s) : (Threads.mk s [] none).Custody where
  session :=
    { sound := by
        refine .empty h.issued h.called ?_ ?_ ?_ ?_
        · simp [Session.ledger, h.txQueue, Threads.carried]
        · simp [Session.ledger, h.cmdHash, TagHash.values]
        · simp [Session.ledger, h.tx, TxPhase.holds]
        · simp [Session.ledger, h.rx, RxPhase.holds]
      filed := by
        constructor
        · rw [h.cmdHash]
          exact Nat.succ_pos _
        · rw [h.txQueue]
          rfl
        · simp [h.cmdHash]
        · intro c d hc
          rw [Books.Live, h.issued] at hc
          exact absurd hc.1 List.not_mem_nil
        · intro c hc
          rw [h.tx] at hc
          cases hc
        · intro c hc
          simp [h.tx] at hc
        · exact fun _ => ⟨h.tx, h.rx⟩ }
  aborts _ ha := absurd ha List.not_mem_nil
  drain _ hp := by cases hp

theorem custody_of_reach {s₀ : Session} (h₀ : Fresh s₀)
    (h : Reach (threadNext env cfg) Orderly ⟨s₀, [], none⟩ t) : t.Custody :=
  h.invariant h₀.custody fun _ e ht ho =>
    (thread_step (e := e) ht ho).mono fun _ _ h => h.custody

/-- In an orderly run a command is in the queue, in the hash, in the hands of the Tx worker, or with
a call under way that has taken it, until its callback has been run.  The callback is run once, and
then nothing has or touches the command any more. -/
theorem command_lifetime {s₀ : Session} (h₀ : Fresh s₀)
    (h : Reach (threadNext env cfg) Orderly ⟨s₀, [], none⟩ t) :
    t.session.books.called.Nodup ∧
      (∀ c ∈ t.session.books.called, c ∉ t.session.books.txQueue.toList ∧
        c ∉ t.session.books.cmdHash.values ∧ t.session.tx.holds ≠ some c ∧
        t.session.rx.holds ≠ some c ∧ c ∉ t.carried) ∧
      (∀ c ∈ t.session.books.issued, c ∉ t.session.books.called →
        c ∈ t.session.books.txQueue.toList ∨ c ∈ t.session.books.cmdHash.values ∨
          t.session.tx.holds = some c ∨ c ∈ t.carried) ∧
      (t.aborts = [] → t.drain = none → t.carried = []) ∧
      ∀ e t', Orderly t e → threadNext env cfg e t = .ret ⟨⟩ t' →
        ∀ c ∈ t.session.books.called, t'.session.books.mem c = t.session.books.mem c := by
  have ht := custody_of_reach h₀ h
  have hqueue : ∀ c, c ∈ (t.session.ledger t.carried).queue ↔
      c ∈ t.session.books.txQueue.toList ∨ c ∈ t.carried := by
    intro c
    rw [Session.ledger, Multiset.mem_add, Multiset.mem_coe, Multiset.mem_coe]
  refine ⟨ht.session.sound.done_nodup, fun c hc => ?_, fun c hi hc => ?_, fun ha hd => ?_,
    fun e t' ho he => ?_⟩
  · obtain ⟨hq, htable, hhand, hreader⟩ := ht.session.sound.nowhere hc
    rw [hqueue, not_or] at hq
    exact ⟨hq.1, fun hm => htable (Multiset.mem_coe.mpr hm), hhand, hreader, hq.2⟩
  · rcases ht.session.sound.placed c ⟨hi, hc⟩ with hm | hm | hm
    · rcases (hqueue c).mp hm with hm | hm
      · exact .inl hm
      · exact .inr (.inr (.inr hm))
    · exact .inr (.inl (Multiset.mem_coe.mp hm))
    · exact .inr (.inr (.inl hm))
  · simp [Threads.carried, ha, hd]
  · exact ((thread_step ht ho).of_ret he).step.untouched

/-- A NOP-Out with a ping. -/
def smallPing : Body := .nopOut ⟨⟨true, 0, 0, 0, 0, 0, 0⟩, []⟩

/-- A session in which no call is under way. -/
def smallThreads : Threads := ⟨smallSession, [], none⟩

/-- Events of the session. -/
def sessionEvents (es : List Event) : List ThreadEvent := es.map .session

/-- A run in which a login command and a ping come back, and then another ping is aborted. -/
theorem command_lifetime_pings :
    ∃ t, Reach (threadNext smallEnv smallTarget) Orderly smallThreads t ∧
      t.session.books.called = [0, 1, 2] ∧ t.session.books.called.Nodup := by
  have hrun : ∃ t, Reach (threadNext smallEnv smallTarget) Orderly smallThreads t ∧
      t.session.books.called = [0, 1, 2] := exists_reach
    (sessionEvents (smallLogin ++ [.enqueue 1 7 smallPing true] ++ smallSend ++
      smallReceive (smallPdu 0x20 0x80 [(16, 7), (20, 0xffffffff)]) ++
      [.enqueue 2 8 smallPing true, .abort 2]) ++ [.abort 0, .abort 0])
    (by decide +kernel)
  obtain ⟨t, h, hc⟩ := hrun
  exact ⟨t, h, hc, (command_lifetime fresh_smallSession h).1⟩

/-- What callers may do at any moment. -/
def Threads.Offered (t : Threads) : ThreadEvent → Prop
  | .session e => Initiator.Offered t.session e
  | _ => True

instance (t : Threads) : ∀ e, Decidable (t.Offered e)
  | .session e => inferInstanceAs (Decidable (Initiator.Offered t.session e))
  | .abort _ | .drain => isTrue trivial

/-- A command that is aborted while the Tx worker holds it goes into the hash after its callback
has been run. -/
theorem aborted_outstanding : ∃ t,
    Reach (threadNext smallEnv smallTarget) Threads.Offered smallThreads t ∧
      1 ∈ t.session.books.called ∧ 1 ∈ t.session.books.cmdHash.values :=
  exists_reach (sessionEvents (smallLogin ++ [.enqueue 1 7 smallPing true, .tx, .abort 1]) ++
    [.abort 0, .abort 0, .session .tx]) (by decide +kernel)

/-- So does one that is aborted while `session_destroy_i` has it in its own queue: it is put back
into the queue of the session. -/
theorem aborted_refilled : ∃ t,
    Reach (threadNext smallEnv smallTarget) Threads.Offered smallThreads t ∧
      1 ∈ t.session.books.called ∧ 1 ∈ t.session.books.txQueue.toList :=
  exists_reach (sessionEvents (smallLogin ++ [.stop, .tx, .rx none, .enqueue 1 7 smallPing true,
    .destroy]) ++ [.drain, .drain, .session (.abort 1), .abort 0, .abort 0, .drain])
    (by decide +kernel)

end Ost.Initiator
