import Ost.Initiator.Requeue

/-!
# A command that is left alone

A command that has been sent is in the hash, and the Tx worker neither holds it nor will find it in
its queue.  Until the Rx worker handles a PDU for it, or its owner aborts it, no thread of the
initiator touches it, whatever the others do in the meantime (`next_spares`).
-/

namespace Ost.Initiator

open Ost.Iscsi Ost.Util Ost.Param Ost.Prog

/-! ## The frame of a command -/

/-- The Tx worker has done with the command `c`. -/
structure Away (c : Nat) (s : Session) : Prop where
  issued : c ∈ s.books.issued
  unqueued : c ∉ s.books.txQueue.toList
  unheld : s.tx.holds ≠ some c

/-- From `s` to `s'` nobody has touched the command `c`. -/
structure Spares (c : Nat) (s s' : Session) : Prop where
  away : Away c s'
  mem : s'.books.mem c = s.books.mem c
  called : s'.books.called.count c = s.books.called.count c
  listed : c ∈ s'.books.cmdHash.values ↔ c ∈ s.books.cmdHash.values

/-- The PDU for the command `c` that the Rx worker has. -/
def RxPhase.pduOf (c : Nat) : RxPhase → Option RxPdu
  | .waiting d p => if d = c then some p else none
  | .handling d p => if d = some c then some p else none
  | .idle | .exited => none

/-- The PDU that arrives with an event, and for which the Rx worker finds the command `c`. -/
def Session.finds (s : Session) (c : Nat) : Event → Option RxPdu
  | .rx (some p) =>
    if s.rx = .idle ∧ s.tx ≠ .exited ∧ p.lookupTag.bind s.books.cmdHash.get = some c then some p
    else none
  | _ => none

variable {s s' : Session} {c d : Nat} {env : Env} {cfg : TargetConfig}

theorem Away.refl (h : Away c s) : Spares c s s := ⟨h, rfl, rfl, Iff.rfl⟩

/-- A step that has to do with another command. -/
theorem Away.spares (h : Away c s) (hd : d ≠ c) (hissued : s'.books.issued = s.books.issued)
    (hqueue : ∀ a ∈ s'.books.txQueue.toList, a = d ∨ a ∈ s.books.txQueue.toList)
    (htx : ∀ a, s'.tx.holds = some a → a = d ∨ s.tx.holds = some a)
    (hother : ∀ a, a ≠ d → s'.books.mem a = s.books.mem a)
    (hcalled : s'.books.called = s.books.called ∨ s'.books.called = s.books.called ++ [d])
    (hlisted : c ∈ s'.books.cmdHash.values ↔ c ∈ s.books.cmdHash.values) : Spares c s s' := by
  refine ⟨⟨hissued ▸ h.issued, fun hc => ?_, fun hc => ?_⟩, hother c hd.symm, ?_, hlisted⟩
  · exact (hqueue c hc).elim (fun he => hd he.symm) h.unqueued
  · exact (htx c hc).elim (fun he => hd he.symm) h.unheld
  · rcases hcalled with hcalled | hcalled
    · rw [hcalled]
    · have hnone : [d].count c = 0 :=
        List.count_eq_zero_of_not_mem fun hm => hd (List.mem_singleton.mp hm).symm
      rw [hcalled, List.count_append, hnone, Nat.add_zero]

/-- A handler for another command has not completed it. -/
theorem Same.spares (h : Same d s s') (hd : d ≠ c) (ha : Away c s) : Spares c s s' :=
  ha.spares hd h.issued (fun _ hm => .inr (h.txQueue ▸ hm)) (fun _ hm => .inr (h.tx ▸ hm)) h.other
    (.inl h.called) (by rw [h.cmdHash])

/-- A handler for no command. -/
theorem spares_of_forall_same (h : ∀ d, Same d s s') (ha : Away c s) : Spares c s s' :=
  (h (c + 1)).spares (Nat.succ_ne_self c) ha

/-- Taking another command out of the hash leaves this one in it. -/
theorem Roster.listed_without (hs : Roster s) (hk : s.Knows d) (hd : d ≠ c)
    (hhash : s'.books.cmdHash = s.books.cmdHash.without (s.books.mem d).tag) :
    c ∈ s'.books.cmdHash.values ↔ c ∈ s.books.cmdHash.values := by
  rw [hhash]
  constructor
  · intro hc
    obtain ⟨e, he, hec⟩ := List.mem_map.mp hc
    exact List.mem_map.mpr ⟨e, TagHash.entries_without_subset he, hec⟩
  · intro hc
    obtain ⟨e, he, rfl⟩ := List.mem_map.mp hc
    refine List.mem_map_of_mem (TagHash.mem_without he fun htag => hd ?_)
    exact hs.tags d e.2 hk (.inr (.inr (.inl hc))) (htag.symm.trans (hs.keys e he))

/-- Another command has been completed. -/
theorem Completed.spares (h : Completed d s s') (hs : Roster s) (hk : s.Knows d) (hd : d ≠ c)
    (ha : Away c s) : Spares c s s' :=
  ha.spares hd h.issued (fun _ hm => .inr (h.txQueue ▸ hm)) (fun _ hm => .inr (h.tx ▸ hm)) h.other
    (.inr h.called) (hs.listed_without hk hd h.cmdHash)

theorem Ended.spares (h : Ended d s s') (hs : Roster s) (hk : s.Knows d) (hd : d ≠ c)
    (ha : Away c s) : Spares c s s' :=
  h.elim (fun h => h.spares hd ha) fun h => h.spares hs hk hd ha

/-- Only another command has changed. -/
theorem Only.spares (h : Only d s s') (hd : d ≠ c) (ha : Away c s)
    (htx : ∀ a, s'.tx.holds = some a → a = d ∨ s.tx.holds = some a) : Spares c s s' :=
  ha.spares hd h.issued (fun _ hm => .inr (h.txQueue ▸ hm)) htx h.other (.inl h.called)
    (by rw [h.cmdHash])

/-- What follows a part of a step that has spared the command may change all but the books, and let
go of what the Tx worker holds. -/
theorem Spares.after (h : Spares c s s') {t : Session} (hbooks : t.books = s'.books)
    (htx : ∀ a, t.tx.holds = some a → s'.tx.holds = some a) : Spares c s t := by
  obtain ⟨⟨hissued, hqueue, hheld⟩, hmem, hcalled, hlisted⟩ := h
  rw [← hbooks] at hissued hqueue hmem hcalled hlisted
  exact ⟨⟨hissued, hqueue, fun hc => hheld (htx c hc)⟩, hmem, hcalled, hlisted⟩

/-! ## The Tx worker -/

/-- Then the worker holds nothing. -/
theorem Spares.releases (h : Spares c s s' ∧ s'.rx = s.rx) {f : Flags} {p : TxPhase}
    (hp : p.holds = none) :
    Spares c s { s' with flags := f, tx := p } ∧ s'.rx = s.rx :=
  ⟨h.1.after rfl fun a h => by simp [hp] at h, h.2⟩

/-- The worker looks for something to do. -/
theorem txIdle_spares (ha : Away c s) :
    ensures txIdle (fun _ s' => Spares c s s' ∧ s'.rx = s.rx) s := by
  have here : Spares c s s ∧ s.rx = s.rx := ⟨ha.refl, rfl⟩
  simp only [ensures, txIdle, wp_bind, wp_get]
  refine (wp_ite _ _ _).mpr ⟨fun _ => Spares.releases (f := s.flags) here rfl, fun _ => ?_⟩
  rw [wp_bind, wp_queueRemove]
  refine ⟨fun _ => ?_, fun d q hr => ?_⟩
  · simp only [wp_bind, wp_getVars]
    refine (wp_ite _ _ _).mpr ⟨fun _ => ?_, fun _ => here⟩
    rw [wp_bind]
    refine (ensures_forall fun d => (same_nopOutI d _).run s).mono fun x s₁ h₁ => ?_
    have h₂ : ∀ v, Spares c s (s₁.setVars v) ∧ s₁.rx = s.rx := fun v =>
      ⟨spares_of_forall_same (fun d => (h₁ d).setVars v) ha, (h₁ 0).rx⟩
    simp only [wp_bind, wp_modifyVars]
    refine (wp_ite _ _ _).mpr ⟨fun _ => ?_, fun _ => ?_⟩
    · exact h₂ { s₁.vars with nopOut := x.1, nopOutWaiting := false }
    · rw [wp_txFailure]
      exact Spares.releases (h₂ { s₁.vars with nopOut := x.1 }) rfl
  · obtain ⟨hl, -⟩ := Fifo.remove_some hr
    have hd : d ≠ c := fun he => ha.unqueued (by rw [hl, he]; exact List.mem_cons_self)
    refine ⟨ha.spares hd rfl (fun a hm => .inr ?_) (fun a h => .inl ?_) (fun _ _ => rfl)
      (.inl rfl) Iff.rfl, rfl⟩
    · rw [hl]
      exact List.mem_cons_of_mem _ hm
    · exact (Option.some.inj h).symm

/-- The worker puts another command back, or adds it to the outstanding ones. -/
theorem txTaken_spares (ha : Away c s) (hd : d ≠ c) :
    ensures (txTaken d) (fun _ s' => Spares c s s' ∧ s'.rx = s.rx) s := by
  have here : Spares c s s ∧ s.rx = s.rx := ⟨ha.refl, rfl⟩
  simp only [ensures, txTaken, wp_bind, wp_getCmd, wp_getFlags]
  refine (wp_ite _ _ _).mpr ⟨fun _ => ?_, fun _ => ?_⟩
  · rw [wp_bind, wp_queueInsert]
    refine ⟨fun _ => Spares.releases here rfl, fun q hi => ?_⟩
    refine ⟨ha.spares hd rfl (fun a hm => ?_) (fun a h => ?_) (fun _ _ => rfl) (.inl rfl) Iff.rfl,
      rfl⟩
    · have hm : a ∈ q.toList := hm
      rw [(Fifo.insert_some hi).1] at hm
      exact (List.mem_append.mp hm).symm.imp List.mem_singleton.mp id
    · cases h
  · have held : ∀ {t : TagHash Nat}, (c ∈ t.values ↔ c ∈ s.books.cmdHash.values) →
        Spares c s { s with books := { s.books with cmdHash := t }, tx := .hashed d } := fun hl =>
      ha.spares hd rfl (fun _ hm => .inr hm) (fun a h => .inl (Option.some.inj h).symm)
        (fun _ _ => rfl) (.inl rfl) hl
    simp only [wp_bind, wp_hashLookup]
    split
    · exact ⟨held (t := s.books.cmdHash) Iff.rfl, rfl⟩
    · rw [wp_bind, wp_hashAdd]
      refine ⟨fun _ => Spares.releases (f := s.flags) here rfl, fun t hi => ⟨held ?_, rfl⟩⟩
      have hp := (TagHash.insert_some hi).1.map (·.2)
      exact (hp.mem_iff (a := c)).trans
        (List.mem_cons.trans (or_iff_right fun he => hd he.symm))

/-- The worker sends another command. -/
theorem sending_spares (ha : Away c s) (hd : d ≠ c) {ok : Bool} (h : ExecuteEnd d s s' ok)
    {p : TxPhase} (hp : ∀ a, p.holds = some a → a = d) :
    Spares c s { s' with tx := p } ∧ s'.rx = s.rx := by
  cases h with
  | same _ h _ => exact ⟨h.only.spares hd ha fun a h => .inl (hp a h), h.rx⟩
  | answered _ _ _ h => exact ⟨h.only.spares hd ha fun a h => .inl (hp a h), h.rx⟩

/-- The worker has sent another command. -/
theorem txSent_spares (hs : Roster s) (ha : Away c s) (hd : d ≠ c) (hk : s.Knows d) :
    ensures (txSent d) (fun _ s' => Spares c s s' ∧ s'.rx = s.rx) s := by
  simp only [ensures, txSent, wp_bind, wp_getCmd]
  refine (wp_ite _ _ _).mpr ⟨fun _ => ?_, fun _ => ?_⟩
  · rw [wp_bind]
    refine ((ended_iscsiDoneI d).run s).mono fun ok s₁ h₁ => ?_
    have h₂ : Spares c s s₁ ∧ s₁.rx = s.rx :=
      ⟨h₁.spares hs hk hd ha, h₁.elim (fun h => h.rx) fun h => h.rx⟩
    exact (wp_ite _ _ _).mpr ⟨fun _ => Spares.releases (f := s₁.flags) h₂ rfl,
      fun _ => Spares.releases h₂ rfl⟩
  · simp only [wp_bind, wp_modifyCmd]
    exact ⟨Only.spares (Only.setCmd (c := d) rfl rfl) hd ha fun a h => (by cases h), rfl⟩

/-- The Tx worker spares a command that it does not hold. -/
theorem txWorkerProcI_spares (hs : Roster s) (ha : Away c s) :
    ensures txWorkerProcI (fun _ s' => Spares c s s' ∧ s'.rx = s.rx) s := by
  have here : Spares c s s ∧ s.rx = s.rx := ⟨ha.refl, rfl⟩
  simp only [ensures, txWorkerProcI, wp_bind, wp_get]
  cases ht : s.tx with
  | idle => exact txIdle_spares ha
  | taken d => exact txTaken_spares ha fun he => ha.unheld (by rw [ht, he]; rfl)
  | hashed d =>
    have hd : d ≠ c := fun he => ha.unheld (by rw [ht, he]; rfl)
    simp only [txHashed, wp_bind, wp_getCmd]
    refine (wp_ite _ _ _).mpr ⟨fun _ => Spares.releases (f := s.flags) here rfl, fun _ => ?_⟩
    simp only [wp_bind, wp_modifyCmd]
    exact ⟨Only.spares (Only.setCmd (c := d) rfl rfl) hd ha
      fun a h => .inl (Option.some.inj h).symm, rfl⟩
  | sending d =>
    have hd : d ≠ c := fun he => ha.unheld (by rw [ht, he]; rfl)
    rw [wp_bind]
    refine (execute_spec d s).mono fun ok s₁ h₁ => ?_
    refine (wp_ite _ _ _).mpr ⟨fun _ => sending_spares ha hd h₁ fun a h =>
      (Option.some.inj h).symm, fun _ => ?_⟩
    rw [wp_txFailure]
    have h₂ : Spares c s { s₁ with tx := .exited } ∧ s₁.rx = s.rx :=
      sending_spares ha hd h₁ fun a h => by cases h
    exact Spares.releases h₂ rfl
  | sent d =>
    exact txSent_spares hs ha (fun he => ha.unheld (by rw [ht, he]; rfl))
      (.inr (.inr (.inr (.inl (by rw [ht]; rfl)))))
  | exited => exact here

/-! ## The Rx worker -/

/-- The handler of a PDU for another command, or for none. -/
theorem rxHandle_spares (hs : Roster s) (ha : Away c s) {o : Option Nat} (ho : o ≠ some c)
    (hrx : s.rx.holds = o) (p : RxPdu) :
    ensures (rxHandle env cfg o p) (fun _ s' => Spares c s s') s := by
  rcases o with _ | d
  · exact (ensures_forall fun d => (same_handleAlone d p).run s).mono fun _ _ h =>
      spares_of_forall_same h ha
  · have hd : d ≠ c := fun he => ho (congrArg some he)
    have hk : s.Knows d := .inr (.inr (.inr (.inr hrx)))
    by_cases hop : iscsiOpcode p.header = opR2t
    · rw [rxHandle, handleFor_r2t env cfg d p hop]
      refine (scsiR2tRxI_spec d p s).mono fun ok s' h => ?_
      obtain ⟨hcount, hend⟩ := h
      have build := @Away.spares s s' c d ha hd hcount.issued
      have htx : ∀ a, s'.tx.holds = some a → a = d ∨ s.tx.holds = some a := fun a h =>
        .inr (hcount.tx ▸ h)
      cases hend with
      | refused hq hhash _ =>
        exact build (fun _ hm => .inr (hq ▸ hm)) htx hcount.other (.inl hcount.called)
          (by rw [hhash])
      | lost hq _ hhash _ _ _ _ _ _ =>
        exact build (fun _ hm => .inr (hq ▸ hm)) htx hcount.other (.inl hcount.called)
          (hs.listed_without hk hd hhash)
      | queued q _ _ _ _ hq _ hhash _ =>
        refine build (fun a hm => ?_) htx hcount.other (.inl hcount.called) ?_
        · rw [hq] at hm
          exact (List.mem_append.mp hm).symm.imp List.mem_singleton.mp id
        · split at hhash
          · exact hs.listed_without hk hd hhash
          · rw [hhash]
    · exact ((ended_handleFor d env cfg p hop).run s).mono fun _ _ h => h.spares hs hk hd ha

/-- The Rx worker makes a step that is not the handling of a PDU for the command. -/
theorem rxWorkerProcI_spares (hs : Roster s) (ha : Away c s) (inp : Option RxPdu)
    (hne : ∀ p, s.rx ≠ .handling (some c) p) :
    ensures (rxWorkerProcI env cfg inp) (fun _ s' => Spares c s s' ∧
      s'.rx.pduOf c = (s.rx.pduOf c).or (s.finds c (.rx inp))) s := by
  have goes : ∀ {t : Session}, Spares c s t → ∀ {f : Flags} {p : RxPhase},
      Spares c s { t with flags := f, rx := p } := fun ht => ht.after rfl fun _ h => h
  cases hr : s.rx with
  | idle =>
    simp only [ensures, rxWorkerProcI, wp_bind, wp_get, hr]
    rcases inp with _ | p
    · rw [wp_rxFailure]
      exact ⟨goes ha.refl, rfl⟩
    simp only [wp_bind, wp_get]
    refine (wp_ite _ _ _).mpr ⟨fun hx => ⟨goes (f := s.flags) ha.refl, ?_⟩, fun hx => ?_⟩
    · simp [RxPhase.pduOf, Session.finds, hx]
    unfold rxLookup
    cases hl : p.lookupTag with
    | none => exact ⟨goes (f := s.flags) ha.refl, by simp [RxPhase.pduOf, Session.finds, hl]⟩
    | some tag =>
      simp only [wp_bind, wp_hashLookup]
      cases hg : s.books.cmdHash.get tag with
      | none =>
        have hfinds : s.finds c (.rx (some p)) = none := by simp [Session.finds, hl, hg]
        refine (wp_ite _ _ _).mpr ⟨fun _ => ⟨goes (f := s.flags) ha.refl, ?_⟩, fun _ => ?_⟩
        · rw [hfinds]
          rfl
        · rw [wp_rxFailure]
          exact ⟨goes ha.refl, by rw [hfinds]; rfl⟩
      | some d =>
        refine ⟨goes (f := s.flags) ha.refl, ?_⟩
        simp [RxPhase.pduOf, Session.finds, hl, hg, hr, hx]
  | waiting d p =>
    have hfinds : s.finds c (.rx inp) = none := by
      cases inp <;> simp [Session.finds, hr]
    rw [hfinds]
    simp only [ensures, rxWorkerProcI, wp_bind, wp_get, hr, wp_getCmd]
    refine (wp_guarded _ _).mpr ⟨fun _ => ⟨goes (f := s.flags) ha.refl, ?_⟩,
      fun _ => ⟨ha.refl, ?_⟩⟩
    · simp [RxPhase.pduOf]
    · simp [RxPhase.pduOf, hr]
  | handling o p =>
    have ho : o ≠ some c := fun he => hne p (by rw [hr, he])
    have hfinds : s.finds c (.rx inp) = none := by
      cases inp <;> simp [Session.finds, hr]
    have hnone : (RxPhase.handling o p).pduOf c = none := if_neg ho
    rw [hfinds, hnone]
    simp only [ensures, rxWorkerProcI, wp_bind, wp_get, hr]
    refine (rxHandle_spares hs ha ho (by rw [hr]; rfl) p).mono fun ok s₁ h₁ => ?_
    refine (wp_ite _ _ _).mpr ⟨fun _ => ⟨goes (f := s₁.flags) h₁, rfl⟩, fun _ => ?_⟩
    rw [wp_rxFailure]
    exact ⟨goes h₁, rfl⟩
  | exited =>
    have hfinds : s.finds c (.rx inp) = none := by
      cases inp <;> simp [Session.finds, hr]
    rw [hfinds]
    simp only [ensures, rxWorkerProcI, wp_bind, wp_get, hr]
    exact ⟨ha.refl, by rw [hr]; rfl⟩

/-! ## All events -/

/-- An event that leaves the commands of the session to the workers. -/
def Lasting (c : Nat) (s : Session) : Event → Prop
  | .start _ => s.flags ≠ .zero
  | .abort d => d ≠ c
  | .destroy => s.stopped = false
  | _ => True

instance (c : Nat) (s : Session) : ∀ e, Decidable (Lasting c s e)
  | .start _ => inferInstanceAs (Decidable (_ ≠ _))
  | .abort d => inferInstanceAs (Decidable (d ≠ c))
  | .destroy => inferInstanceAs (Decidable (_ = _))
  | .fullFeature | .enqueue .. | .control .. | .tx | .rx _ | .fail | .stop => isTrue trivial

/-- Submitting another command. -/
theorem submit_spares (ha : Away c s) (hd : d ∉ s.books.issued) {t : InitiatorCmd} {v : Vars} :
    ensures (submit d t) (fun _ s' => Spares c s s' ∧ s'.rx = s.rx) (s.setVars v) := by
  refine (submit_spec d t _).mono fun _ s' h => ?_
  rcases h with rfl | h
  · exact ⟨ha.refl.after rfl fun _ h => h, rfl⟩
  · have hne : d ≠ c := fun he => hd (he ▸ ha.issued)
    refine ⟨⟨⟨?_, fun hm => ?_, fun hm => ha.unheld (h.tx ▸ hm)⟩, h.other c hne.symm, ?_, ?_⟩, h.rx⟩
    · rw [h.issued]
      exact List.mem_append_left _ ha.issued
    · rw [h.txQueue] at hm
      exact (List.mem_append.mp hm).elim ha.unqueued fun he => hne (List.mem_singleton.mp he).symm
    · rw [h.called]
      rfl
    · rw [h.cmdHash]
      rfl

/-- No event touches a command with which the Tx worker has done, but for the handling of a PDU for
it, and its abort. -/
theorem next_spares (hs : Roster s) (ha : Away c s) {e : Event} (ho : Offered s e)
    (hl : Lasting c s e) (hne : ∀ inp p, e = .rx inp → s.rx ≠ .handling (some c) p) :
    ensures (next env cfg e) (fun _ s' => Spares c s s' ∧
      s'.rx.pduOf c = (s.rx.pduOf c).or (s.finds c e)) s := by
  have still : ∀ {t : Session}, Spares c s t ∧ t.rx = s.rx →
      Spares c s t ∧ t.rx.pduOf c = (s.rx.pduOf c).or none := fun h =>
    ⟨h.1, by rw [h.2, Option.or_none]⟩
  have vars : ∀ {v : Vars} {f : Flags} {b : Bool},
      Spares c s { s with vars := v, flags := f, stopping := b } ∧ s.rx = s.rx :=
    ⟨ha.refl.after rfl fun _ h => h, rfl⟩
  cases e with
  | start params =>
    simp only [ensures, next, sessionInitI, wp_bind, wp_getFlags]
    exact (wp_ite _ _ _).mpr ⟨fun hz => absurd hz hl, fun _ => still ⟨ha.refl, rfl⟩⟩
  | fullFeature =>
    simp only [ensures, next, getFullFeature, wp_bind, wp_getFlags]
    exact (wp_ite _ _ _).mpr ⟨fun _ => still vars, fun _ => still ⟨ha.refl, rfl⟩⟩
  | enqueue d tag body ok =>
    exact (submit_spares (v := s.vars) ha ho.1).mono fun _ _ => still
  | control d tag body b =>
    simp only [ensures, next, submitControl, wp_bind, wp_getVars, wp_modifyVars, wp_getFlags]
    exact (wp_ite _ _ _).mpr ⟨fun _ => still vars, fun _ =>
      (submit_spares ha ho.2.1).mono fun _ _ => still⟩
  | tx => exact (txWorkerProcI_spares hs ha).mono fun _ _ => still
  | rx inp => exact rxWorkerProcI_spares hs ha inp fun p => hne inp p rfl
  | abort d =>
    rw [ensures, next, wp_bind]
    refine wp_mono (initiatorAbort_spec d s) (fun _ s' h => still ?_) fun _ _ _ => trivial
    obtain ⟨-, h⟩ := h
    refine ⟨ha.spares hl h.issued (fun a hm => .inr ?_) (fun _ hm => .inr (h.tx ▸ hm)) h.other
      (.inr h.called) (hs.listed_without (.inl ho) hl h.cmdHash), h.rx⟩
    rcases h.scanned with hp | ⟨x, -, hp⟩
    · exact hp.mem_iff.mpr hm
    · exact hp.mem_iff.mpr (List.mem_cons_of_mem _ hm)
  | fail =>
    rw [ensures, next, wp_setError]
    exact still vars
  | stop =>
    simp only [ensures, next, sessionStop, wp_bind, wp_getFlags]
    exact (wp_ite _ _ _).mpr ⟨fun _ => still vars, fun _ => still ⟨ha.refl, rfl⟩⟩
  | destroy =>
    simp only [ensures, next, sessionDestroy, wp_bind, wp_get]
    exact (wp_ite _ _ _).mpr ⟨fun h => absurd (hl.symm.trans h) Bool.false_ne_true,
      fun _ => still ⟨ha.refl, rfl⟩⟩

end Ost.Initiator
