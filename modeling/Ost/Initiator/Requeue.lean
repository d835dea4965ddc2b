import Ost.Initiator.Pending

/-!
# Recovering a session keeps its commands

`session_destroy_i` takes the commands of the queue and of the hash, and puts every one that is
not a login, text or logout command into the queue.  A command that is in both, because an R2T
waits for its answer, is queued twice.  In a run in which no session is recovered at such a
moment, recovery keeps every command, in one place, ready to be sent from the start.
-/

namespace Ost.Initiator

open Ost.Iscsi Ost.Util Ost.Param Ost.Prog

variable {Z : Body → Prop} {s s' : Session} {c : Nat} {env : Env} {cfg : TargetConfig}

/-! ## Submission and abort -/

/-- What submitting the command `c` does, if the queue has room. -/
structure Submitted (c : Nat) (t : InitiatorCmd) (s s' : Session) : Prop where
  txQueue : s'.books.txQueue.toList = s.books.txQueue.toList ++ [c]
  capacity : s'.books.txQueue.capacity = s.books.txQueue.capacity
  cmdHash : s'.books.cmdHash = s.books.cmdHash
  issued : s'.books.issued = s.books.issued ++ [c]
  called : s'.books.called = s.books.called
  tx : s'.tx = s.tx
  rx : s'.rx = s.rx
  accepted : s'.accepted = s.accepted
  answers : s'.answers = s.answers
  self : s'.books.mem c = t
  other : ∀ d, d ≠ c → s'.books.mem d = s.books.mem d

theorem submit_spec (c : Nat) (t : InitiatorCmd) (s : Session) :
    ensures (submit c t) (fun _ s' => s' = s ∨ Submitted c t s s') s := by
  simp only [ensures, submit, wp_bind]
  rw [wp_queueInsert]
  refine ⟨fun _ => .inl rfl, fun q hq => ?_⟩
  obtain ⟨hl, hcap⟩ := Fifo.insert_some hq
  refine (wp_ite _ _ _).mpr ⟨fun _ => ?_, fun hf => absurd rfl hf⟩
  simp only [wp_bind, wp_modifyCmd, wp_modify]
  refine .inr ⟨hl, hcap, rfl, rfl, rfl, rfl, rfl, rfl, rfl, Function.update_self _ _ _, ?_⟩
  exact fun d hd => Function.update_of_ne hd _ _

section Submitted

variable {t : InitiatorCmd}

theorem Submitted.has {d : Nat} (hs : Submitted c t s s') (hd : d ≠ c) (h : s'.Has d) :
    s.Has d := by
  rcases h with h | h | h | h
  · rw [hs.txQueue] at h
    exact .inl ((List.mem_append.mp h).resolve_right fun hm => hd (List.mem_singleton.mp hm))
  · exact .inr (.inl (hs.cmdHash ▸ h))
  · exact .inr (.inr (.inl (hs.tx ▸ h)))
  · exact .inr (.inr (.inr (hs.rx ▸ h)))

theorem Submitted.knows {d : Nat} (hs : Submitted c t s s') (hd : d ≠ c) (h : s'.Knows d) :
    s.Knows d := by
  refine h.imp (fun h => ?_) (hs.has hd)
  rw [Books.Live, hs.issued, hs.called] at h
  exact ⟨(List.mem_append.mp h.1).resolve_right fun hm => hd (List.mem_singleton.mp hm), h.2⟩

/-- The tag of the new command is free. -/
theorem Submitted.roster (hs : Submitted c t s s') (h : Roster s) (hc : c ∉ s.books.issued)
    (hfree : s.free t.tag) : Roster s' where
  keys e he := by
    rw [hs.cmdHash] at he
    have hne : e.2 ≠ c := fun hec =>
      hc (h.issued c (.inr (.inl (List.mem_map.mpr ⟨e, he, hec⟩))))
    rw [hs.other e.2 hne]
    exact h.keys e he
  capacity := hs.capacity.trans h.capacity
  issued d hd := by
    rw [hs.issued]
    rcases eq_or_ne d c with rfl | hdc
    · exact List.mem_append_right _ (List.mem_singleton_self d)
    · exact List.mem_append_left _ (h.issued d (hs.has hdc hd))
  tags a b ha hb hab := by
    have htag : ∀ d, s.Knows d → (s.books.mem d).tag ≠ t.tag := fun d hd =>
      hfree d (hd.elim And.left (h.issued d)) hd
    rcases eq_or_ne a c with rfl | hac <;> rcases eq_or_ne b a with rfl | hba
    · rfl
    · rw [hs.self, hs.other b hba] at hab
      exact absurd hab.symm (htag b (hs.knows hba hb))
    · rfl
    · rcases eq_or_ne b c with rfl | hbc
      · rw [hs.self, hs.other a hac] at hab
        exact absurd hab (htag a (hs.knows hac ha))
      · rw [hs.other a hac, hs.other b hbc] at hab
        exact h.tags a b (hs.knows hac ha) (hs.knows hbc hb) hab

/-- A new command is queued. -/
theorem Counted.submit (h : Counted Z s) (hs : Submitted c t s s') (hc : c ∉ s.books.issued)
    (hfree : s.free t.tag) (hr2t : t.r2tRequest = 0)
    (hfirst : t.body.type = .scsi → t.txDone = false ∧ Z t.body) : Counted Z s' := by
  have hnew : ¬s.Has c := fun hm => hc (h.roster.issued c hm)
  refine ⟨hs.roster h.roster hc hfree, fun d => ?_⟩
  rcases eq_or_ne d c with rfl | hdc
  · have hcopies : s'.copies d = 1 := by
      have hn : s.books.txQueue.toList.count d = 0 :=
        List.count_eq_zero.mpr fun hm => hnew (.inl hm)
      have hw : s.tx.works d = false := by
        rw [← Bool.not_eq_true, works_iff]
        rintro (ht | ht | ht) <;> exact hnew (.inr (.inr (.inl (by rw [ht]; rfl))))
      rw [Session.copies, hs.txQueue, hs.tx, hw, List.count_append, hn, List.count_singleton_self]
      rfl
    have hp : ¬(s'.books.mem d).pending := by
      rw [hs.self]
      exact fun hp => hp.2 hr2t
    constructor
    · rw [hcopies, bound_of_not_pending hp]
    · rintro - (hv | hv)
      · exact absurd (.inr (.inl (hs.cmdHash ▸ hv))) hnew
      · rw [hs.tx] at hv
        exact absurd (.inr (.inr (.inl (by rw [hv]; rfl)))) hnew
    · intro ht _ _
      rw [hs.self] at ht ⊢
      refine ⟨(hfirst ht).1, fun p hp => hnew ?_, (hfirst ht).2⟩
      rw [hs.rx] at hp
      exact .inr (.inr (.inr (by rw [hp]; rfl)))
  · have hm := hs.other d hdc
    refine (h.tally d).mono (by rw [hm]) (by rw [hm]) (by rw [hm]) ?_ (by rw [hs.tx]; exact id)
      (by rw [hs.tx]; exact id) (by rw [hs.tx, hs.cmdHash]; exact id) (fun p hr => hs.rx ▸ hr)
      fun _ _ _ _ => congrArg InitiatorCmd.body hm
    rw [hs.txQueue, List.count_append, List.count_eq_zero_of_not_mem fun hd =>
      hdc (List.mem_singleton.mp hd)]
    exact le_refl _

end Submitted

/-- A command is aborted. -/
theorem Counted.abort (h : Counted Z s) (ha : Aborted c s s') : Counted Z s' := by
  have hkey : ∀ {β : Type} (f : CmdKey → β), (∀ k : CmdKey, f { k with aborted := true } = f k) →
      ∀ d, f (s'.books.mem d).key = f (s.books.mem d).key := by
    intro β f hf d
    by_cases hd : d = c
    · rw [hd, ha.key, hf]
    · rw [ha.other d hd]
  refine h.mono ?_ ha.capacity ha.issued (by simp +contextual [ha.called]) ?_ (.inl ha.tx)
    (fun d hd => .inr (.inr (.inr (ha.rx ▸ hd)))) (fun d p hp => ha.rx ▸ hp)
    (hkey CmdKey.type fun _ => rfl) (hkey CmdKey.tag fun _ => rfl)
    (hkey CmdKey.r2tRequest fun _ => rfl) (hkey CmdKey.txDone fun _ => rfl) fun d _ _ _ _ => ?_
  · intro e he
    rw [ha.cmdHash] at he
    exact TagHash.entries_without_subset he
  · intro d
    rcases ha.scanned with hp | ⟨x, -, hp⟩ <;> rw [hp.count_eq]
    rw [List.count_cons]
    exact Nat.le_add_right _ _
  · by_cases hd : d = c
    · rw [hd]
      exact ha.body
    · rw [ha.other d hd]

/-! ## Recovery -/

/-- The hash has a command once. -/
theorem Roster.nodup_values (h : Roster s) : s.books.cmdHash.values.Nodup := by
  have hk := s.books.cmdHash.nodup_keys
  have hmap : s.books.cmdHash.entries.map (·.1) =
      s.books.cmdHash.values.map fun d => (s.books.mem d).tag := by
    rw [TagHash.values, List.map_map]
    exact List.map_congr_left h.keys
  rw [hmap] at hk
  exact hk.of_map _

/-- A command that is not queued for an R2T is in one place. -/
theorem Counted.present_le (h : Counted Z s)
    (hc : c ∈ s.books.txQueue.toList → (s.books.mem c).r2tRequest = 0) :
    s.books.present.count c ≤ 1 := by
  have hv := List.nodup_iff_count_le_one.mp h.roster.nodup_values c
  rw [Books.present, Multiset.count_add, Multiset.coe_count, Multiset.coe_count]
  by_cases hq : c ∈ s.books.txQueue.toList
  · have hp : ¬(s.books.mem c).pending := fun hp => hp.2 (hc hq)
    have hcount := (h.tally c).count
    rw [bound_of_not_pending hp, Session.copies] at hcount
    have hn : c ∉ s.books.cmdHash.values := fun hm => ((h.tally c).quiet hp (.inl hm)).1 hq
    rw [List.count_eq_zero_of_not_mem hn]
    omega
  · rw [List.count_eq_zero_of_not_mem hq]
    omega

theorem Session.has_of_present (h : c ∈ s.books.present) : s.Has c :=
  (Multiset.mem_add.mp h).elim .inl fun h => .inr (.inl h)

/-- The commands of the queue and the hash are what the loops of `session_destroy_i` rely on. -/
theorem Counted.settled (h : Counted Z s) : s.books.Settled where
  keys := h.roster.keys
  tags c d hc hd := h.roster.tags c d (.inr (Session.has_of_present hc))
    (.inr (Session.has_of_present hd))
  once c hc := by
    have hp : ¬(s.books.mem c).pending := by
      rintro ⟨ht, -⟩
      rw [Books.control, Body.isControl, ht] at hc
      cases hc
    have hcount := (h.tally c).count
    rw [bound_of_not_pending hp, Session.copies] at hcount
    have hv := List.nodup_iff_count_le_one.mp h.roster.nodup_values c
    rw [Books.present, Multiset.count_add, Multiset.coe_count, Multiset.coe_count]
    by_cases hm : c ∈ s.books.cmdHash.values
    · rw [List.count_eq_zero_of_not_mem ((h.tally c).quiet hp (.inl hm)).1]
      omega
    · rw [List.count_eq_zero_of_not_mem hm]
      omega
  capacity := h.roster.capacity

/-- A command that recovery leaves in the queue was outstanding and has been reset, or was waiting
without an R2T. -/
theorem Counted.requeued (h : Counted Z s)
    (hq : ∀ c ∈ s.books.txQueue.toList, (s.books.mem c).r2tRequest = 0) {ctl lost : List Nat}
    (hd : Draining s.books [] ctl lost s s') (hm : c ∈ s'.books.txQueue.toList)
    (hctl : ¬s.books.control c) : s'.books.mem c = (s.books.mem c).reset ∨
      s'.books.mem c = s.books.mem c ∧ c ∈ s.books.txQueue.toList := by
  have hn : c ∉ s'.books.cmdHash.values := by
    have hone := h.present_le (hq c)
    have hpos := List.count_pos_iff.mpr hm
    rw [← hd.jobs] at hone
    simp only [Books.present, Multiset.count_add, Multiset.coe_count] at hone
    exact List.count_eq_zero.mp (by omega)
  have hmem := hd.mem c hctl
  by_cases hv : c ∈ s.books.cmdHash.values
  · exact .inl (by rw [hmem, if_pos ⟨hv, hn⟩])
  · refine .inr ⟨by rw [hmem, if_neg fun hm => hv hm.1], ?_⟩
    exact (Multiset.mem_add.mp
      (hd.mem_present (.inl (Multiset.mem_add.mpr (.inl hm))))).resolve_right hv

theorem one_le_bound (t : InitiatorCmd) : 1 ≤ t.bound := by
  unfold InitiatorCmd.bound
  split
  · rename_i hp
    exact Nat.pos_of_ne_zero hp.2
  · exact le_refl _

/-- `session_destroy_i` has moved the commands, or has failed on the way. -/
theorem Counted.drained (h : Counted Z s) (hZ : ∀ b : Body, Z b.reset)
    (htx : s.tx = .exited) (hrx : s.rx = .exited)
    (hq : ∀ c ∈ s.books.txQueue.toList, (s.books.mem c).r2tRequest = 0) {ctl lost : List Nat}
    (hd : Draining s.books [] ctl lost s s') {f : Flags} :
    Counted Z { s' with flags := f } := by
  have htx' : s'.tx = .exited := hd.tx.trans htx
  have hrx' : s'.rx = .exited := hd.rx.trans hrx
  have hold : ∀ d, s'.books.txQueue.toList.count d + s'.books.cmdHash.values.count d ≤ 1 := by
    intro d
    have hone := h.present_le (hq d)
    rw [← hd.jobs] at hone
    simp only [Books.present, Multiset.count_add, Multiset.coe_count] at hone
    omega
  have hcopies : ∀ d, ({ s' with flags := f } : Session).copies d =
      s'.books.txQueue.toList.count d := fun d => by
    simp only [Session.copies, htx', TxPhase.works]
    rfl
  refine ⟨h.roster.mono hd.entries hd.capacity hd.issued (fun d hm => ?_) ?_ hd.tag, fun d => ?_⟩
  · exact hd.called ▸ List.mem_append_left _ hm
  · rintro d (hm | hm | hm | hm)
    · exact Session.has_of_present (hd.mem_present (.inl (Multiset.mem_add.mpr (.inl hm))))
    · exact Session.has_of_present (hd.mem_present (.inl (Multiset.mem_add.mpr (.inr hm))))
    · exact .inr (.inr (.inl (hd.tx ▸ hm)))
    · exact .inr (.inr (.inr (hd.rx ▸ hm)))
  · have hone := hold d
    constructor
    · rw [hcopies]
      exact (show _ ≤ 1 by omega).trans (one_le_bound _)
    · intro _ hv
      have hv : d ∈ s'.books.cmdHash.values := hv.resolve_right (by simp [htx'])
      have := List.count_pos_iff.mpr hv
      exact ⟨List.count_eq_zero.mp (show s'.books.txQueue.toList.count d = 0 by omega),
        by simp [htx']⟩
    · intro ht hp hpos
      rw [hcopies] at hpos
      have ht' : (s.books.mem d).body.type = .scsi := (hd.type d).symm.trans ht
      have hctl : ¬s.books.control d := fun hc => by
        rw [Books.control, Body.isControl, ht'] at hc
        cases hc
      change (s'.books.mem d).txDone = false ∧ _ ∧ Z (s'.books.mem d).body
      rcases h.requeued hq hd (List.count_pos_iff.mp hpos) hctl with hmem | ⟨hmem, hmq⟩ <;>
        rw [hmem]
      · exact ⟨rfl, by simp [hrx'], hZ _⟩
      · have hnp : ¬(s.books.mem d).pending := fun hp => hp.2 (hq d hmq)
        have hpos' : 0 < s.copies d := by
          have := List.count_pos_iff.mpr hmq
          rw [Session.copies]
          omega
        obtain ⟨h₁, -, h₃⟩ := (h.tally d).first ht' hnp hpos'
        exact ⟨h₁, by simp [hrx'], h₃⟩

/-! ## Runs -/

/-- Every event keeps the invariant. -/
theorem next_counted (hZ : ∀ b : Body, Z b.reset) (h : Counted Z s) {e : Event}
    (ho : Settling Z s e) : ensures (next env cfg e) (fun _ s' => Counted Z s') s := by
  cases e with
  | start params =>
    simp only [ensures, next, sessionInitI, wp_bind, wp_getFlags]
    refine (wp_ite _ _ _).mpr ⟨fun _ => ?_, fun _ => h⟩
    simp only [wp_bind, wp_modifyFlags, wp_modifyVars, wp_modify]
    have h₁ : Counted Z { s with rx := .idle } :=
      h.setRx (f := s.flags) (fun d hd => by cases hd) fun d q he => by cases he
    exact (h₁.setTx (f := s.flags) (.inl rfl)).setVars
  | fullFeature =>
    simp only [ensures, next, getFullFeature, wp_bind, wp_getFlags]
    exact (wp_ite _ _ _).mpr ⟨fun _ => h.setVars, fun _ => h⟩
  | enqueue c tag body ok =>
    obtain ⟨⟨hc, hfree⟩, hbody⟩ := ho
    refine (submit_spec c (freshCmd tag body ok) s).mono fun _ s' hs => ?_
    rcases hs with rfl | hs
    · exact h
    · exact h.submit hs hc hfree rfl fun ht => ⟨rfl, hbody ht⟩
  | control c tag body d =>
    obtain ⟨⟨hctl, hc, hfree⟩, -⟩ := ho
    simp only [ensures, next, submitControl, wp_bind, wp_getVars, wp_modifyVars, wp_getFlags]
    have hvars : Counted Z (s.setVars (s.vars.numbering body)) :=
      h.setVars (f := s.flags) (b := s.stopping)
    refine (wp_ite _ _ _).mpr ⟨fun _ => hvars, fun _ => ?_⟩
    refine (submit_spec c _ _).mono fun _ s' hs => ?_
    rcases hs with rfl | hs
    · exact hvars
    · refine hvars.submit hs hc (by cases body <;> exact hfree) rfl fun ht => ?_
      have ht : body.type = .scsi := (type_numbered s.vars body).symm.trans ht
      rw [Body.isControl, ht] at hctl
      cases hctl
  | tx => exact txWorkerProcI_counted h
  | rx inp => exact rxWorkerProcI_counted h inp
  | abort c =>
    rw [ensures, next, wp_bind]
    exact wp_mono (initiatorAbort_spec c s) (fun _ _ ha => h.abort ha.2) fun _ _ _ => trivial
  | fail =>
    rw [ensures, next, wp_setError]
    exact h.setVars (v := s.vars)
  | stop =>
    simp only [ensures, next, sessionStop, wp_bind, wp_getFlags]
    exact (wp_ite _ _ _).mpr ⟨fun _ => h.setVars (v := s.vars), fun _ => h⟩
  | destroy =>
    simp only [ensures, next, sessionDestroy, wp_bind, wp_get]
    refine (wp_ite _ _ _).mpr ⟨fun hst => ?_, fun _ => h⟩
    obtain ⟨htx, hrx⟩ : s.tx = .exited ∧ s.rx = .exited := by
      simp only [Session.stopped, Bool.and_eq_true, beq_iff_eq] at hst
      exact ⟨hst.1.2, hst.2⟩
    have h₁ : Counted Z { s with stopping := false, accepted := [], answers := [] } :=
      h.setVars (v := s.vars) (f := s.flags)
    simp only [wp_bind, wp_modify]
    refine wp_mono (sessionDestroyI_spec h₁.settled) ?_ fun _ _ _ => trivial
    rintro rc s' (⟨-, ctl, hd⟩ | ⟨-, -, ctl, lost, hd⟩)
    · exact h₁.drained hZ htx hrx (ho.2 hst) hd.draining (f := s'.flags)
    · exact h₁.drained hZ htx hrx (ho.2 hst) hd (f := s'.flags)

/-- A session that has not been started has no commands. -/
theorem Fresh.counted (h : Fresh s) : Counted Z s := by
  have hhas : ∀ d, ¬s.Has d := by
    rintro d (hd | hd | hd | hd)
    · simp [h.txQueue] at hd
    · simp [h.cmdHash, TagHash.values] at hd
    · simp [h.tx, TxPhase.holds] at hd
    · simp [h.rx, RxPhase.holds] at hd
  have hcopies : ∀ d, s.copies d = 0 := fun d => by
    simp [Session.copies, h.txQueue, h.tx, TxPhase.works]
  refine ⟨⟨by simp [h.cmdHash], by rw [h.txQueue]; rfl, fun d hd => absurd hd (hhas d), ?_⟩,
    fun d => ⟨?_, ?_, ?_⟩⟩
  · rintro a b (ha | ha)
    · rw [Books.Live, h.issued] at ha
      exact absurd ha.1 List.not_mem_nil
    · exact absurd ha (hhas a)
  · rw [hcopies]
    exact Nat.zero_le _
  · simp [h.txQueue, h.tx]
  · intro _ _ hpos
    rw [hcopies] at hpos
    exact absurd hpos (lt_irrefl _)

theorem counted_of_reach (hZ : ∀ b : Body, Z b.reset) {s₀ : Session} (h₀ : Fresh s₀)
    (h : Reach (next env cfg) (Settling Z) s₀ s) : Counted Z s :=
  h.invariant h₀.counted fun _ _ hs ho => next_counted hZ hs ho

/-! ## The commands after recovery -/

/-- The transfer counters of a SCSI command are zero. -/
def Body.IsReset : Body → Prop
  | .scsi q => q.bytesTodev = 0 ∧ q.bytesFromdev = 0
  | _ => True

instance : DecidablePred Body.IsReset := fun b => by
  unfold Body.IsReset
  split <;> infer_instance

theorem Body.isReset_reset (b : Body) : b.reset.IsReset := by
  cases b <;> simp [Body.reset, Body.IsReset]

end Ost.Initiator
