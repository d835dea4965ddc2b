import Ost.Initiator.Moves
import Mathlib.Data.Multiset.AddSub
import Mathlib.Data.Multiset.Count

/-!
# Draining a session

What `session_destroy_i` does with the commands of a session whose workers have stopped.
Its three loops move each command once: a login, text or logout command to its callback, and
any other command to the tx queue.  `Draining` is the invariant of all three.
-/

namespace Ost.Initiator

open Ost.Iscsi Ost.Util Ost.Param Ost.Prog

/-- The commands in the queue and in the hash. -/
def Books.present (b : Books) : Multiset Nat :=
  (b.txQueue.toList : Multiset Nat) + (b.cmdHash.values : Multiset Nat)

/-- A login, text or logout command. -/
def Books.control (b : Books) (c : Nat) : Prop := (b.mem c).body.isControl = true

instance (b : Books) : DecidablePred b.control := fun c =>
  inferInstanceAs (Decidable ((b.mem c).body.isControl = true))

/-- What the loops rely on. -/
structure Books.Settled (b : Books) : Prop where
  keys : ∀ e ∈ b.cmdHash.entries, e.1 = (b.mem e.2).tag
  tags : ∀ c d, c ∈ b.present → d ∈ b.present → (b.mem c).tag = (b.mem d).tag → c = d
  once : ∀ c, b.control c → b.present.count c ≤ 1
  capacity : b.txQueue.capacity = configInitiatorQueueDepth

/-- How far the loops have got: `tmp` is the local queue, `ctl` lists the commands whose callback
has been run, and `lost` those that an error has left nowhere. -/
structure Draining (b : Books) (tmp ctl lost : List Nat) (s s' : Session) : Prop where
  jobs : s'.books.present + (tmp : Multiset Nat) + (ctl : Multiset Nat) + (lost : Multiset Nat) =
    b.present
  called : s'.books.called = b.called ++ ctl
  control : ∀ c ∈ ctl, b.control c
  entries : ∀ e ∈ s'.books.cmdHash.entries, e ∈ b.cmdHash.entries
  n : s'.books.cmdHash.n = b.cmdHash.n
  capacity : s'.books.txQueue.capacity = b.txQueue.capacity
  type : ∀ d, (s'.books.mem d).body.type = (b.mem d).body.type
  tag : ∀ d, (s'.books.mem d).tag = (b.mem d).tag
  callbackOk : ∀ d, (s'.books.mem d).callbackOk = (b.mem d).callbackOk
  mem : ∀ d, ¬b.control d → s'.books.mem d =
    if d ∈ b.cmdHash.values ∧ d ∉ s'.books.cmdHash.values then (b.mem d).reset else b.mem d
  away : ∀ d, d ∉ b.present → s'.books.mem d = b.mem d
  issued : s'.books.issued = b.issued
  tx : s'.tx = s.tx
  rx : s'.rx = s.rx
  stopping : s'.stopping = s.stopping
  started : s'.flags.started = s.flags.started
  accepted : s'.accepted = s.accepted
  answers : s'.answers = s.answers
  aborted : ∀ c ∈ ctl, (s'.books.mem c).aborted = true
  dropped : ∀ d, (s'.books.mem d).aborted = true → d ∈ ctl ∨ (b.mem d).aborted = true

variable {b : Books} {tmp ctl lost : List Nat} {s₀ s s' : Session}

namespace Draining

theorem refl (s : Session) : Draining s.books [] [] [] s s := by
  constructor <;> intros
  all_goals first | rfl | assumption | simp_all

/-- The order of the local queue does not matter. -/
theorem perm {tmp' : List Nat} (h : Draining b tmp ctl lost s₀ s) (hp : tmp.Perm tmp') :
    Draining b tmp' ctl lost s₀ s :=
  { h with jobs := by rw [← h.jobs, Multiset.coe_eq_coe.mpr hp] }

/-- An error leaves the commands of the local queue nowhere. -/
theorem lose (h : Draining b tmp ctl lost s₀ s) : Draining b [] ctl (tmp ++ lost) s₀ s := by
  refine { h with jobs := ?_ }
  rw [← h.jobs]
  ext a
  simp only [Multiset.count_add, Multiset.coe_count, List.count_append, List.count_nil]
  omega

/-- A command is taken out of the queue. -/
theorem pop (h : Draining b tmp ctl lost s₀ s) {c : Nat} {q : Fifo Nat}
    (hq : s.books.txQueue.remove = some (c, q)) :
    Draining b (c :: tmp) ctl lost s₀ (s.setBooks { s.books with txQueue := q }) := by
  obtain ⟨hl, hcap⟩ := Fifo.remove_some hq
  refine { h with jobs := ?_, capacity := hcap.trans h.capacity }
  rw [← h.jobs]
  ext a
  simp only [Books.present, Session.setBooks, Multiset.count_add, Multiset.coe_count, hl,
    List.count_cons]
  omega

/-- A command is put into the queue. -/
theorem push {c : Nat} (h : Draining b (c :: tmp) ctl lost s₀ s) {q : Fifo Nat}
    (hq : s.books.txQueue.insert c = some q) :
    Draining b tmp ctl lost s₀ (s.setBooks { s.books with txQueue := q }) := by
  obtain ⟨hl, hcap⟩ := Fifo.insert_some hq
  refine { h with jobs := ?_, capacity := hcap.trans h.capacity }
  rw [← h.jobs]
  ext a
  simp only [Books.present, Session.setBooks, Multiset.count_add, Multiset.coe_count, hl,
    List.count_cons, List.count_append, List.count_nil]
  omega

/-- The commands that are in hand have been taken from the queue or the hash. -/
theorem mem_present (h : Draining b tmp ctl lost s₀ s) {c : Nat}
    (hc : c ∈ s.books.present ∨ c ∈ tmp) : c ∈ b.present := by
  rw [← h.jobs]
  simp only [Multiset.mem_add, Multiset.mem_coe]
  tauto

/-- A control command in hand is neither in the queue nor in the hash. -/
theorem notMem_present {c : Nat} (hb : b.Settled) (h : Draining b (c :: tmp) ctl lost s₀ s)
    (hc : b.control c) : c ∉ s.books.present := by
  refine Multiset.count_eq_zero.mp ?_
  have h₁ := hb.once c hc
  rw [← h.jobs] at h₁
  simp only [Multiset.count_add, Multiset.coe_count, List.count_cons_self] at h₁
  omega

/-- Aborting it finds nothing in either. -/
theorem abort_places {c : Nat} (hb : b.Settled) (h : Draining b (c :: tmp) ctl lost s₀ s)
    (hc : b.control c) (ha : Aborted c s s') : s'.books.cmdHash = s.books.cmdHash ∧
      s.books.txQueue.toList.Perm s'.books.txQueue.toList := by
  have hcs := h.notMem_present hb hc
  have hcb : c ∈ b.present := h.mem_present (.inr List.mem_cons_self)
  have htag : ∀ a, a ∈ s.books.present → (s.books.mem a).tag ≠ (s.books.mem c).tag := by
    intro a hm ht
    rw [h.tag, h.tag] at ht
    exact hcs (hb.tags a c (h.mem_present (.inl hm)) hcb ht ▸ hm)
  constructor
  · rw [ha.cmdHash]
    refine TagHash.without_eq_self fun a hm => ?_
    have hk := hb.keys _ (h.entries _ hm)
    refine htag a ?_ (by rw [h.tag]; exact hk.symm)
    exact Multiset.mem_add.mpr (.inr (Multiset.mem_coe.mpr (List.mem_map_of_mem hm)))
  · rcases ha.scanned with hp | ⟨x, hx, hp⟩
    · exact hp
    · have hm : x ∈ s.books.txQueue.toList := hp.mem_iff.mpr List.mem_cons_self
      exact absurd hx (htag x (Multiset.mem_add.mpr (.inl (Multiset.mem_coe.mpr hm))))

/-- A control command in hand is aborted. -/
theorem abort {c : Nat} (hb : b.Settled) (h : Draining b (c :: tmp) ctl lost s₀ s)
    (hc : b.control c) (ha : Aborted c s s') : Draining b tmp (ctl ++ [c]) lost s₀ s' := by
  obtain ⟨hhash, hqueue⟩ := h.abort_places hb hc ha
  have hcb : c ∈ b.present := h.mem_present (.inr List.mem_cons_self)
  constructor
  · rw [← h.jobs]
    ext a
    have := hqueue.count_eq a
    simp only [Books.present, hhash, Multiset.count_add, Multiset.coe_count, List.count_cons,
      List.count_append, List.count_nil, this]
    omega
  · rw [ha.called, h.called, List.append_assoc]
  · intro d hd
    rcases List.mem_append.mp hd with hd | hd
    · exact h.control d hd
    · rw [List.mem_singleton.mp hd]
      exact hc
  · rw [hhash]
    exact h.entries
  · rw [hhash]
    exact h.n
  · exact ha.capacity.trans h.capacity
  · intro d
    rw [← h.type d]
    by_cases hd : d = c
    · rw [hd]
      exact congrArg CmdKey.type ha.key
    · rw [ha.other d hd]
  · intro d
    rw [← h.tag d]
    by_cases hd : d = c
    · rw [hd]
      exact congrArg CmdKey.tag ha.key
    · rw [ha.other d hd]
  · intro d
    rw [← h.callbackOk d]
    by_cases hd : d = c
    · rw [hd]
      exact congrArg CmdKey.callbackOk ha.key
    · rw [ha.other d hd]
  · intro d hd
    rw [ha.other d (fun he => hd (he ▸ hc)), hhash]
    exact h.mem d hd
  · intro d hd
    rw [ha.other d (fun he => hd (he ▸ hcb))]
    exact h.away d hd
  · exact ha.issued.trans h.issued
  · exact ha.tx.trans h.tx
  · exact ha.rx.trans h.rx
  · exact ha.stopping.trans h.stopping
  · exact ha.started.trans h.started
  · exact ha.accepted.trans h.accepted
  · exact ha.answers.trans h.answers
  · intro d hd
    by_cases hdc : d = c
    · rw [hdc]
      exact congrArg CmdKey.aborted ha.key
    · rw [ha.other d hdc]
      refine h.aborted d ((List.mem_append.mp hd).resolve_right fun hm => ?_)
      exact hdc (List.mem_singleton.mp hm)
  · intro d hd
    by_cases hdc : d = c
    · exact .inl (List.mem_append_right _ (List.mem_singleton.mpr hdc))
    · rw [ha.other d hdc] at hd
      exact (h.dropped d hd).imp_left (List.mem_append_left _)

/-- The hash has lost its first command, which was there once. -/
theorem popHash_values (h : Draining b tmp ctl lost s₀ s) (hb : b.Settled) {c : Nat}
    {t : TagHash Nat} (ht : s.books.cmdHash.removeHead = some (c, t)) :
    s.books.cmdHash.values.Perm (c :: t.values) ∧ c ∉ t.values ∧ c ∈ b.cmdHash.values := by
  obtain ⟨⟨k, hp⟩, -⟩ := TagHash.removeHead_some ht
  have hhead := h.entries _ (hp.mem_iff.mpr List.mem_cons_self)
  refine ⟨by simpa [TagHash.values] using hp.map (·.2), fun hm => ?_,
    List.mem_map.mpr ⟨(k, c), hhead, rfl⟩⟩
  have hnd := s.books.cmdHash.nodup_keys
  rw [(hp.map (·.1)).nodup_iff, List.map_cons, List.nodup_cons] at hnd
  obtain ⟨⟨k', c'⟩, he, rfl⟩ := List.mem_map.mp hm
  have hk := hb.keys _ hhead
  have hk' := hb.keys _ (h.entries _ (hp.mem_iff.mpr (List.mem_cons_of_mem _ he)))
  exact hnd.1 (List.mem_map.mpr ⟨_, he, hk'.trans hk.symm⟩)

section Resets

variable {c d : Nat} {m mem : Nat → InitiatorCmd}

/-- The other commands stay as they are. -/
theorem resets_other (hm : m = if b.control c then mem else
    Function.update mem c (mem c).reset) (hd : d ≠ c) : m d = mem d := by
  rw [hm]
  split
  · rfl
  · exact Function.update_of_ne hd _ _

/-- So does what `reset` does not touch. -/
theorem resets_keeps (hm : m = if b.control c then mem else
    Function.update mem c (mem c).reset) {β : Type} (f : InitiatorCmd → β)
    (hf : ∀ x, f (InitiatorCmd.reset x) = f x) (d : Nat) : f (m d) = f (mem d) := by
  by_cases hd : d = c
  · rw [hm, hd]
    split
    · rfl
    · rw [Function.update_self, hf]
  · rw [resets_other hm hd]

/-- A command that has been reset has not been aborted. -/
theorem resets_aborted (hm : m = if b.control c then mem else
    Function.update mem c (mem c).reset) (hd : (m d).aborted = true) :
    (mem d).aborted = true := by
  by_cases hdc : d = c
  · rw [hm, hdc] at hd
    split at hd
    · exact hdc ▸ hd
    · rw [Function.update_self] at hd
      cases hd
  · rwa [resets_other hm hdc] at hd

end Resets

theorem reset_type (x : InitiatorCmd) : x.reset.body.type = x.body.type := by
  unfold InitiatorCmd.reset Body.reset
  split <;> simp_all [Body.type]

/-- The first command of the hash is taken out, and reset unless it is to be aborted. -/
theorem popHash (h : Draining b tmp ctl lost s₀ s) (hb : b.Settled) {c : Nat} {t : TagHash Nat}
    (ht : s.books.cmdHash.removeHead = some (c, t)) {m : Nat → InitiatorCmd}
    (hm : m = if b.control c then s.books.mem
      else Function.update s.books.mem c (s.books.mem c).reset) :
    Draining b (c :: tmp) ctl lost s₀
      (s.setBooks { s.books with cmdHash := t, mem := m }) := by
  obtain ⟨hpv, hct, hcb⟩ := h.popHash_values hb ht
  obtain ⟨⟨k, hp⟩, hn⟩ := TagHash.removeHead_some ht
  have hcs : c ∈ s.books.cmdHash.values := hpv.mem_iff.mpr List.mem_cons_self
  constructor
  · rw [← h.jobs]
    ext a
    have := hpv.count_eq a
    simp only [Books.present, Session.setBooks, Multiset.count_add, Multiset.coe_count, this,
      List.count_cons]
    omega
  · exact h.called
  · exact h.control
  · exact fun e he => h.entries e (hp.mem_iff.mpr (List.mem_cons_of_mem _ he))
  · exact hn.trans h.n
  · exact h.capacity
  · exact fun d => (resets_keeps hm (fun x => x.body.type) reset_type d).trans (h.type d)
  · exact fun d => (resets_keeps hm (fun x => x.tag) (fun _ => rfl) d).trans (h.tag d)
  · exact fun d =>
      (resets_keeps hm (fun x => x.callbackOk) (fun _ => rfl) d).trans (h.callbackOk d)
  · intro d hd
    have hmd := h.mem d hd
    by_cases hdc : d = c
    · subst hdc
      simp only [hcs, hcb, not_true_eq_false, and_false, if_false] at hmd
      simp [Session.setBooks, hm, hd, hcb, hct, hmd]
    · simp only [Session.setBooks, resets_other hm hdc]
      have hdt : d ∈ s.books.cmdHash.values ↔ d ∈ t.values := by
        rw [hpv.mem_iff, List.mem_cons]
        exact or_iff_right hdc
      exact hmd.trans (if_congr (by rw [hdt]) rfl rfl)
  · intro d hd
    have hdc : d ≠ c := fun he => hd (he ▸ Multiset.mem_add.mpr (.inr (Multiset.mem_coe.mpr hcb)))
    simp only [Session.setBooks, resets_other hm hdc]
    exact h.away d hd
  · exact h.issued
  · exact h.tx
  · exact h.rx
  · exact h.stopping
  · exact h.started
  · exact h.accepted
  · exact h.answers
  · intro d hd
    have hm : m d = s.books.mem d := by
      by_cases hdc : d = c
      · rw [hm, if_pos (hdc ▸ h.control d hd)]
      · exact resets_other hm hdc
    exact (congrArg InitiatorCmd.aborted hm).trans (h.aborted d hd)
  · exact fun d hd => h.dropped d (resets_aborted hm hd)

end Draining

/-! ## The loops -/

section Loops

variable (b s₀)

/-- Why the loops may fail: the callback of a control command does, or there are more other
commands than places. -/
def Books.Fails : Prop :=
  (∃ c ∈ b.present, b.control c ∧ (b.mem c).callbackOk = false) ∨
    configInitiatorQueueDepth < b.present.countP fun c => ¬b.control c

instance : Decidable b.Fails :=
  have : Decidable (∃ c ∈ b.present, b.control c ∧ (b.mem c).callbackOk = false) :=
    decidable_of_iff (∃ c ∈ b.txQueue.toList ++ b.cmdHash.values,
      b.control c ∧ (b.mem c).callbackOk = false) (by simp [Books.present])
  inferInstanceAs (Decidable (_ ∨ _))

variable {b s₀}

theorem control_iff (h : Draining b tmp ctl lost s₀ s) (c : Nat) :
    (s.books.mem c).body.isControl = true ↔ b.control c := by
  rw [Books.control, Body.isControl, Body.isControl, h.type]

/-- Abort a control command in hand. -/
theorem Draining.abort_wp {c : Nat} (h : Draining b (c :: tmp) ctl lost s₀ s) (hb : b.Settled)
    (hc : b.control c) : wp (initiatorAbort c) (fun ok s' =>
      Draining b tmp (ctl ++ [c]) lost s₀ s' ∧ s'.books.cmdHash = s.books.cmdHash ∧
        s.books.txQueue.toList.Perm s'.books.txQueue.toList ∧ (ok = false → b.Fails))
      (fun _ _ => False) s := by
  refine wp_mono (initiatorAbort_spec c s) ?_ fun _ _ => id
  rintro ok s' ⟨hok, ha⟩
  obtain ⟨hhash, hqueue⟩ := h.abort_places hb hc ha
  refine ⟨h.abort hb hc ha, hhash, hqueue, fun hf => .inl ⟨c, ?_, hc, ?_⟩⟩
  · exact h.mem_present (.inr List.mem_cons_self)
  · rw [← h.callbackOk, ← hok, hf]

/-- The first loop. -/
theorem drainQueue_spec (hb : b.Settled) {n : Nat} {tmp : Fifo Nat}
    (h : Draining b tmp.toList ctl [] s₀ s) (hn : s.books.txQueue.toList.length < n)
    (hhash : s.books.cmdHash = b.cmdHash) (hcap : tmp.capacity = configInitiatorQueueDepth)
    (htmp : ∀ c ∈ tmp.toList, ¬b.control c) :
    wp (drainQueue n tmp) (fun res s' => match res with
      | none => b.Fails ∧ ∃ ctl lost, Draining b [] ctl lost s₀ s'
      | some tmp => s'.books.cmdHash = b.cmdHash ∧ s'.books.txQueue.toList = [] ∧
          (∀ c ∈ tmp.toList, ¬b.control c) ∧ ∃ ctl, Draining b tmp.toList ctl [] s₀ s')
      (fun _ _ => False) s := by
  induction n generalizing s tmp ctl with
  | zero => exact absurd hn (Nat.not_lt_zero _)
  | succ n ih =>
    simp only [drainQueue, wp_bind]
    rw [wp_queueRemove]
    refine ⟨fun hr => ?_, fun c q hr => ?_⟩
    · exact ⟨hhash, Fifo.remove_none hr, htmp, ctl, h⟩
    have hpop := h.pop hr
    obtain ⟨hl, -⟩ := Fifo.remove_some hr
    set s₁ := s.setBooks { s.books with txQueue := q }
    have hlen : s₁.books.txQueue.toList.length < n := by
      rw [hl, List.length_cons] at hn
      exact Nat.lt_of_succ_lt_succ hn
    simp only [wp_bind, wp_getCmd]
    refine (wp_ite _ _ _).mpr ⟨fun hc => ?_, fun hc => ?_⟩
    · rw [control_iff hpop] at hc
      rw [wp_bind]
      refine wp_mono (hpop.abort_wp hb hc) ?_ fun _ _ => id
      rintro ok s₂ ⟨h₂, hhash₂, hp₂, hfail⟩
      refine (wp_ite _ _ _).mpr
        ⟨fun hok => ⟨hfail (by simpa using hok), _, _, h₂.lose⟩, fun _ => ?_⟩
      exact ih h₂ (by rw [← hp₂.length_eq]; exact hlen) (hhash₂.trans hhash) hcap htmp
    · rw [control_iff hpop] at hc
      have hfit : tmp.toList.length < tmp.capacity := by
        have hj := congrArg Multiset.card hpop.jobs
        have hle := b.txQueue.length_toList_le
        have hv : s₁.books.cmdHash.values = b.cmdHash.values := congrArg TagHash.values hhash
        simp only [Books.present, hv, Multiset.card_add, Multiset.coe_card, List.length_cons] at hj
        rw [hb.capacity] at hle
        omega
      obtain ⟨tmp', hi, hl', hcap'⟩ := Fifo.insert_of_lt c hfit
      simp only [hi]
      have hput : Draining b tmp'.toList ctl [] s₀ s₁ := by
        rw [hl']
        exact hpop.perm (@List.perm_append_comm _ [c] _)
      refine ih hput hlen hhash (hcap'.trans hcap) fun d hd => ?_
      rw [hl'] at hd
      rcases List.mem_append.mp hd with hd | hd
      · exact htmp d hd
      · rw [List.mem_singleton.mp hd]
        exact hc

/-- The second loop. -/
theorem refillQueue_spec {n : Nat} {tmp : Fifo Nat}
    (h : Draining b tmp.toList ctl [] s₀ s) (hn : tmp.toList.length < n)
    (hhash : s.books.cmdHash = b.cmdHash) (htmp : ∀ c ∈ tmp.toList, ¬b.control c)
    (hq : ∀ c ∈ s.books.txQueue.toList, ¬b.control c) :
    wp (refillQueue n tmp) (fun ok s' => ok = true ∧ s'.books.cmdHash = b.cmdHash ∧
      (∀ c ∈ s'.books.txQueue.toList, ¬b.control c) ∧ Draining b [] ctl [] s₀ s')
      (fun _ _ => False) s := by
  induction n generalizing s tmp with
  | zero => exact absurd hn (Nat.not_lt_zero _)
  | succ n ih =>
    simp only [refillQueue]
    rcases hr : tmp.remove with _ | ⟨c, tmp'⟩
    · refine ⟨rfl, hhash, hq, ?_⟩
      rwa [Fifo.remove_none hr] at h
    obtain ⟨hl, -⟩ := Fifo.remove_some hr
    rw [hl] at h htmp
    simp only [wp_bind]
    rw [wp_queueInsert]
    refine ⟨fun hi => ?_, fun q hi => ?_⟩
    · exfalso
      have hj := congrArg Multiset.card h.jobs
      have hle := b.txQueue.length_toList_le
      have hfull := Fifo.insert_none hi
      have hv : s.books.cmdHash.values = b.cmdHash.values := congrArg TagHash.values hhash
      simp only [Books.present, hv, Multiset.card_add, Multiset.coe_card, List.length_cons] at hj
      rw [h.capacity] at hfull
      omega
    · obtain ⟨hl₁, -⟩ := Fifo.insert_some hi
      refine (wp_ite _ _ _).mpr ⟨fun hf => by simp at hf, fun _ => ?_⟩
      refine ih (h.push hi) ?_ hhash (fun d hd => htmp d (List.mem_cons_of_mem _ hd)) ?_
      · rw [hl, List.length_cons] at hn
        exact Nat.lt_of_succ_lt_succ hn
      · intro d hd
        simp only [Session.setBooks, hl₁] at hd
        rcases List.mem_append.mp hd with hd | hd
        · exact hq d hd
        · exact htmp d (by simp [List.mem_singleton.mp hd])

theorem wp_hashTakeHead {Q : Option Nat → Session → Prop} {E : Halt → Session → Prop} :
    wp hashTakeHead Q E s ↔
      (s.books.cmdHash.removeHead = none → Q none s) ∧
      ∀ c h, s.books.cmdHash.removeHead = some (c, h) →
        Q (some c) (s.setBooks { s.books with cmdHash := h }) := by
  unfold wp hashTakeHead
  rcases s.books.cmdHash.removeHead with _ | ⟨c, h⟩ <;> simp

/-- A queue without control commands that is full leaves no place for another of its kind. -/
theorem Draining.fails_of_full {c : Nat} (h : Draining b (c :: tmp) ctl lost s₀ s) (hb : b.Settled)
    (hc : ¬b.control c) (hq : ∀ d ∈ s.books.txQueue.toList, ¬b.control d)
    (hi : s.books.txQueue.insert c = none) : b.Fails := by
  refine .inr ?_
  have hfull := Fifo.insert_none hi
  rw [h.capacity, hb.capacity] at hfull
  have hle : ((c :: s.books.txQueue.toList : List Nat) : Multiset Nat) ≤ b.present := by
    rw [← h.jobs, Multiset.le_iff_count]
    intro a
    simp only [Books.present, Multiset.count_add, Multiset.coe_count, List.count_cons]
    omega
  refine Nat.lt_of_lt_of_le ?_ (Multiset.countP_le_of_le _ hle)
  rw [Multiset.coe_countP, List.countP_cons_of_pos (by simpa using hc), List.countP_eq_length.mpr,
    hfull]
  · exact Nat.lt_succ_self _
  · intro d hd
    simpa using hq d hd

/-- The third loop. -/
theorem drainHash_spec (hb : b.Settled) {n : Nat} (h : Draining b [] ctl [] s₀ s)
    (hn : s.books.cmdHash.entries.length < n) (hq : ∀ c ∈ s.books.txQueue.toList, ¬b.control c) :
    wp (drainHash n) (fun ok s' => match ok with
      | false => b.Fails ∧ ∃ ctl lost, Draining b [] ctl lost s₀ s'
      | true => s'.books.cmdHash.entries = [] ∧ (∀ c ∈ s'.books.txQueue.toList, ¬b.control c) ∧
          ∃ ctl, Draining b [] ctl [] s₀ s')
      (fun _ _ => False) s := by
  induction n generalizing s ctl with
  | zero => exact absurd hn (Nat.not_lt_zero _)
  | succ n ih =>
    simp only [drainHash, wp_bind]
    rw [wp_hashTakeHead]
    refine ⟨fun hr => ⟨TagHash.removeHead_none hr, hq, ctl, h⟩, fun c t hr => ?_⟩
    obtain ⟨⟨k, hp⟩, -⟩ := TagHash.removeHead_some hr
    have hlen : t.entries.length < n := by
      rw [hp.length_eq, List.length_cons] at hn
      exact Nat.lt_of_succ_lt_succ hn
    have hpop := fun m => h.popHash hb hr (m := m)
    have hci := control_iff h c
    simp only [wp_bind, wp_getCmd]
    refine (wp_ite _ _ _).mpr ⟨fun hc => ?_, fun hc => ?_⟩
    · have hc : b.control c := hci.mp hc
      have h₁ := hpop s.books.mem (if_pos hc).symm
      rw [wp_bind]
      refine wp_mono (h₁.abort_wp hb hc) ?_ fun _ _ => id
      rintro ok s₂ ⟨h₂, hhash₂, hp₂, hfail⟩
      refine (wp_ite _ _ _).mpr ⟨fun hok => ⟨hfail (by simpa using hok), _, _, h₂⟩, fun _ => ?_⟩
      refine ih h₂ ?_ fun d hd => hq d (hp₂.mem_iff.mpr hd)
      rw [hhash₂]
      exact hlen
    · have hc : ¬b.control c := fun hn => hc (hci.mpr hn)
      have h₁ := hpop _ (if_neg hc).symm
      simp only [wp_bind, wp_modifyCmd]
      rw [wp_queueInsert]
      refine ⟨fun hi => ?_, fun q hi => ?_⟩
      · exact ⟨h₁.fails_of_full hb hc hq hi, _, _, h₁.lose⟩
      · obtain ⟨hl₁, -⟩ := Fifo.insert_some hi
        refine (wp_ite _ _ _).mpr ⟨fun hf => by simp at hf, fun _ => ?_⟩
        refine ih (h₁.push hi) hlen ?_
        intro d hd
        simp only [Session.setBooks, hl₁] at hd
        rcases List.mem_append.mp hd with hd | hd
        · exact hq d hd
        · rw [List.mem_singleton.mp hd]
          exact hc

/-- What `session_destroy_i` leaves behind when it returns 0. -/
structure Drained (ctl : List Nat) (s s' : Session) : Prop where
  draining : Draining s.books [] ctl [] s { s' with flags := s.flags }
  cmdHash : s'.books.cmdHash.entries = []
  txQueue : ∀ c ∈ s'.books.txQueue.toList, ¬s.books.control c
  flags : s'.flags = .zero

/-- `session_destroy_i` returns 0 and has moved every command, or it fails for one of two reasons
and has lost some. -/
theorem sessionDestroyI_spec (hb : s.books.Settled) :
    wp sessionDestroyI (fun rc s' => (rc = 0 ∧ ∃ ctl, Drained ctl s s') ∨
      (rc = -1 ∧ s.books.Fails ∧ ∃ ctl lost, Draining s.books [] ctl lost s s'))
      (fun _ _ => False) s := by
  simp only [sessionDestroyI, wp_bind, wp_gets]
  have hinit : (Fifo.init (configInitiatorQueueDepth - 1) : Fifo Nat).toList = [] :=
    Fifo.toList_init _
  have hstart : Draining s.books (Fifo.init (configInitiatorQueueDepth - 1) : Fifo Nat).toList [] []
      s s := by
    rw [hinit]
    exact .refl s
  refine wp_mono (drainQueue_spec hb hstart (Nat.lt_succ_self _) rfl rfl (by simp [hinit])) ?_
    fun _ _ => id
  rintro (_ | tmp) s₁ h₁
  · exact .inr ⟨rfl, h₁⟩
  obtain ⟨hhash₁, hq₁, htmp, ctl₁, h₁⟩ := h₁
  simp only [wp_bind]
  refine wp_mono (refillQueue_spec h₁ (Nat.lt_succ_self _) hhash₁ htmp (by simp [hq₁])) ?_
    fun _ _ => id
  rintro ok s₂ ⟨rfl, hhash₂, hq₂, h₂⟩
  simp only [Bool.not_true, Bool.false_eq_true, if_false, wp_bind, wp_gets]
  refine wp_mono (drainHash_spec hb h₂ (Nat.lt_succ_self _) hq₂) ?_ fun _ _ => id
  rintro (_ | _) s₃ h₃
  · exact .inr ⟨rfl, h₃⟩
  obtain ⟨he, hq₃, ctl₃, h₃⟩ := h₃
  simp only [Bool.not_true, Bool.false_eq_true, if_false, wp_bind, wp_gets]
  refine (wp_ite _ _ _).mpr ⟨fun hne => absurd ?_ hne, fun _ => ?_⟩
  · rw [TagHash.count_eq, he]
    rfl
  · refine .inl ⟨rfl, ctl₃, ?_, he, hq₃, rfl⟩
    exact { h₃ with started := rfl }

end Loops

end Ost.Initiator
