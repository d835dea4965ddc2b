import Ost.Initiator.Recovery
import Ost.Util.Custody

/-!
# Where the commands are

A session takes over a command with `initiator_enqueue` and gives it back by running its
callback.  `Session.ledger` says where its commands are in between: in the queue, in the hash,
with a worker, or with a call that is under way and has taken them from the queue or the hash.
A step of a worker at a good moment is a sequence of moves of that ledger.
-/

namespace Ost.Initiator

open Ost.Iscsi Ost.Util Ost.Param Ost.Prog

/-- Where the commands of a session are, when calls under way carry the commands `K`. -/
def Session.ledger (s : Session) (K : Multiset Nat) : Ledger Nat where
  issued := s.books.issued
  done := s.books.called
  queue := s.books.txQueue.toList + K
  table := s.books.cmdHash.values
  hand := s.tx.holds
  reader := s.rx.holds
  solo c := (s.books.mem c).body.type ≠ .scsi

/-- The state of the books that goes with it. -/
structure Filed (K : Multiset Nat) (s : Session) : Prop where
  n_pos : 0 < s.books.cmdHash.n
  capacity : s.books.txQueue.capacity = configInitiatorQueueDepth
  keys : ∀ e ∈ s.books.cmdHash.entries, e.1 = (s.books.mem e.2).tag
  tags : ∀ c d, s.books.Live c → s.books.Live d →
    (s.books.mem c).tag = (s.books.mem d).tag → c = d
  /-- A command that the Tx worker may still put back is not outstanding, unless an R2T has
  queued it. -/
  taken : ∀ c, s.tx = .taken c → (s.books.mem c).body.type ≠ .scsi →
    c ∉ s.books.cmdHash.values
  /-- A command that the Tx worker works on is elsewhere as well. -/
  kept : ∀ c, s.tx = .hashed c ∨ s.tx = .sending c ∨ s.tx = .sent c →
    c ∈ (s.ledger K).queue ∨ c ∈ s.books.cmdHash.values
  workers : s.flags.started = false → s.tx = .exited ∧ s.rx = .exited

/-- The invariant of a session. -/
structure Custody (K : Multiset Nat) (s : Session) : Prop where
  sound : (s.ledger K).Sound
  filed : Filed K s

/-- What a step does. -/
structure Step (K K' : Multiset Nat) (s s' : Session) : Prop where
  moves : Ledger.Moves (s.ledger K) (s'.ledger K')
  filed : Filed K' s'
  untouched : ∀ c ∈ s.books.called, s'.books.mem c = s.books.mem c

/-! ## The condition -/

/-- The Tx worker takes a command before full feature phase only if there is room to put it
back, and completes a NOP-Out without ping only while no PDU for it is being handled. -/
def Session.txOrderly (s : Session) : Prop :=
  match s.tx with
  | .taken c => s.flags.fullFeature ∨ (s.books.mem c).body.isControl ∨ s.books.room
  | .sent c => (s.books.mem c).body.isSilent → s.rx.holds ≠ some c
  | _ => True

instance (s : Session) : Decidable s.txOrderly := by
  unfold Session.txOrderly
  split <;> infer_instance

/-- An R2T that asks for the end of the transfer. -/
def Session.reaches (s : Session) (c : Nat) (p : RxPdu) : Bool :=
  match (s.books.mem c).body with
  | .scsi q => iscsiOpcode p.header = opR2t ∧ R2t.reaches (iscsiR2tDecap p.header).2 q
  | _ => false

/-- A PDU that completes a command is handled only while the command is neither queued nor carried
nor in the hands of the Tx worker, and an R2T for the end of a transfer only while there is
room. -/
def Session.rxOrderly (s : Session) (carried : List Nat) : Prop :=
  match s.rx with
  | .handling (some c) p =>
    (s.completes c p → c ∉ s.books.txQueue.toList ∧ c ∉ carried ∧ s.tx.holds ≠ some c) ∧
      (s.reaches c p → s.books.room)
  | _ => True

instance (s : Session) (carried : List Nat) : Decidable (s.rxOrderly carried) := by
  unfold Session.rxOrderly
  split <;> infer_instance

/-! ## Parts of a step -/

variable {K K' K'' : Multiset Nat} {s s' s'' : Session} {c : Nat} {env : Env} {cfg : TargetConfig}

theorem mem_queue_left (h : c ∈ s.books.txQueue.toList) : c ∈ (s.ledger K).queue :=
  Multiset.mem_add.mpr (.inl (Multiset.mem_coe.mpr h))

/-- The queue of the ledger when a command has been queued. -/
theorem queue_append {q : Fifo Nat} (h : q.toList = s.books.txQueue.toList ++ [c]) :
    (q.toList : Multiset Nat) + K = c ::ₘ (s.ledger K).queue := by
  rw [h, ← Multiset.coe_add, Multiset.coe_singleton, Multiset.add_assoc, Multiset.add_comm {c} K,
    ← Multiset.add_assoc, Multiset.add_comm, Multiset.singleton_add, Session.ledger]

theorem Step.refl (hf : Filed K s) : Step K K s s := ⟨.refl, hf, fun _ _ => rfl⟩

/-- A step in two parts. -/
theorem Step.trans (h : Step K K' s s') (h' : Step K' K'' s' s'')
    (hc : s'.books.called = s.books.called) : Step K K'' s s'' :=
  ⟨h.moves.trans h'.moves, h'.filed, fun c hm =>
    (h'.untouched c (hc ▸ hm)).trans (h.untouched c hm)⟩

/-- The invariant holds after a step. -/
theorem Step.custody (h : Step K K' s s') (hs : Custody K s) : Custody K' s' :=
  ⟨hs.sound.moves h.moves, h.filed⟩

namespace Custody

/-- A queued command has not been given back. -/
theorem queued (h : Custody K s) (hc : c ∈ s.books.txQueue.toList) : s.books.Live c :=
  h.sound.queue_live c (mem_queue_left hc)

theorem carried (h : Custody K s) (hc : c ∈ K) : s.books.Live c :=
  h.sound.queue_live c (Multiset.mem_add.mpr (.inr hc))

theorem outstanding (h : Custody K s) (hc : c ∈ s.books.cmdHash.values) : s.books.Live c :=
  h.sound.table_live c (Multiset.mem_coe.mpr hc)

theorem sending (h : Custody K s) (hc : s.tx.holds = some c) : s.books.Live c :=
  h.sound.hand_live c hc

theorem receiving (h : Custody K s) (hc : s.rx.holds = some c) : c ∈ s.books.cmdHash.values :=
  Multiset.mem_coe.mp (h.sound.reader_table c hc)

/-- The hash entry of a live command is its own. -/
theorem entry_eq (h : Custody K s) (hc : s.books.Live c) {d : Nat}
    (hd : ((s.books.mem c).tag, d) ∈ s.books.cmdHash.entries) : d = c := by
  have hk : (s.books.mem c).tag = (s.books.mem d).tag := h.filed.keys _ hd
  have hl := h.outstanding (List.mem_map.mpr ⟨_, hd, rfl⟩)
  exact (h.filed.tags c d hc hl hk).symm

/-- An outstanding command is found under its tag. -/
theorem entry (h : Custody K s) (hc : c ∈ s.books.cmdHash.values) :
    ((s.books.mem c).tag, c) ∈ s.books.cmdHash.entries := by
  obtain ⟨⟨k, d⟩, he, rfl⟩ := List.mem_map.mp hc
  have hk : k = (s.books.mem d).tag := h.filed.keys _ he
  rwa [← hk]

/-- Taking out the tag of a live command takes out the command. -/
theorem values_without (h : Custody K s) (hc : s.books.Live c) :
    ((s.books.cmdHash.without (s.books.mem c).tag).values : Multiset Nat) =
      (s.books.cmdHash.values : Multiset Nat).erase c := by
  by_cases hm : c ∈ s.books.cmdHash.values
  · have hp := TagHash.perm_without (h.entry hm)
    have hv : s.books.cmdHash.values.Perm
        (c :: (s.books.cmdHash.without (s.books.mem c).tag).values) := by
      simpa [TagHash.values] using hp.map (·.2)
    rw [Multiset.coe_erase]
    refine Multiset.coe_eq_coe.mpr ?_
    have := hv.erase c
    rw [List.erase_cons_head] at this
    exact this.symm
  · rw [TagHash.without_eq_self fun a ha => ?_, Multiset.erase_of_notMem (by simpa using hm)]
    obtain rfl := h.entry_eq hc ha
    exact hm (List.mem_map.mpr ⟨_, ha, rfl⟩)

end Custody

/-- Nothing that the invariant speaks about has changed. -/
structure Still (s s' : Session) : Prop where
  txQueue : s'.books.txQueue = s.books.txQueue
  cmdHash : s'.books.cmdHash = s.books.cmdHash
  issued : s'.books.issued = s.books.issued
  called : s'.books.called = s.books.called
  tx : s'.tx = s.tx
  rx : s'.rx = s.rx
  started : s'.flags.started = s.flags.started
  type : ∀ d, (s'.books.mem d).body.type = (s.books.mem d).body.type
  tag : ∀ d, (s'.books.mem d).tag = (s.books.mem d).tag

theorem Same.still (h : Same c s s') : Still s s' where
  txQueue := h.txQueue
  cmdHash := h.cmdHash
  issued := h.issued
  called := h.called
  tx := h.tx
  rx := h.rx
  started := h.started
  type d := congrArg CmdKey.type (h.key_eq d)
  tag := h.tag_eq

/-- So much for the command `c` when the others are kept. -/
theorem forall_of_other {β : Type} (f : InitiatorCmd → β)
    (hother : ∀ d, d ≠ c → s'.books.mem d = s.books.mem d)
    (hc : f (s'.books.mem c) = f (s.books.mem c)) (d : Nat) :
    f (s'.books.mem d) = f (s.books.mem d) := by
  by_cases hd : d = c
  · rw [hd, hc]
  · rw [hother d hd]

theorem Answered.still {ds : List WriteData} (h : Answered c ds s s') : Still s s' where
  txQueue := h.txQueue
  cmdHash := h.cmdHash
  issued := h.issued
  called := h.called
  tx := h.tx
  rx := h.rx
  started := h.started
  type := forall_of_other (fun t => t.body.type) h.other (congrArg CmdKey.type h.key)
  tag := forall_of_other (fun t => t.tag) h.other (congrArg CmdKey.tag h.key)

theorem still_setCmd {t : InitiatorCmd} (htype : t.body.type = (s.books.mem c).body.type)
    (htag : t.tag = (s.books.mem c).tag) : Still s (s.setCmd c t) := by
  have hother : ∀ d, d ≠ c → (s.setCmd c t).books.mem d = s.books.mem d := fun d hd =>
    Function.update_of_ne hd _ _
  have hself : (s.setCmd c t).books.mem c = t := Function.update_self _ _ _
  constructor <;> try rfl
  · exact forall_of_other (fun t => t.body.type) hother (by rw [hself, htype])
  · exact forall_of_other (fun t => t.tag) hother (by rw [hself, htag])

namespace Still

theorem ledger (h : Still s s') (K : Multiset Nat) : s'.ledger K = s.ledger K := by
  have hsolo : (fun d => (s'.books.mem d).body.type ≠ .scsi) =
      fun d => (s.books.mem d).body.type ≠ .scsi := by
    funext d
    rw [h.type d]
  simp only [Session.ledger, h.issued, h.called, h.txQueue, h.cmdHash, h.tx, h.rx, hsolo]

theorem filed (h : Still s s') (hf : Filed K s) : Filed K s' where
  n_pos := h.cmdHash ▸ hf.n_pos
  capacity := h.txQueue ▸ hf.capacity
  keys e he := by
    rw [h.cmdHash] at he
    rw [h.tag]
    exact hf.keys e he
  tags a b ha hb ht := by
    rw [Books.Live, h.issued, h.called] at ha hb
    rw [h.tag, h.tag] at ht
    exact hf.tags a b ha hb ht
  taken d hd ht := by
    rw [h.tx] at hd
    rw [h.cmdHash]
    rw [h.type] at ht
    exact hf.taken d hd ht
  kept d hd := by
    rw [h.tx] at hd
    rw [h.ledger, h.cmdHash]
    exact hf.kept d hd
  workers hw := by
    rw [h.started] at hw
    rw [h.tx, h.rx]
    exact hf.workers hw

/-- A part of a step that changes at most a live command. -/
theorem step (h : Still s s') (hs : Custody K s) (hc : s.books.Live c)
    (hother : ∀ d, d ≠ c → s'.books.mem d = s.books.mem d) : Step K K s s' where
  moves := by rw [h.ledger]
  filed := h.filed hs.filed
  untouched d hd := hother d fun he => hc.2 (he ▸ hd)

end Still

/-- A handler for no command. -/
theorem step_of_forall_same (hs : Custody K s) (h : ∀ c, Same c s s') : Step K K s s' where
  moves := by rw [(h 0).still.ledger]
  filed := (h 0).still.filed hs.filed
  untouched d _ := (h (d + 1)).other d (Nat.ne_of_lt (Nat.lt_succ_self d))

/-- The worker turns to another phase. -/
theorem Filed.setTx (hf : Filed K s) (hne : s.tx ≠ .exited) {p : TxPhase}
    (htaken : ∀ c, p = .taken c → (s.books.mem c).body.type ≠ .scsi →
      c ∉ s.books.cmdHash.values)
    (hkept : ∀ c, p = .hashed c ∨ p = .sending c ∨ p = .sent c →
      c ∈ (s.ledger K).queue ∨ c ∈ s.books.cmdHash.values) : Filed K { s with tx := p } where
  n_pos := hf.n_pos
  capacity := hf.capacity
  keys := hf.keys
  tags := hf.tags
  taken := htaken
  kept := hkept
  workers hw := absurd (hf.workers hw).1 hne

theorem Filed.setRx (hf : Filed K s) (hne : s.rx ≠ .exited) (p : RxPhase) :
    Filed K { s with rx := p } where
  n_pos := hf.n_pos
  capacity := hf.capacity
  keys := hf.keys
  tags := hf.tags
  taken := hf.taken
  kept := hf.kept
  workers hw := absurd (hf.workers hw).2 hne

/-- Changing the flags, but not whether the session has been started. -/
theorem Filed.setFlags (hf : Filed K s) {f : Flags}
    (h : f.started = false → s.flags.started = false) : Filed K { s with flags := f } where
  n_pos := hf.n_pos
  capacity := hf.capacity
  keys := hf.keys
  tags := hf.tags
  taken := hf.taken
  kept := hf.kept
  workers hw := hf.workers (h hw)

/-! ## Giving a command back -/

/-- What the steps that run the callback of `c` have in common. -/
theorem step_of_finish (hs : Custody K s) (hc : s.books.Live c) (hh : s.tx.holds ≠ some c)
    (hr : s.rx.holds ≠ some c) (hcount : (s.ledger K).queue.count c ≤ 1)
    (hq : (s'.ledger K').queue = (s.ledger K).queue.erase c)
    (hcap : s'.books.txQueue.capacity = s.books.txQueue.capacity)
    (hhash : s'.books.cmdHash = s.books.cmdHash.without (s.books.mem c).tag)
    (hissued : s'.books.issued = s.books.issued) (hcalled : s'.books.called = s.books.called ++ [c])
    (htx : s'.tx = s.tx) (hrx : s'.rx = s.rx) (hstarted : s'.flags.started = s.flags.started)
    (hother : ∀ d, d ≠ c → s'.books.mem d = s.books.mem d)
    (htype : (s'.books.mem c).body.type = (s.books.mem c).body.type)
    (htag : (s'.books.mem c).tag = (s.books.mem c).tag) : Step K K' s s' := by
  have htype' : ∀ d, (s'.books.mem d).body.type = (s.books.mem d).body.type := by
    intro d
    by_cases hd : d = c
    · rw [hd, htype]
    · rw [hother d hd]
  have htag' : ∀ d, (s'.books.mem d).tag = (s.books.mem d).tag := by
    intro d
    by_cases hd : d = c
    · rw [hd, htag]
    · rw [hother d hd]
  have hvalues := hs.values_without hc
  rw [← hhash] at hvalues
  have hledger : s'.ledger K' = { s.ledger K with
      done := (s.ledger K).done ++ [c], queue := (s.ledger K).queue.erase c
      table := (s.ledger K).table.erase c } := by
    have hsolo : (fun d => (s'.books.mem d).body.type ≠ .scsi) =
        fun d => (s.books.mem d).body.type ≠ .scsi := by
      funext d
      rw [htype' d]
    rw [← hq]
    simp only [Session.ledger, hissued, hcalled, hvalues, htx, hrx, hsolo]
  have hlive : ∀ d, s'.books.Live d → s.books.Live d := by
    intro d hd
    rw [Books.Live, hissued, hcalled] at hd
    exact ⟨hd.1, fun hm => hd.2 (List.mem_append_left _ hm)⟩
  have hmem : ∀ d, d ≠ c → (d ∈ s.books.cmdHash.values ↔ d ∈ s'.books.cmdHash.values) := by
    intro d hd
    rw [← Multiset.mem_coe, ← Multiset.mem_coe, hvalues, Multiset.mem_erase_of_ne hd]
  refine ⟨.single ?_, ?_, fun d hd => hother d fun he => hc.2 (he ▸ hd)⟩
  · rw [hledger]
    exact .finish c hc hcount hh hr
  · constructor
    · rw [hhash, TagHash.n_without]
      exact hs.filed.n_pos
    · exact hcap.trans hs.filed.capacity
    · intro e he
      rw [hhash] at he
      rw [htag']
      exact hs.filed.keys e (TagHash.entries_without_subset he)
    · intro a b ha hb ht
      rw [htag', htag'] at ht
      exact hs.filed.tags a b (hlive a ha) (hlive b hb) ht
    · intro d hd ht
      rw [htx] at hd
      rw [htype'] at ht
      have hne : d ≠ c := by
        rintro rfl
        exact hh (by rw [hd]; rfl)
      exact fun hm => hs.filed.taken d hd ht ((hmem d hne).mpr hm)
    · intro d hd
      rw [htx] at hd
      have hne : d ≠ c := by
        rintro rfl
        exact hh (by rcases hd with hd | hd | hd <;> rw [hd] <;> rfl)
      refine (hs.filed.kept d hd).imp (fun hm => ?_) (hmem d hne).mp
      rw [hq]
      exact (Multiset.mem_erase_of_ne hne).mpr hm
    · intro hw
      rw [hstarted] at hw
      rw [htx, hrx]
      exact hs.filed.workers hw

/-- A handler completes a command that is queued or carried at most once.  What it carries is not
carried any more. -/
theorem step_of_completed (hs : Custody K s) (hc : s.books.Live c) (hh : s.tx.holds ≠ some c)
    (hr : s.rx.holds ≠ some c) (hq : c ∉ s.books.txQueue.toList) (hcount : K.count c ≤ 1)
    (h : Completed c s s') : Step K (K.erase c) s s' := by
  have hq' : c ∉ (s.books.txQueue.toList : Multiset Nat) := Multiset.mem_coe.not.mpr hq
  refine step_of_finish hs hc hh hr ?_ ?_ (by rw [h.txQueue]) h.cmdHash h.issued h.called
    h.tx h.rx h.started h.other (congrArg CmdKey.type h.key) (congrArg CmdKey.tag h.key)
  · rw [Session.ledger, Multiset.count_add, Multiset.count_eq_zero_of_notMem hq', Nat.zero_add]
    exact hcount
  · simp only [Session.ledger, h.txQueue]
    rw [Multiset.erase_add_right_neg _ hq']

/-- A handler completes a command that is neither queued nor carried. -/
theorem step_of_absent (hs : Custody K s) (hc : s.books.Live c) (hh : s.tx.holds ≠ some c)
    (hr : s.rx.holds ≠ some c) (hq : c ∉ s.books.txQueue.toList) (hK : c ∉ K)
    (h : Completed c s s') : Step K K s s' := by
  have h₁ := step_of_completed hs hc hh hr hq (by simp [Multiset.count_eq_zero_of_notMem hK]) h
  rwa [Multiset.erase_of_notMem hK] at h₁

/-! ## The Tx worker -/

/-- The worker lets go of a command that is elsewhere as well. -/
theorem step_release (hs : Custody K s) (hc : s.tx.holds = some c)
    (hk : c ∈ (s.ledger K).queue ∨ c ∈ s.books.cmdHash.values) {p : TxPhase}
    (hp : p = .idle ∨ p = .exited) : Step K K s { s with tx := p } where
  moves := by
    have hn : p.holds = none := by rcases hp with rfl | rfl <;> rfl
    have hl : ({ s with tx := p } : Session).ledger K = { (s.ledger K) with hand := none } := by
      simp only [Session.ledger, hn]
    rw [hl]
    exact .single (.release c hc (hk.imp_right Multiset.mem_coe.mpr))
  filed := by
    refine hs.filed.setTx ?_ ?_ ?_
    · rintro he
      rw [he] at hc
      exact nomatch hc
    · rintro d rfl
      exact absurd hp (by simp)
    · rintro d hd
      rcases hp with rfl | rfl <;> simp at hd
  untouched _ _ := rfl

/-- An idle worker goes on without a command. -/
theorem step_idle (hs : Custody K s) (hn : s.tx = .idle) {f : Flags}
    (hf : f.started = s.flags.started) {p : TxPhase} (hp : p = .idle ∨ p = .exited) :
    Step K K s { s with flags := f, tx := p } where
  moves := by
    have hl : ({ s with flags := f, tx := p } : Session).ledger K = (s.ledger K) := by
      simp only [Session.ledger, hn]
      rcases hp with rfl | rfl <;> rfl
    rw [hl]
  filed := by
    refine Filed.setTx (s := { s with flags := f })
      (hs.filed.setFlags (f := f) fun h => hf ▸ h) (by rw [hn]; simp) ?_ ?_
    · rintro d rfl
      exact absurd hp (by simp)
    · rintro d hd
      rcases hp with rfl | rfl <;> simp at hd
  untouched _ _ := rfl

theorem txIdle_step (hs : Custody K s) (ht : s.tx = .idle) :
    ensures txIdle (fun _ s' => Step K K s s') s := by
  simp only [ensures, txIdle, wp_bind, wp_get]
  refine (wp_ite _ _ _).mpr ⟨fun _ => step_idle hs ht rfl (.inr rfl), fun _ => ?_⟩
  rw [wp_bind, wp_queueRemove]
  refine ⟨fun _ => ?_, fun c q hr => ?_⟩
  · simp only [wp_bind, wp_getVars]
    refine (wp_ite _ _ _).mpr ⟨fun _ => ?_, fun _ => .refl hs.filed⟩
    rw [wp_bind]
    refine (ensures_forall fun d => (same_nopOutI d _).run s).mono fun x s₁ h₁ => ?_
    have ht₁ : s₁.tx = .idle := ((h₁ 0).tx).trans ht
    have hput : ∀ v d, Same d s (s₁.setVars v) := fun v d => (h₁ d).setVars v
    simp only [wp_bind, wp_modifyVars]
    refine (wp_ite _ _ _).mpr ⟨fun _ => ?_, fun _ => ?_⟩
    · exact step_of_forall_same hs (hput { s₁.vars with nopOut := x.1, nopOutWaiting := false })
    · have h₂ := step_of_forall_same hs (hput { s₁.vars with nopOut := x.1 })
      rw [wp_txFailure]
      refine h₂.trans ?_ (h₁ 0).called
      exact step_idle (f := { s₁.flags with error := true }) (h₂.custody hs) ht₁ rfl (.inr rfl)
  · obtain ⟨hl, hcap⟩ := Fifo.remove_some hr
    have hq : (s.ledger K).queue = c ::ₘ ((q.toList : Multiset Nat) + K) := by
      rw [Session.ledger, hl, ← Multiset.cons_coe, Multiset.cons_add]
    have hm : c ∈ (s.ledger K).queue := hq ▸ Multiset.mem_cons_self c _
    refine ⟨.single (.take c _ hq (by rw [Session.ledger, ht]; rfl)), ?_, fun _ _ => rfl⟩
    constructor
    · exact hs.filed.n_pos
    · exact hcap.trans hs.filed.capacity
    · exact hs.filed.keys
    · exact hs.filed.tags
    · rintro d hd hs' hv
      obtain rfl : c = d := TxPhase.taken.inj hd
      exact (hs.sound.solo_once c hs').2 (.inl (Multiset.mem_coe.mpr hv)) hm
    · rintro d hd
      simp at hd
    · intro hw
      have := (hs.filed.workers hw).1
      rw [ht] at this
      cases this

/-- The worker puts the command back. -/
theorem step_putBack (hs : Custody K s) (ht : s.tx = .taken c) {q : Fifo Nat}
    (hi : s.books.txQueue.insert c = some q) :
    Step K K s { s.setBooks { s.books with txQueue := q } with tx := .idle } := by
  have hh : s.tx.holds = some c := by rw [ht]; rfl
  have hne : s.tx ≠ .exited := by simp [ht]
  obtain ⟨hl, hcap⟩ := Fifo.insert_some hi
  have hq : (q.toList : Multiset Nat) + K = c ::ₘ (s.ledger K).queue :=
    queue_append hl
  have htable : (s.ledger K).solo c → c ∉ (s.ledger K).table := fun hsolo hm =>
    hs.filed.taken c ht hsolo (Multiset.mem_coe.mp hm)
  refine ⟨?_, ?_, fun _ _ => rfl⟩
  · have hmove := Ledger.Move.putBack (l := s.ledger K) c hh htable
    rw [← hq] at hmove
    exact .single hmove
  · refine Filed.setTx (s := s.setBooks { s.books with txQueue := q }) ⟨hs.filed.n_pos,
      hcap.trans hs.filed.capacity, hs.filed.keys, hs.filed.tags, hs.filed.taken, ?_,
      hs.filed.workers⟩ hne (fun d hd => by cases hd) (fun d hd => by simp at hd)
    exact fun d hd => (hs.filed.kept d hd).imp_left fun hm =>
      (hq ▸ Multiset.mem_cons_of_mem hm : d ∈ (q.toList : Multiset Nat) + K)

/-- The command is outstanding already. -/
theorem step_hashed (hs : Custody K s) (ht : s.tx = .taken c) (hm : c ∈ s.books.cmdHash.values) :
    Step K K s { s with tx := .hashed c } := by
  have hl : ({ s with tx := .hashed c } : Session).ledger K = (s.ledger K) := by
    simp only [Session.ledger, ht, TxPhase.holds]
  refine ⟨by rw [hl], hs.filed.setTx (by simp [ht]) ?_ ?_, fun _ _ => rfl⟩
  · rintro d hd
    cases hd
  · rintro d hd
    simp only [TxPhase.hashed.injEq, reduceCtorEq, or_false] at hd
    exact .inr (hd ▸ hm)

/-- The worker adds the command to the outstanding ones. -/
theorem step_register (hs : Custody K s) (ht : s.tx = .taken c)
    (hn : s.books.cmdHash.get (s.books.mem c).tag = none) {t : TagHash Nat}
    (hi : s.books.cmdHash.insert (s.books.mem c).tag c = some t) :
    Step K K s { s.setBooks { s.books with cmdHash := t } with tx := .hashed c } := by
  have hh : s.tx.holds = some c := by rw [ht]; rfl
  have hne : s.tx ≠ .exited := by simp [ht]
  obtain ⟨hp, hnn, -⟩ := TagHash.insert_some hi
  have hv : (t.values : Multiset Nat) = c ::ₘ (s.ledger K).table := by
    rw [Session.ledger, Multiset.cons_coe]
    exact Multiset.coe_eq_coe.mpr (by simpa [TagHash.values] using hp.map (·.2))
  have hnot : c ∉ (s.ledger K).table := by
    intro hm
    exact TagHash.get_eq_none.mp hn c (hs.entry (Multiset.mem_coe.mp hm))
  refine ⟨?_, ?_, fun _ _ => rfl⟩
  · have hmove := Ledger.Move.register (l := s.ledger K) c hh hnot
    rw [← hv] at hmove
    have hl : ({ s.setBooks { s.books with cmdHash := t } with tx := .hashed c } : Session).ledger K
        = { (s.ledger K) with table := (t.values : Multiset Nat) } := by
      simp only [Session.ledger, Session.setBooks, ht, TxPhase.holds]
    exact .single (hl ▸ hmove)
  · constructor
    · exact hnn ▸ hs.filed.n_pos
    · exact hs.filed.capacity
    · intro e he
      rcases List.mem_cons.mp (hp.mem_iff.mp he) with rfl | he
      · rfl
      · exact hs.filed.keys e he
    · exact hs.filed.tags
    · rintro d hd
      cases hd
    · rintro d hd
      simp only [TxPhase.hashed.injEq, reduceCtorEq, or_false] at hd
      refine .inr (hd ▸ ?_)
      exact Multiset.mem_coe.mp (hv ▸ Multiset.mem_cons_self c _)
    · exact fun hw => absurd (hs.filed.workers hw).1 hne

/-- The worker puts a command back, or adds it to the outstanding ones. -/
theorem txTaken_step (hs : Custody K s) (ht : s.tx = .taken c) (ho : s.txOrderly) :
    ensures (txTaken c) (fun _ s' => Step K K s s') s := by
  have hh : s.tx.holds = some c := by rw [ht]; rfl
  have hroom : s.flags.fullFeature ∨ (s.books.mem c).body.isControl ∨ s.books.room := by
    rw [Session.txOrderly, ht] at ho
    exact ho
  simp only [ensures, txTaken, wp_bind, wp_getCmd, wp_getFlags]
  refine (wp_ite _ _ _).mpr ⟨fun hff => ?_, fun _ => ?_⟩
  · simp only [Bool.and_eq_true, Bool.not_eq_eq_eq_not, Bool.not_true] at hff
    have hroom : s.books.room = true := by
      rcases hroom with h | h | h
      · simp [h] at hff
      · simp [h] at hff
      · exact h
    rw [wp_bind, wp_queueInsert]
    refine ⟨fun hi => ?_, fun q hi => step_putBack hs ht hi⟩
    rw [room_of_insert_none hi] at hroom
    cases hroom
  · simp only [wp_bind, wp_hashLookup]
    split
    · rename_i d hd
      have he := TagHash.get_eq_some.mp hd
      obtain rfl := hs.entry_eq (hs.sending hh) he
      exact step_hashed hs ht (List.mem_map.mpr ⟨_, he, rfl⟩)
    · rename_i hn
      rw [wp_bind, wp_hashAdd]
      refine ⟨fun hi => ?_, fun t hi => step_register hs ht hn hi⟩
      obtain ⟨t, hi'⟩ := TagHash.insert_of_none c hn hs.filed.n_pos
      rw [hi'] at hi
      cases hi

/-- Between the hash and the socket only the phase of the worker and `tx_done` change. -/
theorem step_phase (hs : Custody K s) (hh : s.tx.holds = some c)
    (hk : c ∈ (s.ledger K).queue ∨ c ∈ s.books.cmdHash.values) {p : TxPhase}
    (hp : p = .sending c ∨ p = .sent c) : Step K K s { s with tx := p } where
  moves := by
    have hl : ({ s with tx := p } : Session).ledger K = (s.ledger K) := by
      simp only [Session.ledger, hh]
      rcases hp with rfl | rfl <;> rfl
    rw [hl]
  filed := by
    refine hs.filed.setTx ?_ ?_ ?_
    · intro he
      rw [he] at hh
      exact nomatch hh
    · rintro d rfl
      exact absurd hp (by simp)
    · rintro d hd
      obtain rfl : c = d := by
        rcases hp with rfl | rfl <;> simpa using hd
      exact hk
  untouched _ _ := rfl

/-- A command gets a new value of `tx_done`. -/
theorem step_txDone (hs : Custody K s) (hc : s.books.Live c) (d : Bool) :
    Step K K s (s.setCmd c { s.books.mem c with txDone := d }) := by
  refine Still.step (still_setCmd ?_ ?_) hs hc fun _ he => Function.update_of_ne he _ _
  · rfl
  · rfl

theorem txHashed_step (hs : Custody K s) (ht : s.tx = .hashed c) :
    ensures (txHashed c) (fun _ s' => Step K K s s') s := by
  have hh : s.tx.holds = some c := by rw [ht]; rfl
  have hk := hs.filed.kept c (.inl ht)
  simp only [ensures, txHashed, wp_bind, wp_getCmd]
  refine (wp_ite _ _ _).mpr ⟨fun _ => step_release hs hh hk (.inl rfl), fun _ => ?_⟩
  simp only [wp_bind, wp_modifyCmd, wp_setTx]
  have h₁ := step_txDone hs (hs.sending hh) false
  exact h₁.trans (step_phase (h₁.custody hs) hh hk (.inl rfl)) rfl

/-- Executing a command does not move it. -/
theorem ExecuteEnd.still {ok : Bool} (h : ExecuteEnd c s s' ok) :
    Still s s' ∧ ∀ d, d ≠ c → s'.books.mem d = s.books.mem d := by
  cases h with
  | same _ h _ => exact ⟨h.still, h.other⟩
  | answered ds _ _ h => exact ⟨h.still, h.other⟩

theorem txSending_step (hs : Custody K s) (ht : s.tx = .sending c) :
    ensures (execute c >>= fun ok => if ok = true then setTx (.sent c) else txFailure)
      (fun _ s' => Step K K s s') s := by
  have hh : s.tx.holds = some c := by rw [ht]; rfl
  rw [ensures, wp_bind]
  refine (execute_spec c s).mono fun ok s₁ h₁ => ?_
  obtain ⟨hstill, hother⟩ := h₁.still
  have hstep := hstill.step hs (hs.sending hh) hother
  have hh₁ : s₁.tx.holds = some c := by rw [hstill.tx, hh]
  have hk := (hstep.filed).kept c (.inr (.inl (hstill.tx.trans ht)))
  refine (wp_ite _ _ _).mpr ⟨fun _ => ?_, fun _ => ?_⟩
  · exact hstep.trans (step_phase (hstep.custody hs) hh₁ hk (.inr rfl)) hstill.called
  · have h₂ := step_release (hstep.custody hs) hh₁ hk (p := .exited) (.inr rfl)
    rw [wp_txFailure]
    refine (hstep.trans h₂ hstill.called).trans ?_ hstill.called
    exact ⟨.refl, h₂.filed.setFlags fun h => h, fun _ _ => rfl⟩

/-- The worker completes a NOP-Out without ping, or waits for nothing more. -/
theorem txSent_step (hs : Custody K s) (ht : s.tx = .sent c) (ho : s.txOrderly) :
    ensures (txSent c) (fun _ s' => Step K K s s') s := by
  have hh : s.tx.holds = some c := by rw [ht]; rfl
  have hlive := hs.sending hh
  have hk := hs.filed.kept c (.inr (.inr ht))
  simp only [ensures, txSent, wp_bind, wp_getCmd]
  refine (wp_ite _ _ _).mpr ⟨fun hsilent => ?_, fun _ => ?_⟩
  · have hrx : s.rx.holds ≠ some c := by
      rw [Session.txOrderly, ht] at ho
      exact ho hsilent
    have htype : (s.books.mem c).body.type ≠ .scsi := by
      intro htype
      cases hb : (s.books.mem c).body <;> simp [hb, Body.type, Body.isSilent] at htype hsilent
    have hnq : c ∉ (s.ledger K).queue := (hs.sound.solo_once c htype).2 (.inr hh)
    have hnK : c ∉ K := fun hm => hnq (Multiset.mem_add.mpr (.inr hm))
    -- The callback runs after the worker has let go of the command, as far as the ledger goes.
    have done : ∀ {s₁ : Session} {f : Flags} {p : TxPhase}, p = .idle ∨ p = .exited →
        (f.started = false → s₁.flags.started = false) → Ended c s s₁ →
        Step K K s { s₁ with flags := f, tx := p } := by
      intro s₁ f p hp hf he
      have h₁ := step_release hs hh hk hp
      have hs₁ := h₁.custody hs
      have hnone : p.holds ≠ some c := by rcases hp with rfl | rfl <;> simp [TxPhase.holds]
      have hflags : ∀ {t : Session}, Filed K { t with tx := p } → t.flags.started =
          s₁.flags.started → Filed K { t with flags := f, tx := p } := fun hF hst =>
        hF.setFlags fun h => hst.trans (hf h)
      rcases he with he | he
      · have hsame : Same c { s with tx := p } { s₁ with tx := p } :=
          ⟨he.txQueue, he.cmdHash, he.issued, he.called, rfl, he.rx, he.stopping, he.started,
            he.accepted, he.answers, he.other, he.key⟩
        have h₂ := h₁.trans (hsame.still.step hs₁ hlive hsame.other) rfl
        exact ⟨h₂.moves, hflags h₂.filed rfl, h₂.untouched⟩
      · have hcomp : Completed c { s with tx := p } { s₁ with tx := p } :=
          ⟨he.txQueue, he.cmdHash, he.issued, he.called, rfl, he.rx, he.stopping, he.started,
            he.accepted, he.answers, he.other, he.key⟩
        have h₂ := h₁.trans (step_of_absent hs₁ hlive hnone hrx (fun hm => hnq (mem_queue_left hm))
          hnK hcomp) rfl
        exact ⟨h₂.moves, hflags h₂.filed rfl, h₂.untouched⟩
    rw [wp_bind]
    refine ((ended_iscsiDoneI c).run s).mono fun ok s₁ h₁ => ?_
    refine (wp_ite _ _ _).mpr ⟨fun _ => ?_, fun _ => ?_⟩
    · exact done (f := s₁.flags) (.inl rfl) id h₁
    · rw [wp_txFailure]
      exact done (f := { s₁.flags with error := true }) (.inr rfl) id h₁
  · simp only [wp_bind, wp_modifyCmd, wp_setTx]
    have h₁ := step_txDone hs hlive true
    exact h₁.trans (step_release (h₁.custody hs) hh hk (.inl rfl)) rfl

theorem tx_step (hs : Custody K s) (ho : s.txOrderly) :
    ensures txWorkerProcI (fun _ s' => Step K K s s') s := by
  simp only [ensures, txWorkerProcI, wp_bind, wp_get]
  cases ht : s.tx with
  | idle => exact txIdle_step hs ht
  | taken c => exact txTaken_step hs ht ho
  | hashed c => exact txHashed_step hs ht
  | sending c => exact txSending_step hs ht
  | sent c => exact txSent_step hs ht ho
  | exited => exact .refl hs.filed

/-! ## The Rx worker -/

/-- The reader turns to another PDU, or stops. -/
theorem step_rx (hs : Custody K s) (hne : s.rx ≠ .exited) {f : Flags}
    (hf : f.started = s.flags.started) {p : RxPhase}
    (hp : ∀ c, p.holds = some c → c ∈ s.books.cmdHash.values) :
    Step K K s { s with flags := f, rx := p } where
  moves := .single (.read p.holds fun c hc => Multiset.mem_coe.mpr (hp c hc))
  filed := Filed.setRx (s := { s with flags := f }) (hs.filed.setFlags fun h => hf ▸ h) hne p
  untouched _ _ := rfl

theorem step_rxIdle (hs : Custody K s) (hr : s.rx = .idle) (inp : Option RxPdu) :
    ensures (rxWorkerProcI env cfg inp) (fun _ s' => Step K K s s') s := by
  have hne : s.rx ≠ .exited := by simp [hr]
  have stop : ∀ {f : Flags} {p : RxPhase}, f.started = s.flags.started → p.holds = none →
      Step K K s { s with flags := f, rx := p } := fun hf hp =>
    step_rx hs hne hf fun c hc => by simp [hp] at hc
  simp only [ensures, rxWorkerProcI, wp_bind, wp_get, hr]
  rcases inp with _ | p
  · exact stop rfl rfl
  simp only [wp_bind, wp_get]
  refine (wp_ite _ _ _).mpr ⟨fun _ => stop (f := s.flags) rfl rfl, fun _ => ?_⟩
  unfold rxLookup
  split
  · exact stop (f := s.flags) rfl rfl
  · simp only [wp_bind, wp_hashLookup]
    split
    · rename_i c hc
      refine step_rx (f := s.flags) hs hne rfl fun d hd => ?_
      obtain rfl : c = d := Option.some.inj hd
      exact List.mem_map.mpr ⟨_, TagHash.get_eq_some.mp hc, rfl⟩
    · refine (wp_ite _ _ _).mpr ⟨fun _ => stop (f := s.flags) rfl rfl, fun _ => ?_⟩
      exact stop rfl rfl

theorem R2tCounted.still (h : R2tCounted c s s') (htx : s'.books.txQueue = s.books.txQueue)
    (hhash : s'.books.cmdHash = s.books.cmdHash) : Still s s' where
  txQueue := htx
  cmdHash := hhash
  issued := h.issued
  called := h.called
  tx := h.tx
  rx := h.rx
  started := h.started
  type := forall_of_other (fun t => t.body.type) h.other (congrArg CmdKey.type h.key)
  tag := forall_of_other (fun t => t.tag) h.other (congrArg CmdKey.tag h.key)

/-- A command is queued again because of an R2T. -/
theorem step_of_queued (hs : Custody K s) (hc : c ∈ s.books.cmdHash.values)
    (hr : s.rx.holds ≠ some c) (htype : (s.books.mem c).body.type = .scsi) {t : TagHash Nat}
    (ht : t = s.books.cmdHash ∨ t = s.books.cmdHash.without (s.books.mem c).tag)
    (h : R2tCounted c s s') (hq : s'.books.txQueue.toList = s.books.txQueue.toList ++ [c])
    (hcap : s'.books.txQueue.capacity = s.books.txQueue.capacity)
    (hhash : s'.books.cmdHash = t) : Step K K s s' := by
  have hlive := hs.outstanding hc
  have hns : ¬(s.ledger K).solo c := fun hsolo => hsolo htype
  have htype' := forall_of_other (fun t => t.body.type) h.other (congrArg CmdKey.type h.key)
  have htag' := forall_of_other (fun t => t.tag) h.other (congrArg CmdKey.tag h.key)
  have hsolo : (fun d => (s'.books.mem d).body.type ≠ .scsi) =
      fun d => (s.books.mem d).body.type ≠ .scsi := by
    funext d
    rw [htype' d]
  have hqm : (s'.books.txQueue.toList : Multiset Nat) + K = c ::ₘ (s.ledger K).queue :=
    queue_append hq
  have hsub : ∀ e ∈ t.entries, e ∈ s.books.cmdHash.entries := by
    rcases ht with rfl | rfl
    · exact fun e he => he
    · exact fun e he => TagHash.entries_without_subset he
  have hn : t.n = s.books.cmdHash.n := by
    rcases ht with rfl | rfl
    · rfl
    · exact TagHash.n_without _ _
  have hvs : ∀ d ∈ t.values, d ∈ s.books.cmdHash.values := by
    intro d hd
    obtain ⟨e, he, rfl⟩ := List.mem_map.mp hd
    exact List.mem_map.mpr ⟨e, hsub e he, rfl⟩
  have hvk : ∀ d ∈ s.books.cmdHash.values, d = c ∨ d ∈ t.values := by
    intro d hd
    rcases ht with rfl | rfl
    · exact .inr hd
    · by_cases hdc : d = c
      · exact .inl hdc
      · refine .inr (Multiset.mem_coe.mp ?_)
        rw [hs.values_without hlive]
        exact (Multiset.mem_erase_of_ne hdc).mpr (Multiset.mem_coe.mpr hd)
  refine ⟨?_, ?_, fun d hd => h.other d fun he => hlive.2 (he ▸ hd)⟩
  · have hl : (s'.ledger K) = { (s.ledger K) with
        queue := c ::ₘ (s.ledger K).queue, table := (t.values : Multiset Nat) } := by
      simp only [Session.ledger, h.issued, h.called, hhash, h.tx, h.rx, hsolo]
      rw [hqm]
      rfl
    rw [hl]
    rcases ht with rfl | rfl
    · exact .single (.again c (Multiset.mem_coe.mpr hc) hns)
    · refine .single (.requeue c _ ?_ hr fun hsolo => absurd hsolo hns)
      rw [hs.values_without hlive]
      exact (Multiset.cons_erase (Multiset.mem_coe.mpr hc)).symm
  · constructor
    · rw [hhash, hn]
      exact hs.filed.n_pos
    · exact hcap.trans hs.filed.capacity
    · intro e he
      rw [hhash] at he
      rw [htag']
      exact hs.filed.keys e (hsub e he)
    · intro a b ha hb ht
      rw [Books.Live, h.issued, h.called] at ha hb
      rw [htag', htag'] at ht
      exact hs.filed.tags a b ha hb ht
    · intro d hd hdt hv
      rw [h.tx] at hd
      rw [htype'] at hdt
      rw [hhash] at hv
      exact hs.filed.taken d hd hdt (hvs d hv)
    · intro d hd
      rw [h.tx] at hd
      change d ∈ (s'.books.txQueue.toList : Multiset Nat) + K ∨ _
      rw [hqm, hhash]
      rcases hs.filed.kept d hd with hm | hm
      · exact .inl (Multiset.mem_cons_of_mem hm)
      · exact (hvk d hm).imp_left fun he => Multiset.mem_cons.mpr (.inl he)
    · intro hw
      rw [h.started] at hw
      rw [h.tx, h.rx]
      exact hs.filed.workers hw

theorem step_rxHandling {carried : List Nat} (hs : Custody carried s) {p : RxPdu}
    (hr : s.rx = .handling (some c) p) (ho : s.rxOrderly carried) {f : Flags → Flags}
    (hf : ∀ g, (f g).started = g.started) {q : RxPhase}
    (hq : q.holds = none) : ensures (handleFor env cfg c p)
      (fun _ s' => Step carried carried s { s' with flags := f s'.flags, rx := q }) s := by
  have hh : s.rx.holds = some c := by rw [hr]; rfl
  have hc := hs.receiving hh
  have hlive := hs.outstanding hc
  have hne : s.rx ≠ .exited := by simp [hr]
  -- As far as the ledger goes, the worker lets go of the command first.
  have h₁ : Step carried carried s { s with rx := q } :=
    step_rx (f := s.flags) hs hne rfl fun d hd => by
    simp [hq] at hd
  have hs₁ := h₁.custody hs
  have hnone : q.holds ≠ some c := by simp [hq]
  rw [Session.rxOrderly, hr] at ho
  have last : ∀ {s₁ : Session}, Step carried carried { s with rx := q } { s₁ with rx := q } →
      Step carried carried s { s₁ with flags := f s₁.flags, rx := q } := fun {s₁} h₂ => by
    have h := h₁.trans h₂ rfl
    exact ⟨h.moves, h.filed.setFlags fun hst => hf s₁.flags ▸ hst, h.untouched⟩
  by_cases hop : iscsiOpcode p.header = opR2t
  · rw [handleFor_r2t env cfg c p hop]
    refine (scsiR2tRxI_spec c p s).mono fun ok s₁ h₂ => last ?_
    obtain ⟨hcount, hend⟩ := h₂
    have hcount' : R2tCounted c { s with rx := q } { s₁ with rx := q } :=
      ⟨hcount.issued, hcount.called, hcount.tx, rfl, hcount.stopping, hcount.started,
        hcount.answers, hcount.other, hcount.key, hcount.body⟩
    cases hend with
    | refused htx hhash _ =>
      exact (hcount'.still htx hhash).step hs₁ hlive hcount'.other
    | lost htx hfull hhash _ r hbody _ _ hreach =>
      have hroom : s.books.room = true := ho.2 (by simp [Session.reaches, hbody, hop, hreach])
      rw [hfull] at hroom
      exact nomatch hroom
    | queued r hbody _ _ _ htx hcap hhash _ =>
      refine step_of_queued hs₁ hc hnone (by rw [hbody]; rfl) ?_ hcount' htx hcap hhash
      split
      · exact .inr rfl
      · exact .inl rfl
  · refine (handleFor_spec env cfg c p hop).mono fun ok s₁ h₂ => last ?_
    rcases h₂ with h | ⟨hcomp, h⟩
    · have h' : Same c { s with rx := q } { s₁ with rx := q } :=
        ⟨h.txQueue, h.cmdHash, h.issued, h.called, h.tx, rfl, h.stopping, h.started, h.accepted,
          h.answers, h.other, h.key⟩
      exact h'.still.step hs₁ hlive h'.other
    · have h' : Completed c { s with rx := q } { s₁ with rx := q } :=
        ⟨h.txQueue, h.cmdHash, h.issued, h.called, h.tx, rfl, h.stopping, h.started, h.accepted,
          h.answers, h.other, h.key⟩
      obtain ⟨hnq, hnK, hnt⟩ := ho.1 hcomp
      exact step_of_absent hs₁ hlive hnt hnone hnq (Multiset.mem_coe.not.mpr hnK) h'

theorem rx_step {carried : List Nat} (hs : Custody carried s) (ho : s.rxOrderly carried)
    (inp : Option RxPdu) :
    ensures (rxWorkerProcI env cfg inp) (fun _ s' => Step carried carried s s') s := by
  cases hr : s.rx with
  | idle => exact step_rxIdle hs hr inp
  | waiting c p =>
    have hh : s.rx.holds = some c := by rw [hr]; rfl
    have hne : s.rx ≠ .exited := by simp [hr]
    simp only [ensures, rxWorkerProcI, wp_bind, wp_get, hr, wp_getCmd]
    refine (wp_guarded _ _).mpr ⟨fun _ => ?_, fun _ => .refl hs.filed⟩
    refine step_rx (f := s.flags) hs hne rfl fun d hd => ?_
    obtain rfl : c = d := Option.some.inj hd
    exact hs.receiving hh
  | handling o p =>
    have hne : s.rx ≠ .exited := by simp [hr]
    simp only [ensures, rxWorkerProcI, wp_bind, wp_get, hr]
    rcases o with _ | c
    · have hstop : ∀ {s₁ : Session} {f : Flags} {q : RxPhase}, (∀ c, Same c s s₁) →
          f.started = s₁.flags.started → q.holds = none →
          Step carried carried s { s₁ with flags := f, rx := q } := fun h₁ hf hq => by
        have h := step_of_forall_same hs h₁
        refine h.trans (step_rx (h.custody hs) ?_ hf ?_) (h₁ 0).called
        · rw [(h₁ 0).rx]
          exact hne
        · intro d hd
          simp [hq] at hd
      refine (ensures_forall fun d => (same_handleAlone d p).run s).mono fun ok s₁ h₁ => ?_
      refine (wp_ite _ _ _).mpr ⟨fun _ => ?_, fun _ => ?_⟩
      · exact hstop (f := s₁.flags) h₁ rfl rfl
      · rw [wp_rxFailure]
        exact hstop h₁ rfl rfl
    · have hidle : ensures (handleFor env cfg c p)
          (fun _ s' => Step carried carried s { s' with flags := id s'.flags, rx := .idle }) s :=
        step_rxHandling hs hr ho (fun _ => rfl) rfl
      have hexit : ensures (handleFor env cfg c p) (fun _ s' => Step carried carried s
          { s' with flags := { s'.flags with error := true }, rx := .exited }) s :=
        step_rxHandling (f := fun g => { g with error := true }) hs hr ho (fun _ => rfl) rfl
      refine wp_mono (wp_and hidle hexit) (fun ok s₁ h => ?_) fun _ _ _ => trivial
      exact (wp_ite _ _ _).mpr ⟨fun _ => h.1, fun _ => h.2⟩
  | exited =>
    simp only [ensures, rxWorkerProcI, wp_bind, wp_get, hr]
    exact .refl hs.filed

/-! ## The other events -/

/-- A new command is queued. -/
theorem submit_step (hs : Custody K s) (hc : c ∉ s.books.issued) {t : InitiatorCmd}
    (hfree : s.free t.tag) : ensures (submit c t) (fun _ s' => Step K K s s') s := by
  have old : ∀ d, s.books.Live d → d ≠ c := fun d hd he => hc (he ▸ hd.1)
  have ht : ∀ d, s.books.Live d → (s.books.mem d).tag ≠ t.tag := fun d hd =>
    hfree d hd.1 (.inl hd)
  simp only [ensures, submit, wp_bind]
  rw [wp_queueInsert]
  refine ⟨fun _ => .refl hs.filed, fun q hq => ?_⟩
  obtain ⟨hl, hcap⟩ := Fifo.insert_some hq
  have hother : ∀ d, d ≠ c → Function.update s.books.mem c t d = s.books.mem d := fun d hd =>
    Function.update_of_ne hd _ _
  have hself : Function.update s.books.mem c t c = t := Function.update_self _ _ _
  have hqm : (q.toList : Multiset Nat) + K = c ::ₘ (s.ledger K).queue :=
    queue_append hl
  refine (wp_ite _ _ _).mpr ⟨fun _ => ?_, fun h => absurd rfl h⟩
  simp only [wp_bind, wp_modifyCmd, wp_modify]
  refine ⟨?_, ?_, fun d hd => hother d fun he => hc (he ▸ hs.sound.done_issued d hd)⟩
  · have hmove := Ledger.Move.issue (l := s.ledger K) c
      (fun d => (Function.update s.books.mem c t d).body.type ≠ .scsi) hc
      (fun d hd => by simp only [hother d hd, Session.ledger])
    rw [← hqm] at hmove
    exact .single hmove
  · have hlive : ∀ d, (d ∈ s.books.issued ++ [c] ∧ d ∉ s.books.called) → d ≠ c →
        s.books.Live d := by
      rintro d ⟨hi, hd⟩ hne
      rcases List.mem_append.mp hi with hi | hi
      · exact ⟨hi, hd⟩
      · exact absurd (List.mem_singleton.mp hi) hne
    have hval : ∀ d ∈ s.books.cmdHash.values, d ≠ c := fun d hd => old d (hs.outstanding hd)
    constructor
    · exact hs.filed.n_pos
    · exact hcap.trans hs.filed.capacity
    · intro e he
      have hne := hval e.2 (List.mem_map.mpr ⟨e, he, rfl⟩)
      exact (hs.filed.keys e he).trans (congrArg InitiatorCmd.tag (hother e.2 hne).symm)
    · intro a b ha hb hab
      change (Function.update s.books.mem c t a).tag = (Function.update s.books.mem c t b).tag
        at hab
      rcases eq_or_ne a c with rfl | hac <;> rcases eq_or_ne b a with rfl | hba
      · rfl
      · have hb' := hlive b hb hba
        rw [hself, hother b hba] at hab
        exact absurd hab.symm (ht b hb')
      · rfl
      · rcases eq_or_ne b c with rfl | hbc
        · have ha' := hlive a ha hac
          rw [hself, hother a hac] at hab
          exact absurd hab (ht a ha')
        · rw [hother a hac, hother b hbc] at hab
          exact hs.filed.tags a b (hlive a ha hac) (hlive b hb hbc) hab
    · intro d hd hdt
      have hne : d ≠ c := old d (hs.sending (by
        change s.tx = .taken d at hd
        rw [hd]
        rfl))
      change (Function.update s.books.mem c t d).body.type ≠ .scsi at hdt
      rw [hother d hne] at hdt
      exact hs.filed.taken d hd hdt
    · intro d hd
      refine (hs.filed.kept d hd).imp_left fun hm => ?_
      change d ∈ (q.toList : Multiset Nat) + K
      rw [hqm]
      exact Multiset.mem_cons_of_mem hm
    · exact hs.filed.workers

/-- The session manager changes the variables and the flags. -/
theorem step_vars (hs : Custody K s) {v : Vars} {f : Flags} {b : Bool} {l : List (Nat × R2t)}
    {m : List (Nat × List WriteData)} (hf : f.started = false → s.flags.started = false) :
    Step K K s { s with vars := v, flags := f, stopping := b, accepted := l, answers := m } :=
  ⟨.refl, ⟨hs.filed.n_pos, hs.filed.capacity, hs.filed.keys, hs.filed.tags, hs.filed.taken,
    hs.filed.kept, fun h => hs.filed.workers (hf h)⟩, fun _ _ => rfl⟩

theorem start_step (hs : Custody K s) (params : ParamState) :
    ensures (sessionInitI cfg params) (fun _ s' => Step K K s s') s := by
  simp only [ensures, sessionInitI, wp_bind, wp_getFlags]
  refine (wp_ite _ _ _).mpr ⟨fun hz => ?_, fun _ => .refl hs.filed⟩
  obtain ⟨htx, hrx⟩ := hs.filed.workers (by rw [hz]; rfl)
  simp only [wp_bind, wp_modifyFlags, wp_modifyVars, wp_modify]
  refine ⟨?_, ?_, fun _ _ => rfl⟩
  · have hl : ∀ t : Session, t.books = s.books → t.tx = .idle → t.rx = .idle →
        Ledger.Moves (s.ledger K) (t.ledger K) := by
      intro t hb ht hr
      have he : (t.ledger K) = (s.ledger K) := by
        simp only [Session.ledger, hb, ht, hr, htx, hrx, TxPhase.holds, RxPhase.holds]
      rw [he]
    exact hl _ rfl rfl rfl
  · refine ⟨hs.filed.n_pos, hs.filed.capacity, hs.filed.keys, hs.filed.tags, ?_, ?_, ?_⟩
    · exact fun d hd => by cases hd
    · exact fun d hd => by simp at hd
    · exact fun h => by cases h

end Ost.Initiator
