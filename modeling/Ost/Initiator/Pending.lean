import Ost.Initiator.Recovery

/-!
# Commands with an R2T pending

An R2T puts a command that is outstanding into the tx queue once more, and `r2t_request`
counts how often.  `Tally` says how this count, the queue and the hash fit together, in every
run in which the callers submit and abort as they should and a session is not recovered while
an R2T waits in its queue.  Nothing is asked of the target, of the order of the steps, or of
the transmissions.
-/

namespace Ost.Initiator

open Ost.Iscsi Ost.Util Ost.Param Ost.Prog

/-! ## The invariant -/

/-- The commands that a session knows are told apart by their tags. -/
structure Roster (s : Session) : Prop where
  keys : ∀ e ∈ s.books.cmdHash.entries, e.1 = (s.books.mem e.2).tag
  capacity : s.books.txQueue.capacity = configInitiatorQueueDepth
  issued : ∀ c, s.Has c → c ∈ s.books.issued
  tags : ∀ c d, s.Knows c → s.Knows d → (s.books.mem c).tag = (s.books.mem d).tag → c = d

/-- Whether the worker has taken the command from the queue and not yet executed it. -/
def TxPhase.works (c : Nat) : TxPhase → Bool
  | .taken d | .hashed d | .sending d => d == c
  | .idle | .sent _ | .exited => false

/-- How often a command waits for its execution. -/
def Session.copies (s : Session) (c : Nat) : Nat :=
  s.books.txQueue.toList.count c + (s.tx.works c).toNat

/-- A SCSI command with an R2T that has not been answered. -/
def InitiatorCmd.pending (t : InitiatorCmd) : Prop := t.body.type = .scsi ∧ t.r2tRequest ≠ 0

instance (t : InitiatorCmd) : Decidable t.pending := inferInstanceAs (Decidable (_ ∧ _))

/-- How often the command may wait for its execution. -/
def InitiatorCmd.bound (t : InitiatorCmd) : Nat := if t.pending then t.r2tRequest else 1

/-- How the places of a command fit its count of R2Ts.  `Z` is what holds of a command that has not
been sent. -/
structure Tally (Z : Body → Prop) (s : Session) (c : Nat) : Prop where
  count : s.copies c ≤ (s.books.mem c).bound
  /-- Without an R2T, a command that is outstanding or has just been sent does not wait. -/
  quiet : ¬(s.books.mem c).pending → c ∈ s.books.cmdHash.values ∨ s.tx = .sent c →
    c ∉ s.books.txQueue.toList ∧ s.tx ≠ .taken c
  /-- A SCSI command that waits without an R2T has not been sent, so the Rx worker does not work on
  it. -/
  first : (s.books.mem c).body.type = .scsi → ¬(s.books.mem c).pending → 0 < s.copies c →
    (s.books.mem c).txDone = false ∧ (∀ p, s.rx ≠ .handling (some c) p) ∧ Z (s.books.mem c).body

/-- The invariant of a session. -/
structure Counted (Z : Body → Prop) (s : Session) : Prop where
  roster : Roster s
  tally : ∀ c, Tally Z s c

/-! ## The condition -/

/-- A session is recovered only while no R2T waits in its queue, and the SCSI commands that are
submitted satisfy `Z`. -/
def Settling (Z : Body → Prop) (s : Session) (e : Event) : Prop :=
  Offered s e ∧ match e with
    | .enqueue _ _ body _ => body.type = .scsi → Z body
    | .destroy => s.stopped → ∀ c ∈ s.books.txQueue.toList, (s.books.mem c).r2tRequest = 0
    | _ => True

instance (Z : Body → Prop) [DecidablePred Z] (s : Session) : ∀ e, Decidable (Settling Z s e)
  | .enqueue c tag body ok =>
    inferInstanceAs (Decidable (Offered s (.enqueue c tag body ok) ∧ (body.type = .scsi → Z body)))
  | .destroy =>
    inferInstanceAs (Decidable (Offered s .destroy ∧
      (s.stopped → ∀ c ∈ s.books.txQueue.toList, (s.books.mem c).r2tRequest = 0)))
  | .start _ | .fullFeature | .control .. | .tx | .rx _ | .abort _ | .fail | .stop =>
    inferInstanceAs (Decidable (Offered s _ ∧ True))

/-! ## What becomes less -/

variable {Z : Body → Prop} {s s' : Session} {c : Nat} {env : Env} {cfg : TargetConfig}

/-- The session knows no more than before. -/
theorem Roster.mono (h : Roster s) (hentries : ∀ e ∈ s'.books.cmdHash.entries,
      e ∈ s.books.cmdHash.entries)
    (hcap : s'.books.txQueue.capacity = s.books.txQueue.capacity)
    (hissued : s'.books.issued = s.books.issued)
    (hcalled : ∀ d ∈ s.books.called, d ∈ s'.books.called) (hhas : ∀ d, s'.Has d → s.Has d)
    (htag : ∀ d, (s'.books.mem d).tag = (s.books.mem d).tag) : Roster s' where
  keys e he := by
    rw [htag]
    exact h.keys e (hentries e he)
  capacity := hcap.trans h.capacity
  issued d hd := by
    rw [hissued]
    exact h.issued d (hhas d hd)
  tags a b ha hb hab := by
    have knows : ∀ d, s'.Knows d → s.Knows d := by
      intro d hd
      refine hd.imp (fun hl => ?_) (hhas d)
      rw [Books.Live, hissued] at hl
      exact ⟨hl.1, fun hm => hl.2 (hcalled d hm)⟩
    rw [htag, htag] at hab
    exact h.tags a b (knows a ha) (knows b hb) hab

/-- A step leaves what is to be sent of a SCSI command alone, unless the Rx worker works on the
command. -/
def Unsent (c : Nat) (s s' : Session) : Prop :=
  (s.books.mem c).body.type = .scsi → ¬(s.books.mem c).pending →
    (∀ p, s.rx ≠ .handling (some c) p) → 0 < s'.copies c →
      (s'.books.mem c).body = (s.books.mem c).body

/-- The command has fewer places than before. -/
theorem Tally.mono (h : Tally Z s c)
    (htype : (s'.books.mem c).body.type = (s.books.mem c).body.type)
    (hr2t : (s'.books.mem c).r2tRequest = (s.books.mem c).r2tRequest)
    (hdone : (s'.books.mem c).txDone = (s.books.mem c).txDone)
    (hqueue : s'.books.txQueue.toList.count c ≤ s.books.txQueue.toList.count c)
    (hworks : s'.tx.works c = true → s.tx.works c = true)
    (htaken : s'.tx = .taken c → s.tx = .taken c)
    (hvalues : c ∈ s'.books.cmdHash.values ∨ s'.tx = .sent c →
      c ∈ s.books.cmdHash.values ∨ s.tx = .sent c)
    (hrx : ∀ p, s'.rx = .handling (some c) p → s.rx = .handling (some c) p)
    (hbody : Unsent c s s') : Tally Z s' c := by
  have hpending : (s'.books.mem c).pending ↔ (s.books.mem c).pending := by
    simp only [InitiatorCmd.pending, htype, hr2t]
  have hbound : (s'.books.mem c).bound = (s.books.mem c).bound := by
    simp only [InitiatorCmd.bound, hpending, hr2t]
  have hcopies : s'.copies c ≤ s.copies c := by
    refine Nat.add_le_add hqueue ?_
    cases hw : s'.tx.works c
    · exact Nat.zero_le _
    · rw [hworks hw]
  constructor
  · rw [hbound]
    exact hcopies.trans h.count
  · intro hp hv
    rw [hpending] at hp
    obtain ⟨h₁, h₂⟩ := h.quiet hp (hvalues hv)
    refine ⟨fun hm => h₁ (List.count_pos_iff.mp ?_), fun ht => h₂ (htaken ht)⟩
    exact (List.count_pos_iff.mpr hm).trans_le hqueue
  · intro ht hp hpos
    rw [htype] at ht
    rw [hpending] at hp
    obtain ⟨h₁, h₂, h₃⟩ := h.first ht hp (hpos.trans_le hcopies)
    exact ⟨hdone.trans h₁, fun p hr => h₂ p (hrx p hr), (hbody ht hp h₂ hpos).symm ▸ h₃⟩

namespace Counted

/-- Nothing has more places than before, and the commands are as they were. -/
theorem mono (h : Counted Z s) (hentries : ∀ e ∈ s'.books.cmdHash.entries,
      e ∈ s.books.cmdHash.entries)
    (hcap : s'.books.txQueue.capacity = s.books.txQueue.capacity)
    (hissued : s'.books.issued = s.books.issued)
    (hcalled : ∀ d ∈ s.books.called, d ∈ s'.books.called)
    (hqueue : ∀ d, s'.books.txQueue.toList.count d ≤ s.books.txQueue.toList.count d)
    (htx : s'.tx = s.tx ∨ s'.tx = .idle ∨ s'.tx = .exited)
    (hrx : ∀ d, s'.rx.holds = some d → s.Has d)
    (hhandling : ∀ d p, s'.rx = .handling (some d) p → s.rx = .handling (some d) p)
    (htype : ∀ d, (s'.books.mem d).body.type = (s.books.mem d).body.type)
    (htag : ∀ d, (s'.books.mem d).tag = (s.books.mem d).tag)
    (hr2t : ∀ d, (s'.books.mem d).r2tRequest = (s.books.mem d).r2tRequest)
    (hdone : ∀ d, (s'.books.mem d).txDone = (s.books.mem d).txDone)
    (hbody : ∀ d, Unsent d s s') : Counted Z s' := by
  have hvalues : ∀ d ∈ s'.books.cmdHash.values, d ∈ s.books.cmdHash.values := by
    intro d hd
    obtain ⟨e, he, rfl⟩ := List.mem_map.mp hd
    exact List.mem_map.mpr ⟨e, hentries e he, rfl⟩
  have hq : ∀ d ∈ s'.books.txQueue.toList, d ∈ s.books.txQueue.toList := fun d hd =>
    List.count_pos_iff.mp ((List.count_pos_iff.mpr hd).trans_le (hqueue d))
  refine ⟨h.roster.mono hentries hcap hissued hcalled ?_ htag, fun d => ?_⟩
  · rintro d (hd | hd | hd | hd)
    · exact .inl (hq d hd)
    · exact .inr (.inl (hvalues d hd))
    · refine .inr (.inr (.inl ?_))
      rcases htx with ht | ht | ht <;> rw [ht] at hd
      · exact hd
      · exact nomatch hd
      · exact nomatch hd
    · exact hrx d hd
  · refine (h.tally d).mono (htype d) (hr2t d) (hdone d) (hqueue d) ?_ ?_ ?_
      (hhandling d) ?_
    · rcases htx with ht | ht | ht <;> rw [ht] <;> simp [TxPhase.works]
    · rcases htx with ht | ht | ht <;> rw [ht] <;> simp
    · rcases htx with ht | ht | ht <;> rw [ht]
      · exact Or.imp_left (hvalues d)
      · exact fun hd => .inl (hvalues d (hd.resolve_right (by simp)))
      · exact fun hd => .inl (hvalues d (hd.resolve_right (by simp)))
    · exact hbody d

/-- A handler that leaves its command outstanding; the Tx worker may give up. -/
theorem of_same (h : Counted Z s) (hs : Same c s s') {f : Flags} {p : TxPhase}
    (hp : p = s'.tx ∨ p = .idle ∨ p = .exited)
    (hbody : Unsent c s { s' with flags := f, tx := p }) :
    Counted Z { s' with flags := f, tx := p } := by
  refine h.mono (by simp [hs.cmdHash]) (by rw [hs.txQueue]) hs.issued (by simp [hs.called])
    (by simp [hs.txQueue]) (by rw [← hs.tx]; exact hp)
    (fun d hd => .inr (.inr (.inr (hs.rx ▸ hd)))) (fun d p hp => hs.rx ▸ hp)
    (fun d => congrArg CmdKey.type (hs.key_eq d)) hs.tag_eq
    (fun d => congrArg CmdKey.r2tRequest (hs.key_eq d))
    (fun d => congrArg CmdKey.txDone (hs.key_eq d)) fun d => ?_
  by_cases hd : d = c
  · exact hd ▸ hbody
  · exact fun _ _ _ _ => congrArg InitiatorCmd.body (hs.other d hd)

/-- A handler that completes its command. -/
theorem of_completed (h : Counted Z s) (hs : Completed c s s') (hbody : Unsent c s s') :
    Counted Z s' := by
  have hkey : ∀ d, (s'.books.mem d).key = (s.books.mem d).key := by
    intro d
    by_cases hd : d = c
    · rw [hd]
      exact hs.key
    · rw [hs.other d hd]
  refine h.mono ?_ (by rw [hs.txQueue]) hs.issued (by simp +contextual [hs.called])
    (by simp [hs.txQueue]) (.inl hs.tx) (fun d hd => .inr (.inr (.inr (hs.rx ▸ hd))))
    (fun d p hp => hs.rx ▸ hp) (fun d => congrArg CmdKey.type (hkey d))
    (fun d => congrArg CmdKey.tag (hkey d)) (fun d => congrArg CmdKey.r2tRequest (hkey d))
    (fun d => congrArg CmdKey.txDone (hkey d)) fun d => ?_
  · intro e he
    rw [hs.cmdHash] at he
    exact TagHash.entries_without_subset he
  · by_cases hd : d = c
    · exact hd ▸ hbody
    · exact fun _ _ _ _ => congrArg InitiatorCmd.body (hs.other d hd)

theorem of_ended (h : Counted Z s) (hs : Ended c s s') (hbody : Unsent c s s') : Counted Z s' :=
  hs.elim (fun hs => h.of_same (f := s'.flags) hs (.inl rfl) hbody) fun hs =>
    h.of_completed hs hbody

/-- A step that leaves all commands alone. -/
theorem of_same_all (h : Counted Z s) (hs : ∀ c, Same c s s') : Counted Z s' :=
  h.of_same (f := s'.flags) (hs 0) (.inl rfl) fun _ _ _ _ =>
    congrArg InitiatorCmd.body ((hs 1).other 0 Nat.zero_ne_one)

/-- The Tx worker is idle again, or has stopped. -/
theorem setTx (h : Counted Z s) {f : Flags} {p : TxPhase} (hp : p = .idle ∨ p = .exited) :
    Counted Z { s with flags := f, tx := p } :=
  h.of_same (c := 0) (refl s) (.inr hp) fun _ _ _ _ => rfl

/-- The Rx worker turns to another PDU, or stops. -/
theorem setRx (h : Counted Z s) {f : Flags} {p : RxPhase} (hp : ∀ d, p.holds = some d → s.Has d)
    (hh : ∀ d q, p ≠ .handling (some d) q) : Counted Z { s with flags := f, rx := p } :=
  h.mono (fun _ he => he) rfl rfl (fun _ hd => hd) (fun _ => le_refl _) (.inl rfl) hp
    (fun d q hq => absurd hq (hh d q)) (fun _ => rfl) (fun _ => rfl) (fun _ => rfl) (fun _ => rfl)
    fun _ _ _ _ _ => rfl

/-- The session manager changes the variables and the flags. -/
theorem setVars (h : Counted Z s) {v : Vars} {f : Flags} {b : Bool} {l : List (Nat × R2t)}
    {m : List (Nat × List WriteData)} :
    Counted Z { s with vars := v, flags := f, stopping := b, accepted := l, answers := m } :=
  h.mono (fun _ he => he) rfl rfl (fun _ hd => hd) (fun _ => le_refl _) (.inl rfl)
    (fun _ hd => .inr (.inr (.inr hd))) (fun _ _ hr => hr) (fun _ => rfl) (fun _ => rfl)
    (fun _ => rfl) (fun _ => rfl) fun _ _ _ _ _ => rfl

end Counted

/-! ## The Tx worker -/

theorem works_iff {p : TxPhase} : p.works c = true ↔
    p = .taken c ∨ p = .hashed c ∨ p = .sending c := by
  cases p <;> simp [TxPhase.works]

theorem copies_of_works (h : s.tx.works c = true) :
    s.copies c = s.books.txQueue.toList.count c + 1 := by
  rw [Session.copies, h]
  rfl

theorem bound_of_not_pending {t : InitiatorCmd} (h : ¬t.pending) : t.bound = 1 := if_neg h

/-- A command in the hands of the worker that has no R2T is not queued as well. -/
theorem Tally.notMem_of_works (h : Tally Z s c) (hw : s.tx.works c = true)
    (hp : ¬(s.books.mem c).pending) : c ∉ s.books.txQueue.toList := by
  have := h.count
  rw [copies_of_works hw, bound_of_not_pending hp] at this
  exact List.count_eq_zero.mp (by omega)

theorem copies_take (ht : s.tx = .idle) {q : Fifo Nat}
    (hl : s.books.txQueue.toList = c :: q.toList) (d : Nat) :
    ({ s.setBooks { s.books with txQueue := q } with tx := .taken c } : Session).copies d =
      s.copies d := by
  simp only [Session.copies, Session.setBooks, ht, hl, TxPhase.works, List.count_cons]
  by_cases hcd : c = d
  · simp [hcd]
  · simp [hcd]

theorem copies_putBack (ht : s.tx = .taken c) {q : Fifo Nat}
    (hl : q.toList = s.books.txQueue.toList ++ [c]) (d : Nat) :
    ({ s.setBooks { s.books with txQueue := q } with tx := .idle } : Session).copies d =
      s.copies d := by
  simp only [Session.copies, Session.setBooks, ht, hl, TxPhase.works, List.count_append]
  by_cases hcd : c = d
  · simp [hcd]
  · simp [hcd]

theorem copies_register (ht : s.tx = .taken c) {t : TagHash Nat} (d : Nat) :
    ({ s.setBooks { s.books with cmdHash := t } with tx := .hashed c } : Session).copies d =
      s.copies d := by
  simp only [Session.copies, Session.setBooks, ht, TxPhase.works]

/-- The worker takes a command from the queue. -/
theorem Counted.take (h : Counted Z s) (ht : s.tx = .idle) {q : Fifo Nat}
    (hq : s.books.txQueue.remove = some (c, q)) :
    Counted Z { s.setBooks { s.books with txQueue := q } with tx := .taken c } := by
  obtain ⟨hl, hcap⟩ := Fifo.remove_some hq
  have hm : c ∈ s.books.txQueue.toList := hl ▸ List.mem_cons_self
  have hsub : ∀ d ∈ q.toList, d ∈ s.books.txQueue.toList := fun d hd =>
    hl ▸ List.mem_cons_of_mem _ hd
  refine ⟨h.roster.mono (fun _ he => he) hcap rfl (fun _ hd => hd) ?_ fun _ => rfl, fun d => ?_⟩
  · rintro d (hd | hd | hd | hd)
    · exact .inl (hsub d hd)
    · exact .inr (.inl hd)
    · obtain rfl : c = d := Option.some.inj hd
      exact .inl hm
    · exact .inr (.inr (.inr hd))
  · have hd := h.tally d
    have hcopies := copies_take ht hl d
    constructor
    · rw [hcopies]
      exact hd.count
    · intro hp hv
      have hv : d ∈ s.books.cmdHash.values := hv.resolve_right (by simp)
      obtain ⟨h₁, h₂⟩ := hd.quiet hp (.inl hv)
      refine ⟨fun hm' => h₁ (hsub d hm'), fun he => ?_⟩
      obtain rfl : c = d := TxPhase.taken.inj he
      exact h₁ hm
    · rw [hcopies]
      exact hd.first

/-- The worker puts a command back. -/
theorem Counted.putBack (h : Counted Z s) (ht : s.tx = .taken c) {q : Fifo Nat}
    (hq : s.books.txQueue.insert c = some q) :
    Counted Z { s.setBooks { s.books with txQueue := q } with tx := .idle } := by
  obtain ⟨hl, hcap⟩ := Fifo.insert_some hq
  have hmem : ∀ d, d ∈ q.toList ↔ d ∈ s.books.txQueue.toList ∨ d = c := by simp [hl]
  refine ⟨h.roster.mono (fun _ he => he) hcap rfl (fun _ hd => hd) ?_ fun _ => rfl, fun d => ?_⟩
  · rintro d (hd | hd | hd | hd)
    · rcases (hmem d).mp hd with hd | rfl
      · exact .inl hd
      · exact .inr (.inr (.inl (by rw [ht]; rfl)))
    · exact .inr (.inl hd)
    · exact nomatch hd
    · exact .inr (.inr (.inr hd))
  · have hd := h.tally d
    have hcopies := copies_putBack ht hl d
    constructor
    · rw [hcopies]
      exact hd.count
    · intro hp hv
      have hv : d ∈ s.books.cmdHash.values := hv.resolve_right (by simp)
      obtain ⟨h₁, h₂⟩ := hd.quiet hp (.inl hv)
      refine ⟨fun hm' => ?_, by simp⟩
      rcases (hmem d).mp hm' with hm' | rfl
      · exact h₁ hm'
      · exact h₂ ht
    · rw [hcopies]
      exact hd.first

/-- The worker adds its command to the outstanding ones. -/
theorem Counted.register (h : Counted Z s) (ht : s.tx = .taken c) {t : TagHash Nat}
    (hentries : ∀ e ∈ t.entries, e = ((s.books.mem c).tag, c) ∨ e ∈ s.books.cmdHash.entries) :
    Counted Z { s.setBooks { s.books with cmdHash := t } with tx := .hashed c } := by
  have hh : s.tx.holds = some c := by rw [ht]; rfl
  have hw : s.tx.works c = true := works_iff.mpr (.inl ht)
  have hvalues : ∀ d ∈ t.values, d = c ∨ d ∈ s.books.cmdHash.values := by
    intro d hd
    obtain ⟨e, he, rfl⟩ := List.mem_map.mp hd
    rcases hentries e he with rfl | he
    · exact .inl rfl
    · exact .inr (List.mem_map.mpr ⟨e, he, rfl⟩)
  have hhas : ∀ d, ({ s.setBooks { s.books with cmdHash := t } with tx := .hashed c } :
      Session).Has d → s.Has d := by
    rintro d (hd | hd | hd | hd)
    · exact .inl hd
    · rcases hvalues d hd with rfl | hd
      · exact .inr (.inr (.inl hh))
      · exact .inr (.inl hd)
    · exact .inr (.inr (.inl (hh.trans hd)))
    · exact .inr (.inr (.inr hd))
  refine ⟨⟨?_, h.roster.capacity, fun d hd => h.roster.issued d (hhas d hd), fun a b ha hb => ?_⟩,
    fun d => ?_⟩
  · intro e he
    rcases hentries e he with rfl | he
    · rfl
    · exact h.roster.keys e he
  · exact h.roster.tags a b (ha.imp_right (hhas a)) (hb.imp_right (hhas b))
  · have hd := h.tally d
    have hcopies := copies_register ht (t := t) d
    constructor
    · rw [hcopies]
      exact hd.count
    · intro hp hv
      refine ⟨?_, by simp⟩
      rcases hvalues d (hv.resolve_right (by simp)) with rfl | hv
      · exact hd.notMem_of_works hw hp
      · exact (hd.quiet hp (.inl hv)).1
    · rw [hcopies]
      exact hd.first

/-- Of the books only the command `c` has changed, and neither its type nor its tag. -/
structure Only (c : Nat) (s s' : Session) : Prop where
  txQueue : s'.books.txQueue = s.books.txQueue
  cmdHash : s'.books.cmdHash = s.books.cmdHash
  issued : s'.books.issued = s.books.issued
  called : s'.books.called = s.books.called
  rx : s'.rx = s.rx
  other : ∀ d, d ≠ c → s'.books.mem d = s.books.mem d
  type : (s'.books.mem c).body.type = (s.books.mem c).body.type
  tag : (s'.books.mem c).tag = (s.books.mem c).tag

/-- A command structure is replaced. -/
theorem Only.setCmd {t : InitiatorCmd} {p : TxPhase}
    (htype : t.body.type = (s.books.mem c).body.type) (htag : t.tag = (s.books.mem c).tag) :
    Only c s { s.setCmd c t with tx := p } := by
  have hself : (s.setCmd c t).books.mem c = t := Function.update_self _ _ _
  constructor <;> try rfl
  · exact fun d hd => Function.update_of_ne hd _ _
  · exact (congrArg (fun t => t.body.type) hself).trans htype
  · exact (congrArg InitiatorCmd.tag hself).trans htag

/-- The session knows the same commands, if the worker has taken no other. -/
theorem Only.roster (ho : Only c s s') (h : Roster s)
    (hholds : ∀ a, s'.tx.holds = some a → s.tx.holds = some a) : Roster s' := by
  refine h.mono ?_ (by rw [ho.txQueue]) ho.issued (by simp [ho.called]) ?_ ?_
  · exact fun e he => ho.cmdHash ▸ he
  · rintro d (hd | hd | hd | hd)
    · exact .inl (ho.txQueue ▸ hd)
    · exact .inr (.inl (ho.cmdHash ▸ hd))
    · exact .inr (.inr (.inl (hholds d hd)))
    · exact .inr (.inr (.inr (ho.rx ▸ hd)))
  · intro d
    by_cases hd : d = c
    · rw [hd]
      exact ho.tag
    · rw [ho.other d hd]

/-- The tally of the other commands. -/
theorem Only.tally {d : Nat} (ho : Only c s s') (h : Tally Z s d) (hd : d ≠ c)
    (hworks : s'.tx.works d = true → s.tx.works d = true) (htaken : s'.tx ≠ .taken d)
    (hsent : s'.tx ≠ .sent d) : Tally Z s' d := by
  have hm := ho.other d hd
  refine h.mono (by rw [hm]) (by rw [hm]) (by rw [hm]) (by rw [ho.txQueue]) hworks
    (fun he => absurd he htaken) (fun hv => ?_) (fun p hp => ho.rx ▸ hp)
    fun _ _ _ _ => congrArg InitiatorCmd.body hm
  exact .inl (ho.cmdHash ▸ hv.resolve_right hsent)

/-- `tx_done` of a command changes, and the phase of the worker with it. -/
theorem Counted.setTxDone (h : Counted Z s) (ho : Only c s s')
    (hr2t : (s'.books.mem c).r2tRequest = (s.books.mem c).r2tRequest)
    (hbody : (s'.books.mem c).body = (s.books.mem c).body)
    (hholds : ∀ a, s'.tx.holds = some a → s.tx.holds = some a)
    (hworks : ∀ a, s'.tx.works a = true → s.tx.works a = true) (htaken : ∀ a, s'.tx ≠ .taken a)
    (hsent : ∀ a, s'.tx ≠ .sent a)
    (hd : (s'.books.mem c).txDone = true → ¬(s.books.mem c).pending →
      c ∉ s.books.txQueue.toList ∧ s'.tx.works c = false) : Counted Z s' := by
  refine ⟨ho.roster h.roster hholds, fun a => ?_⟩
  by_cases ha : a = c
  · subst ha
    have hc := h.tally a
    have hpending : (s'.books.mem a).pending ↔ (s.books.mem a).pending := by
      simp only [InitiatorCmd.pending, ho.type, hr2t]
    have hbound : (s'.books.mem a).bound = (s.books.mem a).bound := by
      simp only [InitiatorCmd.bound, hpending, hr2t]
    have hcopies : s'.copies a ≤ s.copies a := by
      rw [Session.copies, Session.copies, ho.txQueue]
      refine Nat.add_le_add_left ?_ _
      cases hw : s'.tx.works a
      · exact Nat.zero_le _
      · rw [hworks a hw]
    constructor
    · rw [hbound]
      exact hcopies.trans hc.count
    · intro hp hv
      rw [ho.cmdHash] at hv
      rw [ho.txQueue]
      exact ⟨(hc.quiet (hpending.not.mp hp) (.inl (hv.resolve_right (hsent a)))).1, htaken a⟩
    · intro htype hp hpos
      obtain ⟨-, h₂, h₃⟩ := hc.first (ho.type ▸ htype) (hpending.not.mp hp)
        (hpos.trans_le hcopies)
      refine ⟨?_, fun p hr => h₂ p (ho.rx ▸ hr), hbody.symm ▸ h₃⟩
      cases hdd : (s'.books.mem a).txDone
      · rfl
      · obtain ⟨h₄, h₅⟩ := hd hdd (hpending.not.mp hp)
        rw [Session.copies, h₅, ho.txQueue, List.count_eq_zero_of_not_mem h₄] at hpos
        exact absurd hpos (lt_irrefl _)
  · exact ho.tally (h.tally a) ha (hworks a) (htaken a) (hsent a)

/-- The worker has sent a command. -/
theorem Counted.toSent (h : Counted Z s) (ht : s.tx = .sending c) (ho : Only c s s')
    (hr2t : (s.books.mem c).body.type = .scsi →
      (s'.books.mem c).r2tRequest = (s.books.mem c).r2tRequest - 1) (ht' : s'.tx = .sent c) :
    Counted Z s' := by
  have hw : s.tx.works c = true := works_iff.mpr (.inr (.inr ht))
  have hnw : ∀ a, s'.tx.works a = true → s.tx.works a = true := by simp [ht', TxPhase.works]
  refine ⟨ho.roster h.roster fun a ha => ?_, fun d => ?_⟩
  · rw [ht'] at ha
    rw [ht]
    exact ha
  by_cases hd : d = c
  · subst hd
    have hc := (h.tally d).count
    rw [copies_of_works hw] at hc
    have hcopies : s'.copies d = s.books.txQueue.toList.count d := by
      simp [Session.copies, ho.txQueue, ht', TxPhase.works]
    -- One copy less, and one R2T less.
    have hzero : ¬(s'.books.mem d).pending → s.books.txQueue.toList.count d = 0 := by
      intro hp
      unfold InitiatorCmd.bound at hc
      split at hc
      · rename_i hp'
        have : (s.books.mem d).r2tRequest - 1 = 0 := by
          by_contra hne
          exact hp ⟨ho.type.trans hp'.1, hr2t hp'.1 ▸ hne⟩
        omega
      · omega
    constructor
    · rw [hcopies]
      by_cases hp : (s'.books.mem d).pending
      · have htype : (s.books.mem d).body.type = .scsi := ho.type ▸ hp.1
        have hp' : (s.books.mem d).pending := ⟨htype, fun h0 => hp.2 (by rw [hr2t htype, h0])⟩
        rw [InitiatorCmd.bound, if_pos hp, hr2t htype]
        rw [InitiatorCmd.bound, if_pos hp'] at hc
        omega
      · rw [hzero hp]
        exact Nat.zero_le _
    · intro hp _
      rw [ho.txQueue, ht']
      exact ⟨List.count_eq_zero.mp (hzero hp), by simp⟩
    · intro _ hp hpos
      rw [hcopies, hzero hp] at hpos
      exact absurd hpos (lt_irrefl _)
  · refine ho.tally (h.tally d) hd (hnw d) (by simp [ht']) ?_
    rw [ht']
    exact fun he => hd (TxPhase.sent.inj he).symm

theorem Same.only {p : TxPhase} (h : Same c s s') : Only c s { s' with tx := p } :=
  ⟨h.txQueue, h.cmdHash, h.issued, h.called, h.rx, h.other, congrArg CmdKey.type h.key,
    congrArg CmdKey.tag h.key⟩

theorem Answered.only {ds : List WriteData} {p : TxPhase} (h : Answered c ds s s') :
    Only c s { s' with tx := p } :=
  ⟨h.txQueue, h.cmdHash, h.issued, h.called, h.rx, h.other, congrArg CmdKey.type h.key,
    congrArg CmdKey.tag h.key⟩

/-- A NOP-Out is no SCSI command. -/
theorem ne_scsi_of_isSilent {b : Body} (h : b.isSilent = true) : b.type ≠ .scsi := by
  cases b with
  | scsi q => exact nomatch h
  | _ => exact fun h => nomatch h

theorem txWorkerProcI_counted (h : Counted Z s) :
    ensures txWorkerProcI (fun _ s' => Counted Z s') s := by
  simp only [ensures, txWorkerProcI, wp_bind, wp_get]
  cases ht : s.tx with
  | idle =>
    simp only [txIdle, wp_bind, wp_get]
    refine (wp_ite _ _ _).mpr ⟨fun _ => h.setTx (f := s.flags) (.inr rfl), fun _ => ?_⟩
    rw [wp_bind, wp_queueRemove]
    refine ⟨fun _ => ?_, fun c q hr => h.take ht hr⟩
    simp only [wp_bind, wp_getVars]
    refine (wp_ite _ _ _).mpr ⟨fun _ => ?_, fun _ => h⟩
    rw [wp_bind]
    refine (ensures_forall fun c => (same_nopOutI c _).run s).mono fun x s₁ h₁ => ?_
    have h₁ := h.of_same_all h₁
    simp only [wp_bind, wp_modifyVars]
    refine (wp_ite _ _ _).mpr ⟨fun _ => ?_, fun _ => ?_⟩
    · exact h₁.setVars (f := s₁.flags)
    · exact (h₁.setVars (f := s₁.flags)).setTx (.inr rfl)
  | taken c =>
    simp only [txTaken, wp_bind, wp_getCmd, wp_getFlags]
    refine (wp_ite _ _ _).mpr ⟨fun _ => ?_, fun _ => ?_⟩
    · rw [wp_bind, wp_queueInsert]
      exact ⟨fun _ => h.setTx (.inr rfl), fun q hi => h.putBack ht hi⟩
    · simp only [wp_bind, wp_hashLookup]
      split
      · exact h.register (t := s.books.cmdHash) ht fun e he => .inr he
      · rw [wp_bind, wp_hashAdd]
        refine ⟨fun _ => h.setTx (f := s.flags) (.inr rfl),
          fun t hi => h.register ht fun e he => ?_⟩
        exact List.mem_cons.mp ((TagHash.insert_some hi).1.mem_iff.mp he)
  | hashed c =>
    simp only [txHashed, wp_bind, wp_getCmd]
    refine (wp_ite _ _ _).mpr ⟨fun _ => h.setTx (f := s.flags) (.inl rfl), fun _ => ?_⟩
    simp only [wp_bind, wp_modifyCmd]
    refine h.setTxDone (c := c) (Only.setCmd ?_ ?_) ?_ ?_ ?_ ?_ ?_ ?_ ?_
    · rfl
    · rfl
    · simp [Session.setCmd, Session.setBooks]
    · simp [Session.setCmd, Session.setBooks]
    · exact fun a ha => by rw [ht]; exact ha
    · exact fun a ha => by rw [ht]; exact ha
    · exact fun a ha => by cases ha
    · exact fun a ha => by cases ha
    · exact fun hd => by simp [Session.setCmd, Session.setBooks] at hd
  | sending c =>
    rw [wp_bind]
    refine (execute_spec c s).mono fun ok s₁ h₁ => ?_
    refine (wp_ite _ _ _).mpr ⟨fun hok => ?_, fun hok => ?_⟩
    · subst hok
      cases h₁ with
      | same _ hs hfirst =>
        refine h.toSent ht hs.only (fun htype => ?_) rfl
        have h0 := hfirst rfl htype
        have hr : (s₁.books.mem c).r2tRequest = (s.books.mem c).r2tRequest :=
          congrArg CmdKey.r2tRequest hs.key
        rw [h0] at hr ⊢
        exact hr
      | answered ds _ _ ha =>
        exact h.toSent ht ha.only (fun _ => congrArg CmdKey.r2tRequest ha.key) rfl
    · cases h₁ with
      | same _ hs _ =>
        -- Without an R2T, the command that the worker held does not wait elsewhere.
        refine h.of_same hs (.inr (.inr rfl)) fun _ hp _ hpos => ?_
        have hm := (h.tally c).notMem_of_works (works_iff.mpr (.inr (.inr ht))) hp
        simp [Session.copies, hs.txQueue, TxPhase.works, List.count_eq_zero_of_not_mem hm] at hpos
      | answered ds _ _ ha => exact absurd rfl hok
  | sent c =>
    simp only [txSent, wp_bind, wp_getCmd]
    refine (wp_ite _ _ _).mpr ⟨fun hsilent => ?_, fun _ => ?_⟩
    · rw [wp_bind]
      refine ((ended_iscsiDoneI c).run s).mono fun ok s₁ h₁ => ?_
      have h₁ := h.of_ended h₁ fun htype => absurd htype (ne_scsi_of_isSilent hsilent)
      exact (wp_ite _ _ _).mpr ⟨fun _ => h₁.setTx (f := s₁.flags) (.inl rfl),
        fun _ => h₁.setTx (.inr rfl)⟩
    · simp only [wp_bind, wp_modifyCmd]
      refine h.setTxDone (c := c) (Only.setCmd ?_ ?_) ?_ ?_ ?_ ?_ ?_ ?_ ?_
      · rfl
      · rfl
      · simp [Session.setCmd, Session.setBooks]
      · simp [Session.setCmd, Session.setBooks]
      · exact fun a ha => by cases ha
      · exact fun a ha => by cases ha
      · exact fun a ha => by cases ha
      · exact fun a ha => by cases ha
      · exact fun _ hp => ⟨((h.tally c).quiet hp (.inr ht)).1, rfl⟩
  | exited => exact h

/-! ## The Rx worker -/

/-- What the handler of an R2T may have done to the queue and the hash. -/
theorem R2tEnd.places {p : RxPdu} {ok : Bool} (he : R2tEnd c p s s' ok) :
    (s'.books.txQueue.toList = s.books.txQueue.toList ∨
      (s.books.mem c).body.type = .scsi ∧
        s'.books.txQueue.toList = s.books.txQueue.toList ++ [c]) ∧
      s'.books.txQueue.capacity = s.books.txQueue.capacity ∧
      ∀ e ∈ s'.books.cmdHash.entries, e ∈ s.books.cmdHash.entries := by
  cases he with
  | refused htx hhash _ => exact ⟨.inl (by rw [htx]), by rw [htx], by simp [hhash]⟩
  | lost htx _ hhash _ q hbody _ _ _ =>
    refine ⟨.inl (by rw [htx]), by rw [htx], fun e he => ?_⟩
    rw [hhash] at he
    exact TagHash.entries_without_subset he
  | queued q hbody _ _ _ htx hcap hhash _ =>
    refine ⟨.inr ⟨by rw [hbody]; rfl, htx⟩, hcap, fun e he => ?_⟩
    rw [hhash] at he
    split at he
    · exact TagHash.entries_without_subset he
    · exact he

/-- An R2T queues its command once more, and is counted. -/
theorem Counted.r2t (h : Counted Z s) {p : RxPdu} (hr : s.rx = .handling (some c) p)
    (hc : R2tCounted c s s') {ok : Bool} (he : R2tEnd c p s s' ok) : Counted Z s' := by
  obtain ⟨hqueue, hcap, hentries⟩ := he.places
  have htype : (s'.books.mem c).body.type = (s.books.mem c).body.type :=
    congrArg CmdKey.type hc.key
  have hr2t : (s'.books.mem c).r2tRequest = (s.books.mem c).r2tRequest + 1 :=
    congrArg CmdKey.r2tRequest hc.key
  have hvalues : ∀ d ∈ s'.books.cmdHash.values, d ∈ s.books.cmdHash.values := by
    intro d hd
    obtain ⟨e, hm, rfl⟩ := List.mem_map.mp hd
    exact List.mem_map.mpr ⟨e, hentries e hm, rfl⟩
  refine ⟨h.roster.mono hentries hcap hc.issued (by simp [hc.called]) ?_ ?_, fun d => ?_⟩
  · rintro d (hd | hd | hd | hd)
    · rcases hqueue with hq | ⟨-, hq⟩ <;> rw [hq] at hd
      · exact .inl hd
      · rcases List.mem_append.mp hd with hd | hd
        · exact .inl hd
        · obtain rfl := List.mem_singleton.mp hd
          exact .inr (.inr (.inr (by rw [hr]; rfl)))
    · exact .inr (.inl (hvalues d hd))
    · exact .inr (.inr (.inl (hc.tx ▸ hd)))
    · exact .inr (.inr (.inr (hc.rx ▸ hd)))
  · intro d
    by_cases hd : d = c
    · rw [hd]
      exact congrArg CmdKey.tag hc.key
    · rw [hc.other d hd]
  · by_cases hd : d = c
    · subst hd
      have hold := h.tally d
      constructor
      · by_cases hs : (s.books.mem d).body.type = .scsi
        · have hp' : (s'.books.mem d).pending := ⟨htype.trans hs, by rw [hr2t]; simp⟩
          rw [InitiatorCmd.bound, if_pos hp', hr2t]
          have hle : s'.copies d ≤ s.copies d + 1 := by
            rw [Session.copies, Session.copies, hc.tx]
            rcases hqueue with hq | ⟨-, hq⟩ <;> rw [hq]
            · omega
            · simp only [List.count_append, List.count_singleton_self]
              omega
          by_cases hp : (s.books.mem d).pending
          · have hcount := hold.count
            rw [InitiatorCmd.bound, if_pos hp] at hcount
            omega
          · have hzero : s.copies d = 0 := by
              by_contra hne
              exact (hold.first hs hp (Nat.pos_of_ne_zero hne)).2.1 p hr
            omega
        · have hp : ¬(s.books.mem d).pending := fun hp => hs hp.1
          have hp' : ¬(s'.books.mem d).pending := fun hp => hs (htype ▸ hp.1)
          have hq := hqueue.resolve_right fun hq => hs hq.1
          have hcount := hold.count
          rw [bound_of_not_pending hp] at hcount
          rw [bound_of_not_pending hp', Session.copies, hc.tx, hq]
          exact hcount
      · intro hp' hv
        have hs : (s.books.mem d).body.type ≠ .scsi := fun hs =>
          hp' ⟨htype.trans hs, by rw [hr2t]; simp⟩
        have hq := hqueue.resolve_right fun hq => hs hq.1
        rw [hc.tx] at hv ⊢
        rw [hq]
        exact hold.quiet (fun hp => hs hp.1) (hv.imp_left (hvalues d))
      · intro hs hp' _
        exact absurd ⟨hs, by rw [hr2t]; simp⟩ hp'
    · have hm := hc.other d hd
      refine (h.tally d).mono (by rw [hm]) (by rw [hm]) (by rw [hm]) ?_ (by rw [hc.tx]; exact id)
        (by rw [hc.tx]; exact id) ?_ (fun q hq => hc.rx ▸ hq)
        fun _ _ _ _ => congrArg InitiatorCmd.body hm
      · rcases hqueue with hq | ⟨-, hq⟩ <;> rw [hq]
        simp [List.count_append, Ne.symm hd]
      · rw [hc.tx]
        exact Or.imp_left (hvalues d)

theorem rxWorkerProcI_counted (h : Counted Z s) (inp : Option RxPdu) :
    ensures (rxWorkerProcI env cfg inp) (fun _ s' => Counted Z s') s := by
  have stop : ∀ {t : Session} {f : Flags} {p : RxPhase}, Counted Z t → p.holds = none →
      Counted Z { t with flags := f, rx := p } := fun ht hp =>
    ht.setRx (fun d hd => by simp [hp] at hd) fun d q he => by simp [he, RxPhase.holds] at hp
  cases hr : s.rx with
  | idle =>
    simp only [ensures, rxWorkerProcI, wp_bind, wp_get, hr]
    rcases inp with _ | p
    · rw [wp_rxFailure]
      exact stop h rfl
    simp only [wp_bind, wp_get]
    refine (wp_ite _ _ _).mpr ⟨fun _ => stop (f := s.flags) h rfl, fun _ => ?_⟩
    unfold rxLookup
    split
    · exact stop (f := s.flags) h rfl
    · simp only [wp_bind, wp_hashLookup]
      split
      · rename_i c hc
        refine h.setRx (f := s.flags) (fun d hd => ?_) fun _ _ he => by cases he
        obtain rfl : c = d := Option.some.inj hd
        exact .inr (.inl (List.mem_map.mpr ⟨_, TagHash.get_eq_some.mp hc, rfl⟩))
      · refine (wp_ite _ _ _).mpr ⟨fun _ => stop (f := s.flags) h rfl, fun _ => ?_⟩
        rw [wp_rxFailure]
        exact stop h rfl
  | waiting c p =>
    simp only [ensures, rxWorkerProcI, wp_bind, wp_get, hr, wp_getCmd]
    refine (wp_guarded _ _).mpr ⟨fun hdone => ?_, fun _ => h⟩
    have hhas : s.Has c := .inr (.inr (.inr (by rw [hr]; rfl)))
    refine ⟨h.roster.mono (fun _ he => he) rfl rfl (fun _ hd => hd) ?_ fun _ => rfl, fun d => ?_⟩
    · rintro d (hd | hd | hd | hd)
      · exact .inl hd
      · exact .inr (.inl hd)
      · exact .inr (.inr (.inl hd))
      · obtain rfl : c = d := Option.some.inj hd
        exact hhas
    · have hd := h.tally d
      refine ⟨hd.count, hd.quiet, fun hs hp hpos => ?_⟩
      obtain ⟨h₁, -, h₃⟩ := hd.first hs hp hpos
      refine ⟨h₁, fun q he => ?_, h₃⟩
      obtain ⟨hcd, -⟩ := RxPhase.handling.inj he
      obtain rfl := Option.some.inj hcd
      have hdone : (s.books.mem c).txDone = true := hdone
      rw [show (s.books.mem c).txDone = false from h₁] at hdone
      cases hdone
  | handling o p =>
    simp only [ensures, rxWorkerProcI, wp_bind, wp_get, hr]
    have hhandle : ensures (rxHandle env cfg o p) (fun _ s' => Counted Z s') s := by
      rcases o with _ | c
      · exact (ensures_forall fun c => (same_handleAlone c p).run s).mono fun _ _ hs =>
          h.of_same_all hs
      · by_cases hop : iscsiOpcode p.header = opR2t
        · rw [rxHandle, handleFor_r2t env cfg c p hop]
          exact (scsiR2tRxI_spec c p s).mono fun _ _ hs => h.r2t hr hs.1 hs.2
        · exact ((ended_handleFor c env cfg p hop).run s).mono fun _ _ hs =>
            h.of_ended hs fun _ _ hn _ => absurd hr (hn p)
    refine hhandle.mono fun ok s₁ h₁ => ?_
    refine (wp_ite _ _ _).mpr ⟨fun _ => stop (f := s₁.flags) h₁ rfl, fun _ => ?_⟩
    rw [wp_rxFailure]
    exact stop h₁ rfl
  | exited =>
    simp only [ensures, rxWorkerProcI, wp_bind, wp_get, hr]
    exact h

end Ost.Initiator
