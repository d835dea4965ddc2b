import Ost.Initiator.Frame

/-!
# What the steps that move commands do

One specification for each function that takes a command from one place to another:
`initiator_abort`, `scsi_r2t_rx_i`, and the execution of a command by the Tx worker.  The
invariants of a session are derived from these and from `Ended`, and do not unfold the
programs again.
-/

namespace Ost.Initiator

open Ost.Iscsi Ost.Util Ost.Param Ost.Prog

/-! ## Abort -/

/-- Whatever the queue holds, the scan leaves it as it was up to the order, or takes one command
with the tag out of it. -/
theorem abortScan_spec (tagOf : Nat → UInt32) (tag : UInt32) (n : Nat) (start : Option Nat)
    (q : Fifo Nat) :
    ∃ q', abortScan tagOf tag n start q = some q' ∧ q'.capacity = q.capacity ∧
      (q.toList.Perm q'.toList ∨ ∃ x, tagOf x = tag ∧ q.toList.Perm (x :: q'.toList)) := by
  induction n generalizing start q with
  | zero => exact ⟨q, rfl, rfl, .inl (.refl _)⟩
  | succ n ih =>
    rw [abortScan]
    rcases hr : q.remove with _ | ⟨x, q₁⟩
    · exact ⟨q, rfl, rfl, .inl (.refl _)⟩
    obtain ⟨hl, hcap⟩ := Fifo.remove_some hr
    by_cases hx : tagOf x = tag
    · exact ⟨q₁, by simp [hx], hcap, .inr ⟨x, hx, by rw [hl]⟩⟩
    have hlt : q₁.toList.length < q₁.capacity := by
      have := q.length_toList_le
      rw [hl, List.length_cons] at this
      omega
    obtain ⟨q₂, hi, hl₂, hcap₂⟩ := Fifo.insert_of_lt x hlt
    have hp : q.toList.Perm q₂.toList := by
      rw [hl, hl₂]
      exact @List.perm_append_comm _ [x] _
    simp only [hx, if_false, hi]
    split
    · exact ⟨q₂, rfl, hcap₂.trans hcap, .inl hp⟩
    · obtain ⟨q', he, hc, hq⟩ := ih (start <|> some x) q₂
      refine ⟨q', he, hc.trans (hcap₂.trans hcap), ?_⟩
      rcases hq with hq | ⟨y, hy, hq⟩
      · exact .inl (hp.trans hq)
      · exact .inr ⟨y, hy, hp.trans hq⟩

/-- A command without the tag goes to the end of the queue. -/
theorem abortScan_rotate {tagOf : Nat → UInt32} {tag : UInt32} {a : Nat} {l : List Nat}
    {q : Fifo Nat} (n : Nat) (start : Option Nat) (hq : q.toList = a :: l) (ha : tagOf a ≠ tag) :
    ∃ q', q'.toList = l ++ [a] ∧ abortScan tagOf tag (n + 1) start q =
      if start = some a then some q' else abortScan tagOf tag n (start <|> some a) q' := by
  rw [abortScan]
  rcases hr : q.remove with _ | ⟨x, q₁⟩
  · rw [Fifo.remove_none hr] at hq
    exact absurd hq.symm (List.cons_ne_nil _ _)
  obtain ⟨hl, hcap⟩ := Fifo.remove_some hr
  obtain ⟨rfl, hl'⟩ := List.cons.inj (hl.symm.trans hq)
  have hlt : q₁.toList.length < q₁.capacity := by
    have := q.length_toList_le
    rw [hl, List.length_cons] at this
    omega
  obtain ⟨q₂, hi, hl₂, -⟩ := Fifo.insert_of_lt x hlt
  refine ⟨q₂, by rw [hl₂, hl'], ?_⟩
  simp only [ha, if_false, hi]

/-- The scan finds a command that it reaches before it meets the first one again.  What stood before
it has moved to the end by then. -/
theorem abortScan_found {tagOf : Nat → UInt32} {tag : UInt32} {c : Nat} (hc : tagOf c = tag)
    {l₁ l₂ : List Nat} (hl₁ : ∀ d ∈ l₁, tagOf d ≠ tag) {n : Nat} (hn : l₁.length < n)
    {start : Option Nat} {q : Fifo Nat} (hq : q.toList = l₁ ++ c :: l₂)
    (hs : ∀ d, (start <|> l₁.head?) = some d → d ∉ (if start = none then l₁.tail else l₁)) :
    ∃ q', abortScan tagOf tag n start q = some q' ∧ q'.toList = l₂ ++ l₁ := by
  induction l₁ generalizing n start q l₂ with
  | nil =>
    obtain ⟨n, rfl⟩ := Nat.exists_eq_succ_of_ne_zero (Nat.ne_of_gt hn)
    rw [abortScan]
    rcases hr : q.remove with _ | ⟨x, q₁⟩
    · rw [Fifo.remove_none hr] at hq
      exact absurd hq.symm (List.cons_ne_nil _ _)
    obtain ⟨hl, -⟩ := Fifo.remove_some hr
    obtain ⟨rfl, hl⟩ := List.cons.inj (hl.symm.trans hq)
    exact ⟨q₁, by simp [hc], by rw [hl, List.append_nil]⟩
  | cons a l₁ ih =>
    obtain ⟨n, rfl⟩ := Nat.exists_eq_succ_of_ne_zero
      (Nat.ne_of_gt (Nat.lt_of_le_of_lt (Nat.zero_le _) hn))
    obtain ⟨q₂, hl₂, hstep⟩ := abortScan_rotate n start hq
      (hl₁ a List.mem_cons_self)
    have hsa : start ≠ some a := by
      rintro rfl
      exact hs a rfl (by simp)
    rw [hstep, if_neg hsa]
    have hq₂ : q₂.toList = l₁ ++ c :: (l₂ ++ [a]) := hl₂.trans (List.append_assoc _ _ _)
    obtain ⟨q', he, hl'⟩ : ∃ q', abortScan tagOf tag n (start <|> some a) q₂ = some q' ∧
        q'.toList = (l₂ ++ [a]) ++ l₁ := by
      refine ih (fun d hd => hl₁ d (List.mem_cons_of_mem _ hd)) (Nat.lt_of_succ_lt_succ hn) hq₂ ?_
      intro d hd
      rcases start with _ | s
      · simpa using hs d (by simpa using hd)
      · have := hs d (by simpa using hd)
        simp only [reduceCtorEq, if_false, List.mem_cons, not_or] at this ⊢
        simpa using this.2
    exact ⟨q', he, by rw [hl', List.append_assoc, List.singleton_append]⟩

/-- What aborting the command `c` does. -/
structure Aborted (c : Nat) (s s' : Session) : Prop where
  queue : abortScan (fun d => (s.books.mem d).tag) (s.books.mem c).tag
    (s.books.txQueue.toList.length + 1) none s.books.txQueue = some s'.books.txQueue
  scanned : s.books.txQueue.toList.Perm s'.books.txQueue.toList ∨
    ∃ x, (s.books.mem x).tag = (s.books.mem c).tag ∧
      s.books.txQueue.toList.Perm (x :: s'.books.txQueue.toList)
  found : (∀ d ∈ s.books.txQueue.toList, (s.books.mem d).tag = (s.books.mem c).tag → d = c) →
    (∀ d, s.books.txQueue.toList.head? = some d → s.books.txQueue.toList.count d ≤ 1) →
    (s.books.txQueue.toList.erase c).Perm s'.books.txQueue.toList
  capacity : s'.books.txQueue.capacity = s.books.txQueue.capacity
  cmdHash : s'.books.cmdHash = s.books.cmdHash.without (s.books.mem c).tag
  issued : s'.books.issued = s.books.issued
  called : s'.books.called = s.books.called ++ [c]
  tx : s'.tx = s.tx
  rx : s'.rx = s.rx
  stopping : s'.stopping = s.stopping
  started : s'.flags.started = s.flags.started
  accepted : s'.accepted = s.accepted
  answers : s'.answers = s.answers
  other : ∀ d, d ≠ c → s'.books.mem d = s.books.mem d
  key : (s'.books.mem c).key = { (s.books.mem c).key with aborted := true }
  body : (s'.books.mem c).body = (s.books.mem c).body

/-- `initiator_abort` always gets as far as the callback. -/
theorem initiatorAbort_spec (c : Nat) (s : Session) :
    wp (initiatorAbort c) (fun ok s' => ok = (s.books.mem c).callbackOk ∧ Aborted c s s')
      (fun _ _ => False) s := by
  simp only [initiatorAbort, wp_bind, wp_modifyCmd, wp_gets]
  have htag : ∀ d, ((s.setCmd c
      { s.books.mem c with status := -1, aborted := true }).books.mem d).tag =
        (s.books.mem d).tag := by
    intro d
    by_cases hd : d = c
    · subst hd
      simp [Session.setCmd, Session.setBooks]
    · simp [Session.setCmd, Session.setBooks, hd]
  obtain ⟨q, hq, hcap, hp⟩ := abortScan_spec (fun d => (s.books.mem d).tag) (s.books.mem c).tag
    (s.books.txQueue.toList.length + 1) none s.books.txQueue
  have hscan : abortScan (fun d => ((s.setCmd c { s.books.mem c with
        status := -1, aborted := true }).books.mem d).tag)
      ((s.setCmd c { s.books.mem c with status := -1, aborted := true }).books.mem c).tag
      ((s.setCmd c { s.books.mem c with
        status := -1, aborted := true }).books.txQueue.toList.length + 1) none
      (s.setCmd c { s.books.mem c with status := -1, aborted := true }).books.txQueue = some q := by
    simp only [htag]
    exact hq
  rw [hscan]
  simp only [wp_bind, wp_modify]
  set s₁ := (s.setCmd c { s.books.mem c with status := -1, aborted := true }).setBooks
    { (s.setCmd c { s.books.mem c with status := -1, aborted := true }).books with txQueue := q }
    with hs₁
  have hc : s₁.books.mem c = { s.books.mem c with status := -1, aborted := true } := by
    simp [hs₁, Session.setCmd, Session.setBooks]
  refine wp_mono (iscsiDoneI_completes c (.inr (by rw [hc]))) ?_ fun _ _ => id
  rintro ok s' ⟨hok, hbody, h⟩
  refine ⟨by rw [hok, hc], ?_⟩
  constructor
  · rw [h.txQueue]
    exact hq
  · rw [h.txQueue]
    exact hp
  · intro hu hh
    rw [h.txQueue]
    change (s.books.txQueue.toList.erase c).Perm q.toList
    by_cases hm : c ∈ s.books.txQueue.toList
    · obtain ⟨l₁, l₂, hn, hl, he⟩ := List.exists_erase_eq hm
      obtain ⟨q', hq', hp'⟩ : ∃ q', abortScan (fun d => (s.books.mem d).tag) (s.books.mem c).tag
          (s.books.txQueue.toList.length + 1) none s.books.txQueue = some q' ∧
          q'.toList = l₂ ++ l₁ := by
        refine abortScan_found rfl (fun d hd ht => hn ?_)
          (by simp only [hl, List.length_append]; omega) hl ?_
        · exact hu d (hl ▸ List.mem_append_left _ hd) ht ▸ hd
        · intro d hd hm'
          have hd' : l₁.head? = some d := hd
          rcases l₁ with _ | ⟨a, l₁⟩
          · cases hd'
          · obtain rfl : a = d := Option.some.inj hd'
            have := hh a (by simp [hl])
            have hpos : 0 < l₁.count a := List.count_pos_iff.mpr (by simpa using hm')
            rw [hl, List.cons_append, List.count_cons_self, List.count_append] at this
            omega
      obtain rfl : q' = q := Option.some.inj (hq'.symm.trans hq)
      rw [he, hp']
      exact List.perm_append_comm
    · rw [List.erase_of_not_mem hm]
      rcases hp with hp | ⟨x, hx, hp⟩
      · exact hp
      · have hxm : x ∈ s.books.txQueue.toList := hp.mem_iff.mpr List.mem_cons_self
        exact absurd (hu x hxm hx ▸ hxm) hm
  · rw [h.txQueue]
    exact hcap
  · rw [h.cmdHash, hc]
    rfl
  · exact h.issued
  · exact h.called
  · exact h.tx
  · exact h.rx
  · exact h.stopping
  · exact h.started
  · exact h.accepted
  · exact h.answers
  · exact fun d hd => (h.other d hd).trans (Function.update_of_ne hd _ _)
  · rw [h.key, hc]
    rfl
  · rw [hbody, hc]

/-! ## Receiving an R2T -/

/-- What `scsi_r2t_rx_i` leaves alone, and the count that it increments in any case. -/
structure R2tCounted (c : Nat) (s s' : Session) : Prop where
  issued : s'.books.issued = s.books.issued
  called : s'.books.called = s.books.called
  tx : s'.tx = s.tx
  rx : s'.rx = s.rx
  stopping : s'.stopping = s.stopping
  started : s'.flags.started = s.flags.started
  answers : s'.answers = s.answers
  other : ∀ d, d ≠ c → s'.books.mem d = s.books.mem d
  key : (s'.books.mem c).key = { (s.books.mem c).key with
    r2tRequest := (s.books.mem c).r2tRequest + 1, r2t := (s'.books.mem c).r2t }
  body : (s'.books.mem c).body = (s.books.mem c).body

/-- The R2T asks for the end of the transfer. -/
def R2t.reaches (r : R2t) (q : ScsiCmd) : Prop :=
  u32 (r.offset.toNat + r.length.toNat) = q.pdu.transLen

instance (r : R2t) (q : ScsiCmd) : Decidable (R2t.reaches r q) :=
  inferInstanceAs (Decidable (_ = _))

/-- How `scsi_r2t_rx_i` ends. -/
inductive R2tEnd (c : Nat) (p : RxPdu) (s s' : Session) : Bool → Prop where
  | /-- It has refused the R2T. -/
    refused (txQueue : s'.books.txQueue = s.books.txQueue)
      (cmdHash : s'.books.cmdHash = s.books.cmdHash) (accepted : s'.accepted = s.accepted) :
      R2tEnd c p s s' false
  | /-- It has taken the command out of the hash, and the queue is full. -/
    lost (txQueue : s'.books.txQueue = s.books.txQueue) (full : s.books.room = false)
      (cmdHash : s'.books.cmdHash = s.books.cmdHash.without (s.books.mem c).tag)
      (accepted : s'.accepted = s.accepted)
      (q : ScsiCmd) (body : (s.books.mem c).body = .scsi q)
      (count : (s.books.mem c).r2tRequest ≤ 1) (rc : (iscsiR2tDecap p.header).1 = 0)
      (reaches : R2t.reaches (iscsiR2tDecap p.header).2 q) : R2tEnd c p s s' false
  | /-- It has queued the command again. -/
    queued (q : ScsiCmd) (body : (s.books.mem c).body = .scsi q)
      (count : (s.books.mem c).r2tRequest ≤ 1) (rc : (iscsiR2tDecap p.header).1 = 0)
      (r2t : (s'.books.mem c).r2t = (iscsiR2tDecap p.header).2)
      (txQueue : s'.books.txQueue.toList = s.books.txQueue.toList ++ [c])
      (capacity : s'.books.txQueue.capacity = s.books.txQueue.capacity)
      (cmdHash : s'.books.cmdHash =
        if R2t.reaches (iscsiR2tDecap p.header).2 q then
          s.books.cmdHash.without (s.books.mem c).tag
        else s.books.cmdHash)
      (accepted : s'.accepted = s.accepted ++ [(c, (iscsiR2tDecap p.header).2)]) :
      R2tEnd c p s s' true

theorem room_of_insert_none {b : Books} {c : Nat} (h : b.txQueue.insert c = none) :
    b.room = false := by
  simp [Books.room, Fifo.insert_none h]

/-- The rule of `cmd->ptr` as a SCSI command. -/
theorem ensures_getScsi {c : Nat} {s : Session} {Q : ScsiCmd → Session → Prop}
    (h : ∀ q, (s.books.mem c).body = .scsi q → Q q s) : ensures (getScsi c) Q s := by
  simp only [ensures, getScsi, wp_bind, wp_getCmd]
  split
  · exact h _ ‹_›
  · trivial

/-- A new value of the R2T of a command, together with a higher count. -/
theorem R2tCounted.of_cmd (c : Nat) (s : Session) (r : R2t) : R2tCounted c s (s.setCmd c
    { s.books.mem c with r2tRequest := (s.books.mem c).r2tRequest + 1, r2t := r }) := by
  constructor <;> try intros
  all_goals try rfl
  · exact Function.update_of_ne ‹_› _ _
  · simp [Session.setCmd, Session.setBooks, InitiatorCmd.key]
  · simp [Session.setCmd, Session.setBooks]

theorem scsiR2tRxI_spec (c : Nat) (p : RxPdu) (s : Session) :
    ensures (scsiR2tRxI c p) (fun ok s' => R2tCounted c s s' ∧ R2tEnd c p s s' ok) s := by
  simp only [ensures, scsiR2tRxI, wp_bind, wp_getCmd, wp_modifyCmd]
  refine (wp_ite _ _ _).mpr ⟨fun _ => ⟨.of_cmd c s (s.books.mem c).r2t, .refused rfl rfl rfl⟩,
    fun hcount => ?_⟩
  set r := (iscsiR2tDecap p.header).2
  have hs : ∀ r', (s.setCmd c { s.books.mem c with
        r2tRequest := (s.books.mem c).r2tRequest + 1 }).setCmd c
      { (s.setCmd c { s.books.mem c with
          r2tRequest := (s.books.mem c).r2tRequest + 1 }).books.mem c with r2t := r' } =
      s.setCmd c { s.books.mem c with
        r2tRequest := (s.books.mem c).r2tRequest + 1, r2t := r' } := by
    intro r'
    simp [Session.setCmd, Session.setBooks]
  simp only [wp_bind, wp_modifyCmd, hs]
  set s₁ := s.setCmd c { s.books.mem c with
    r2tRequest := (s.books.mem c).r2tRequest + 1, r2t := r }
  have h₁ : R2tCounted c s s₁ := .of_cmd c s r
  have hbody : (s₁.books.mem c).body = (s.books.mem c).body := h₁.body
  have hr : (s₁.books.mem c).r2t = r := by simp [s₁, Session.setCmd, Session.setBooks]
  refine (wp_ite _ _ _).mpr ⟨fun _ => ⟨h₁, .refused rfl rfl rfl⟩, fun hrc => ?_⟩
  have hrc : (iscsiR2tDecap p.header).1 = 0 := not_not.mp hrc
  have hcount : (s.books.mem c).r2tRequest ≤ 1 := not_lt.mp hcount
  rw [wp_bind]
  refine ensures_getScsi fun q hq => ?_
  rw [hbody] at hq
  refine (wp_ite _ _ _).mpr ⟨fun he => ?_, fun he => ?_⟩
  · rw [wp_bind, wp_hashDelete]
    refine ⟨fun _ => ⟨h₁, .refused rfl rfl rfl⟩, fun d h hd => ?_⟩
    have hw : h = s.books.cmdHash.without (s.books.mem c).tag := by
      have hd' : s.books.cmdHash.remove (s.books.mem c).tag = some (d, h) := hd
      simp [TagHash.without, hd']
    simp only [Bool.not_true, Bool.false_eq_true, if_false, wp_bind]
    rw [wp_queueInsert]
    refine ⟨fun hi => ?_, fun q' hi => ?_⟩
    · refine ⟨⟨h₁.1, h₁.2, h₁.3, h₁.4, h₁.5, h₁.6, h₁.7, h₁.8, h₁.9, h₁.10⟩, ?_⟩
      exact .lost rfl (room_of_insert_none (b := s.books) hi) hw rfl q hq hcount hrc he
    · obtain ⟨hl, hcap⟩ := Fifo.insert_some hi
      refine ⟨⟨h₁.1, h₁.2, h₁.3, h₁.4, h₁.5, h₁.6, h₁.7, h₁.8, h₁.9, h₁.10⟩, ?_⟩
      exact .queued q hq hcount hrc hr hl hcap ((if_pos he).symm ▸ hw) rfl
  · simp only [wp_bind]
    rw [wp_queueInsert]
    refine ⟨fun _ => ⟨h₁, .refused rfl rfl rfl⟩, fun q' hi => ?_⟩
    obtain ⟨hl, hcap⟩ := Fifo.insert_some hi
    refine ⟨⟨h₁.1, h₁.2, h₁.3, h₁.4, h₁.5, h₁.6, h₁.7, h₁.8, h₁.9, h₁.10⟩, ?_⟩
    exact .queued q hq hcount hrc hr hl hcap (if_neg he).symm rfl

/-! ## Executing a command -/

/-- The positions of a data PDU in the transfer. -/
def WriteData.positions (d : WriteData) : List Nat :=
  (List.range d.length).map fun i => u32 (d.offset + i)

/-- The positions that an R2T asks for. -/
def R2t.positions (r : R2t) : List Nat :=
  (List.range r.length.toNat).map fun i => u32 (r.offset.toNat + i)

/-- A list of data PDUs is an answer to an R2T: they carry its tags, and their data are what it
asks for, in order and without a gap or an overlap. -/
structure Answers (r : R2t) (ds : List WriteData) : Prop where
  tag : ∀ d ∈ ds, d.tag = r.tag ∧ d.transferTag = r.transferTag
  positions : ds.flatMap WriteData.positions = R2t.positions r

/-- The length of the next data PDU stays inside the R2T. -/
theorem r2tDataLength_le {p : SessParams} {len done : Nat} (_ : len < 4294967296)
    (_ : done < len) : r2tDataLength p len done ≤ len - done := by
  unfold r2tDataLength minus32
  split <;> omega

/-- The data PDU among what has been sent. -/
def OutPdu.writeData? : OutPdu → Option WriteData
  | .writeData d _ => some d
  | _ => none

/-- The data PDUs sent so far, oldest first. -/
def Session.sentData (s : Session) : List WriteData := s.sent.filterMap OutPdu.writeData?

/-- Cutting a part out of a scatter list changes nothing. -/
theorem ensures_dataSg {part : Bool} {sg : List Iov} {offset len : Nat} {s : Session}
    {Q : Option (List Iov) → Session → Prop} (h : ∀ x, Q x s) :
    ensures (dataSg part sg offset len) Q s := by
  unfold dataSg
  split
  · simp only [ensures, cutSg, wp_bind]
    exact (wp_guarded _ _).mpr ⟨fun _ => trivial, fun _ => h _⟩
  · exact h _

/-- Sending a data PDU logs it, if it works. -/
theorem sockSend_sentData (d : WriteData) (len : Nat) (data : List Iov) (s : Session) :
    ensures (sockSend (.writeData d data) len data) (fun ok s' =>
      ok = true → s'.sentData = s.sentData ++ [d]) s := by
  have logged : ∀ t : Session, t.sent = s.sent →
      ({ t with sent := t.sent ++ [.writeData d data] } : Session).sentData =
        s.sentData ++ [d] := by
    intro t ht
    simp [Session.sentData, ht, OutPdu.writeData?]
  have failed : ∀ t : Session, false = true → t.sentData = s.sentData ++ [d] := fun _ hf =>
    nomatch hf
  simp only [ensures, sockSend, wp_bind, wp_nextNet]
  refine (wp_ite _ _ _).mpr ⟨fun _ => failed _, fun _ => ?_⟩
  refine (wp_ite _ _ _).mpr ⟨fun _ => ?_, fun _ => fun _ => logged _ rfl⟩
  simp only [sockData, wp_bind]
  refine (wp_ite _ _ _).mpr ⟨fun _ => ?_, fun _ => ?_⟩
  · rw [wp_pure]
    exact (wp_ite _ _ _).mpr ⟨fun _ => failed _, fun hf => absurd rfl hf⟩
  refine (wp_ite _ _ _).mpr ⟨fun _ => ?_, fun _ => ?_⟩
  · rw [wp_pure]
    exact (wp_ite _ _ _).mpr ⟨fun _ => failed _, fun hf => absurd rfl hf⟩
  · rw [wp_nextNet]
    exact (wp_ite _ _ _).mpr ⟨fun _ => failed _, fun _ => fun _ => logged _ rfl⟩

/-- The loop of `scsi_r2t_tx_i` goes on where the PDUs sent so far have stopped. -/
theorem sendR2tData_spec {c : Nat} {r : R2t} {sg : List Iov} {n done : Nat} {dataSN : UInt32}
    {acc : List WriteData} (hd : done < r.length.toNat)
    (htag : ∀ d ∈ acc, d.tag = r.tag ∧ d.transferTag = r.transferTag)
    (hacc : acc.flatMap WriteData.positions =
      (List.range done).map fun i => u32 (r.offset.toNat + i)) (s : Session) :
    ensures (sendR2tData c r sg n done dataSN acc) (fun res s' => Same c s s' ∧
      ∀ ds, res = some ds → Answers r ds ∧
        ∃ l, ds = acc ++ l ∧ s'.sentData = s.sentData ++ l) s := by
  induction n generalizing done dataSN acc s with
  | zero => trivial
  | succ n ih =>
    have hlt : r.length.toNat < 4294967296 := r.length.toNat_lt
    simp only [ensures, sendR2tData, wp_bind]
    refine ensures_getScsi fun q _ => ?_
    simp only [wp_getVars]
    set len := r2tDataLength s.vars.sessParams r.length.toNat done
    have hle : len ≤ r.length.toNat - done := r2tDataLength_le hlt hd
    refine ensures_dataSg fun cut => ?_
    rcases cut with _ | part
    · exact ⟨refl s, fun ds hds => by cases hds⟩
    simp only [wp_bind]
    set d : WriteData :=
      { final := u32 (done + len) == r.length.toNat, length := len, lun := q.pdu.lun, tag := r.tag
        transferTag := r.transferTag, expStatSN := s.vars.expStatSN, dataSN
        offset := u32 (r.offset.toNat + done) } with hdd
    refine wp_mono (wp_and ((same_sockSend c _ _ _).run s) (sockSend_sentData d len part s)) ?_
      fun _ _ _ => trivial
    rintro ok s₃ ⟨h₃, hsent⟩
    refine (wp_ite _ _ _).mpr ⟨fun _ => ⟨h₃, fun ds hds => by cases hds⟩, fun hok => ?_⟩
    have hsent : s₃.sentData = s.sentData ++ [d] := hsent (by simpa using hok)
    simp only [wp_bind, wp_setBody]
    set s₄ := s₃.setCmd c ((s₃.books.mem c).store (.scsi { q with
      bytesTodev := u32 (q.bytesTodev + len) }))
    have h₄ : Same c s s₄ := Trans.trans h₃ (Same.of_cmd (key_store _ _))
    have hsent₄ : s₄.sentData = s.sentData ++ [d] := hsent
    have hu : u32 (done + len) = done + len := Nat.mod_eq_of_lt (by omega)
    have htag' : ∀ e ∈ acc ++ [d], e.tag = r.tag ∧ e.transferTag = r.transferTag := by
      intro e he
      rcases List.mem_append.mp he with he | he
      · exact htag e he
      · rw [List.mem_singleton.mp he]
        exact ⟨rfl, rfl⟩
    have hpos : (acc ++ [d]).flatMap WriteData.positions =
        (List.range (done + len)).map fun i => u32 (r.offset.toNat + i) := by
      rw [List.flatMap_append, hacc, List.range_add, List.map_append, List.map_map]
      congr 1
      simp only [List.flatMap_cons, List.flatMap_nil, List.append_nil, WriteData.positions, hdd]
      refine List.map_congr_left fun i _ => ?_
      simp only [Function.comp, u32]
      omega
    rw [hu]
    refine (wp_ite _ _ _).mpr ⟨fun hlt' => ?_, fun hge => ?_⟩
    · refine (ih hlt' htag' hpos s₄).mono fun res s' h => ?_
      refine ⟨Trans.trans h₄ h.1, fun ds hds => ?_⟩
      obtain ⟨hans, l, hl, hs'⟩ := h.2 ds hds
      exact ⟨hans, d :: l, by simp [hl], by simp [hs', hsent₄]⟩
    · refine ⟨h₄, fun ds hds => ?_⟩
      obtain rfl := Option.some.inj hds
      refine ⟨⟨htag', hpos.trans ?_⟩, [d], rfl, hsent₄⟩
      rw [show done + len = r.length.toNat by omega]
      rfl

/-- What answering an R2T for the command `c` with the PDUs `ds` does. -/
structure Answered (c : Nat) (ds : List WriteData) (s s' : Session) : Prop where
  txQueue : s'.books.txQueue = s.books.txQueue
  cmdHash : s'.books.cmdHash = s.books.cmdHash
  issued : s'.books.issued = s.books.issued
  called : s'.books.called = s.books.called
  tx : s'.tx = s.tx
  rx : s'.rx = s.rx
  stopping : s'.stopping = s.stopping
  started : s'.flags.started = s.flags.started
  accepted : s'.accepted = s.accepted
  answers : s'.answers = s.answers ++ [(c, ds)]
  other : ∀ d, d ≠ c → s'.books.mem d = s.books.mem d
  key : (s'.books.mem c).key = { (s.books.mem c).key with
    r2tRequest := (s.books.mem c).r2tRequest - 1 }
  whole : Answers (s.books.mem c).r2t ds
  sent : s'.sentData = s.sentData ++ ds

/-- `scsi_r2t_tx_i` sends the whole answer, or leaves the command alone. -/
theorem scsiR2tTxI_spec (c : Nat) (s : Session) :
    ensures (scsiR2tTxI c) (fun ok s' => (ok = false ∧ Same c s s') ∨ (ok = true ∧
      ∃ ds s₁, Answers (s.books.mem c).r2t ds ∧ Same c s s₁ ∧ s₁.sentData = s.sentData ++ ds ∧
        s' = { s₁ with answers := s₁.answers ++ [(c, ds)] })) s := by
  simp only [ensures, scsiR2tTxI, wp_bind, wp_getCmd]
  refine ensures_getScsi fun q _ => ?_
  split
  · exact .inl ⟨rfl, refl s⟩
  rename_i sg _
  refine (wp_ite _ _ _).mpr ⟨fun _ => .inl ⟨rfl, refl s⟩, fun _ => ?_⟩
  refine (wp_ite _ _ _).mpr ⟨fun _ => .inl ⟨rfl, refl s⟩, fun hlen => ?_⟩
  have hpos : 0 < (s.books.mem c).r2t.length.toNat := by
    refine Nat.pos_of_ne_zero fun h0 => hlen ?_
    exact UInt32.toNat_inj.mp h0
  simp only [wp_bind, wp_modifyVars]
  set s₂ := s.setVars { s.vars with maxCmdSN := (s.books.mem c).r2t.maxCmdSN }
  have h₂ : Same c s s₂ := Same.setVars (refl s) _
  have hsend := @sendR2tData_spec c (s.books.mem c).r2t sg (s.books.mem c).r2t.length.toNat 0 0 []
    hpos (fun d hd => by cases hd) rfl s₂
  refine hsend.mono fun res s₃ h₃ => ?_
  have hs : Same c s s₃ := Trans.trans h₂ h₃.1
  rcases res with _ | ds
  · exact .inl ⟨rfl, hs⟩
  · obtain ⟨hans, l, hl, hsent⟩ := h₃.2 ds rfl
    rw [List.nil_append] at hl
    exact .inr ⟨rfl, ds, s₃, hans, hs, by rw [hsent, hl]; rfl, rfl⟩

/-- How the execution of a command ends. -/
inductive ExecuteEnd (c : Nat) (s s' : Session) : Bool → Prop where
  | /-- It has sent the command, or has failed. -/
    same (ok : Bool) (h : Same c s s')
      (first : ok = true → (s.books.mem c).body.type = .scsi → (s.books.mem c).r2tRequest = 0) :
      ExecuteEnd c s s' ok
  | /-- It has answered an R2T. -/
    answered (ds : List WriteData) (type : (s.books.mem c).body.type = .scsi)
      (pending : (s.books.mem c).r2tRequest ≠ 0) (h : Answered c ds s s') : ExecuteEnd c s s' true

theorem executeScsi_spec {c : Nat} {q : ScsiCmd} {s : Session}
    (hq : (s.books.mem c).body = .scsi q) :
    ensures (executeScsi c q) (fun ok s' => ExecuteEnd c s s' ok) s := by
  simp only [ensures, executeScsi, wp_bind, wp_getCmd, wp_setBody]
  set s₁ := s.setCmd c ((s.books.mem c).store
    (.scsi { q with pdu := { q.pdu with tag := (s.books.mem c).tag } }))
  have h₁ : Same c s s₁ := .of_cmd (key_store _ _)
  refine (wp_ite _ _ _).mpr ⟨fun hp => ?_, fun hp => ?_⟩
  · rw [wp_bind]
    refine (scsiR2tTxI_spec c s₁).mono fun ok s₂ h₂ => ?_
    rcases h₂ with ⟨rfl, h₂⟩ | ⟨rfl, ds, s₂', hds, h₂, hsent, rfl⟩
    · exact .same _ (Trans.trans h₁ h₂) fun h => by cases h
    · have hs : Same c s s₂' := Trans.trans h₁ h₂
      have hr : (s₁.books.mem c).r2t = (s.books.mem c).r2t := congrArg CmdKey.r2t h₁.key
      have hn : (s₂'.books.mem c).r2tRequest = (s.books.mem c).r2tRequest :=
        congrArg CmdKey.r2tRequest hs.key
      refine .answered ds (by rw [hq]; rfl) hp ?_
      refine ⟨hs.txQueue, hs.cmdHash, hs.issued, hs.called, hs.tx, hs.rx, hs.stopping, hs.started,
        hs.accepted, ?_, fun d hd => ?_, ?_, hr ▸ hds, hsent⟩
      · exact congrArg (· ++ [(c, ds)]) hs.answers
      · exact (Function.update_of_ne hd _ _).trans (hs.other d hd)
      · have hk : ((s₂'.books.mem c).key : CmdKey) = (s.books.mem c).key := hs.key
        simp only [Session.setCmd, Session.setBooks, Function.update_self]
        rw [← hk]
        simp [InitiatorCmd.key, hn]
  · have hfirst : ∀ ok : Bool, ok = true → (s.books.mem c).body.type = .scsi →
        (s.books.mem c).r2tRequest = 0 := fun _ _ _ => not_not.mp hp
    refine (wp_ite _ _ _).mpr ⟨fun _ => .same _ h₁ (hfirst _), fun _ => ?_⟩
    refine ((same_scsiCommandI c).run s₁).mono fun ok s₂ h₂ => ?_
    exact .same _ (Trans.trans h₁ h₂) (hfirst _)

instance same_textCommandI (c : Nat) (q : TextReq) : Within (Same c) (textCommandI c q) := by
  unfold textCommandI
  infer_instance

instance same_loginCommandI (c : Nat) (q : LoginReq) : Within (Same c) (loginCommandI c q) := by
  unfold loginCommandI
  infer_instance

instance same_logoutCommandI (c : Nat) (q : LogoutCmd) : Within (Same c) (logoutCommandI q) := by
  unfold logoutCommandI
  infer_instance

instance same_executeNopOut (c : Nat) (q : NopOutCmd) : Within (Same c) (executeNopOut c q) := by
  unfold executeNopOut
  infer_instance

theorem execute_spec (c : Nat) (s : Session) :
    ensures (execute c) (fun ok s' => ExecuteEnd c s s' ok) s := by
  have other : ∀ {x : Handler Bool} [h : Within (Same c) x], (s.books.mem c).body.type ≠ .scsi →
      ensures x (fun ok s' => ExecuteEnd c s s' ok) s := fun {x} h ht =>
    (h.run s).mono fun ok s' hs => .same ok hs fun _ h => absurd h ht
  simp only [ensures, execute, wp_bind, wp_getCmd]
  split
  · exact other (by simp [*, Body.type])
  · exact other (by simp [*, Body.type])
  · exact executeScsi_spec ‹_›
  · exact other (by simp [*, Body.type])
  · exact other (by simp [*, Body.type])
  · exact other (by simp [*, Body.type])

/-! ## Handling a PDU -/

/-- Whether the handler of a PDU, if it returns, may have completed the command `c`. -/
def Session.completes (s : Session) (c : Nat) (p : RxPdu) : Bool :=
  if iscsiOpcode p.header = opReadData then
    let (rc, data) := iscsiReadDataDecap p.header
    let seg := s.vars.sessParams.maxDataSegLength
    rc ≠ 0 || (s.books.mem c).body.type ≠ .scsi || decide (seg ≠ 0 ∧ data.length.toNat > seg) ||
      (data.sBit && data.final)
  else if iscsiOpcode p.header = opScsiRsp then (iscsiScsiRspDecap p.header).1 = 0
  else iscsiOpcode p.header ≠ opR2t

variable (env : Env) (cfg : TargetConfig) (c : Nat) (p : RxPdu)

/-- An R2T goes to its own handler. -/
theorem handleFor_r2t (h : iscsiOpcode p.header = opR2t) :
    handleFor env cfg c p = scsiR2tRxI c p := by
  have h₁ : ¬iscsiOpcode p.header = opScsiRsp := by
    rw [h]
    decide
  have h₂ : ¬iscsiOpcode p.header = opReadData := by
    rw [h]
    decide
  simp only [handleFor, if_neg h₁, if_neg h₂, if_pos h]

/-- A read-data PDU that does not come with the status leaves the command outstanding. -/
theorem same_of_not_completes {s : Session} (hop : iscsiOpcode p.header ≠ opR2t)
    (hc : s.completes c p = false) :
    ensures (handleFor env cfg c p) (fun _ s' => Same c s s') s := by
  unfold Session.completes at hc
  unfold handleFor
  split at hc
  · rename_i hrd
    have hne : ¬iscsiOpcode p.header = opScsiRsp := by
      rw [hrd]
      decide
    simp only [if_neg hne, if_pos hrd]
    simp only [Bool.or_eq_false_iff, decide_eq_false_iff_not, not_not, ne_eq] at hc
    obtain ⟨⟨⟨hrc, ht⟩, hseg⟩, hfin⟩ := hc
    simp only [ensures, scsiReadDataI]
    refine (wp_ite _ _ _).mpr ⟨fun h => absurd hrc h, fun _ => ?_⟩
    simp only [wp_bind, wp_getCmd]
    split
    · simp only [wp_bind, wp_getVars]
      refine (wp_ite _ _ _).mpr ⟨fun h => absurd h hseg, fun _ => ?_⟩
      simp only [wp_bind, wp_modifyVars]
      set s₁ := s.setVars { s.vars with maxCmdSN := (iscsiReadDataDecap p.header).2.maxCmdSN }
      have h₁ : Same c s s₁ := by constructor <;> intros <;> rfl
      refine ((same_recvReadData c _ _ _ _).run s₁).mono fun ok s₂ h₂ => ?_
      have h₂ := Trans.trans h₁ h₂
      refine (wp_ite _ _ _).mpr ⟨fun _ => h₂, fun _ => ?_⟩
      simp only [wp_bind, wp_setBody]
      have h₃ : ∀ b, Same c s (s₂.setCmd c ((s₂.books.mem c).store b)) := fun b =>
        Trans.trans h₂ (Same.of_cmd (key_store _ b))
      refine (wp_ite _ _ _).mpr ⟨fun _ => h₃ _, fun hs => ?_⟩
      refine (wp_ite _ _ _).mpr ⟨fun _ => h₃ _, fun hf => ?_⟩
      simp_all
    · rename_i hb
      exfalso
      generalize (s.books.mem c).body = b at hb ht
      cases b with
      | scsi q => exact hb q rfl
      | _ => cases ht
  · split at hc
    · rename_i hsr
      simp only [hsr, if_true]
      simp only [decide_eq_false_iff_not] at hc
      simp only [ensures, scsiResponseI]
      exact (wp_ite _ _ _).mpr ⟨fun _ => refl s, fun h => absurd (not_not.mp h) hc⟩
    · simp [hop] at hc

/-- What the handler of a PDU that is not an R2T does. -/
theorem handleFor_spec {s : Session} (hop : iscsiOpcode p.header ≠ opR2t) :
    ensures (handleFor env cfg c p)
      (fun _ s' => Same c s s' ∨ s.completes c p = true ∧ Completed c s s') s := by
  by_cases hc : s.completes c p = true
  · exact ((ended_handleFor c env cfg p hop).run s).mono fun _ s' h => h.imp_right fun h => ⟨hc, h⟩
  · exact (same_of_not_completes env cfg c p hop (by simpa using hc)).mono fun _ s' h => .inl h

/-- The handler of a PDU without a command leaves all commands alone. -/
instance same_handleAlone : Within (Same c) (handleAlone p) := by
  have logout : ∀ d q, Within (Same c) (logoutFromRx d q) := by
    intro d q
    refine .bind inferInstance fun v => .bind inferInstance fun _ => .bind inferInstance fun f => ?_
    split
    · constructor
      intro s
      simp only [ensures, wp_bind]
      rw [wp_queueInsert]
      exact ⟨fun _ => refl s, fun q' _ => trivial⟩
    · exact within_pure _
  unfold handleAlone
  refine @within_ite _ _ _ _ _ _ _ _ ?_ ?_
  · unfold nopInI
    refine .ite _ ?_
    split <;> infer_instance
  refine @within_ite _ _ _ _ _ _ _ _ ?_ ?_
  · unfold rejectI
    split <;> infer_instance
  refine @within_ite _ _ _ _ _ _ _ _ ?_ inferInstance
  unfold asyncMsgI
  refine .ite _ (.bind inferInstance fun _ => .ite _ ?_)
  refine @within_ite _ _ _ _ _ _ _ _ ?_ inferInstance
  exact .bind (within_gets _) fun b => .bind (logout _ _) fun _ => inferInstance

end Ost.Initiator
