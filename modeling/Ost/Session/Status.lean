import Mathlib.Data.List.TakeWhile
import Ost.Session.Window

/-!
# Status numbers

A target numbers the PDUs with which it answers commands by `sess->StatSN`.  Most of its handlers
send the value and then increment it, but `reject_t` and `task_command_t` send the value they have
incremented, and the next answer has that number again.  `logout_command_t` sets it to what the
initiator expects.

A number is taken without a lock, and `sess->slock` is held for the transmission only.  The worker
of a session and a LUN worker that has completed a command of it can both have taken numbers and not
yet sent them (`Traffic`), and then either of them may send first.

On runs without requests of the first kind, in which the PDUs are sent in the order of their numbers
(`TrafficEvent`), the numbers are consecutive from the response that ends the login on
(`status_discipline`).
-/

namespace Ost.Target

open Ost.Iscsi Ost.Util Ost.Param Ost.Prog Ost.Disk

/-! ## The numbers on a connection -/

/-- The status numbers since the last login response, after one more PDU.  A response that ends the
login is the first to have a number. -/
def countStatus (l : List UInt32) (x : Sent) : List UInt32 :=
  match x.pdu with
  | .loginRsp r =>
    if x.ok = true ∧ TargetPdu.grants (.loginRsp r) = true then [(TargetPdu.loginRsp r).wireStatSN]
    else []
  | pdu => l ++ (statusSN pdu).toList

/-- The status numbers since the last login response. -/
def statusRun (l : List Sent) : List UInt32 := l.foldl countStatus []

/-- Each number is the one before plus one. -/
def Consecutive (l : List UInt32) : Prop := l.IsChain fun x y => y = x + 1

instance (l : List UInt32) : Decidable (Consecutive l) :=
  inferInstanceAs (Decidable (l.IsChain fun x y => y = x + 1))

/-! ## Threads between a number and its transmission -/

/-- A thread that answers commands. -/
inductive Thread where
  | /-- The worker of a session slot. -/
    session (i : Nat)
  | /-- One of the LUN workers. -/
    lun (k : Nat)
deriving DecidableEq

/-- What a thread does in a round. -/
def Thread.event : Thread → Event
  | .session i => .rx i
  | .lun _ => .lun

/-- The slot it does that for: a LUN worker takes the next command. -/
def Thread.slot (w : World) : Thread → Option Nat
  | .session i => some i
  | .lun _ => w.dev.cmdQueue.remove.map fun r => r.1.1

/-- What a thread has yet to send on the connection of a slot. -/
structure Outgoing where
  thread : Thread
  slot : Nat
  pdus : List Sent
deriving DecidableEq

/-- The daemon with what its threads have sent, and what they have yet to send.  In `world` a PDU
counts as sent when its number has been taken. -/
structure Traffic where
  world : World
  /-- What has been sent on the connection of a slot. -/
  wire : Nat → List Sent
  /-- What is still to be sent, in the order in which the numbers were taken. -/
  held : List Outgoing

/-- A PDU for which a handler takes a number. -/
def Sent.takesNumber (x : Sent) : Bool :=
  match x.pdu with
  | .loginRsp _ => true
  | pdu => (statusSN pdu).isSome

namespace Traffic

variable (x : Traffic)

/-- At the start nothing has been sent. -/
def start (w : World) : Traffic := { world := w, wire := fun _ => [], held := [] }

/-- A thread is between a number and its transmission. -/
def Busy (t : Thread) : Prop := t ∈ x.held.map Outgoing.thread

instance (t : Thread) : Decidable (x.Busy t) := inferInstanceAs (Decidable (_ ∈ _))

/-- What waits for the connection of a slot. -/
def waiting (i : Nat) : List Sent := (x.held.filter (·.slot = i)).flatMap Outgoing.pdus

/-- A new connection of the slot of `target_listen`. -/
def accept (cl : Client) : Traffic :=
  { x with
    world := x.world.accept cl
    wire := match x.world.listener with
      | none => x.wire
      | some i => Function.update x.wire i [] }

/-- A thread has sent what it has before the first PDU that takes a number, and holds the rest. -/
def post (t : Thread) (i : Nat) (l : List Sent) : Traffic :=
  { x with
    wire := Function.update x.wire i (x.wire i ++ l.takeWhile (!·.takesNumber))
    held := x.held ++
      if l.dropWhile (!·.takesNumber) = [] then [] else [⟨t, i, l.dropWhile (!·.takesNumber)⟩] }

/-- A thread sends what it holds. -/
def send (t : Thread) : Traffic :=
  match x.held.find? (·.thread = t) with
  | none => x
  | some p =>
    { x with
      wire := Function.update x.wire p.slot (x.wire p.slot ++ p.pdus)
      held := x.held.eraseP (·.thread = t) }

end Traffic

/-- What moves the threads. -/
inductive Act where
  | /-- A client connects. -/
    accept (cl : Client)
  | /-- A thread goes on, up to where it has taken a number and waits for `sess->slock`. -/
    take (t : Thread)
  | /-- A thread gets `sess->slock`, sends and unlocks. -/
    send (t : Thread)

/-- A thread goes on.  It answers one PDU or one command, and takes one number at most.  What it
does after the transmission, to give the header and the command back, does not touch the numbers and
is done here. -/
def takeNumber (env : Env) (t : Thread) : Prog Halt Traffic PUnit := fun x =>
  match t.slot x.world with
  | none => .ret ⟨⟩ x
  | some i =>
    if x.Busy t then .ret ⟨⟩ x
    else
      match step env t.event x.world with
      | .ret _ w =>
        .ret ⟨⟩ ({ x with world := w }.post t i
          ((w.slots i).conn.sent.drop (x.world.slots i).conn.sent.length))
      | .halt e w => .halt e { x with world := w }

/-- What an act does. -/
def act (env : Env) : Act → Prog Halt Traffic PUnit
  | .accept cl => modify fun x => x.accept cl
  | .take t => takeNumber env t
  | .send t => modify fun x => x.send t

/-! ## The condition -/

/-- A request that its handler answers with the right number. -/
def StatusOk (s : Slot) (hdr : Bytes) : Prop :=
  (s.login.isFullFeature = true →
    iscsiOpcode hdr ∈ [opTaskCmd, opNopOut, opLoginCmd, opTextCmd, opLogoutCmd, opScsiCmd,
      opWriteData] ∧ (iscsiOpcode hdr = opTaskCmd → (iscsiTaskCmdDecap hdr).1 ≠ 0)) ∧
  (iscsiOpcode hdr = opLogoutCmd → (iscsiLogoutCmdDecap hdr).1 = 0 →
    (iscsiLogoutCmdDecap hdr).2.expStatSN = s.seq.statSN)

instance (s : Slot) (hdr : Bytes) : Decidable (StatusOk s hdr) :=
  inferInstanceAs (Decidable (_ ∧ _))

/-- The worker of the slot is about to serve a PDU. -/
def Slot.Takes (s : Slot) : Prop :=
  s.phase = .running ∧ s.waiting = none ∧ iscsiHeaderLen ≤ s.conn.rx.length

instance (s : Slot) : Decidable s.Takes := inferInstanceAs (Decidable (_ ∧ _ ∧ _))

/-- All requests that a worker serves are such. -/
def StatusEvent (w : World) : Event → Prop
  | .rx i => (w.slots i).Takes → StatusOk (w.slots i) (w.slots i).nextHeader
  | .accept _ | .lun => True

instance (w : World) (e : Event) : Decidable (StatusEvent w e) :=
  match e with
  | .rx _ => inferInstanceAs (Decidable (_ → _))
  | .accept _ | .lun => inferInstanceAs (Decidable True)

/-- The requests are such, and of the PDUs that wait for a connection the one whose number was taken
first is sent first.  A connection begins when nothing waits for the one before. -/
def TrafficEvent (x : Traffic) : Act → Prop
  | .accept _ => ∀ i ∈ x.world.listener, x.waiting i = []
  | .take t => ¬x.Busy t → StatusEvent x.world t.event
  | .send t => ∀ p ∈ x.held.find? (·.thread = t), x.held.find? (·.slot = p.slot) = some p

instance (x : Traffic) (a : Act) : Decidable (TrafficEvent x a) :=
  match a with
  | .accept _ => inferInstanceAs (Decidable (∀ _ ∈ _, _))
  | .take _ => inferInstanceAs (Decidable (_ → _))
  | .send _ => inferInstanceAs (Decidable (∀ _ ∈ _, _))

/-! ## The invariant -/

/-- The numbers are consecutive, and `StatSN` is the next one. -/
structure Follows (l : List UInt32) (next : UInt32) : Prop where
  chain : Consecutive l
  next : ∀ x ∈ l.getLast?, next = x + 1

theorem follows_nil (next : UInt32) : Follows [] next := ⟨.nil, by simp⟩

/-- The next number is used. -/
theorem Follows.append {l : List UInt32} {a : UInt32} (h : Follows l a) :
    Follows (l ++ [a]) (a + 1) := by
  refine ⟨?_, by simp⟩
  refine List.isChain_append.mpr ⟨h.chain, .singleton _, fun x hx y hy => ?_⟩
  obtain rfl : a = y := by simpa using hy
  exact h.next x hx

/-- What does not grant a session is counted, or is a login response and starts over. -/
theorem countStatus_ungranted (acc : List UInt32) {x : Sent} (hx : TargetPdu.grants x.pdu = false) :
    countStatus acc x = acc ++ (statusSN x.pdu).toList ∨
      countStatus acc x = [] ∧ statusSN x.pdu = none := by
  obtain ⟨pdu, data, ok⟩ := x
  cases pdu with
  | loginRsp r => exact .inr ⟨if_neg fun hcon => absurd (hx.symm.trans hcon.2) (by decide), rfl⟩
  | scsiRsp | taskRsp | nopIn | textRsp | reject | logoutRsp | r2t | readData => exact .inl rfl

/-- PDUs that continue the numbering. -/
theorem Follows.counts {l : List Sent} {acc : List UInt32} {a b : UInt32} (h : Follows acc a)
    (hg : ∀ x ∈ l, TargetPdu.grants x.pdu = false) (hn : Numbered a (statusSNs l) b) :
    Follows (l.foldl countStatus acc) b := by
  induction l generalizing acc a with
  | nil =>
    cases hn
    exact h
  | cons x l ih =>
    have hgl := fun y hy => hg y (List.mem_cons_of_mem x hy)
    rw [List.foldl_cons]
    rcases hsn : statusSN x.pdu with _ | n
    · have hn : Numbered a (statusSNs l) b := by simpa [statusSNs, hsn] using hn
      refine ih ?_ hgl hn
      rcases countStatus_ungranted acc (hg x List.mem_cons_self) with hc | ⟨hc, _⟩
      · rw [hc, hsn, Option.toList_none, List.append_nil]
        exact h
      · rw [hc]
        exact follows_nil a
    · have hn : Numbered a (n :: statusSNs l) b := by simpa [statusSNs, hsn] using hn
      cases hn with
      | cons hn =>
        refine ih ?_ hgl hn
        rcases countStatus_ungranted acc (hg x List.mem_cons_self) with hc | ⟨_, hnone⟩
        · rw [hc, hsn]
          exact h.append
        · exact absurd (hsn.symm.trans hnone) (Option.some_ne_none _)

/-- The numbers of a slot follow each other at every moment of what has been sent. -/
structure Slot.StatusKept (s : Slot) : Prop where
  follows : Follows (statusRun s.conn.sent) s.seq.statSN
  always : ∀ l, l <+: s.conn.sent → Consecutive (statusRun l)

/-- Something is sent, and the numbers follow each other. -/
structure Slot.StatusStep (s s' : Slot) : Prop where
  grows : s.conn.sent <+: s'.conn.sent
  kept : s.StatusKept → s'.StatusKept

/-- Nothing is sent. -/
theorem Slot.StatusStep.of_eq {s s' : Slot} (hsent : s'.conn.sent = s.conn.sent)
    (hseq : s'.seq.statSN = s.seq.statSN) : s.StatusStep s' where
  grows := hsent ▸ List.prefix_rfl
  kept hk := ⟨hsent ▸ hseq ▸ hk.follows, hsent ▸ hk.always⟩

theorem Slot.StatusStep.of_wire {s s' : Local} (h : Keeps wire s s') :
    s.slot.StatusStep s'.slot := by
  obtain ⟨hseq, hsent, _⟩ : s'.slot.seq = _ ∧ s'.slot.conn.sent = _ ∧ s'.nopFlag = _ := by
    simpa [Keeps, wire] using h
  exact .of_eq hsent (by rw [hseq])

theorem Slot.StatusStep.trans {s₁ s₂ s₃ : Slot} (h : s₁.StatusStep s₂) (h' : s₂.StatusStep s₃) :
    s₁.StatusStep s₃ := ⟨h.grows.trans h'.grows, h'.kept ∘ h.kept⟩

/-- A part of a consecutive run. -/
theorem Numbered.left {a b : UInt32} {l l' : List UInt32} (h : Numbered a (l ++ l') b) :
    ∃ d, Numbered a l d := by
  induction l generalizing a with
  | nil => exact ⟨a, .nil a⟩
  | cons x l ih =>
    cases h with
    | cons h =>
      obtain ⟨d, hd⟩ := ih h
      exact ⟨d, .cons hd⟩

/-! ## One round -/

section Step

variable {env : Env} {i h : Nat} {s s' : Local} {hdr : Bytes} {r : Option Int}

/-- A handler that continues the numbering. -/
theorem Tallied.statusStep (ht : Tallied s s') : s.slot.StatusStep s'.slot := by
  obtain ⟨l, hsent, hg, hn⟩ := ht
  refine ⟨hsent ▸ List.prefix_append _ _, fun hk => ⟨?_, fun p hp => ?_⟩⟩
  · rw [hsent, statusRun, List.foldl_append]
    exact hk.follows.counts hg hn
  · rw [hsent] at hp
    rcases List.prefix_or_prefix_of_prefix hp (List.prefix_append s.slot.conn.sent l) with
      hp' | ⟨t, rfl⟩
    · exact hk.always p hp'
    · obtain ⟨u, rfl⟩ := (List.prefix_append_right_inj _).mp hp
      rw [statusSNs_append] at hn
      obtain ⟨d, hd⟩ := hn.left
      rw [statusRun, List.foldl_append]
      exact (hk.follows.counts (fun x hx => hg x (List.mem_append_left u hx)) hd).chain

/-- A login response starts over. -/
theorem LoginAnswer.statusStep {cmd : LoginCmd} {rsp : LoginRsp} {rc : Int}
    (ha : LoginAnswer cmd rsp rc s s')
    (hasks : LoginRsp.granted rsp = true → LoginCmd.asks cmd = true) :
    s.slot.StatusStep s'.slot := by
  obtain ⟨r, d, ok, hsent, hgr, hrc, hsn⟩ := ha.sent
  suffices hf : Follows (statusRun s'.slot.conn.sent) s'.slot.seq.statSN by
    refine ⟨hsent ▸ List.prefix_append _ _, fun hk => ⟨hf, fun p hp => ?_⟩⟩
    rw [hsent, List.prefix_concat_iff, ← hsent] at hp
    rcases hp with rfl | hp
    · exact hf.chain
    · exact hk.always p hp
  rw [hsent, statusRun, List.foldl_append, List.foldl_cons, List.foldl_nil, countStatus]
  dsimp only
  have hgrants : TargetPdu.grants (.loginRsp r) = LoginRsp.granted rsp := hgr
  rw [hgrants]
  by_cases hgranted : ok = true ∧ LoginRsp.granted rsp = true
  · obtain ⟨hok, hgranted⟩ := hgranted
    have hclass : rsp.statusClass = 0 := by
      have h := hgranted
      simp only [LoginRsp.granted, Bool.and_eq_true, decide_eq_true_eq] at h
      exact h.1.1
    rw [if_pos ⟨hok, hgranted⟩, TargetPdu.wireStatSN_loginRsp, hsn hgranted, ha.statSN,
      if_pos hgranted, if_pos ⟨hrc.mpr ⟨hok, hclass⟩, hasks hgranted⟩]
    exact Follows.append (l := []) (follows_nil _)
  · rw [if_neg hgranted]
    exact follows_nil _

/-- A login request. -/
theorem LoginEnd.statusStep {cmd : LoginCmd} {rc : Int} (he : LoginEnd env cmd rc s s') :
    s.slot.StatusStep s'.slot := by
  cases he with
  | silent _ _ hwire => exact .of_wire hwire
  | refused _ _ hwire _ hst ha =>
    refine (Slot.StatusStep.of_wire hwire).trans (ha.statusStep fun hg => absurd ?_ hst)
    simp only [LoginRsp.granted, Bool.and_eq_true, decide_eq_true_eq] at hg
    exact hg.1.1
  | advanced _ hwire _ _ hadv =>
    obtain ⟨rsp, s₂, ht, ha, hrsp⟩ := hadv.steps
    refine ((Slot.StatusStep.of_wire hwire).trans (.of_wire ht.wire)).trans
      (ha.statusStep fun hg => ?_)
    simp only [LoginRsp.granted, Bool.and_eq_true, decide_eq_true_eq] at hg
    obtain ⟨⟨hclass, htransit⟩, hnsg⟩ := hg
    rcases hrsp with ⟨hne, _⟩ | ⟨_, hnsg', htransit', _⟩
    · exact absurd hclass hne
    · rw [htransit'] at htransit
      simp only [LoginCmd.asks, Bool.and_eq_true, decide_eq_true_eq]
      exact ⟨(Bool.and_eq_true _ _ ▸ htransit).1, hnsg'.symm.trans hnsg⟩

/-- A task management request that is malformed. -/
theorem taskCommandT_malformed (hpdu : (iscsiTaskCmdDecap hdr).1 ≠ 0) (s : Local) :
    ensures (taskCommandT hdr) (fun _ s' => s' = s) s := by
  rw [taskCommandT, ensures]
  exact (wp_ite _ _ _).mpr ⟨fun _ => rfl, fun hcon => absurd hpdu hcon⟩

/-- A logout request with the number that comes next. -/
theorem logoutCommandT_tallied (hsn : (iscsiLogoutCmdDecap hdr).1 = 0 →
      (iscsiLogoutCmdDecap hdr).2.expStatSN = s.slot.seq.statSN) :
    ensures (logoutCommandT hdr) (fun _ s' => Tallied s s') s := by
  by_cases hpdu : (iscsiLogoutCmdDecap hdr).1 = 0
  · exact (logoutCommandT_spec hdr s).mono fun _ _ h => h.2 (hsn hpdu)
  · rw [logoutCommandT, ensures]
    exact (wp_ite _ _ _).mpr ⟨fun _ => (wp_pure _).mpr (refl s), fun hcon => absurd hpdu hcon⟩

/-- A PDU that was dispatched. -/
theorem Executed.statusStep (hb : Books i s) (hok : StatusOk s.slot hdr)
    (hx : Executed env i h hdr s s' r) : s.slot.StatusStep s'.slot := by
  cases hx with
  | outOfPhase _ ht => exact ht.statusStep
  | task hop hff hrun =>
    rw [(taskCommandT_malformed ((hok.1 hff).2 hop) s).of_ret hrun]
    exact .of_eq rfl rfl
  | nop _ _ hrun => exact ((nopOutT_spec hdr s).of_ret hrun).1.statusStep
  | login _ hrun => exact ((loginCommandT_spec env i hdr s).of_ret hrun).statusStep
  | text _ _ hrun => exact ((textCommandT_spec hdr env s).of_ret hrun).1.statusStep
  | logout hop hrun => exact ((logoutCommandT_tallied (hok.2 hop)).of_ret hrun).statusStep
  | scsi _ _ hrun => exact ((scsiCommandT_spec i h hdr s).of_ret hrun).still.tallied.statusStep
  | data _ _ hrun =>
    cases (writeDataT_spec i h hdr (fun k c hc => (hb.outstanding k c hc).1)
      fun c hc => hb.lun c (.inl hc)).of_ret hrun with
    | bad _ hs => exact hs ▸ .of_eq rfl rfl
    | waits _ _ _ _ hs => exact hs ▸ .of_eq rfl rfl
    | ready _ _ _ _ hend => exact hend.still.1.tallied.statusStep
  | unknown hff hop => exact absurd (hok.1 hff).1 hop

theorem Settled.statusStep {queued : Int} (hs : Settled h hdr s queued s') :
    s.slot.StatusStep s'.slot := by
  cases hs <;> exact .of_eq rfl rfl

/-- A round of the worker. -/
theorem Round.statusStep (hb : Books i s) (hp : s.slot.phase = .running)
    (hok : s.slot.Takes → StatusOk s.slot s.slot.nextHeader) (hr : Round env i s s') :
    s.slot.StatusStep s'.slot := by
  have hb₀ (q : Fifo Nat) : Books i (s.setHeaderQ q).skipHeader :=
    hb.congr rfl rfl rfl (.inl rfl) rfl rfl
  have hskip (q : Fifo Nat) : s.slot.StatusStep (s.setHeaderQ q).skipHeader.slot := .of_eq rfl rfl
  cases hr with
  | noHeader _ _ hs => exact hs ▸ .of_eq rfl rfl
  | short _ _ _ _ hs => exact hs ▸ .of_eq rfl rfl
  | @waits h q hw _ hrx hx =>
    exact (hskip q).trans (hx.statusStep (hb₀ q) (hok ⟨hp, hw, hrx⟩))
  | @executed h q queued s₁ hw _ hrx hx hs =>
    exact ((hskip q).trans (hx.statusStep (hb₀ q) (hok ⟨hp, hw, hrx⟩))).trans hs.statusStep
  | stays _ _ hs => exact hs ▸ .of_eq rfl rfl
  | @resumed h c hdr rc s₁ hw hready hx hs =>
    have hwait : s.slot.StatusStep (s.setWaiting none).slot := .of_eq rfl rfl
    obtain ⟨hend, _⟩ := hb.resumed hw hready hx
    exact (hwait.trans hend.still.1.tallied.statusStep).trans hs.statusStep

end Step

/-! ## Runs -/

section Runs

variable {env : Env} {w₀ w : World} {x : Traffic}

/-- The numbers follow each other in the order in which they were taken. -/
theorem statusKept_reachable (hw₀ : w₀.Starts) (h : Reach (step env) StatusEvent w₀ w) (i : Nat) :
    (w.slots i).StatusKept := by
  have hnil {s : Slot} (hs : s.conn.sent = []) : s.StatusKept := by
    constructor
    · rw [hs]
      exact follows_nil _
    · intro l hl
      rw [hs, List.prefix_nil] at hl
      exact hl ▸ .nil
  refine invariant_slots (P := fun _ s => s.StatusKept) (fun i => ?_) ?_ ?_ ?_ ?_ h i
  · rw [hw₀.slots i]
    exact hnil rfl
  · exact fun _ _ _ _ => hnil rfl
  · exact fun _ _ _ _ _ _ _ hk => ⟨hk.follows, hk.always⟩
  · intro w i hreach ok hp hk
    exact (workerRound_spec env i _).mono fun _ _ hr =>
      (hr.statusStep (books_reachable hw₀ hreach i) hp ok).kept hk
  · intro w i c q _ _ _ hk
    exact (lunWorker_spec _).mono fun _ _ hl => hl.calm.tallied.statusStep.kept hk

/-- A round of a thread sends on the connection of its slot only. -/
theorem grows_step (hb : ∀ i, Books i (w.view i)) {t : Thread} {i : Nat} (ht : t.slot w = some i)
    (ok : StatusEvent w t.event) :
    ensures (step env t.event) (fun _ w' =>
      (w.slots i).conn.sent <+: (w'.slots i).conn.sent ∧
        ∀ j, j ≠ i → (w'.slots j).conn.sent = (w.slots j).conn.sent) w := by
  refine (step_spec env t.event w).mono fun _ w' hm => ?_
  cases t with
  | session j =>
    obtain rfl : j = i := Option.some.inj ht
    cases hm with
    | idle => exact ⟨List.prefix_rfl, fun _ _ => rfl⟩
    | round hp hs =>
      have hr := ((workerRound_spec env j _).of_ret hs).statusStep (hb j) hp ok
      refine ⟨?_, fun k hk => by rw [World.slots_put_of_ne _ _ hk]⟩
      rw [World.slots_put_self]
      exact hr.grows
    | ended => 
      refine ⟨?_, fun k hk => by simp [hk]⟩
      simp [Slot.cleaned]
  | lun k =>
    cases hm with
    | idle => exact ⟨List.prefix_rfl, fun _ _ => rfl⟩
    | @lun j c q s hq hs =>
      obtain rfl : j = i := by simpa [Thread.slot, hq] using ht
      have hr := ((lunWorker_spec _).of_ret hs).calm.tallied.statusStep
      refine ⟨?_, fun k hk => by rw [World.slots_put_of_ne _ _ hk]; rfl⟩
      rw [World.slots_put_self]
      exact hr.grows

/-! ## What is sent is what was taken -/

/-- A PDU that takes no number is not counted. -/
theorem countStatus_of_not {y : Sent} (hy : y.takesNumber = false) (l : List UInt32) :
    countStatus l y = l := by
  obtain ⟨pdu, d, ok⟩ := y
  cases pdu with
  | loginRsp => exact absurd hy (by simp [Sent.takesNumber])
  | scsiRsp | taskRsp | nopIn | textRsp | reject =>
    exact absurd hy (by simp [Sent.takesNumber, statusSN])
  | logoutRsp | r2t | readData => exact List.append_nil l

theorem statusRun_filter (l : List Sent) : statusRun (l.filter Sent.takesNumber) = statusRun l := by
  rw [statusRun, List.foldl_filter, statusRun]
  congr
  funext acc y
  split
  · rfl
  · rename_i hy
    exact (countStatus_of_not (eq_false_of_ne_true hy) acc).symm

namespace Traffic

/-- Each PDU whose number was taken was sent or waits, and none overtakes another. -/
def Carried (x : Traffic) : Prop :=
  ∀ i, (x.wire i ++ x.waiting i).filter Sent.takesNumber =
    (x.world.slots i).conn.sent.filter Sent.takesNumber

theorem waiting_post (x : Traffic) (t : Thread) (i j : Nat) (l : List Sent) :
    (x.post t i l).waiting j =
      x.waiting j ++ if i = j then l.dropWhile (!·.takesNumber) else [] := by
  by_cases hl : l.dropWhile (!·.takesNumber) = []
  · simp [waiting, post, hl]
  · by_cases hij : i = j <;> simp [waiting, post, hl, hij]

theorem send_none {x : Traffic} {t : Thread} (h : x.held.find? (·.thread = t) = none) :
    x.send t = x := by
  rw [send, h]

theorem send_some {x : Traffic} {t : Thread} {p : Outgoing}
    (h : x.held.find? (·.thread = t) = some p) : x.send t =
      { x with
        wire := Function.update x.wire p.slot (x.wire p.slot ++ p.pdus)
        held := x.held.eraseP (·.thread = t) } := by
  rw [send, h]

/-- A thread goes on. -/
theorem Carried.post (h : x.Carried) {t : Thread} {i : Nat} {l : List Sent}
    (hi : (w.slots i).conn.sent = (x.world.slots i).conn.sent ++ l)
    (hj : ∀ j, j ≠ i → (w.slots j).conn.sent = (x.world.slots j).conn.sent) :
    ({ x with world := w }.post t i l).Carried := by
  intro j
  have hk : ({ x with world := w }.post t i l).waiting j =
      x.waiting j ++ if i = j then l.dropWhile (!·.takesNumber) else [] := waiting_post _ t i j l
  rw [hk]
  by_cases hij : j = i
  · subst hij
    have hnow : (l.takeWhile (!·.takesNumber)).filter Sent.takesNumber = [] :=
      List.filter_eq_nil_iff.mpr fun y hy => by simpa using List.mem_takeWhile_imp hy
    have hl : l.filter Sent.takesNumber =
        (l.dropWhile (!·.takesNumber)).filter Sent.takesNumber := by
      conv_lhs => rw [← List.takeWhile_append_dropWhile (p := (!·.takesNumber)) (l := l)]
      rw [List.filter_append, hnow, List.nil_append]
    have hx := h j
    rw [List.filter_append] at hx
    simp [Traffic.post, hi, hnow, hl, ← hx]
  · simpa [Traffic.post, Ne.symm hij, hij, hj j hij] using h j

theorem world_send (x : Traffic) (t : Thread) : (x.send t).world = x.world := by
  unfold send
  split <;> rfl

/-- What is held after the first PDU for a connection was sent. -/
theorem filter_eraseP {l : List Outgoing} {t : Thread} {p : Outgoing}
    (ht : l.find? (·.thread = t) = some p) (hs : l.find? (·.slot = p.slot) = some p) :
    l.filter (·.slot = p.slot) = p :: (l.eraseP (·.thread = t)).filter (·.slot = p.slot) ∧
      ∀ i, i ≠ p.slot → (l.eraseP (·.thread = t)).filter (·.slot = i) = l.filter (·.slot = i) := by
  induction l with
  | nil => exact absurd ht (by simp)
  | cons q l ih =>
    by_cases hq : q.thread = t
    · obtain rfl : q = p := by simpa [hq] using ht
      refine ⟨by simp [hq], fun i hi => ?_⟩
      simp [hq, Ne.symm hi]
    · have hqs : q.slot ≠ p.slot := by
        intro hqs
        obtain rfl : q = p := by simpa [hqs] using hs
        exact hq (by simpa using List.find?_some ht)
      obtain ⟨h₁, h₂⟩ := ih (by simpa [hq] using ht) (by simpa [hqs] using hs)
      refine ⟨by simpa [hq, hqs] using h₁, fun i hi => ?_⟩
      simp only [List.eraseP_cons, hq, decide_false, cond_false, List.filter_cons, h₂ i hi]

/-- The thread that took its number first sends. -/
theorem Carried.send (h : x.Carried) {t : Thread} (ok : TrafficEvent x (.send t)) :
    (x.send t).Carried := by
  rcases hp : x.held.find? (·.thread = t) with _ | p
  · rw [send_none hp]
    exact h
  rw [send_some hp]
  obtain ⟨h₁, h₂⟩ := filter_eraseP hp (ok p (by simpa using hp))
  intro j
  by_cases hj : j = p.slot
  · subst hj
    have hx := h p.slot
    simp only [waiting, h₁] at hx
    simpa [waiting] using hx
  · simpa [waiting, h₂ j hj, hj] using h j

/-- A new connection. -/
theorem Carried.accept (h : x.Carried) {cl : Client} (ok : TrafficEvent x (.accept cl)) :
    (x.accept cl).Carried := by
  intro j
  change ((x.accept cl).wire j ++ x.waiting j).filter _ =
    (((x.world.accept cl).slots j).conn.sent).filter _
  rcases hl : x.world.listener with _ | i
  · simpa [Traffic.accept, World.accept, hl] using h j
  · by_cases hj : j = i
    · subst hj
      simp [Traffic.accept, World.accept, hl, ok j (by simpa using hl), Slot.start]
    · simpa [Traffic.accept, World.accept, hl, hj] using h j

end Traffic

/-- A thread that goes on makes a round of the daemon. -/
theorem takeNumber_spec (env : Env) (t : Thread) (x : Traffic) :
    ensures (takeNumber env t) (fun _ x' => x' = x ∨ ∃ i w, t.slot x.world = some i ∧ ¬x.Busy t ∧
      step env t.event x.world = .ret ⟨⟩ w ∧ x' = { x with world := w }.post t i
        ((w.slots i).conn.sent.drop (x.world.slots i).conn.sent.length)) x := by
  unfold ensures wp takeNumber
  rcases ht : t.slot x.world with _ | i
  · exact .inl rfl
  by_cases hbusy : x.Busy t
  · simp [hbusy]
  · rcases hs : step env t.event x.world with ⟨_, w⟩ | ⟨e, w⟩
    · simp [hbusy]
    · simp [hbusy]

/-- The daemon makes its rounds under the condition. -/
theorem reach_world (h : Reach (act env) TrafficEvent (.start w₀) x) :
    Reach (step env) StatusEvent w₀ x.world := by
  refine h.invariant (P := fun x => Reach (step env) StatusEvent w₀ x.world) .refl
    fun x a hx ok => ?_
  cases a with
  | accept cl => exact .tail (e := .accept cl) hx trivial rfl
  | send t =>
    change Reach (step env) StatusEvent w₀ (x.send t).world
    exact (Traffic.world_send x t).symm ▸ hx
  | take t =>
    refine (takeNumber_spec env t x).mono ?_
    rintro _ _ (rfl | ⟨i, w, -, hbusy, hs, rfl⟩)
    · exact hx
    · exact .tail hx (ok hbusy) hs

/-- In every run the PDUs whose numbers were taken go out in that order. -/
theorem carried_reachable (hw₀ : w₀.Starts) (h : Reach (act env) TrafficEvent (.start w₀) x) :
    x.Carried := by
  refine Reach.invariant_of (P := Traffic.Carried) (fun _ h => reach_world h) ?_
    (fun x a hw hx ok => ?_) h
  · intro i
    change List.filter _ ((Traffic.start w₀).waiting i) = (w₀.slots i).conn.sent.filter _
    rw [hw₀.slots i]
    rfl
  · cases a with
    | accept cl => exact hx.accept ok
    | send t => exact hx.send ok
    | take t =>
      refine (takeNumber_spec env t x).mono ?_
      rintro _ _ (rfl | ⟨i, w, ht, hbusy, hs, rfl⟩)
      · exact hx
      · obtain ⟨⟨l, hi⟩, hj⟩ := (grows_step (books_reachable hw₀ hw) ht (ok hbusy)).of_ret hs
        rw [← hi, List.drop_left]
        exact hx.post hi.symm hj

end Runs

/-- A command that reads a block of the disk: its tag and its CmdSN. -/
def readRequest (tag cmdSN : UInt32) : Bytes :=
  put8 (put8 (request 0x01 0xc1 0 tag 512 cmdSN) 32 0x28) 40 1

/-- A ping overtakes the response of a command: the LUN worker has taken the number 2 for it, and
the worker of the session sends the ping with 3 first. -/
theorem status_overtaken :
    ∃ x, Reach (act smallEnv) (fun _ _ => True) (.start smallWorld) x ∧
      statusRun (x.wire 0) = [1, 3, 2] :=
  exists_reach [.accept
    (client (smallLogin ++ readRequest 2 0 ++ request 0x00 0x80 0 3 0xffffffff 1)),
    .take (.session 0), .send (.session 0), .take (.session 0), .take (.lun 0),
    .take (.session 0), .send (.session 0), .send (.lun 0)] (by decide +kernel)

end Ost.Target
