import Ost.Target.Books

/-!
# The command window

A target advertises the window from ExpCmdSN to MaxCmdSN.  Each handler moves the two numbers on
its own, and not all of them agree on how: a task management request widens the window, a SCSI
command, a text or a ping is counted without a look at its immediate bit, and a ping that asks for
no answer is not counted at all.  On runs without such requests (`WindowEvent`) the window keeps
its size and ExpCmdSN counts the accepted requests (`window_discipline`).
-/

namespace Ost.Target

open Ost.Iscsi Ost.Util Ost.Param Ost.Prog Ost.Disk

/-! ## The requests a window counts -/

/-- The immediate bit of a request. -/
def isImmediate (hdr : Bytes) : Bool := bit (byte hdr 0) 0x40

/-- The requests that are counted. -/
def countedRequests : List UInt8 := [opScsiCmd, opTextCmd, opNopOut, opTaskCmd]

/-- A request that is not immediate carries the CmdSN that the session expects. -/
def InOrder (hdr : Bytes) (exp : UInt32) : Prop :=
  iscsiOpcode hdr ∈ countedRequests → isImmediate hdr = false → iscsiCmdSN hdr = exp

instance (hdr : Bytes) (exp : UInt32) : Decidable (InOrder hdr exp) :=
  inferInstanceAs (Decidable (_ → _ → _))

/-- The worker of the slot is about to read a header in the full feature phase. -/
def Slot.Serves (s : Slot) : Prop :=
  s.phase = .running ∧ s.waiting = none ∧ s.login.isFullFeature = true ∧
    iscsiHeaderLen ≤ s.conn.rx.length

instance (s : Slot) : Decidable s.Serves := inferInstanceAs (Decidable (_ ∧ _ ∧ _ ∧ _))

/-- The header it is about to read. -/
def Slot.nextHeader (s : Slot) : Bytes := s.conn.rx.take iscsiHeaderLen

/-- Requests come in order. -/
def OrderedEvent (w : World) : Event → Prop
  | .rx i => (w.slots i).Serves → InOrder (w.slots i).nextHeader (w.slots i).seq.expCmdSN
  | .accept _ | .lun => True

instance (w : World) (e : Event) : Decidable (OrderedEvent w e) :=
  match e with
  | .rx _ => inferInstanceAs (Decidable (_ → _))
  | .accept _ | .lun => inferInstanceAs (Decidable True)

/-- How many commands of a slot were handed to the device. -/
def Device.handed (d : Device) (i : Nat) : Nat :=
  (d.events i).countP fun e => match e with
    | .queued _ _ => true
    | .callback _ _ _ => false

/-- A request after which the session goes on was accepted.  Of the requests that are counted, a
SCSI command can be refused without an end of the session. -/
def Accepted (hdr : Bytes) (i : Nat) (d d' : Device) : Prop :=
  iscsiOpcode hdr = opScsiCmd ∧ d'.handed i = d.handed i + 1 ∨
    iscsiOpcode hdr ∈ [opTextCmd, opNopOut, opTaskCmd]

/-- ExpCmdSN advances by one for a request that is accepted and not immediate, and not otherwise. -/
def Advances (hdr : Bytes) (accepted : Prop) (q q' : SeqNums) : Prop :=
  (accepted ∧ isImmediate hdr = false → q'.expCmdSN = q.expCmdSN + 1) ∧
    (¬(accepted ∧ isImmediate hdr = false) → q'.expCmdSN = q.expCmdSN)

/-- What an event does to the ExpCmdSN of a slot while the session goes on.  A round of its worker
counts the request it serves, unless that is a login, and a round for a PDU that was waiting counts
nothing; no round of another thread changes the number. -/
def WindowStep (i : Nat) (w w' : World) : Event → Prop
  | .rx j =>
    if j = i then
      (w'.slots i).phase = .running →
        ((w.slots i).Serves → iscsiOpcode (w.slots i).nextHeader ≠ opLoginCmd →
          Advances (w.slots i).nextHeader (Accepted (w.slots i).nextHeader i w.dev w'.dev)
            (w.slots i).seq (w'.slots i).seq) ∧
        ((w.slots i).waiting ≠ none → (w'.slots i).seq.expCmdSN = (w.slots i).seq.expCmdSN)
    else (w'.slots i).seq.expCmdSN = (w.slots i).seq.expCmdSN
  | .lun => (w'.slots i).seq.expCmdSN = (w.slots i).seq.expCmdSN
  | .accept _ => True

/-- The size of the window stays what a login makes it. -/
def Slot.WindowKept (s : Slot) : Prop :=
  s.phase = .running → s.seq.maxCmdSN - s.seq.expCmdSN = 0

instance (s : Slot) : Decidable s.WindowKept := inferInstanceAs (Decidable (_ → _))

/-! ## The condition -/

/-- A request that its handler counts right. -/
def WindowOk (hdr : Bytes) (nopFlag : Bool) (exp : UInt32) : Prop :=
  InOrder hdr exp ∧
  (iscsiOpcode hdr = opTaskCmd → (iscsiTaskCmdDecap hdr).1 ≠ 0) ∧
  (iscsiOpcode hdr = opScsiCmd → (iscsiScsiCmdDecap hdr).1 = 0 → isImmediate hdr = false) ∧
  (iscsiOpcode hdr = opTextCmd → (iscsiTextCmdDecap hdr).1 = 0 → isImmediate hdr = true →
    iscsiCmdSN hdr ≠ exp) ∧
  (iscsiOpcode hdr = opNopOut → (iscsiNopOutDecap hdr).1 = 0 →
    (isImmediate hdr = true ↔ iscsiItt hdr = 0xffffffff) ∧
      (isImmediate hdr = true → iscsiCmdSN hdr = exp ∨ nopFlag = true))

instance (hdr : Bytes) (nopFlag : Bool) (exp : UInt32) : Decidable (WindowOk hdr nopFlag exp) :=
  inferInstanceAs (Decidable (_ ∧ _ ∧ _ ∧ _ ∧ _))

/-- All requests are such. -/
def WindowEvent (w : World) : Event → Prop
  | .rx i => (w.slots i).Serves →
      WindowOk (w.slots i).nextHeader w.nopFlag (w.slots i).seq.expCmdSN
  | .accept _ | .lun => True

instance (w : World) (e : Event) : Decidable (WindowEvent w e) :=
  match e with
  | .rx _ => inferInstanceAs (Decidable (_ → _))
  | .accept _ | .lun => inferInstanceAs (Decidable True)

/-! ## One round -/

section Step

variable {env : Env} {i : Nat} {s s' : Local}

/-- The part of the sequence numbers that is the window. -/
def SeqNums.window (q : SeqNums) : UInt32 × UInt32 := (q.expCmdSN, q.maxCmdSN)

/-- Nothing is handed to the device for the slot. -/
theorem handed_of_events {d d' : Device} (h : d'.log = d.log) : d'.handed i = d.handed i := by
  rw [Device.handed, Device.events, h]
  rfl

/-- A SCSI command request, in terms of the window. -/
theorem ScsiEnd.window {h : Nat} {hdr : Bytes} (he : ScsiEnd i h hdr 0 s s')
    (hok : (iscsiScsiCmdDecap hdr).1 = 0 → iscsiCmdSN hdr = s.slot.seq.expCmdSN) :
    s'.dev.handed i = s.dev.handed i ∧ s'.slot.seq.window = s.slot.seq.window ∨
    s'.dev.handed i = s.dev.handed i + 1 ∧ (iscsiScsiCmdDecap hdr).1 = 0 ∧
      s'.slot.seq.window = (s.slot.seq.expCmdSN + 1, s.slot.seq.maxCmdSN + 1) := by
  cases he with
  | noCmd hrc => exact absurd rfl hrc
  | @refused c s₁ ha hwhy hend =>
    refine .inl ⟨?_, ?_⟩
    · cases hend with
      | retired _ _ hl => exact (handed_of_events hl).trans (by rw [ha.dev])
      | stopped hrc => exact absurd rfl hrc
    · have hcalm := hend.calm
      have hseq : s'.slot.seq.window = s₁.slot.seq.window :=
        Prod.ext hcalm.expCmdSN hcalm.maxCmdSN
      rw [hseq]
      cases hwhy with
      | header _ hseq => rw [hseq]
      | tooLong hrc hseq => rw [hseq, hok hrc]
      | ahs hrc hseq => rw [hseq, hok hrc]
  | dropped hrc => exact absurd rfl hrc
  | @queued c s₁ s₂ _ hpdu ha hexp hmax _ hb hend =>
    refine .inr ⟨?_, hpdu, ?_⟩
    · have h₁ : s₂.dev.handed i = s.dev.handed i + 1 := by
        obtain ⟨s₃, hh, rfl⟩ := hb.hashed
        have hdev : s₃.dev = s.dev := by
          rw [← ha.dev]
          cases hh <;> simp [*, Local.setPool]
        simp [Device.handed, Device.events, Local.setDev, hdev, DevEvent.slot]
      rw [← h₁]
      cases hend with
      | enqueued _ he =>
        obtain ⟨_, _, _, rfl⟩ := he
        rfl
      | answered _ hc =>
        obtain ⟨_, _, hl⟩ := hc.log
        simp [Device.handed, Device.events, hl]
    · have hcalm := Trans.trans hb.calm hend.calm
      refine Prod.ext (hcalm.expCmdSN.trans ?_) (hcalm.maxCmdSN.trans hmax)
      rw [hexp, hok hpdu]

/-- The window moves as a whole, for a request that is accepted and not immediate. -/
def MovesWindow (hdr : Bytes) (accepted : Prop) (q q' : SeqNums) : Prop :=
  (accepted ∧ isImmediate hdr = false → q'.window = (q.expCmdSN + 1, q.maxCmdSN + 1)) ∧
    (¬(accepted ∧ isImmediate hdr = false) → q'.window = q.window)

theorem MovesWindow.advances {hdr : Bytes} {accepted : Prop} {q q' : SeqNums}
    (h : MovesWindow hdr accepted q q') : Advances hdr accepted q q' :=
  ⟨fun ha => congrArg Prod.fst (h.1 ha), fun ha => congrArg Prod.fst (h.2 ha)⟩

/-- A window that moves as a whole keeps its size. -/
theorem MovesWindow.size {hdr : Bytes} {accepted : Prop} {q q' : SeqNums}
    (h : MovesWindow hdr accepted q q') :
    q'.maxCmdSN - q'.expCmdSN = q.maxCmdSN - q.expCmdSN := by
  by_cases ha : accepted ∧ isImmediate hdr = false
  · obtain ⟨hexp, hmax⟩ := Prod.mk.inj (h.1 ha)
    rw [hexp, hmax]
    grind
  · obtain ⟨hexp, hmax⟩ := Prod.mk.inj (h.2 ha)
    rw [hexp, hmax]

/-- A request that is not counted. -/
theorem movesWindow_of_eq {hdr : Bytes} {q q' : SeqNums} {d d' : Device}
    (hop : iscsiOpcode hdr ∉ countedRequests) (hq : q'.window = q.window) :
    MovesWindow hdr (Accepted hdr i d d') q q' := by
  refine ⟨fun ha => absurd ?_ hop, fun _ => hq⟩
  rcases ha.1 with ⟨h, _⟩ | h
  · rw [h]
    decide
  · exact List.mem_cons_of_mem _ h

variable {h : Nat} {hdr : Bytes} {r : Option Int}

/-- A request after which the session goes on moves the window as it should. -/
theorem Executed.window (hb : Books i s) (hx : Executed env i h hdr s s' r)
    (hr : ∀ queued, r = some queued → 0 ≤ queued ∧ iscsiOpcode hdr ≠ opLogoutCmd)
    (hne : iscsiOpcode hdr ≠ opLoginCmd) (hok : WindowOk hdr s.nopFlag s.slot.seq.expCmdSN) :
    MovesWindow hdr (Accepted hdr i s.dev s'.dev) s.slot.seq s'.slot.seq := by
  obtain ⟨horder, htask, hscsi, htext, hnop⟩ := hok
  have hrc {rc x : Int} (hr : ∀ queued, some (if rc ≠ 0 then (-1 : Int) else x) = some queued →
      0 ≤ queued ∧ iscsiOpcode hdr ≠ opLogoutCmd) : rc = 0 :=
    rc_of_continues fun queued hq => ⟨(hr queued hq).1, trivial⟩
  cases hx with
  | outOfPhase => exact absurd (hr _ rfl).1 (by decide)
  | task hop _ hrun =>
    exact absurd ((taskCommandT_spec hdr s).of_ret hrun (hrc hr)).1 (htask hop)
  | nop hop _ hrun =>
    obtain ⟨_, _, _, hspec⟩ := (nopOutT_spec hdr s).of_ret hrun
    obtain ⟨hpdu, _, hwin⟩ := hspec (hrc hr)
    obtain ⟨himm, hsn⟩ := hnop hop hpdu
    have hsn' : (iscsiNopOutDecap hdr).2.cmdSN = s.slot.seq.expCmdSN ∨ s.nopFlag = true := by
      by_cases h : isImmediate hdr = true
      · exact hsn h
      · exact .inl (horder (by rw [hop]; decide) (by simpa using h))
    have hexp : (if (iscsiNopOutDecap hdr).2.cmdSN ≠ s.slot.seq.expCmdSN ∧ s.nopFlag = false then
        (iscsiNopOutDecap hdr).2.cmdSN else s.slot.seq.expCmdSN) = s.slot.seq.expCmdSN :=
      if_neg fun hcon => hsn'.elim hcon.1 fun h => absurd hcon.2 (by simp [h])
    have hwin' : s'.slot.seq.window = _ := hwin
    rw [nopWindow, hexp] at hwin'
    have htag : (iscsiNopOutDecap hdr).2.tag = iscsiItt hdr := rfl
    refine ⟨fun ha => ?_, fun ha => ?_⟩
    · have hni : ¬(iscsiNopOutDecap hdr).2.tag = 0xffffffff := fun ht =>
        absurd (himm.mpr (htag ▸ ht)) (by simp [ha.2])
      rw [hwin', if_neg hni]
    · have hi : isImmediate hdr = true := by
        by_contra hi
        exact ha ⟨.inr (by rw [hop]; decide), by simpa using hi⟩
      rw [hwin', if_pos (htag.trans (himm.mp hi))]
      rfl
  | login hop => exact absurd hop hne
  | text hop _ hrun =>
    obtain ⟨_, _, hspec⟩ := (textCommandT_spec hdr env s).of_ret hrun
    obtain ⟨hpdu, _, hsn, hexp, hmax⟩ := hspec (hrc hr)
    have hni : isImmediate hdr = false := by
      by_contra hi
      exact htext hop hpdu (by simpa using hi) hsn
    exact ⟨fun _ => Prod.ext hexp hmax, fun ha => absurd ⟨.inr (by rw [hop]; decide), hni⟩ ha⟩
  | logout hop => exact absurd hop (hr _ rfl).2
  | scsi hop _ hrun =>
    have hspec := (scsiCommandT_spec i h hdr s).of_ret hrun
    rw [hrc hr] at hspec
    have hnot : iscsiOpcode hdr ∉ [opTextCmd, opNopOut, opTaskCmd] := by rw [hop]; decide
    rcases hspec.window (fun hpdu => horder (by rw [hop]; decide) (hscsi hop hpdu)) with
      ⟨hcount, hwin⟩ | ⟨hcount, hpdu, hwin⟩
    · refine ⟨fun ha => ?_, fun _ => hwin⟩
      rcases ha.1 with ⟨_, h⟩ | h
      · omega
      · exact absurd h hnot
    · exact ⟨fun _ => hwin, fun ha => absurd ⟨.inl ⟨hop, hcount⟩, hscsi hop hpdu⟩ ha⟩
  | data hop _ hrun =>
    refine movesWindow_of_eq (by rw [hop]; decide) ?_
    have hspec := (writeDataT_spec i h hdr
      (fun k c hc => (hb.outstanding k c hc).1) fun c hc => hb.lun c (.inl hc)).of_ret hrun
    cases hspec with
    | bad _ hs => rw [hs]
    | waits _ _ _ _ hs => rw [hs]; rfl
    | ready _ _ _ _ hend =>
      obtain ⟨_, _, hexp, hmax, _⟩ := hend.still
      exact Prod.ext hexp hmax
  | unknown _ hop hrun =>
    obtain ⟨_, hseq, _⟩ := (rejectT_spec hdr 0x04 s).of_ret hrun
    exact movesWindow_of_eq (fun h => hop ((by decide : countedRequests ⊆ _) h)) (by rw [hseq]; rfl)

/-- A login request that succeeds sets both ends of the window. -/
theorem Executed.window_login (hx : Executed env i h hdr s s' r)
    (hr : ∀ queued, r = some queued → 0 ≤ queued ∧ iscsiOpcode hdr ≠ opLogoutCmd)
    (hop : iscsiOpcode hdr = opLoginCmd) : s'.slot.seq.maxCmdSN - s'.slot.seq.expCmdSN = 0 := by
  cases hx with
  | outOfPhase => exact absurd (hr _ rfl).1 (by decide)
  | @login rc _ hrun =>
    have hrc : rc = 0 := rc_of_continues fun queued hq => ⟨(hr queued hq).1, trivial⟩
    cases (loginCommandT_spec env i hdr s).of_ret hrun with
    | silent hne => exact absurd hrc hne
    | refused hne => exact absurd hrc hne
    | advanced _ _ _ _ hadv =>
      obtain ⟨_, _, _, ha, _⟩ := hadv.steps
      rw [ha.expCmdSN, ha.maxCmdSN]
      exact UInt32.sub_self _
  | task hop' | nop hop' | text hop' | logout hop' | scsi hop' | data hop' =>
    exact absurd (hop.symm.trans hop') (by decide)
  | unknown _ hmem => exact absurd (by rw [hop]; decide) hmem

/-- A PDU that is served outside the full feature phase is a login or a logout. -/
theorem Executed.fullFeature (hx : Executed env i h hdr s s' r)
    (hr : ∀ queued, r = some queued → 0 ≤ queued ∧ iscsiOpcode hdr ≠ opLogoutCmd)
    (hne : iscsiOpcode hdr ≠ opLoginCmd) : s.slot.login.isFullFeature = true := by
  cases hx with
  | outOfPhase => exact absurd (hr _ rfl).1 (by decide)
  | login hop => exact absurd hop hne
  | logout hop => exact absurd hop (hr _ rfl).2
  | task _ hff | nop _ hff | text _ hff | scsi _ hff | data _ hff | unknown hff => exact hff

/-- A round of the worker keeps the size of the window, and counts the request it serves. -/
theorem Round.window (hb : Books i s) (hp : s.slot.phase = .running) (hk : s.slot.WindowKept)
    (hok : s.slot.Serves → WindowOk s.slot.nextHeader s.nopFlag s.slot.seq.expCmdSN)
    (hr : Round env i s s') (hp' : s'.slot.phase = .running) :
    s'.slot.seq.maxCmdSN - s'.slot.seq.expCmdSN = 0 ∧
    (s.slot.Serves → iscsiOpcode s.slot.nextHeader ≠ opLoginCmd →
      Advances s.slot.nextHeader (Accepted s.slot.nextHeader i s.dev s'.dev) s.slot.seq
        s'.slot.seq) ∧
    (s.slot.waiting ≠ none → s'.slot.seq.expCmdSN = s.slot.seq.expCmdSN) := by
  cases hr.continues hp' with
  | @pdu h q q' r s₁ hw _ hrx hx hgo hs =>
    subst hs
    refine (?_ : _ ∧ _).imp id fun h => ⟨h, fun hne => absurd hw hne⟩
    by_cases hop : iscsiOpcode s.slot.nextHeader = opLoginCmd
    · exact ⟨hx.window_login hgo hop, fun _ hne => absurd hop hne⟩
    · have hserves : s.slot.Serves := ⟨hp, hw, hx.fullFeature hgo hop, hrx⟩
      have hb₀ : Books i (s.setHeaderQ q).skipHeader := hb.congr rfl rfl rfl (.inl rfl) rfl rfl
      have hmove := Executed.window hb₀ hx hgo hop (hok hserves)
      exact ⟨hmove.size.trans (hk hp), fun _ _ => hmove.advances⟩
  | stays hw hs =>
    subst hs
    exact ⟨hk hp, fun hserves => absurd (hserves.2.1.symm.trans hw) nofun, fun _ => rfl⟩
  | @resumed h c hdr rc q' s₁ hw hready hx _ hs =>
    subst hs
    obtain ⟨hend, _⟩ := hb.resumed hw hready hx
    obtain ⟨_, _, hexp, hmax, _⟩ := hend.still
    refine ⟨?_, fun hserves => absurd (hserves.2.1.symm.trans hw) nofun, fun _ => hexp⟩
    have hsize : s₁.slot.seq.maxCmdSN - s₁.slot.seq.expCmdSN = 0 := by
      rw [hexp, hmax]
      exact hk hp
    exact hsize

end Step

/-! ## Runs -/

section Runs

variable {env : Env} {w₀ w : World}

/-- In a run whose requests are such that their handlers count them right, the window keeps its
size. -/
theorem windowKept_reachable (hw₀ : w₀.Starts) (h : Reach (step env) WindowEvent w₀ w) (i : Nat) :
    (w.slots i).WindowKept := by
  refine invariant_slots (P := fun _ s => s.WindowKept) (fun i => ?_) ?_ ?_ ?_ ?_ h i
  · rw [hw₀.slots i]
    exact nofun
  · exact fun _ _ _ _ _ => UInt32.sub_self _
  · rintro w i p _ _ _ (rfl | rfl) _ <;> exact nofun
  · intro w i hreach ok hp hk
    refine (workerRound_spec env i _).mono fun _ s hr hp' => ?_
    exact (hr.window (books_reachable hw₀ hreach i) hp hk ok hp').1
  · intro w i c q _ _ _ hk
    refine (lunWorker_spec _).mono fun _ s hl hp => ?_
    have hcalm := hl.calm
    rw [hcalm.maxCmdSN, hcalm.expCmdSN]
    exact hk (hcalm.phase.symm.trans hp)

/-- In such a run every event counts the requests as it should. -/
theorem windowStep_of_ok (hw₀ : w₀.Starts) (h : Reach (step env) WindowEvent w₀ w) {e : Event}
    (ok : WindowEvent w e) {w' : World} (hmove : World.Move env w e w') (i : Nat) :
    WindowStep i w w' e := by
  have hk := windowKept_reachable hw₀ h i
  cases hmove with
  | idle hidle =>
    cases e with
    | accept => trivial
    | rx j =>
      rw [WindowStep]
      split
      · subst j
        exact fun hp => absurd hp (hidle i rfl)
      · rfl
    | lun => rfl
  | accept => trivial
  | @round j s hp hrun =>
    by_cases hj : j = i
    · subst hj
      have hr := (workerRound_spec env j _).of_ret hrun
      rw [WindowStep, if_pos rfl, World.slots_put_self]
      exact fun hp' => (hr.window (books_reachable hw₀ h j) hp hk ok hp').2
    · rw [WindowStep, if_neg hj, World.slots_put_of_ne _ _ (Ne.symm hj)]
  | @ended j p q _ hend =>
    by_cases hj : j = i
    · subst hj
      rw [WindowStep, if_pos rfl]
      rcases hend with rfl | rfl <;> simp [Slot.cleaned]
    · simp [WindowStep, hj, Function.update_of_ne (Ne.symm hj)]
  | @lun j c q s hq hrun =>
    by_cases hj : i = j
    · subst hj
      rw [WindowStep, World.slots_put_self]
      exact ((lunWorker_spec _).of_ret hrun).calm.expCmdSN
    · rw [WindowStep, World.slots_put_of_ne _ _ hj]
      rfl

/-- In a run whose requests are all such that their handlers count them right, the window keeps
its size, and ExpCmdSN counts the accepted requests. -/
theorem window_discipline (hw₀ : w₀.Starts) (h : Reach (step env) WindowEvent w₀ w) (i : Nat) :
    (w.slots i).WindowKept ∧ ∀ e w', WindowEvent w e → step env e w = .ret ⟨⟩ w' →
      WindowStep i w w' e :=
  ⟨windowKept_reachable hw₀ h i, fun e _ ok he =>
    windowStep_of_ok hw₀ h ok ((step_spec env e w).of_ret he) i⟩

end Runs

/-- A run with a login, a ping that wants an answer and another that does not. -/
theorem window_discipline_pings : ∃ w, Reach (step smallEnv) WindowEvent smallWorld w ∧
    (w.slots 0).phase = .running ∧ (w.slots 0).seq.maxCmdSN = 1 ∧ (w.slots 0).WindowKept := by
  have hrun : ∃ w, Reach (step smallEnv) WindowEvent smallWorld w ∧
      (w.slots 0).phase = .running ∧ (w.slots 0).seq.maxCmdSN = 1 := exists_reach
    [.accept (client (smallLogin ++ request 0x00 0x80 0 2 0xffffffff 0 ++
      request 0x40 0x80 0 0xffffffff 0xffffffff 1)), .rx 0, .rx 0, .rx 0] (by decide +kernel)
  obtain ⟨w, h, hp, hmax⟩ := hrun
  exact ⟨w, h, hp, hmax, (window_discipline starts_smallWorld h 0).1⟩

/-- A task management request that comes in order widens the window. -/
theorem window_widened_by_task : ∃ w, Reach (step smallEnv) OrderedEvent smallWorld w ∧
    (w.slots 0).login.isFullFeature = true ∧ ¬(w.slots 0).WindowKept :=
  exists_reach [.accept (client (smallLogin ++ request 0x02 0x80 0 2 0 0)), .rx 0, .rx 0]
    (by decide +kernel)

end Ost.Target
