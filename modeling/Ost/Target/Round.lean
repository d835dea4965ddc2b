import Ost.Target.LoginRequest
import Ost.Target.Moves
import Ost.Target.WriteRequest

/-!
# A round of the session worker

`worker_proc_t` makes its rounds one PDU at a time.  `Round` says once what a round can be: it
names the handler that ran and keeps the run itself, so that each property of a session can take
from the handler's own lemma what it needs.
-/

namespace Ost.Target

open Ost.Iscsi Ost.Util Ost.Param Ost.Prog Ost.Disk

variable (env : Env) (id : Nat)

/-- Move the worker. -/
def Local.atPhase (s : Local) (p : Phase) : Local := { s with slot := { s.slot with phase := p } }

/-- Replace the queue of free headers. -/
def Local.setHeaderQ (s : Local) (q : Fifo Nat) : Local :=
  s.setPool { s.slot.pool with headerQ := q }

/-- Take a header from the stream. -/
def Local.skipHeader (s : Local) : Local :=
  s.setConn { s.slot.conn with rx := s.slot.conn.rx.drop iscsiHeaderLen }

/-- The next header in the stream. -/
def Local.nextHeader (s : Local) : Bytes := s.slot.conn.rx.take iscsiHeaderLen

/-! ## Dispatch -/

/-- Which handler ran on a header, and how. -/
inductive Executed (h : Nat) (hdr : Bytes) (s s' : Local) : Option Int → Prop where
  | outOfPhase (haside : Keeps aside s s') (htally : Tallied s s')
    (hlogin : s'.slot.login = s.slot.login) (hseq : s'.slot.seq = s.slot.seq)
    (hflag : s'.nopFlag = s.nopFlag) : Executed h hdr s s' (some (-1))
  | task {rc : Int} (hop : iscsiOpcode hdr = opTaskCmd)
    (hff : s.slot.login.isFullFeature = true) (hrun : taskCommandT hdr s = .ret rc s') :
    Executed h hdr s s' (some (if rc ≠ 0 then -1 else 0))
  | nop {rc : Int} (hop : iscsiOpcode hdr = opNopOut)
    (hff : s.slot.login.isFullFeature = true) (hrun : nopOutT hdr s = .ret rc s') :
    Executed h hdr s s' (some (if rc ≠ 0 then -1 else 0))
  | login {rc : Int} (hop : iscsiOpcode hdr = opLoginCmd)
    (hrun : loginCommandT env id hdr s = .ret rc s') :
    Executed h hdr s s' (some (if rc ≠ 0 then -1 else 0))
  | text {rc : Int} (hop : iscsiOpcode hdr = opTextCmd)
    (hff : s.slot.login.isFullFeature = true) (hrun : textCommandT env hdr s = .ret rc s') :
    Executed h hdr s s' (some (if rc ≠ 0 then -1 else 0))
  | logout {rc : Int} (hop : iscsiOpcode hdr = opLogoutCmd)
    (hrun : logoutCommandT hdr s = .ret rc s') :
    Executed h hdr s s' (some (if rc ≠ 0 then -1 else 0))
  | scsi {rc : Int} (hop : iscsiOpcode hdr = opScsiCmd)
    (hff : s.slot.login.isFullFeature = true) (hrun : scsiCommandT id h hdr s = .ret rc s') :
    Executed h hdr s s' (some (if rc ≠ 0 then -1 else 1))
  | data {r : Option Int} (hop : iscsiOpcode hdr = opWriteData)
    (hff : s.slot.login.isFullFeature = true) (hrun : writeDataT id h hdr s = .ret r s') :
    Executed h hdr s s' r
  | unknown {rc : Int} (hff : s.slot.login.isFullFeature = true)
    (hop : iscsiOpcode hdr ∉
      [opTaskCmd, opNopOut, opLoginCmd, opTextCmd, opLogoutCmd, opScsiCmd, opWriteData])
    (hrun : rejectT hdr 0x04 s = .ret rc s') :
    Executed h hdr s s' (some (if rc ≠ 0 then -1 else 0))

/-- What `execute_t` does. -/
theorem executeT_spec (h : Nat) (hdr : Bytes) (s : Local) :
    ensures (executeT env id h hdr) (fun r s' => Executed env id h hdr s s' r) s := by
  rw [executeT, ensures, wp_bind]
  refine ensures.mono ((aside_verifyCmdT hdr).and_wp (verifyCmdT_spec hdr s)) ?_
  rintro rc s₁ ⟨⟨htally, hlogin, hseq, hflag, hok⟩, haside⟩
  refine (wp_ite _ _ _).mpr ⟨fun _ => .outOfPhase haside htally hlogin hseq hflag, fun hrc => ?_⟩
  obtain ⟨rfl, hphase⟩ := hok (not_not.mp hrc)
  have hff (h₁ : iscsiOpcode hdr ≠ opLoginCmd) (h₂ : iscsiOpcode hdr ≠ opLogoutCmd) :
      s₁.slot.login.isFullFeature = true :=
    (hphase.resolve_left h₁).resolve_left h₂
  have hne {op : UInt8} (hop : iscsiOpcode hdr = op) {op' : UInt8} (hop' : op ≠ op') :
      iscsiOpcode hdr ≠ op' := hop ▸ hop'
  refine (wp_ite _ _ _).mpr ⟨fun hop => ?_, fun hop₁ => ?_⟩
  · rw [wp_bind]
    exact ensures_run.mono fun rc s' hrun =>
      .task hop (hff (hne hop (by decide)) (hne hop (by decide))) hrun
  refine (wp_ite _ _ _).mpr ⟨fun hop => ?_, fun hop₂ => ?_⟩
  · rw [wp_bind]
    exact ensures_run.mono fun rc s' hrun =>
      .nop hop (hff (hne hop (by decide)) (hne hop (by decide))) hrun
  refine (wp_ite _ _ _).mpr ⟨fun hop => ?_, fun hop₃ => ?_⟩
  · rw [wp_bind]
    exact ensures_run.mono fun rc s' hrun => .login hop hrun
  refine (wp_ite _ _ _).mpr ⟨fun hop => ?_, fun hop₄ => ?_⟩
  · rw [wp_bind]
    exact ensures_run.mono fun rc s' hrun =>
      .text hop (hff (hne hop (by decide)) (hne hop (by decide))) hrun
  refine (wp_ite _ _ _).mpr ⟨fun hop => ?_, fun hop₅ => ?_⟩
  · rw [wp_bind]
    exact ensures_run.mono fun rc s' hrun => .logout hop hrun
  refine (wp_ite _ _ _).mpr ⟨fun hop => ?_, fun hop₆ => ?_⟩
  · rw [wp_bind]
    exact ensures_run.mono fun rc s' hrun =>
      .scsi hop (hff (hne hop (by decide)) (hne hop (by decide))) hrun
  refine (wp_ite _ _ _).mpr ⟨fun hop => ?_, fun hop₇ => ?_⟩
  · exact ensures_run.mono fun rc s' hrun =>
      .data hop (hff (hne hop (by decide)) (hne hop (by decide))) hrun
  · rw [wp_bind]
    refine ensures_run.mono fun rc s' hrun => .unknown (hff hop₃ hop₅) ?_ hrun
    simp [hop₁, hop₂, hop₃, hop₄, hop₅, hop₆, hop₇]

/-! ## The round -/

/-- What becomes of the header and of the worker after a PDU. -/
inductive Settled (h : Nat) (hdr : Bytes) (s : Local) : Int → Local → Prop where
  | failed {queued : Int} (hq : queued < 0) : Settled h hdr s queued (s.atPhase .closing)
  | kept {queued : Int} (hq : 0 < queued) (hop : iscsiOpcode hdr ≠ opLogoutCmd) :
    Settled h hdr s queued s
  | keptLogout {queued : Int} (hq : 0 < queued) (hop : iscsiOpcode hdr = opLogoutCmd) :
    Settled h hdr s queued (s.atPhase .closing)
  | requeued {q : Fifo Nat} (hi : s.slot.pool.headerQ.insert h = some q)
    (hop : iscsiOpcode hdr ≠ opLogoutCmd) : Settled h hdr s 0 (s.setHeaderQ q)
  | loggedOut {q : Fifo Nat} (hi : s.slot.pool.headerQ.insert h = some q)
    (hop : iscsiOpcode hdr = opLogoutCmd) :
    Settled h hdr s 0 ((s.setHeaderQ q).atPhase .closing)
  | full (hi : s.slot.pool.headerQ.insert h = none) : Settled h hdr s 0 (s.atPhase .closing)

/-- What `settle` does. -/
theorem settle_spec (h : Nat) (hdr : Bytes) (queued : Int) (s : Local) :
    ensures (settle h hdr queued) (fun _ s' => Settled h hdr s queued s') s := by
  rw [settle]
  refine (wp_ite _ _ _).mpr ⟨fun hq => .failed hq, fun hq => ?_⟩
  rw [wp_bind, requeueHeader]
  refine (wp_ite _ _ _).mpr ⟨fun h0 => ?_, fun h0 => ?_⟩
  · subst h0
    rw [wp_putHeader]
    refine ⟨fun hi => ?_, fun q hi => ?_⟩
    · rw [wp_guarded]
      exact ⟨fun _ => .full hi, by simp⟩
    · rw [wp_guarded]
      exact ⟨fun hop => .loggedOut hi (by simpa using hop),
        fun hop => .requeued hi (by simpa using hop)⟩
  · have hpos : 0 < queued := by omega
    rw [wp_pure, wp_guarded]
    exact ⟨fun hop => .keptLogout hpos (by simpa using hop),
      fun hop => .kept hpos (by simpa using hop)⟩

/-- What a round of the worker can be. -/
inductive Round (s s' : Local) : Prop where
  | noHeader (hw : s.slot.waiting = none) (hq : s.slot.pool.headerQ.remove = none)
    (hs : s' = (s.setLogin { s.slot.login with isLoggedIn := false }).atPhase .dead)
  | short {h : Nat} {q q' : Fifo Nat} {rx : Bytes} (hw : s.slot.waiting = none)
    (hq : s.slot.pool.headerQ.remove = some (h, q)) (hrx : s.slot.conn.rx.length < iscsiHeaderLen)
    (hq' : q' = (q.insert h).getD q)
    (hs : s' = ((s.setHeaderQ q').setConn { s.slot.conn with rx }).atPhase .closing)
  | waits {h : Nat} {q : Fifo Nat} (hw : s.slot.waiting = none)
    (hq : s.slot.pool.headerQ.remove = some (h, q)) (hrx : iscsiHeaderLen ≤ s.slot.conn.rx.length)
    (hx : Executed env id h s.nextHeader (s.setHeaderQ q).skipHeader s' none)
  | executed {h : Nat} {q : Fifo Nat} {queued : Int} {s₁ : Local} (hw : s.slot.waiting = none)
    (hq : s.slot.pool.headerQ.remove = some (h, q)) (hrx : iscsiHeaderLen ≤ s.slot.conn.rx.length)
    (hx : Executed env id h s.nextHeader (s.setHeaderQ q).skipHeader s₁ (some queued))
    (hs : Settled h s.nextHeader s₁ queued s')
  | stays {h c : Nat} {hdr : Bytes} (hw : s.slot.waiting = some (h, hdr, c))
    (hready : (s.slot.pool.cmdMem c).ready = false) (hs : s' = s)
  | resumed {h c : Nat} {hdr : Bytes} {rc : Int} {s₁ : Local}
    (hw : s.slot.waiting = some (h, hdr, c)) (hready : (s.slot.pool.cmdMem c).ready = true)
    (hx : writeDataReady id hdr c (s.setWaiting none) = .ret rc s₁)
    (hs : Settled h hdr s₁ rc s')

/-- What a round of the worker does. -/
theorem workerRound_spec (s : Local) :
    ensures (workerRound env id) (fun _ s' => Round env id s s') s := by
  rw [workerRound, ensures, wp_bind, wp_get]
  rcases hw : s.slot.waiting with _ | ⟨h, hdr, c⟩
  · dsimp only
    rw [nextPdu, wp_bind, wp_takeHeader]
    refine ⟨fun hq => .noHeader hw hq rfl, fun h q hq => ?_⟩
    dsimp only
    rw [wp_bind]
    refine wp_mono (wp_and (sockRecv_spec _ _) (sockRecv_rc _ _)) ?_ fun _ _ h => h.1.elim
    rintro ⟨rc, hdr⟩ _ ⟨⟨⟨rx, rfl⟩, hhdr, hreads⟩, hrc⟩
    refine (wp_ite _ _ _).mpr ⟨fun hne => ?_, fun heq => ?_⟩
    · have hlt : s.slot.conn.rx.length < iscsiHeaderLen := Nat.lt_of_not_le (mt hrc.mpr hne)
      rw [wp_bind, wp_putHeader]
      refine ⟨fun hi => ?_, fun q' hi => ?_⟩
      · have hi : q.insert h = none := hi
        exact .short hw hq hlt (show q = (q.insert h).getD q by rw [hi]; rfl) rfl
      · have hi : q.insert h = some q' := hi
        exact .short hw hq hlt (show q' = (q.insert h).getD q by rw [hi]; rfl) rfl
    · have hrc' := not_not.mp heq
      have hrx : iscsiHeaderLen ≤ s.slot.conn.rx.length := hrc.mp hrc'
      obtain rfl : rx = _ := (hreads hrc').rx
      obtain rfl : hdr = _ := hhdr
      rw [wp_bind]
      refine (executeT_spec env id h _ _).mono fun r s₁ hx => ?_
      rcases r with _ | queued
      · exact .waits hw hq hrx hx
      · exact (settle_spec h _ queued s₁).mono fun _ _ hs => .executed hw hq hrx hx hs
  · dsimp only
    rw [resume, wp_bind, wp_getCmd]
    refine (wp_ite _ _ _).mpr ⟨fun hready => .stays hw (by simpa using hready) rfl,
      fun hready => ?_⟩
    rw [wp_bind, wp_modify, wp_bind]
    refine ensures_run.mono fun rc s₁ hx => ?_
    exact (settle_spec h hdr rc s₁).mono fun _ _ hs => .resumed hw (by simpa using hready) hx hs

/-! ## Rounds after which the worker goes on -/

variable {env id}

/-- A PDU after which the worker goes on was dealt with, and at most its header went back. -/
theorem Settled.running {h : Nat} {hdr : Bytes} {queued : Int} {s s' : Local}
    (hs : Settled h hdr s queued s') (hp : s'.slot.phase = .running) :
    0 ≤ queued ∧ iscsiOpcode hdr ≠ opLogoutCmd ∧ ∃ q, s' = s.setHeaderQ q := by
  cases hs with
  | failed => exact nomatch hp
  | kept hq hop => exact ⟨hq.le, hop, s.slot.pool.headerQ, rfl⟩
  | keptLogout => exact nomatch hp
  | requeued _ hop => exact ⟨le_refl _, hop, _, rfl⟩
  | loggedOut => exact nomatch hp
  | full => exact nomatch hp

variable (env id)

/-- What a round can be after which the worker goes on. -/
inductive Continues (s s' : Local) : Prop where
  | pdu {h : Nat} {q q' : Fifo Nat} {r : Option Int} {s₁ : Local} (hw : s.slot.waiting = none)
    (hq : s.slot.pool.headerQ.remove = some (h, q)) (hrx : iscsiHeaderLen ≤ s.slot.conn.rx.length)
    (hx : Executed env id h s.nextHeader (s.setHeaderQ q).skipHeader s₁ r)
    (hr : ∀ queued, r = some queued → 0 ≤ queued ∧ iscsiOpcode s.nextHeader ≠ opLogoutCmd)
    (hs : s' = s₁.setHeaderQ q')
  | stays {h c : Nat} {hdr : Bytes} (hw : s.slot.waiting = some (h, hdr, c)) (hs : s' = s)
  | resumed {h c : Nat} {hdr : Bytes} {rc : Int} {q' : Fifo Nat} {s₁ : Local}
    (hw : s.slot.waiting = some (h, hdr, c)) (hready : (s.slot.pool.cmdMem c).ready = true)
    (hx : writeDataReady id hdr c (s.setWaiting none) = .ret rc s₁) (hrc : 0 ≤ rc)
    (hs : s' = s₁.setHeaderQ q')

variable {env id}

theorem Round.continues {s s' : Local} (hr : Round env id s s') (hp : s'.slot.phase = .running) :
    Continues env id s s' := by
  cases hr with
  | noHeader _ _ hs => exact nomatch hs ▸ hp
  | short _ _ _ _ hs => exact nomatch hs ▸ hp
  | waits hw hq hrx hx =>
    exact .pdu hw hq hrx hx nofun (show s' = s'.setHeaderQ s'.slot.pool.headerQ from rfl)
  | executed hw hq hrx hx hs =>
    obtain ⟨hpos, hop, q, hs⟩ := hs.running hp
    exact .pdu hw hq hrx hx (fun _ h => Option.some.inj h ▸ ⟨hpos, hop⟩) hs
  | stays hw _ hs => exact .stays hw hs
  | resumed hw hready hx hs =>
    obtain ⟨hpos, _, q, hs⟩ := hs.running hp
    exact .resumed hw hready hx hpos hs

/-- A handler that returns zero or -1 has succeeded when the worker goes on. -/
theorem rc_of_continues {rc x : Int}
    (h : ∀ queued, some (if rc ≠ 0 then (-1 : Int) else x) = some queued → 0 ≤ queued ∧ True) :
    rc = 0 := by
  by_contra hne
  have := (h _ rfl).1
  simp [hne] at this

end Ost.Target
