import Ost.Initiator.Requeue
import Ost.Initiator.WriteData

/-!
# Answering R2Ts

A command has room for one R2T.  The Rx worker stores it there and queues the command; the Tx
worker answers it when the turn of the command comes.  As long as no R2T arrives while another
one of its command waits, and each asks for something that can be answered, every R2T that is
accepted is answered once, with the data it asks for, and the command is outstanding all the time.

Nothing is asked of the order in which the target asks for the parts of a transfer, or of the steps
of the other threads.
-/

namespace Ost.Initiator

open Ost.Iscsi Ost.Util Ost.Param Ost.Prog

variable {s s' : Session} {c d : Nat} {env : Env} {cfg : TargetConfig}

/-! ## The R2Ts of a command -/

/-- The R2Ts accepted for the command, oldest first. -/
def Session.r2ts (s : Session) (c : Nat) : List R2t :=
  s.accepted.filterMap fun e => if e.1 = c then some e.2 else none

/-- The answers sent for the command, oldest first. -/
def Session.replies (s : Session) (c : Nat) : List (List WriteData) :=
  s.answers.filterMap fun e => if e.1 = c then some e.2 else none

theorem Session.r2ts_concat {r : R2t} (h : s'.accepted = s.accepted ++ [(c, r)]) (d : Nat) :
    s'.r2ts d = if c = d then s.r2ts d ++ [r] else s.r2ts d := by
  unfold Session.r2ts
  rw [h, List.filterMap_append]
  split
  · rename_i hcd
    simp [hcd]
  · rename_i hcd
    simp [hcd]

theorem Session.replies_concat {ds : List WriteData} (h : s'.answers = s.answers ++ [(c, ds)])
    (d : Nat) : s'.replies d = if c = d then s.replies d ++ [ds] else s.replies d := by
  unfold Session.replies
  rw [h, List.filterMap_append]
  split
  · rename_i hcd
    simp [hcd]
  · rename_i hcd
    simp [hcd]

/-- How far the R2Ts of a command have been answered. -/
inductive Served (s : Session) (c : Nat) : Prop where
  | /-- All of them, in order. -/
    all (answered : List.Forall₂ Answers (s.r2ts c) (s.replies c))
      (idle : (s.books.mem c).body.type = .scsi →
        (s.books.mem c).r2tRequest = 0 ∨ s.copies c = 0)
  | /-- All but the last, for which the command waits. -/
    last (l : List R2t) (accepted : s.r2ts c = l ++ [(s.books.mem c).r2t])
      (answered : List.Forall₂ Answers l (s.replies c)) (type : (s.books.mem c).body.type = .scsi)
      (pending : (s.books.mem c).r2tRequest = 1)
      (waits : s.copies c = 1 ∨ s.tx = .exited ∨ c ∈ s.books.called)

/-- The invariant of a session. -/
structure Answering (s : Session) : Prop where
  dropped : ∀ c ∈ s.books.issued, (s.books.mem c).aborted = true → c ∈ s.books.called
  known : ∀ e ∈ s.accepted, e.1 ∈ s.books.issued
  workers : s.flags.started = false → s.accepted = [] ∧ s.rx = .exited
  served : ∀ c, Served s c

/-! ## The condition -/

/-- No R2T arrives for a command that still has one. -/
def Single (s : Session) (e : Event) : Prop :=
  match e, s.rx with
  | .rx _, .handling (some c) p =>
    iscsiOpcode p.header = opR2t → (s.books.mem c).r2tRequest = 0
  | _, _ => True

instance (s : Session) : ∀ e, Decidable (Single s e)
  | .rx inp =>
    match h : s.rx with
    | .handling (some c) p =>
      decidable_of_iff (iscsiOpcode p.header = opR2t → (s.books.mem c).r2tRequest = 0)
        (by simp only [Single, h])
    | .handling none p | .waiting c p => isTrue (by simp only [Single, h])
    | .idle | .exited => isTrue (by simp only [Single, h])
  | .start _ | .fullFeature | .enqueue .. | .control .. | .tx | .abort _ | .fail | .stop
  | .destroy => isTrue trivial

/-- The R2T that the Tx worker is about to answer can be answered. -/
def Answerable (s : Session) (e : Event) : Prop :=
  match e, s.tx with
  | .tx, .sending c =>
    match (s.books.mem c).body with
    | .scsi q => (s.books.mem c).r2tRequest ≠ 0 →
        R2t.answerable (s.books.mem c).r2t q s.vars.sessParams
    | _ => True
  | _, _ => True

instance (s : Session) : ∀ e, Decidable (Answerable s e)
  | .tx =>
    match h : s.tx with
    | .sending c =>
      match hbody : (s.books.mem c).body with
      | .scsi q =>
        decidable_of_iff ((s.books.mem c).r2tRequest ≠ 0 →
          R2t.answerable (s.books.mem c).r2t q s.vars.sessParams)
          (by simp only [Answerable, h, hbody])
      | .nopOut _ | .login _ | .text _ | .logout _ | .other =>
        isTrue (by simp only [Answerable, h, hbody])
    | .taken c | .hashed c | .sent c => isTrue (by simp only [Answerable, h])
    | .idle | .exited => isTrue (by simp only [Answerable, h])
  | .start _ | .fullFeature | .enqueue .. | .control .. | .rx _ | .abort _ | .fail | .stop
  | .destroy => isTrue trivial

/-- The callers do as they should, no session is recovered while an R2T waits in its queue, and R2Ts
come one at a time and can be answered. -/
def Prompt (s : Session) (e : Event) : Prop :=
  Settling (fun _ => True) s e ∧ Single s e ∧ Answerable s e

instance (s : Session) (e : Event) : Decidable (Prompt s e) :=
  inferInstanceAs (Decidable (_ ∧ _))

/-! ## What leaves the R2Ts alone -/

/-- The part of a command that belongs to its R2Ts. -/
structure R2tKey where
  type : CmdType
  r2tRequest : Nat
  r2t : R2t
  aborted : Bool

/-- That part of a command. -/
def InitiatorCmd.r2tKey (t : InitiatorCmd) : R2tKey :=
  { type := t.body.type, r2tRequest := t.r2tRequest, r2t := t.r2t, aborted := t.aborted }

theorem r2tKey_of_key {t t' : InitiatorCmd} (h : t'.key = t.key) : t'.r2tKey = t.r2tKey :=
  congrArg (fun k : CmdKey => R2tKey.mk k.type k.r2tRequest k.r2t k.aborted) h

/-- The command keeps its R2Ts and its places, or the Tx worker has stopped or the callback has been
run. -/
theorem Served.mono (h : Served s c) (hkey : (s'.books.mem c).r2tKey = (s.books.mem c).r2tKey)
    (hr2ts : s'.r2ts c = s.r2ts c) (hreplies : s'.replies c = s.replies c)
    (hcopies : s'.copies c = s.copies c ∨
      s'.copies c ≤ s.copies c ∧ (s'.tx = .exited ∨ c ∈ s'.books.called ∨ s.r2ts c = []))
    (htx : s.tx = .exited → s'.tx = .exited ∨ s.r2ts c = [])
    (hcalled : c ∈ s.books.called → c ∈ s'.books.called) : Served s' c := by
  have htype : (s'.books.mem c).body.type = (s.books.mem c).body.type :=
    congrArg R2tKey.type hkey
  have hn : (s'.books.mem c).r2tRequest = (s.books.mem c).r2tRequest :=
    congrArg R2tKey.r2tRequest hkey
  cases h with
  | all answered idle =>
    refine .all (by rw [hr2ts, hreplies]; exact answered) fun ht => ?_
    rw [hn]
    refine (idle (htype ▸ ht)).imp_right fun h0 => ?_
    rcases hcopies with hc | ⟨hc, -⟩ <;> omega
  | last l accepted answered type pending waits =>
    refine .last l ?_ (by rw [hreplies]; exact answered) (htype.trans type) (hn.trans pending) ?_
    · rw [hr2ts, accepted]
      exact congrArg (fun r => l ++ [r]) (congrArg R2tKey.r2t hkey).symm
    · have hne : s.r2ts c ≠ [] := by simp [accepted]
      rcases hcopies with hc | ⟨-, hc⟩
      · rcases waits with hw | hw | hw
        · exact .inl (hc.trans hw)
        · exact .inr (.inl ((htx hw).resolve_right hne))
        · exact .inr (.inr (hcalled hw))
      · exact .inr (hc.imp_right fun hc => hc.resolve_right hne)

namespace Answering

/-- Every command keeps its R2Ts and its places. -/
theorem mono (h : Answering s) (haccepted : s'.accepted = s.accepted)
    (hanswers : s'.answers = s.answers) (hissued : s'.books.issued = s.books.issued)
    (hcalled : ∀ d ∈ s.books.called, d ∈ s'.books.called)
    (hstarted : s'.flags.started = false → s.flags.started = false ∧ s'.rx = s.rx)
    (hkey : ∀ d, (s'.books.mem d).r2tKey = (s.books.mem d).r2tKey)
    (hcopies : ∀ d, s'.copies d = s.copies d ∨
      s'.copies d ≤ s.copies d ∧ (s'.tx = .exited ∨ d ∈ s'.books.called ∨ s.accepted = []))
    (htx : s.tx = .exited → s'.tx = .exited ∨ s.accepted = []) : Answering s' where
  dropped c hc ha := by
    rw [hissued] at hc
    exact hcalled c (h.dropped c hc ((congrArg R2tKey.aborted (hkey c)).symm.trans ha))
  known e he := by
    rw [haccepted] at he
    rw [hissued]
    exact h.known e he
  workers hf := by
    obtain ⟨hf, hrx⟩ := hstarted hf
    rw [haccepted, hrx]
    exact h.workers hf
  served c := by
    have nil : s.accepted = [] → s.r2ts c = [] := fun h0 => by
      rw [Session.r2ts, h0]
      rfl
    refine (h.served c).mono (hkey c) (by rw [Session.r2ts, haccepted]; rfl)
      (by rw [Session.replies, hanswers]; rfl) ?_ (fun ht => (htx ht).imp_right nil) (hcalled c)
    exact (hcopies c).imp_right fun hc => ⟨hc.1, hc.2.imp_right (.imp_right nil)⟩

/-- A handler that leaves its command outstanding; the Tx worker may give up. -/
theorem of_same (h : Answering s) (hs : Same c s s') {f : Flags} {p : TxPhase}
    (hf : f.started = s'.flags.started) (hp : p = s'.tx ∨ p = .exited) :
    Answering { s' with flags := f, tx := p } := by
  refine h.mono hs.accepted hs.answers hs.issued (by simp [hs.called])
    (fun hn => ⟨hs.started.symm.trans (hf.symm.trans hn), hs.rx⟩)
    (fun d => r2tKey_of_key (hs.key_eq d)) (fun d => ?_) fun ht => .inl ?_
  · rcases hp with rfl | rfl
    · exact .inl (by rw [Session.copies, Session.copies, hs.txQueue, hs.tx])
    · refine .inr ⟨?_, .inl rfl⟩
      rw [Session.copies, Session.copies, hs.txQueue]
      exact Nat.add_le_add_left (Nat.zero_le _) _
  · rcases hp with rfl | rfl
    · exact hs.tx.trans ht
    · rfl

/-- A handler that completes its command. -/
theorem of_completed (h : Answering s) (hs : Completed c s s') : Answering s' := by
  refine h.mono hs.accepted hs.answers hs.issued (by simp +contextual [hs.called])
    (fun hn => ⟨hs.started.symm.trans hn, hs.rx⟩) (fun d => r2tKey_of_key ?_)
    (fun d => .inl (by rw [Session.copies, Session.copies, hs.txQueue, hs.tx]))
    fun ht => .inl (hs.tx.trans ht)
  by_cases hd : d = c
  · rw [hd]
    exact hs.key
  · rw [hs.other d hd]

theorem of_ended (h : Answering s) (hs : Ended c s s') : Answering s' :=
  hs.elim (fun hs => h.of_same (f := s'.flags) hs rfl (.inl rfl)) h.of_completed

theorem of_same_all (h : Answering s) (hs : ∀ c, Same c s s') : Answering s' :=
  h.of_same (f := s'.flags) (hs 0) rfl (.inl rfl)

/-- The Tx worker stops. -/
theorem exitTx (h : Answering s) {f : Flags} (hf : f.started = s.flags.started) :
    Answering { s with flags := f, tx := .exited } :=
  h.of_same (c := 0) (refl s) hf (.inr rfl)

/-- The Tx worker turns to another command, and leaves none that still waits. -/
theorem idleTx (h : Answering s) (ht : s.tx ≠ .exited)
    (hw : ∀ d, s.tx.works d = true → d ∈ s.books.called) : Answering { s with tx := .idle } := by
  refine h.mono rfl rfl rfl (fun _ hd => hd) (fun hn => ⟨hn, rfl⟩) (fun _ => rfl) (fun d => ?_)
    fun he => absurd he ht
  cases hd : s.tx.works d
  · exact .inl (by rw [Session.copies, Session.copies, hd]; rfl)
  · exact .inr ⟨Nat.add_le_add_left (Nat.zero_le _) _, .inr (.inl (hw d hd))⟩

/-- The session manager changes the variables and the flags. -/
theorem setVars (h : Answering s) {v : Vars} {f : Flags} {b : Bool}
    (hf : f.started = false → s.flags.started = false) :
    Answering { s with vars := v, flags := f, stopping := b } :=
  h.mono rfl rfl rfl (fun _ hd => hd) (fun hn => ⟨hf hn, rfl⟩) (fun _ => rfl) (fun _ => .inl rfl)
    .inl

end Answering

/-! ## The Tx worker -/

/-- A command structure is replaced by one with the same R2T. -/
theorem Answering.setCmd (h : Answering s) {t : InitiatorCmd} {p : TxPhase}
    (hkey : t.r2tKey = (s.books.mem c).r2tKey) (hw : ∀ d, p.works d = s.tx.works d)
    (ht : s.tx ≠ .exited) : Answering { s.setCmd c t with tx := p } := by
  refine h.mono rfl rfl rfl (fun _ hd => hd) (fun hn => ⟨hn, rfl⟩) (fun d => ?_) (fun d => .inl ?_)
    fun he => absurd he ht
  · change (Function.update s.books.mem c t d).r2tKey = _
    by_cases hd : d = c
    · rw [hd, Function.update_self, hkey]
    · rw [Function.update_of_ne hd]
  · simp only [Session.copies, hw]
    rfl

/-- The worker has executed a command. -/
theorem Answering.toSent (h : Answering s) (ht : s.tx = .sending c)
    (hqueue : s'.books.txQueue = s.books.txQueue) (hissued : s'.books.issued = s.books.issued)
    (hcalled : s'.books.called = s.books.called) (hrx : s'.rx = s.rx)
    (hstarted : s'.flags.started = s.flags.started) (haccepted : s'.accepted = s.accepted)
    (hother : ∀ d, d ≠ c → s'.books.mem d = s.books.mem d)
    (haborted : (s'.books.mem c).aborted = (s.books.mem c).aborted)
    (hreplies : ∀ d, d ≠ c → s'.replies d = s.replies d)
    (hc : Served { s' with tx := .sent c } c) : Answering { s' with tx := .sent c } where
  dropped d hd ha := by
    rw [hissued] at hd
    rw [hcalled]
    refine h.dropped d hd ?_
    rcases eq_or_ne d c with rfl | hdc
    · exact haborted.symm.trans ha
    · exact hother d hdc ▸ ha
  known e he := by
    rw [hissued]
    exact h.known e (haccepted ▸ he)
  workers hf := by
    rw [haccepted, hrx]
    exact h.workers (hstarted.symm.trans hf)
  served d := by
    rcases eq_or_ne d c with rfl | hdc
    · exact hc
    · refine (h.served d).mono (congrArg _ (hother d hdc)) (by rw [Session.r2ts, haccepted]; rfl)
        (hreplies d hdc) (.inl ?_) (fun he => absurd he (by simp [ht])) (by simp [hcalled])
      simp only [Session.copies, hqueue, ht, TxPhase.works, beq_eq_false_iff_ne.mpr hdc.symm]

/-- The worker has answered the R2T of a command. -/
theorem Answering.answered (h : Answering s) (ht : s.tx = .sending c) {ds : List WriteData}
    (htype : (s.books.mem c).body.type = .scsi) (hpending : (s.books.mem c).r2tRequest ≠ 0)
    (ha : Answered c ds s s') : Answering { s' with tx := .sent c } := by
  refine h.toSent ht ha.txQueue ha.issued ha.called ha.rx ha.started ha.accepted ha.other
    (congrArg CmdKey.aborted ha.key) (fun d hd => ?_) ?_
  · rw [Session.replies_concat ha.answers, if_neg hd.symm]
  have hreplies : s'.replies c = s.replies c ++ [ds] := by
    rw [Session.replies_concat ha.answers, if_pos rfl]
  have hr2ts : s'.r2ts c = s.r2ts c := by rw [Session.r2ts, ha.accepted]; rfl
  cases h.served c with
  | all answered idle =>
    have hw := copies_of_works (works_iff.mpr (.inr (.inr ht)))
    rcases idle htype with h0 | h0
    · exact absurd h0 hpending
    · exact absurd (hw.symm.trans h0) (Nat.succ_ne_zero _)
  | last l accepted answered _ pending waits =>
    refine .all ?_ fun _ => .inl ?_
    · change List.Forall₂ Answers (s'.r2ts c) (s'.replies c)
      rw [hr2ts, accepted, hreplies]
      exact List.rel_append answered (.cons ha.whole .nil)
    · refine (congrArg CmdKey.r2tRequest ha.key).trans ?_
      change (s.books.mem c).r2tRequest - 1 = 0
      rw [pending]

/-- The worker has sent a command for the first time. -/
theorem Answering.first (h : Answering s) (ht : s.tx = .sending c)
    (hfirst : (s.books.mem c).body.type = .scsi → (s.books.mem c).r2tRequest = 0)
    (hs : Same c s s') : Answering { s' with tx := .sent c } := by
  have hreplies : ∀ d, s'.replies d = s.replies d := fun d => by
    rw [Session.replies, hs.answers]
    rfl
  refine h.toSent ht hs.txQueue hs.issued hs.called hs.rx hs.started hs.accepted hs.other
    (congrArg CmdKey.aborted hs.key) (fun d _ => hreplies d) ?_
  cases h.served c with
  | all answered idle =>
    refine .all ?_ fun htype => .inl ?_
    · change List.Forall₂ Answers (s'.r2ts c) (s'.replies c)
      rw [hreplies, Session.r2ts, hs.accepted]
      exact answered
    · exact (congrArg CmdKey.r2tRequest hs.key).trans
        (hfirst ((congrArg CmdKey.type hs.key).symm.trans htype))
  | last l accepted answered type pending waits =>
    rw [hfirst type] at pending
    exact nomatch pending

theorem txWorkerProcI_answering {Z : Body → Prop} (hc : Counted Z s) (h : Answering s) :
    ensures txWorkerProcI (fun _ s' => Answering s') s := by
  have same : ∀ {t : Session}, (∀ d, t.copies d = s.copies d) → ∀ d, t.copies d = s.copies d ∨
      t.copies d ≤ s.copies d ∧ (t.tx = .exited ∨ d ∈ t.books.called ∨ s.accepted = []) :=
    fun he d => .inl (he d)
  simp only [ensures, txWorkerProcI, wp_bind, wp_get]
  cases ht : s.tx with
  | idle =>
    simp only [txIdle, wp_bind, wp_get]
    refine (wp_ite _ _ _).mpr ⟨fun _ => h.exitTx (f := s.flags) rfl, fun _ => ?_⟩
    rw [wp_bind, wp_queueRemove]
    refine ⟨fun _ => ?_, fun c q hr => ?_⟩
    · simp only [wp_bind, wp_getVars]
      refine (wp_ite _ _ _).mpr ⟨fun _ => ?_, fun _ => h⟩
      rw [wp_bind]
      refine (ensures_forall fun c => (same_nopOutI c _).run s).mono fun x s₁ h₁ => ?_
      have h₁ := h.of_same_all h₁
      simp only [wp_bind, wp_modifyVars]
      refine (wp_ite _ _ _).mpr ⟨fun _ => ?_, fun _ => ?_⟩
      · exact h₁.setVars (f := s₁.flags) (b := s₁.stopping) id
      · exact (h₁.setVars (f := s₁.flags) (b := s₁.stopping) id).exitTx rfl
    · exact h.mono rfl rfl rfl (fun _ hd => hd) (fun hn => ⟨hn, rfl⟩) (fun _ => rfl)
        (same (copies_take ht (Fifo.remove_some hr).1)) fun he => absurd he (by simp [ht])
  | taken c =>
    have keep : ∀ {t : Session}, t.accepted = s.accepted → t.answers = s.answers →
        t.books.issued = s.books.issued → t.books.called = s.books.called → t.flags = s.flags →
        t.rx = s.rx → t.books.mem = s.books.mem → (∀ d, t.copies d = s.copies d) →
        Answering t := fun h₁ h₂ h₃ h₄ h₅ h₆ h₇ h₈ =>
      h.mono h₁ h₂ h₃ (by simp [h₄]) (fun hn => ⟨h₅ ▸ hn, h₆⟩) (fun d => by rw [h₇]) (same h₈)
        fun he => absurd he (by simp [ht])
    simp only [txTaken, wp_bind, wp_getCmd, wp_getFlags]
    refine (wp_ite _ _ _).mpr ⟨fun _ => ?_, fun _ => ?_⟩
    · rw [wp_bind, wp_queueInsert]
      exact ⟨fun _ => h.exitTx rfl, fun q hi => keep rfl rfl rfl rfl rfl rfl rfl
        (copies_putBack ht (Fifo.insert_some hi).1)⟩
    · simp only [wp_bind, wp_hashLookup]
      split
      · exact keep rfl rfl rfl rfl rfl rfl rfl (copies_register ht (t := s.books.cmdHash))
      · rw [wp_bind, wp_hashAdd]
        exact ⟨fun _ => h.exitTx (f := s.flags) rfl, fun t _ =>
          keep rfl rfl rfl rfl rfl rfl rfl (copies_register ht (t := t))⟩
  | hashed c =>
    simp only [txHashed, wp_bind, wp_getCmd]
    refine (wp_ite _ _ _).mpr ⟨fun hab => ?_, fun _ => ?_⟩
    · refine h.idleTx (by simp [ht]) fun d hd => ?_
      obtain rfl : c = d := by simpa [ht, TxPhase.works] using hd
      exact h.dropped c (hc.roster.issued c (.inr (.inr (.inl (by rw [ht]; rfl))))) hab
    · simp only [wp_bind, wp_modifyCmd]
      refine h.setCmd ?_ (fun d => ?_) (by simp [ht])
      · rfl
      · rw [ht]
        rfl
  | sending c =>
    rw [wp_bind]
    refine (execute_spec c s).mono fun ok s₁ h₁ => ?_
    refine (wp_ite _ _ _).mpr ⟨fun hok => ?_, fun hok => ?_⟩
    · subst hok
      cases h₁ with
      | same _ hs hfirst => exact h.first ht (hfirst rfl) hs
      | answered ds htype hpending ha => exact h.answered ht htype hpending ha
    · cases h₁ with
      | same _ hs _ => exact h.of_same hs rfl (.inr rfl)
      | answered ds _ _ ha => exact absurd rfl hok
  | sent c =>
    have hw : ∀ {t : Session}, t.tx = s.tx → ∀ d, t.tx.works d = true → d ∈ t.books.called :=
      fun he d hd => by simp [he, ht, TxPhase.works] at hd
    simp only [txSent, wp_bind, wp_getCmd]
    refine (wp_ite _ _ _).mpr ⟨fun _ => ?_, fun _ => ?_⟩
    · rw [wp_bind]
      refine ((ended_iscsiDoneI c).run s).mono fun ok s₁ h₁ => ?_
      have htx : s₁.tx = s.tx := h₁.elim Same.tx Completed.tx
      have h₁ := h.of_ended h₁
      exact (wp_ite _ _ _).mpr ⟨fun _ => h₁.idleTx (by simp [htx, ht]) (hw htx),
        fun _ => h₁.exitTx rfl⟩
    · simp only [wp_bind, wp_modifyCmd]
      refine h.setCmd ?_ (fun d => ?_) (by simp [ht])
      · rfl
      · rw [ht]
        rfl
  | exited => exact h

/-! ## The Rx worker -/

/-- The Rx worker turns to another PDU, or stops. -/
theorem Answering.setRx (h : Answering s) (hrx : s.rx ≠ .exited) {f : Flags} {p : RxPhase}
    (hf : f.started = s.flags.started) : Answering { s with flags := f, rx := p } :=
  h.mono rfl rfl rfl (fun _ hd => hd) (fun hn => absurd (h.workers (hf.symm.trans hn)).2 hrx)
    (fun _ => rfl) (fun _ => .inl rfl) .inl

/-- An R2T that arrives for a command without one. -/
theorem Answering.r2t {Z : Body → Prop} (hs : Counted Z s) (h : Answering s) {p : RxPdu}
    (hr : s.rx = .handling (some c) p) (h0 : (s.books.mem c).r2tRequest = 0)
    (hc : R2tCounted c s s') {ok : Bool} (he : R2tEnd c p s s' ok) : Answering s' := by
  have hhas : s.Has c := .inr (.inr (.inr (by rw [hr]; rfl)))
  have hreplies : ∀ d, s'.replies d = s.replies d := fun d => by
    rw [Session.replies, hc.answers]
    rfl
  have hcopies : (s.books.mem c).body.type = .scsi → s.copies c = 0 := by
    intro ht
    by_contra hne
    exact ((hs.tally c).first ht (fun hp => hp.2 h0) (Nat.pos_of_ne_zero hne)).2.1 p hr
  have hold : List.Forall₂ Answers (s.r2ts c) (s.replies c) := by
    cases h.served c with
    | all answered _ => exact answered
    | last _ _ _ _ pending _ =>
      rw [h0] at pending
      cases pending
  have htype : (s'.books.mem c).body.type = (s.books.mem c).body.type :=
    congrArg CmdKey.type hc.key
  obtain ⟨hqueue, -, -⟩ := he.places
  -- An R2T that is not accepted leaves the command without a place.
  have unheard : s'.accepted = s.accepted → s'.books.txQueue = s.books.txQueue → Served s' c := by
    intro ha hq
    refine .all ?_ fun ht => .inr ?_
    · rw [hreplies, Session.r2ts, ha]
      exact hold
    · rw [Session.copies, hq, hc.tx]
      exact hcopies (htype.symm.trans ht)
  have haccepted : s'.accepted = s.accepted ∨ ∃ r, s'.accepted = s.accepted ++ [(c, r)] := by
    cases he with
    | refused _ _ ha => exact .inl ha
    | lost _ _ _ ha => exact .inl ha
    | queued _ _ _ _ _ _ _ _ ha => exact .inr ⟨_, ha⟩
  constructor
  · intro d hd ha
    rw [hc.issued] at hd
    rw [hc.called]
    refine h.dropped d hd ?_
    rcases eq_or_ne d c with rfl | hdc
    · exact (congrArg CmdKey.aborted hc.key).symm.trans ha
    · exact hc.other d hdc ▸ ha
  · intro e hm
    rw [hc.issued]
    rcases haccepted with ha | ⟨r, ha⟩ <;> rw [ha] at hm
    · exact h.known e hm
    · rcases List.mem_append.mp hm with hm | hm
      · exact h.known e hm
      · rw [List.mem_singleton.mp hm]
        exact hs.roster.issued c hhas
  · intro hf
    have := (h.workers (hc.started.symm.trans hf)).2
    rw [hr] at this
    cases this
  · intro d
    rcases eq_or_ne d c with rfl | hdc
    · cases he with
      | refused hq _ ha => exact unheard ha hq
      | lost hq _ _ ha => exact unheard ha hq
      | queued q hbody _ _ hslot hq _ _ ha =>
        have ht : (s.books.mem d).body.type = .scsi := by rw [hbody]; rfl
        refine .last (s.r2ts d) ?_ (by rw [hreplies]; exact hold) (htype.trans ht) ?_ (.inl ?_)
        · rw [Session.r2ts_concat ha, if_pos rfl, hslot]
        · refine (congrArg CmdKey.r2tRequest hc.key).trans ?_
          change (s.books.mem d).r2tRequest + 1 = 1
          rw [h0]
        · have h₀ := hcopies ht
          rw [Session.copies] at h₀ ⊢
          rw [hq, hc.tx, List.count_append, List.count_singleton_self]
          omega
    · refine (h.served d).mono (congrArg _ (hc.other d hdc)) ?_ (hreplies d) (.inl ?_)
        (fun ht => .inl (hc.tx.trans ht)) (by simp [hc.called])
      · rcases haccepted with ha | ⟨r, ha⟩
        · rw [Session.r2ts, ha]
          rfl
        · rw [Session.r2ts_concat ha, if_neg hdc.symm]
      · rw [Session.copies, Session.copies, hc.tx]
        rcases hqueue with hq | ⟨-, hq⟩ <;> rw [hq]
        simp [List.count_append, hdc.symm]

theorem rxWorkerProcI_answering {Z : Body → Prop} (hs : Counted Z s) (h : Answering s)
    {inp : Option RxPdu} (ho : Single s (.rx inp)) :
    ensures (rxWorkerProcI env cfg inp) (fun _ s' => Answering s') s := by
  cases hr : s.rx with
  | idle =>
    have turn : ∀ {f : Flags} {p : RxPhase}, f.started = s.flags.started →
        Answering { s with flags := f, rx := p } := fun hf => h.setRx (by simp [hr]) hf
    simp only [ensures, rxWorkerProcI, wp_bind, wp_get, hr]
    rcases inp with _ | p
    · rw [wp_rxFailure]
      exact turn rfl
    simp only [wp_bind, wp_get]
    refine (wp_ite _ _ _).mpr ⟨fun _ => turn (f := s.flags) rfl, fun _ => ?_⟩
    unfold rxLookup
    split
    · exact turn (f := s.flags) rfl
    · simp only [wp_bind, wp_hashLookup]
      split
      · exact turn (f := s.flags) rfl
      · refine (wp_ite _ _ _).mpr ⟨fun _ => turn (f := s.flags) rfl, fun _ => ?_⟩
        rw [wp_rxFailure]
        exact turn rfl
  | waiting c p =>
    simp only [ensures, rxWorkerProcI, wp_bind, wp_get, hr, wp_getCmd]
    exact (wp_guarded _ _).mpr ⟨fun _ => h.setRx (f := s.flags) (by simp [hr]) rfl, fun _ => h⟩
  | handling o p =>
    simp only [ensures, rxWorkerProcI, wp_bind, wp_get, hr]
    have hhandle : ensures (rxHandle env cfg o p)
        (fun _ s' => Answering s' ∧ s'.rx = s.rx) s := by
      rcases o with _ | c
      · exact (ensures_forall fun c => (same_handleAlone c p).run s).mono fun _ _ hs =>
          ⟨h.of_same_all hs, (hs 0).rx⟩
      · by_cases hop : iscsiOpcode p.header = opR2t
        · have h0 : (s.books.mem c).r2tRequest = 0 := by
            simp only [Single, hr] at ho
            exact ho hop
          rw [rxHandle, handleFor_r2t env cfg c p hop]
          exact (scsiR2tRxI_spec c p s).mono fun _ _ hc => ⟨h.r2t hs hr h0 hc.1 hc.2, hc.1.rx⟩
        · exact ((ended_handleFor c env cfg p hop).run s).mono fun _ _ hc =>
            ⟨h.of_ended hc, hc.elim Same.rx Completed.rx⟩
    refine hhandle.mono fun ok s₁ h₁ => ?_
    have hrx : s₁.rx ≠ .exited := by simp [h₁.2, hr]
    refine (wp_ite _ _ _).mpr ⟨fun _ => h₁.1.setRx (f := s₁.flags) hrx rfl, fun _ => ?_⟩
    rw [wp_rxFailure]
    exact h₁.1.setRx hrx rfl
  | exited =>
    simp only [ensures, rxWorkerProcI, wp_bind, wp_get, hr]
    exact h

/-! ## The other events -/

/-- A new command is queued. -/
theorem Answering.submit (h : Answering s) {t : InitiatorCmd}
    (hc : c ∉ s.books.issued) (hr2t : t.r2tRequest = 0) (haborted : t.aborted = false)
    (hstarted : s'.flags.started = s.flags.started) (ht : Submitted c t s s') : Answering s' where
  dropped d hd ha := by
    rw [ht.called]
    rcases eq_or_ne d c with rfl | hdc
    · rw [ht.self, haborted] at ha
      exact nomatch ha
    · rw [ht.issued] at hd
      rw [ht.other d hdc] at ha
      refine h.dropped d ((List.mem_append.mp hd).resolve_right fun hm => ?_) ha
      exact hdc (List.mem_singleton.mp hm)
  known e he := by
    rw [ht.issued]
    exact List.mem_append_left _ (h.known e (ht.accepted ▸ he))
  workers hf := by
    rw [ht.accepted, ht.rx]
    exact h.workers (hstarted.symm.trans hf)
  served d := by
    have hr2ts : s'.r2ts d = s.r2ts d := by
      rw [Session.r2ts, ht.accepted]
      rfl
    have hreplies : s'.replies d = s.replies d := by
      rw [Session.replies, ht.answers]
      rfl
    rcases eq_or_ne d c with rfl | hdc
    · refine .all ?_ fun _ => .inl (by rw [ht.self, hr2t])
      have hnil : s.r2ts d = [] := by
        refine List.filterMap_eq_nil_iff.mpr fun e he => if_neg fun hed => ?_
        exact hc (hed ▸ h.known e he)
      rw [hr2ts, hreplies]
      cases h.served d with
      | all answered _ => exact answered
      | last l accepted _ _ _ _ => simp [hnil] at accepted
    · refine (h.served d).mono (congrArg _ (ht.other d hdc)) hr2ts hreplies (.inl ?_)
        (fun he => .inl (ht.tx.trans he)) (by simp [ht.called])
      rw [Session.copies, Session.copies, ht.txQueue, ht.tx]
      simp [List.count_append, hdc.symm]

/-- A command is aborted, which is the end of its R2Ts. -/
theorem Answering.abort (h : Answering s) (ha : Aborted c s s')
    (hcount : ∀ d, d ≠ c → s'.copies d = s.copies d) (hle : s'.copies c ≤ s.copies c) :
    Answering s' := by
  have hcalled : c ∈ s'.books.called :=
    ha.called ▸ List.mem_append_right _ (List.mem_singleton_self c)
  have hreplies : ∀ d, s'.replies d = s.replies d := fun d => by
    rw [Session.replies, ha.answers]
    rfl
  have hr2ts : ∀ d, s'.r2ts d = s.r2ts d := fun d => by
    rw [Session.r2ts, ha.accepted]
    rfl
  constructor
  · intro d hd hab
    rcases eq_or_ne d c with rfl | hdc
    · exact hcalled
    · rw [ha.issued] at hd
      rw [ha.other d hdc] at hab
      exact ha.called ▸ List.mem_append_left _ (h.dropped d hd hab)
  · intro e he
    rw [ha.issued]
    exact h.known e (ha.accepted ▸ he)
  · intro hf
    rw [ha.accepted, ha.rx]
    exact h.workers (ha.started.symm.trans hf)
  · intro d
    rcases eq_or_ne d c with rfl | hdc
    · have htype : (s'.books.mem d).body.type = (s.books.mem d).body.type := by rw [ha.body]
      have hn : (s'.books.mem d).r2tRequest = (s.books.mem d).r2tRequest :=
        congrArg CmdKey.r2tRequest ha.key
      cases h.served d with
      | all answered idle =>
        refine .all (by rw [hr2ts, hreplies]; exact answered) fun ht => ?_
        rw [hn]
        exact (idle (htype.symm.trans ht)).imp_right fun h0 => by omega
      | last l accepted answered type pending waits =>
        refine .last l ?_ (by rw [hreplies]; exact answered) (htype.trans type) (hn.trans pending)
          (.inr (.inr hcalled))
        rw [hr2ts, accepted]
        exact congrArg (fun r => l ++ [r]) (congrArg CmdKey.r2t ha.key).symm
    · exact (h.served d).mono (congrArg _ (ha.other d hdc)) (hr2ts d) (hreplies d)
        (.inl (hcount d hdc)) (fun he => .inl (ha.tx.trans he))
        fun hm => ha.called ▸ List.mem_append_left _ hm

/-- Aborting takes no other command out of the queue. -/
theorem Counted.copies_abort {Z : Body → Prop} (hs : Counted Z s) (hc : s.books.Live c)
    (ha : Aborted c s s') :
    (∀ d, d ≠ c → s'.copies d = s.copies d) ∧ s'.copies c ≤ s.copies c := by
  have hcopies : ∀ d, s'.copies d = s'.books.txQueue.toList.count d + (s.tx.works d).toNat :=
    fun d => by rw [Session.copies, ha.tx]
  rcases ha.scanned with hp | ⟨x, hx, hp⟩
  · refine ⟨fun d _ => ?_, ?_⟩ <;> rw [hcopies, Session.copies, hp.count_eq]
  · have hxc : x = c := by
      have hm : x ∈ s.books.txQueue.toList := hp.mem_iff.mpr List.mem_cons_self
      exact hs.roster.tags x c (.inr (.inl hm)) (.inl hc) hx
    rw [hxc] at hp
    refine ⟨fun d hd => ?_, ?_⟩ <;> rw [hcopies, Session.copies, hp.count_eq, List.count_cons]
    · simp [hd.symm]
    · omega

/-- Recovery begins with a new connection, where nothing has been asked for. -/
theorem Answering.clear (h : Answering s) (htx : s.tx = .exited) (hrx : s.rx = .exited)
    (hq : ∀ c ∈ s.books.txQueue.toList, (s.books.mem c).r2tRequest = 0) {b : Bool} :
    Answering { s with stopping := b, accepted := [], answers := [] } where
  dropped := h.dropped
  known e he := nomatch he
  workers _ := ⟨rfl, hrx⟩
  served c := by
    refine .all .nil fun _ => ?_
    by_cases hm : c ∈ s.books.txQueue.toList
    · exact .inl (hq c hm)
    · refine .inr ?_
      change s.books.txQueue.toList.count c + (s.tx.works c).toNat = 0
      rw [List.count_eq_zero_of_not_mem hm, htx]
      rfl

/-- `session_destroy_i` has moved the commands, or has failed on the way. -/
theorem Answering.drained {Z : Body → Prop} (hs : Counted Z s) (h : Answering s)
    (htx : s.tx = .exited) (hrx : s.rx = .exited)
    (hq : ∀ c ∈ s.books.txQueue.toList, (s.books.mem c).r2tRequest = 0) (hnil : s.accepted = [])
    (hnil' : s.answers = []) {ctl lost : List Nat} (hd : Draining s.books [] ctl lost s s')
    {f : Flags} : Answering { s' with flags := f } where
  dropped c hc ha := by
    change c ∈ s'.books.issued at hc
    rw [hd.issued] at hc
    change c ∈ s'.books.called
    rw [hd.called]
    rcases hd.dropped c ha with hm | ha
    · exact List.mem_append_right _ hm
    · exact List.mem_append_left _ (h.dropped c hc ha)
  known e he := by
    change e ∈ s'.accepted at he
    rw [hd.accepted, hnil] at he
    cases he
  workers _ := ⟨hd.accepted.trans hnil, hd.rx.trans hrx⟩
  served c := by
    refine .all ?_ fun ht => ?_
    · rw [Session.r2ts, Session.replies]
      change List.Forall₂ Answers (s'.accepted.filterMap _) (s'.answers.filterMap _)
      rw [hd.accepted, hd.answers, hnil, hnil']
      exact .nil
    by_cases hm : c ∈ s'.books.txQueue.toList
    · have ht : (s.books.mem c).body.type = .scsi := (hd.type c).symm.trans ht
      have hctl : ¬s.books.control c := fun hc => by
        rw [Books.control, Body.isControl, ht] at hc
        cases hc
      refine .inl ?_
      change (s'.books.mem c).r2tRequest = 0
      rcases hs.requeued hq hd hm hctl with hmem | ⟨hmem, hmq⟩ <;> rw [hmem]
      · rfl
      · exact hq c hmq
    · refine .inr ?_
      change s'.books.txQueue.toList.count c + (s'.tx.works c).toNat = 0
      rw [List.count_eq_zero_of_not_mem hm, hd.tx, htx]
      rfl

/-! ## Runs -/

/-- Submitting a command does not start or stop a session. -/
theorem submit_started (c : Nat) (t : InitiatorCmd) (s : Session) :
    ensures (submit c t) (fun _ s' => s'.flags.started = s.flags.started) s := by
  simp only [ensures, submit, wp_bind]
  rw [wp_queueInsert]
  refine ⟨fun _ => rfl, fun q _ => ?_⟩
  exact (wp_ite _ _ _).mpr ⟨fun _ => rfl, fun hf => absurd rfl hf⟩

/-- Every event keeps the invariant. -/
theorem next_answering {Z : Body → Prop} (hs : Counted Z s) (h : Answering s) {e : Event}
    (ho : Settling Z s e) (h₁ : Single s e) :
    ensures (next env cfg e) (fun _ s' => Answering s') s := by
  cases e with
  | start params =>
    simp only [ensures, next, sessionInitI, wp_bind, wp_getFlags]
    refine (wp_ite _ _ _).mpr ⟨fun hz => ?_, fun _ => h⟩
    simp only [wp_bind, wp_modifyFlags, wp_modifyVars, wp_modify]
    have hnil : s.accepted = [] := (h.workers (by rw [hz]; rfl)).1
    refine h.mono rfl rfl rfl (fun _ hd => hd) (fun hn => by cases hn) (fun _ => rfl)
      (fun d => .inr ⟨?_, .inr (.inr hnil)⟩) fun _ => .inr hnil
    exact Nat.add_le_add_left (Nat.zero_le _) _
  | fullFeature =>
    simp only [ensures, next, getFullFeature, wp_bind, wp_getFlags]
    exact (wp_ite _ _ _).mpr ⟨fun _ => h.setVars (b := s.stopping) id, fun _ => h⟩
  | enqueue c tag body ok =>
    refine wp_mono (wp_and (submit_spec c (freshCmd tag body ok) s) (submit_started c _ s)) ?_
      fun _ _ _ => trivial
    rintro _ s' ⟨rfl | ht, hf⟩
    · exact h
    · exact h.submit ho.1.1 rfl rfl hf ht
  | control c tag body d =>
    simp only [ensures, next, submitControl, wp_bind, wp_getVars, wp_modifyVars, wp_getFlags]
    have hvars : Answering (s.setVars (s.vars.numbering body)) :=
      h.setVars (f := s.flags) (b := s.stopping) id
    refine (wp_ite _ _ _).mpr ⟨fun _ => hvars, fun _ => ?_⟩
    refine wp_mono (wp_and (submit_spec c _ _) (submit_started c _ _)) ?_ fun _ _ _ => trivial
    rintro _ s' ⟨rfl | ht, hf⟩
    · exact hvars
    · exact hvars.submit ho.1.2.1 rfl rfl hf ht
  | tx => exact txWorkerProcI_answering hs h
  | rx inp => exact rxWorkerProcI_answering hs h h₁
  | abort c =>
    rw [ensures, next, wp_bind]
    refine wp_mono (initiatorAbort_spec c s) (fun _ s' ha => ?_) fun _ _ _ => trivial
    obtain ⟨hcount, hle⟩ := hs.copies_abort ho.1 ha.2
    exact h.abort ha.2 hcount hle
  | fail =>
    rw [ensures, next, wp_setError]
    exact h.setVars (v := s.vars) (b := s.stopping) id
  | stop =>
    simp only [ensures, next, sessionStop, wp_bind, wp_getFlags]
    exact (wp_ite _ _ _).mpr ⟨fun _ => h.setVars (v := s.vars) id, fun _ => h⟩
  | destroy =>
    simp only [ensures, next, sessionDestroy, wp_bind, wp_get]
    refine (wp_ite _ _ _).mpr ⟨fun hst => ?_, fun _ => h⟩
    obtain ⟨htx, hrx⟩ : s.tx = .exited ∧ s.rx = .exited := by
      simp only [Session.stopped, Bool.and_eq_true, beq_iff_eq] at hst
      exact ⟨hst.1.2, hst.2⟩
    have hq := ho.2 hst
    have hs₁ : Counted Z { s with stopping := false, accepted := [], answers := [] } :=
      hs.setVars (v := s.vars) (f := s.flags)
    have h₁ := h.clear htx hrx hq (b := false)
    simp only [wp_bind, wp_modify]
    refine wp_mono (sessionDestroyI_spec hs₁.settled) ?_ fun _ _ _ => trivial
    rintro rc s' (⟨-, ctl, hd⟩ | ⟨-, -, ctl, lost, hd⟩)
    · exact h₁.drained hs₁ htx hrx hq rfl rfl hd.draining (f := s'.flags)
    · exact h₁.drained hs₁ htx hrx hq rfl rfl hd (f := s'.flags)

/-- A session that has not been started has no R2Ts. -/
theorem Fresh.answering (h : Fresh s) : Answering s where
  dropped c hc := by
    rw [h.issued] at hc
    exact nomatch hc
  known e he := by
    rw [h.accepted] at he
    exact nomatch he
  workers _ := ⟨h.accepted, h.rx⟩
  served c := by
    refine .all ?_ fun _ => .inr ?_
    · rw [Session.r2ts, Session.replies, h.accepted, h.answers]
      exact .nil
    · simp [Session.copies, h.txQueue, h.tx, TxPhase.works]

theorem answering_of_reach {s₀ : Session} (h₀ : Fresh s₀)
    (h : Reach (next env cfg) Prompt s₀ s) : Counted (fun _ => True) s ∧ Answering s :=
  h.invariant (P := fun s => Counted (fun _ => True) s ∧ Answering s)
    ⟨h₀.counted, h₀.answering⟩ fun _ _ hs ho =>
      wp_mono (wp_and (next_counted (fun _ => trivial) hs.1 ho.1)
        (next_answering hs.1 hs.2 ho.1 ho.2.1)) (fun _ _ => id) fun _ _ _ => trivial

/-! ## Finding the command of a PDU -/

/-- A command that was outstanding still is, or its callback has been run. -/
def Keeps (s s' : Session) : Prop :=
  ∀ c ∈ s.books.cmdHash.values, c ∈ s'.books.cmdHash.values ∨ c ∈ s'.books.called

theorem keeps_of_eq (h : s'.books.cmdHash = s.books.cmdHash) : Keeps s s' := fun c hc =>
  .inl (by rwa [h])

/-- Completing or aborting a command takes no other command out of the hash. -/
theorem Roster.keeps (hs : Roster s) (hk : s.Knows c)
    (hhash : s'.books.cmdHash = s.books.cmdHash.without (s.books.mem c).tag)
    (hcalled : s'.books.called = s.books.called ++ [c]) : Keeps s s' := by
  intro d hd
  obtain ⟨e, he, rfl⟩ := List.mem_map.mp hd
  by_cases htag : e.1 = (s.books.mem c).tag
  · have hec : e.2 = c := hs.tags e.2 c (.inr (.inr (.inl hd))) hk ((hs.keys e he).symm.trans htag)
    rw [hec, hcalled]
    exact .inr (List.mem_append_right _ (List.mem_singleton_self c))
  · rw [hhash]
    exact .inl (List.mem_map_of_mem (TagHash.mem_without he htag))

theorem Roster.keeps_of_ended (hs : Roster s) (hk : s.Knows c) (h : Ended c s s') : Keeps s s' :=
  h.elim (fun h => keeps_of_eq h.cmdHash) fun h => hs.keeps hk h.cmdHash h.called

/-- The R2T in the hands of the Rx worker asks for the end of the transfer. -/
def AsksForEnd (s : Session) (e : Event) : Prop :=
  match e, s.rx with
  | .rx _, .handling (some c) p =>
    iscsiOpcode p.header = opR2t ∧ match (s.books.mem c).body with
      | .scsi q => R2t.reaches (iscsiR2tDecap p.header).2 q
      | _ => False
  | _, _ => False

theorem txWorkerProcI_keeps (hs : Roster s) :
    ensures txWorkerProcI (fun _ s' => Keeps s s') s := by
  have same : ∀ {t : Session}, t.books.cmdHash = s.books.cmdHash → Keeps s t := keeps_of_eq
  simp only [ensures, txWorkerProcI, wp_bind, wp_get]
  cases ht : s.tx with
  | idle =>
    simp only [txIdle, wp_bind, wp_get]
    refine (wp_ite _ _ _).mpr ⟨fun _ => same rfl, fun _ => ?_⟩
    rw [wp_bind, wp_queueRemove]
    refine ⟨fun _ => ?_, fun c q _ => same rfl⟩
    simp only [wp_bind, wp_getVars]
    refine (wp_ite _ _ _).mpr ⟨fun _ => ?_, fun _ => same rfl⟩
    rw [wp_bind]
    refine ((same_nopOutI 0 _).run s).mono fun x s₁ h₁ => ?_
    simp only [wp_bind, wp_modifyVars]
    exact (wp_ite _ _ _).mpr ⟨fun _ => same h₁.cmdHash, fun _ => same h₁.cmdHash⟩
  | taken c =>
    simp only [txTaken, wp_bind, wp_getCmd, wp_getFlags]
    refine (wp_ite _ _ _).mpr ⟨fun _ => ?_, fun _ => ?_⟩
    · rw [wp_bind, wp_queueInsert]
      exact ⟨fun _ => same rfl, fun q _ => same rfl⟩
    · simp only [wp_bind, wp_hashLookup]
      split
      · exact same rfl
      · rw [wp_bind, wp_hashAdd]
        refine ⟨fun _ => same rfl, fun t hi d hd => .inl ?_⟩
        obtain ⟨e, he, rfl⟩ := List.mem_map.mp hd
        refine List.mem_map_of_mem ((TagHash.insert_some hi).1.mem_iff.mpr ?_)
        exact List.mem_cons_of_mem _ he
  | hashed c =>
    simp only [txHashed, wp_bind, wp_getCmd]
    exact (wp_ite _ _ _).mpr ⟨fun _ => same rfl, fun _ => same rfl⟩
  | sending c =>
    rw [wp_bind]
    refine (execute_spec c s).mono fun ok s₁ h₁ => ?_
    have hhash : s₁.books.cmdHash = s.books.cmdHash := by
      cases h₁ with
      | same _ h _ => exact h.cmdHash
      | answered _ _ _ h => exact h.cmdHash
    exact (wp_ite _ _ _).mpr ⟨fun _ => same hhash, fun _ => same hhash⟩
  | sent c =>
    simp only [txSent, wp_bind, wp_getCmd]
    refine (wp_ite _ _ _).mpr ⟨fun _ => ?_, fun _ => same rfl⟩
    rw [wp_bind]
    refine ((ended_iscsiDoneI c).run s).mono fun ok s₁ h₁ => ?_
    have h₁ : Keeps s s₁ := hs.keeps_of_ended (.inr (.inr (.inr (.inl (by rw [ht]; rfl))))) h₁
    exact (wp_ite _ _ _).mpr ⟨fun _ => h₁, fun _ => h₁⟩
  | exited => exact same rfl

theorem rxWorkerProcI_keeps (hs : Roster s) {inp : Option RxPdu}
    (ho : ¬AsksForEnd s (.rx inp)) :
    ensures (rxWorkerProcI env cfg inp) (fun _ s' => Keeps s s') s := by
  have same : ∀ {t : Session}, t.books.cmdHash = s.books.cmdHash → Keeps s t := keeps_of_eq
  cases hr : s.rx with
  | idle =>
    simp only [ensures, rxWorkerProcI, wp_bind, wp_get, hr]
    rcases inp with _ | p
    · rw [wp_rxFailure]
      exact same rfl
    simp only [wp_bind, wp_get]
    refine (wp_ite _ _ _).mpr ⟨fun _ => same rfl, fun _ => ?_⟩
    unfold rxLookup
    split
    · exact same rfl
    · simp only [wp_bind, wp_hashLookup]
      split
      · exact same rfl
      · refine (wp_ite _ _ _).mpr ⟨fun _ => same rfl, fun _ => ?_⟩
        rw [wp_rxFailure]
        exact same rfl
  | waiting c p =>
    simp only [ensures, rxWorkerProcI, wp_bind, wp_get, hr, wp_getCmd]
    exact (wp_guarded _ _).mpr ⟨fun _ => same rfl, fun _ => same rfl⟩
  | handling o p =>
    simp only [ensures, rxWorkerProcI, wp_bind, wp_get, hr]
    have hhandle : ensures (rxHandle env cfg o p) (fun _ s' => Keeps s s') s := by
      rcases o with _ | c
      · exact ((same_handleAlone 0 p).run s).mono fun _ _ h => same h.cmdHash
      · by_cases hop : iscsiOpcode p.header = opR2t
        · rw [rxHandle, handleFor_r2t env cfg c p hop]
          refine (scsiR2tRxI_spec c p s).mono fun ok s' h => same ?_
          have never : ∀ q, (s.books.mem c).body = .scsi q →
              ¬R2t.reaches (iscsiR2tDecap p.header).2 q := by
            intro q hq hreach
            refine ho ?_
            simp only [AsksForEnd, hr, hq]
            exact ⟨hop, hreach⟩
          cases h.2 with
          | refused _ hhash _ => exact hhash
          | lost _ _ _ _ q hq _ _ hreach => exact absurd hreach (never q hq)
          | queued q hq _ _ _ _ _ hhash _ => rw [hhash, if_neg (never q hq)]
        · have hk : s.Knows c := .inr (.inr (.inr (.inr (by rw [hr]; rfl))))
          exact ((ended_handleFor c env cfg p hop).run s).mono fun _ _ h =>
            hs.keeps_of_ended hk h
    refine hhandle.mono fun ok s₁ h₁ => ?_
    refine (wp_ite _ _ _).mpr ⟨fun _ => h₁, fun _ => ?_⟩
    rw [wp_rxFailure]
    exact h₁
  | exited =>
    simp only [ensures, rxWorkerProcI, wp_bind, wp_get, hr]
    exact same rfl

/-- Only an R2T for the end of a transfer, and recovery, take a command out of the hash whose
callback has not been run. -/
theorem next_keeps (hs : Roster s) {e : Event} (ho : Offered s e) (hlast : ¬AsksForEnd s e)
    (hd : e ≠ .destroy) : ensures (next env cfg e) (fun _ s' => Keeps s s') s := by
  have submitted : ∀ {t : InitiatorCmd} {c : Nat} {v : Vars},
      ensures (submit c t) (fun _ s' => Keeps s s') (s.setVars v) := by
    intro t c v
    refine (submit_spec c t _).mono fun _ s' h => keeps_of_eq ?_
    rcases h with rfl | h
    · rfl
    · exact h.cmdHash
  cases e with
  | start params =>
    simp only [ensures, next, sessionInitI, wp_bind, wp_getFlags]
    exact (wp_ite _ _ _).mpr ⟨fun _ => keeps_of_eq rfl, fun _ => keeps_of_eq rfl⟩
  | fullFeature =>
    simp only [ensures, next, getFullFeature, wp_bind, wp_getFlags]
    exact (wp_ite _ _ _).mpr ⟨fun _ => keeps_of_eq rfl, fun _ => keeps_of_eq rfl⟩
  | enqueue c tag body ok => exact submitted (v := s.vars)
  | control c tag body d =>
    simp only [ensures, next, submitControl, wp_bind, wp_getVars, wp_modifyVars, wp_getFlags]
    exact (wp_ite _ _ _).mpr ⟨fun _ => keeps_of_eq rfl, fun _ => submitted⟩
  | tx => exact txWorkerProcI_keeps hs
  | rx inp => exact rxWorkerProcI_keeps hs hlast
  | abort c =>
    rw [ensures, next, wp_bind]
    refine wp_mono (initiatorAbort_spec c s) (fun _ s' ha => ?_) fun _ _ _ => trivial
    exact hs.keeps (.inl ho) ha.2.cmdHash ha.2.called
  | fail =>
    rw [ensures, next, wp_setError]
    exact keeps_of_eq rfl
  | stop =>
    simp only [ensures, next, sessionStop, wp_bind, wp_getFlags]
    exact (wp_ite _ _ _).mpr ⟨fun _ => keeps_of_eq rfl, fun _ => keeps_of_eq rfl⟩
  | destroy => exact absurd rfl hd

/-! ## Every R2T is answered once -/

/-- The log of the answers is as it was, or has one more answer, which has just been sent. -/
def Logs (s s' : Session) : Prop :=
  s'.answers = s.answers ∨
    ∃ c ds, s'.answers = s.answers ++ [(c, ds)] ∧ s'.sentData = s.sentData ++ ds

theorem txWorkerProcI_logs : ensures txWorkerProcI (fun _ s' => Logs s s') s := by
  have same : ∀ {t : Session}, t.answers = s.answers → Logs s t := .inl
  simp only [ensures, txWorkerProcI, wp_bind, wp_get]
  cases ht : s.tx with
  | idle =>
    simp only [txIdle, wp_bind, wp_get]
    refine (wp_ite _ _ _).mpr ⟨fun _ => same rfl, fun _ => ?_⟩
    rw [wp_bind, wp_queueRemove]
    refine ⟨fun _ => ?_, fun c q _ => same rfl⟩
    simp only [wp_bind, wp_getVars]
    refine (wp_ite _ _ _).mpr ⟨fun _ => ?_, fun _ => same rfl⟩
    rw [wp_bind]
    refine ((same_nopOutI 0 _).run s).mono fun x s₁ h₁ => ?_
    simp only [wp_bind, wp_modifyVars]
    exact (wp_ite _ _ _).mpr ⟨fun _ => same h₁.answers, fun _ => same h₁.answers⟩
  | taken c =>
    simp only [txTaken, wp_bind, wp_getCmd, wp_getFlags]
    refine (wp_ite _ _ _).mpr ⟨fun _ => ?_, fun _ => ?_⟩
    · rw [wp_bind, wp_queueInsert]
      exact ⟨fun _ => same rfl, fun q _ => same rfl⟩
    · simp only [wp_bind, wp_hashLookup]
      split
      · exact same rfl
      · rw [wp_bind, wp_hashAdd]
        exact ⟨fun _ => same rfl, fun t _ => same rfl⟩
  | hashed c =>
    simp only [txHashed, wp_bind, wp_getCmd]
    exact (wp_ite _ _ _).mpr ⟨fun _ => same rfl, fun _ => same rfl⟩
  | sending c =>
    rw [wp_bind]
    refine (execute_spec c s).mono fun ok s₁ h₁ => ?_
    have hlog : Logs s s₁ := by
      cases h₁ with
      | same _ h _ => exact same h.answers
      | answered ds _ _ h => exact .inr ⟨c, ds, h.answers, h.sent⟩
    exact (wp_ite _ _ _).mpr ⟨fun _ => hlog, fun _ => hlog⟩
  | sent c =>
    simp only [txSent, wp_bind, wp_getCmd]
    refine (wp_ite _ _ _).mpr ⟨fun _ => ?_, fun _ => same rfl⟩
    rw [wp_bind]
    refine ((ended_iscsiDoneI c).run s).mono fun ok s₁ h₁ => ?_
    have h₁ : s₁.answers = s.answers := h₁.elim Same.answers Completed.answers
    exact (wp_ite _ _ _).mpr ⟨fun _ => same h₁, fun _ => same h₁⟩
  | exited => exact same rfl

/-- The Tx worker logs what it sends for a command with an R2T as the answer, and on a connection
that works it sends all of it, out of the right places of the buffers. -/
def Session.Sends (s : Session) (c : Nat) (s' : Session) : Prop :=
  ∃ q ds pdus sg, (s.books.mem c).body = .scsi q ∧ q.sendList = some sg ∧ Carries sg ds pdus ∧
    Answers (s.books.mem c).r2t ds ∧ s'.answers = s.answers ++ [(c, ds)] ∧
    s'.sent = s.sent ++ pdus

end Ost.Initiator
