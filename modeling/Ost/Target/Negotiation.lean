import Ost.Param.Outgoing
import Ost.Target.Books

/-!
# The parameters of a session

Whatever login and text requests a session has answered, its parameters are those that the target
has registered, with a value each, and no offer of the target's own waits for an answer (`Proper`).
So a login request moves `AuthResult` as its text says (`Verdict`).

All of it is for texts that begin with a pair.
-/

namespace Ost.Target

open Ost.Iscsi Ost.Util Ost.Param Ost.Prog Ost.Disk

theorem noNul_loginUsers : loginUsers.NoNul := ⟨by decide, by decide⟩

theorem noNul_textUsers : textUsers.NoNul := ⟨by decide, by decide⟩

/-- `AuthResult` has a value. -/
theorem authResult_of_proper {params : Params} (h : Proper params) :
    ∃ v, paramVal params (cstr "AuthResult") = some v := by
  have hknown := h.known (cstr "AuthResult")
  rw [sigOf_authResult] at hknown
  obtain ⟨p, hp⟩ := Option.isSome_iff_exists.mp hknown
  rw [head_of_paramVal hp]
  cases hvalue : p.valueL with
  | nil => exact absurd hvalue (h.each _ p hp).valued
  | cons a l => exact ⟨a, rfl⟩

/-! ## A text -/

section Texts

variable {env : Env} {s : Local} {text textOut : Bytes} {outgoing : Bool} {u : Users} {v : CStr}
  {x : Verdict}

/-- The parameters of a session in the middle of an exchange, with the answer so far. -/
def Local.exchange (s : Local) (textOut : Bytes) : Parse := ⟨s.slot.login.ps, textOut⟩

/-- A parse of the parameters is one of the session. -/
theorem parseText_of_parse {P : Int → Parse → Prop}
    (h : ensures (paramTextParse env text outgoing u) P (s.exchange textOut)) :
    ensures (parseText env text textOut outgoing u) (fun r s' => P r.1 (s'.exchange r.2)) s := by
  unfold ensures wp at h ⊢
  unfold parseText
  dsimp only at h ⊢
  rw [show (⟨s.slot.login.ps, textOut⟩ : Parse) = s.exchange textOut from rfl]
  cases hrun : paramTextParse env text outgoing u (s.exchange textOut) with
  | ret rc p =>
    rw [hrun] at h
    exact h
  | halt => trivial

/-- The answer goes out, if there is any. -/
theorem parseOutgoing_answered (h : Stands v x none (s.exchange textOut)) :
    ensures (parseOutgoing env textOut) (fun ok s' => ok = true → Proper s'.slot.login.ps.params ∧
      paramVal s'.slot.login.ps.params (cstr "AuthResult") = some (x.result v)) s := by
  refine (wp_ite _ _ _).mpr ⟨fun hnil _ => h.unanswered hnil, fun _ => ?_⟩
  refine ensures.bind (parseText_of_parse (h.answered env)) ?_
  rintro ⟨rc, out⟩ s' h' hrc
  exact h' (of_decide_eq_true hrc)

/-- A text comes in. -/
theorem parseText_incoming (hu : u.NoNul) (h : Proper s.slot.login.ps.params)
    (hv : paramVal s.slot.login.ps.params (cstr "AuthResult") = some v) (htext : Begins text) :
    ensures (parseText env text [] false u) (fun r s' => r.1 = 0 →
      Stands v (.ofText env s.slot.login.ps.params text) none (s'.exchange r.2)) s :=
  parseText_of_parse (h.parse env hu hv htext [])

/-- The portal group is named. -/
theorem addPortalGroup_stands (h : Stands v x none (s.exchange textOut)) :
    ensures (addPortalGroup textOut) (fun r s' => ∀ out, r = some out →
      Stands v x none (s'.exchange out)) s := by
  intro out hout
  dsimp only at hout
  by_cases hstarted : s.slot.login.loginStarted = true
  · rw [if_pos hstarted] at hout
    exact Option.some.inj hout ▸ h
  · rw [if_neg hstarted] at hout
    exact h.add (by decide) (by decide) (by decide) (.inl (by decide)) hout

/-- What a login text says has become of the parameters when it has been answered. -/
theorem answerLoginText_spec (h : Proper s.slot.login.ps.params)
    (hv : paramVal s.slot.login.ps.params (cstr "AuthResult") = some v) (htext : Begins text) :
    ensures (answerLoginText env text) (fun r s' => ∀ out, r = .text out →
      Proper s'.slot.login.ps.params ∧ paramVal s'.slot.login.ps.params (cstr "AuthResult") =
        some ((Verdict.ofText env s.slot.login.ps.params text).result v)) s := by
  refine ensures.bind (parseText_incoming noNul_loginUsers h hv htext) ?_
  rintro ⟨status, textOut⟩ s₁ h₁
  refine (wp_ite _ _ _).mpr ⟨fun _ out hout => absurd hout (by simp), fun hstatus => ?_⟩
  refine ensures.bind (addPortalGroup_stands (h₁ (not_not.mp hstatus))) fun r s₂ h₂ => ?_
  cases r with
  | none => exact fun out hout => absurd hout (by simp)
  | some textOut' =>
    refine ensures.bind (parseOutgoing_answered (h₂ textOut' rfl)) fun ok s₃ h₃ => ?_
    refine (wp_ite _ _ _).mpr ⟨fun _ out hout => absurd hout (by simp), fun hok => ?_⟩
    exact fun _ _ => h₃ (by simpa using hok)

/-- The text of a login request, when it has been answered. -/
theorem readLoginText_proper {len : Nat} (h : Proper s.slot.login.ps.params)
    (hv : paramVal s.slot.login.ps.params (cstr "AuthResult") = some v)
    (htext : Begins (s.slot.conn.rx.take len)) :
    ensures (readLoginText env len) (fun r s' => ∀ out, r = .text out →
      Proper s'.slot.login.ps.params ∧ paramVal s'.slot.login.ps.params (cstr "AuthResult") =
        some ((Verdict.ofText env s.slot.login.ps.params (s.slot.conn.rx.take len)).result v))
      s := by
  simp only [readLoginText, ensures, wp_ite, wp_pure, wp_bind, wp_guarded, wp_halt]
  refine ⟨fun hlen _ _ => ⟨h, ?_⟩, fun _ => ⟨fun _ => trivial, fun _ => ⟨fun _ out hout => ?_,
    fun _ => ?_⟩⟩⟩
  · rw [hlen, List.take_zero]
    exact hv
  · exact absurd hout (by simp)
  refine wp_mono (sockRecv_spec len s) ?_ fun _ _ => False.elim
  rintro ⟨rc, text⟩ _ ⟨⟨rx, rfl⟩, htake, -⟩
  obtain rfl : text = _ := htake
  exact ⟨fun _ out hout => absurd hout (by simp), fun _ => answerLoginText_spec h hv htext⟩

/-- The targets are named, or the offer is rejected. -/
theorem sendTargetsAnswer_stands {offer : CStr} {out : Bytes} {head : Params} (henv : env.NoNul)
    (h : Stands v x none (s.exchange textOut))
    (hout : sendTargetsAnswer env head offer textOut = some out) :
    Stands v x none (s.exchange out) := by
  unfold sendTargetsAnswer at hout
  split at hout
  · exact h.add (by decide) (by decide) (by decide) (.inl (by decide)) hout
  · obtain ⟨out₁, hout₁, hout⟩ := Option.bind_eq_some_iff.mp hout
    have h₁ := h.add (by decide) henv.hostname (by decide) (.inl (by decide)) hout₁
    exact h₁.add (by decide) henv.targetAddress (by decide) (.inl (by decide)) hout

/-- An offer of `SendTargets` is answered. -/
theorem sendTargets_stands (henv : env.NoNul) (h : Stands v x none (s.exchange textOut)) :
    ensures (sendTargets env textOut) (fun r s' => ∀ out, r = some out →
      Stands v x none (s'.exchange out)) s := by
  rw [sendTargets, ensures, wp_bind, wp_getParams]
  cases paramGet s.slot.login.ps.params (cstr "SendTargets") with
  | none => exact fun out hout => absurd hout (by simp)
  | some p =>
    refine (wp_ite _ _ _).mpr ⟨fun _ out hout => Option.some.inj hout ▸ h, fun _ => ?_⟩
    cases hanswer : sendTargetsAnswer env s.slot.login.ps.params p.offerRx.str textOut with
    | none => exact fun out hout => absurd hout (by simp)
    | some text =>
      intro out hout
      obtain rfl := Option.some.inj hout
      exact (sendTargetsAnswer_stands henv h hanswer).setDeclared (by decide) (fun _ => rfl)
        (fun _ hp => { hp with }) (fun _ => id) fun heq => absurd heq (by decide)

/-- The parameters, when a text has been answered. -/
theorem answerText_proper (henv : env.NoNul) (h : Proper s.slot.login.ps.params)
    (htext : Begins text) : ensures (answerText env text) (fun r s' => r ≠ none →
      Proper s'.slot.login.ps.params) s := by
  obtain ⟨v, hv⟩ := authResult_of_proper h
  refine ensures.bind (parseText_incoming noNul_textUsers h hv htext) ?_
  rintro ⟨rc, textOut⟩ s₁ h₁
  refine (wp_ite _ _ _).mpr ⟨fun _ hout => absurd rfl hout, fun hrc => ?_⟩
  refine ensures.bind (sendTargets_stands henv (h₁ (not_not.mp hrc))) fun r s₂ h₂ => ?_
  cases r with
  | none => exact fun hout => absurd rfl hout
  | some textOut' =>
    refine ensures.bind (parseOutgoing_answered (h₂ textOut' rfl)) fun ok s₃ h₃ => ?_
    refine (wp_ite _ _ _).mpr ⟨fun _ hout => absurd rfl hout, fun hok => ?_⟩
    exact fun _ => (h₃ (by simpa using hok)).1

/-- The text of a text request, when it has been answered. -/
theorem readText_proper {len : Nat} (henv : env.NoNul) (h : Proper s.slot.login.ps.params)
    (htext : Begins (s.slot.conn.rx.take len)) : ensures (readText env len) (fun r s' => r ≠ none →
      Proper s'.slot.login.ps.params) s := by
  simp only [readText, ensures, wp_ite, wp_pure, wp_bind]
  refine ⟨fun _ _ => h, fun _ => wp_mono (sockRecv_spec len s) ?_ fun _ _ => False.elim⟩
  rintro ⟨rc, text⟩ _ ⟨⟨rx, rfl⟩, htake, -⟩
  obtain rfl : text = _ := htake
  exact ⟨fun _ hout => absurd rfl hout, fun _ => answerText_proper henv h htext⟩

end Texts

/-! ## A request -/

section Requests

variable {env : Env} {i h : Nat} {s s' : Local} {hdr : Bytes} {r : Option Int}

/-- The text of a login or text request begins with a pair. -/
def Paired (hdr rx : Bytes) : Prop :=
  (iscsiOpcode hdr = opLoginCmd → Begins (rx.take (iscsiLoginCmdDecap hdr).2.length)) ∧
    (iscsiOpcode hdr = opTextCmd → Begins (rx.take (iscsiTextCmdDecap hdr).2.length))

instance (hdr rx : Bytes) : Decidable (Paired hdr rx) := inferInstanceAs (Decidable (_ ∧ _))

/-- The turn of a login leaves the parameters those of the target. -/
theorem Turn.proper {cmd : LoginCmd} (ht : Turn cmd s s') (hp : Proper s.slot.login.ps.params) :
    Proper s'.slot.login.ps.params := by
  rcases ht.ps with hps | hps
  · rw [hps]
    exact hp
  · rw [hps]
    refine hp.modify (fun _ => rfl) fun p hfair => { hfair with strings := ?_, valued := ?_ }
    · refine { hfair.strings with valueL := fun w hw => ?_ }
      rcases List.mem_or_eq_of_mem_set hw with hw | hw
      · exact hfair.strings.valueL w hw
      · rw [hw]
        decide
    · rw [ne_eq, List.set_eq_nil_iff]
      exact hfair.valued

/-- Write data leaves the login alone. -/
theorem Books.dataLogin (hb : Books i s) (hrun : writeDataT i h hdr s = .ret r s') :
    s'.slot.login = s.slot.login := by
  cases (writeDataT_spec i h hdr (fun k c hc => (hb.outstanding k c hc).1)
    fun c hc => hb.lun c (.inl hc)).of_ret hrun with
  | bad _ hs => rw [hs]
  | waits _ _ _ _ hs => rw [hs]; rfl
  | ready _ _ _ _ hend => exact hend.still.1.login

/-- A text request that is answered. -/
theorem textCommandT_proper (henv : env.NoNul) (h : Proper s.slot.login.ps.params)
    (htext : Begins (s.slot.conn.rx.take (iscsiTextCmdDecap hdr).2.length)) :
    ensures (textCommandT env hdr) (fun rc s' => rc = 0 → Proper s'.slot.login.ps.params) s := by
  simp only [textCommandT, ensures, wp_bind, wp_ite, wp_pure, wp_getSeq, wp_modifySeq]
  refine ⟨fun _ => by simp, fun _ => ⟨fun _ => by simp, fun _ => ⟨fun _ => by simp, fun _ => ?_⟩⟩⟩
  refine ensures.mono (readText_proper henv (s := s.setSeq _) h htext) fun r s₁ h₁ => ?_
  cases r with
  | none => exact fun hrc => absurd hrc (by decide)
  | some textOut =>
    refine ensures.bind (P := fun _ s₂ => Proper s₂.slot.login.ps.params) ?_ fun _ s₂ h₂ => ?_
    · rw [ensures, wp_modifyLogin]
      change Proper (ite _ _ _ : Login).ps.params
      split <;> exact h₁ (by simp)
    · simp only [ensures, wp_bind, wp_getSeq, wp_modifySeq]
      refine wp_mono (sockSend_spec _ _ _) ?_ fun _ _ => False.elim
      rintro ok _ ⟨⟨_, _, _, rfl, _⟩, _⟩
      exact (wp_ite _ _ _).mpr ⟨fun _ hrc => absurd hrc (by decide), fun _ _ => h₂⟩

/-- A login request that succeeds. -/
theorem loginCommandT_proper (h : Proper s.slot.login.ps.params)
    (htext : Begins (s.slot.conn.rx.take (iscsiLoginCmdDecap hdr).2.length)) :
    ensures (loginCommandT env i hdr) (fun rc s' => rc = 0 → Proper s'.slot.login.ps.params) s := by
  obtain ⟨v, hv⟩ := authResult_of_proper h
  refine (loginCommandT_spec env i hdr s).mono fun rc s' hend hrc => ?_
  cases hend with
  | silent hne => exact absurd hrc hne
  | refused hne => exact absurd hrc hne
  | advanced _ _ _ _ hadv hrun =>
    have h₁ := ((readLoginText_proper h hv htext).of_ret hrun _ rfl).1
    obtain ⟨rsp, s₂, hturn, ha, -⟩ := hadv.steps
    rw [ha.login]
    exact hturn.proper h₁

/-- The phase of a session changes with a login request only. -/
theorem Executed.loginPhase (hb : Books i s) (hx : Executed env i h hdr s s' r)
    (hne : iscsiOpcode hdr ≠ opLoginCmd) : s'.slot.login.phase = s.slot.login.phase := by
  cases hx with
  | outOfPhase _ _ hlogin => rw [hlogin]
  | task _ _ hrun => exact (taskCommandT_phase hdr s).of_ret hrun
  | nop _ _ hrun => rw [((nopOutT_spec hdr s).of_ret hrun).2.1]
  | login hop => exact absurd hop hne
  | text _ _ hrun => exact (textCommandT_phase hdr env s).of_ret hrun
  | logout _ hrun => exact (logoutCommandT_phase hdr s).of_ret hrun
  | scsi _ _ hrun => rw [((scsiCommandT_spec i h hdr s).of_ret hrun).still.login]
  | data _ _ hrun => rw [(hb.dataLogin hrun)]
  | unknown _ _ hrun => rw [((rejectT_spec hdr 0x04 s).of_ret hrun).2.2.1]

/-- A login request enters the full feature phase, or leaves the phase alone. -/
theorem LoginEnd.loginPhase {cmd : LoginCmd} {rc : Int} (he : LoginEnd env cmd rc s s') :
    s'.slot.login.phase = s.slot.login.phase ∨
      s'.slot.login.phase = (true, s.slot.login.entered + 1) := by
  have htextual {s₁ : Local} (h : Keeps textual s s₁) :
    s₁.slot.login.phase = s.slot.login.phase := by
    have hrest := congrArg Login.phase (show textual s₁ = textual s from h)
    exact hrest
  cases he with
  | silent _ _ _ hlogin => exact .inl (htextual hlogin)
  | refused _ _ _ hlogin _ ha =>
    rw [ha.login]
    exact .inl (htextual hlogin)
  | advanced _ _ _ hlogin hadv _ =>
    obtain ⟨rsp, s₂, hturn, ha, hrsp⟩ := hadv.steps
    have hsame := htextual hlogin
    rw [ha.login]
    rcases hrsp with ⟨-, hphase⟩ | ⟨-, -, -, hphase⟩
    · exact .inl (hphase.trans hsame)
    · rw [hphase]
      split
      · exact .inr (congrArg (fun x => (true, x.2 + 1)) hsame)
      · exact .inl hsame

/-- A request enters the full feature phase, or leaves the phase alone. -/
theorem Executed.loginPhase_or (hb : Books i s) (hx : Executed env i h hdr s s' r) :
    s'.slot.login.phase = s.slot.login.phase ∨
      s'.slot.login.phase = (true, s.slot.login.entered + 1) := by
  by_cases hop : iscsiOpcode hdr = opLoginCmd
  · cases hx with
    | outOfPhase _ _ hlogin => exact .inl (congrArg Login.phase hlogin)
    | login _ hrun => exact ((loginCommandT_spec env i hdr s).of_ret hrun).loginPhase
    | task hop' | nop hop' | text hop' | logout hop' | scsi hop' | data hop' =>
      exact absurd (hop.symm.trans hop') (by decide)
    | unknown _ hmem => exact absurd (by rw [hop]; decide) hmem
  · exact .inl (hx.loginPhase hb hop)

/-- A request after which the session goes on leaves the parameters those of the target. -/
theorem Executed.proper (henv : env.NoNul) (hb : Books i s) (hx : Executed env i h hdr s s' r)
    (hr : ∀ queued, r = some queued → 0 ≤ queued ∧ iscsiOpcode hdr ≠ opLogoutCmd)
    (hpaired : Paired hdr s.slot.conn.rx) (hp : Proper s.slot.login.ps.params) :
    Proper s'.slot.login.ps.params := by
  have hrc {rc x : Int} (hr : ∀ queued, some (if rc ≠ 0 then (-1 : Int) else x) = some queued →
      0 ≤ queued ∧ iscsiOpcode hdr ≠ opLogoutCmd) : rc = 0 :=
    rc_of_continues fun queued hq => ⟨(hr queued hq).1, trivial⟩
  cases hx with
  | outOfPhase => exact absurd (hr _ rfl).1 (by decide)
  | task _ _ hrun => rw [((taskCommandT_spec hdr s).of_ret hrun (hrc hr)).2.2]; exact hp
  | nop _ _ hrun => rw [((nopOutT_spec hdr s).of_ret hrun).2.1]; exact hp
  | login hop hrun => exact (loginCommandT_proper hp (hpaired.1 hop)).of_ret hrun (hrc hr)
  | text hop _ hrun => exact (textCommandT_proper henv hp (hpaired.2 hop)).of_ret hrun (hrc hr)
  | logout hop => exact absurd hop (hr _ rfl).2
  | scsi _ _ hrun => rw [((scsiCommandT_spec i h hdr s).of_ret hrun).still.login]; exact hp
  | data _ _ hrun => rw [hb.dataLogin hrun]; exact hp
  | unknown _ _ hrun => rw [((rejectT_spec hdr 0x04 s).of_ret hrun).2.2.1]; exact hp

end Requests

/-! ## Runs -/

section Runs

variable {env : Env} {i : Nat} {s s' : Local} {w₀ w : World}

/-- A round of the worker after which it goes on. -/
theorem Round.proper (henv : env.NoNul) (hb : Books i s) (hr : Round env i s s')
    (hp' : s'.slot.phase = .running)
    (hpaired : s.slot.waiting = none → Paired s.nextHeader (s.slot.conn.rx.drop iscsiHeaderLen))
    (hp : Proper s.slot.login.ps.params) : Proper s'.slot.login.ps.params := by
  cases hr.continues hp' with
  | @pdu h q q' r s₁ hw hq hrx hx hgo hs =>
    subst hs
    have hb₀ : Books i (s.setHeaderQ q).skipHeader := hb.congr rfl rfl rfl (.inl rfl) rfl rfl
    have h₁ := hx.proper henv hb₀ hgo (hpaired hw) hp
    exact h₁
  | stays _ hs => exact hs ▸ hp
  | @resumed h c hdr rc q' s₁ hw hready hx hrc hs =>
    subst hs
    have hlogin : s₁.slot.login = s.slot.login := (hb.resumed hw hready hx).1.still.1.login
    exact hlogin ▸ hp

/-- The worker takes a PDU whose text, if it has one, begins with a pair. -/
def PairedEvent (w : World) : Event → Prop
  | .rx i => (w.slots i).phase = .running → (w.slots i).waiting = none →
      Paired (w.view i).nextHeader ((w.slots i).conn.rx.drop iscsiHeaderLen)
  | .accept _ | .lun => True

instance (w : World) (e : Event) : Decidable (PairedEvent w e) :=
  match e with
  | .rx _ => inferInstanceAs (Decidable (_ → _ → _))
  | .accept _ | .lun => inferInstanceAs (Decidable True)

/-- The parameters of every session are those of the target. -/
theorem proper_reachable (henv : env.NoNul) (hw₀ : w₀.Starts)
    (h : Reach (step env) PairedEvent w₀ w) (i : Nat) : (w.slots i).phase = .running →
    Proper (w.slots i).login.ps.params := by
  refine invariant_slots
    (P := fun _ s => s.phase = .running → Proper s.login.ps.params) (fun i hp => ?_)
    (fun _ _ cl _ _ => proper_targetParams cl.heap) ?_ ?_ ?_ h i
  · rw [hw₀.slots i] at hp
    exact absurd hp (by decide)
  · rintro w i p _ _ _ (rfl | rfl) _ hp <;> exact absurd hp (by simp [Slot.cleaned])
  · intro w i hreach ok hp hproper
    refine (workerRound_spec env i _).mono fun _ s hr hp' => ?_
    exact hr.proper henv (books_reachable hw₀ hreach i) hp' (ok hp) (hproper hp)
  · intro w i c q _ _ _ hproper
    refine (lunWorker_spec _).mono fun _ s hl hp => ?_
    have hcalm := hl.calm
    rw [hcalm.login]
    exact hproper (hcalm.phase.symm.trans hp)

end Runs

end Ost.Target
