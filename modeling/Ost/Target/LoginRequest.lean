import Ost.Target.Requests

/-!
# The login request

What `login_command_t` does to a session: a request gets no answer, or it is refused, or it
is answered with success (`LoginEnd`).  Only the last can enter the full feature phase, and
only `AuthResult` can make the session authenticated.
-/

namespace Ost.Target

open Ost.Iscsi Ost.Util Ost.Param Ost.Prog Ost.Disk

variable (env : Env) (id : Nat)

/-- A run with its result. -/
theorem ensures_run {α : Type} {x : Handler α} {s : Local} :
    ensures x (fun a s' => x s = .ret a s') s :=
  wp_intro (fun _ _ h => h) fun _ _ _ => trivial

/-- A login response was sent.  `rsp` has its status and its stages. -/
structure LoginAnswer (cmd : LoginCmd) (rsp : LoginRsp) (rc : Int) (s s' : Local) : Prop where
  aside : Keeps aside s s'
  unread : Keeps unread s s'
  login : s'.slot.login = s.slot.login
  nopFlag : s'.nopFlag = s.nopFlag
  expCmdSN : s'.slot.seq.expCmdSN = cmd.cmdSN
  maxCmdSN : s'.slot.seq.maxCmdSN = cmd.cmdSN
  sent : ∃ r d ok, s'.slot.conn.sent = s.slot.conn.sent ++ [⟨.loginRsp r, d, ok⟩] ∧
    LoginRsp.granted r = LoginRsp.granted rsp ∧
    (rc = 0 ↔ ok = true ∧ rsp.statusClass = 0) ∧
    (LoginRsp.granted rsp = true → r.statSN = s.slot.seq.statSN + 1)
  statSN : s'.slot.seq.statSN = s.slot.seq.statSN + (if LoginRsp.granted rsp then 1 else 0) +
    (if rc = 0 ∧ LoginCmd.asks cmd then 1 else 0)

/-- What `loginResponse` does. -/
theorem loginResponse_spec (cmd : LoginCmd) (rsp : LoginRsp) (text : Bytes) (s : Local) :
    ensures (loginResponse cmd rsp text) (fun rc s' => LoginAnswer cmd rsp rc s s') s := by
  have hadd (b : Bool) (x : UInt32) : (if b then x + 1 else x) = x + if b then 1 else 0 := by
    cases b <;> simp
  simp only [loginResponse, ensures, wp_bind, wp_modifySeq, wp_getSeq, wp_getLogin]
  refine wp_mono (sendLocked_spec _ _ _) ?_ fun _ _ _ => trivial
  rintro ok _ ⟨⟨d, n, b, rfl, _⟩, _⟩
  rcases ok with _ | _
  · refine ⟨rfl, rfl, rfl, rfl, rfl, rfl, ⟨_, d, false, rfl, rfl, by simp, fun h => ?_⟩, ?_⟩
    · exact (if_pos h).trans (if_pos h)
    · exact (hadd _ _).trans (by simp)
  · refine (wp_ite _ _ _).mpr ⟨by simp, fun _ => (wp_ite _ _ _).mpr ⟨fun hst => ?_, fun hst => ?_⟩⟩
    · refine ⟨rfl, rfl, rfl, rfl, rfl, rfl,
        ⟨_, d, true, rfl, rfl, by simpa using hst, fun h => ?_⟩, ?_⟩
      · exact (if_pos h).trans (if_pos h)
      · exact (hadd _ _).trans (by simp)
    · refine ⟨rfl, rfl, rfl, rfl, rfl, rfl,
        ⟨_, d, true, rfl, rfl, by simpa using hst, fun h => ?_⟩, ?_⟩
      · exact (if_pos h).trans (if_pos h)
      · refine (hadd _ _).trans ?_
        simp only [true_and]
        exact congrArg (· + _) (hadd _ _)

/-- The parameters of a discovery session in the full feature phase. -/
def oneConnection (params : Params) : Params :=
  paramModify params (cstr "MaxConnections") fun p => { p with valueL := p.valueL.set 0 (cstr "1") }

theorem paramVal_oneConnection {key : CStr} (hkey : key ≠ cstr "MaxConnections") (params : Params) :
    paramVal (oneConnection params) key = paramVal params key :=
  congrArg (Option.bind · _) (paramGet_modify_of_ne (fun _ => rfl) hkey)

/-- The login state moves on between the negotiation of the text and the response. -/
structure Turn (cmd : LoginCmd) (s s' : Local) : Prop where
  aside : Keeps aside s s'
  wire : Keeps wire s s'
  unread : Keeps unread s s'
  ps : s'.slot.login.ps = s.slot.login.ps ∨
    s'.slot.login.ps = { s.slot.login.ps with params := oneConnection s.slot.login.ps.params }
  authenticated : s'.slot.login.authenticated = true → s.slot.login.authenticated = true ∨
    authResultIs cmd s.slot.login.ps.params "Yes" = true

/-- `AuthResult` is not touched by a turn. -/
theorem Turn.authResultIs {cmd : LoginCmd} {s s' : Local} (h : Turn cmd s s') (v : String) :
    Target.authResultIs cmd s'.slot.login.ps.params v =
      Target.authResultIs cmd s.slot.login.ps.params v := by
  have hval : paramVal s'.slot.login.ps.params (cstr "AuthResult") =
      paramVal s.slot.login.ps.params (cstr "AuthResult") := by
    rcases h.ps with hps | hps
    · rw [hps]
    · rw [hps]
      exact paramVal_oneConnection (by decide) _
  have hequiv : paramEquiv s'.slot.login.ps.params (cstr "AuthResult") (cstr v) =
      paramEquiv s.slot.login.ps.params (cstr "AuthResult") (cstr v) := by
    unfold paramEquiv
    rw [hval]
  simp only [Target.authResultIs, hequiv]

/-- How `loginAdvance` ends.  The response grants what was asked for, but for the transition while
`AuthResult` is `No`. -/
structure Advance (cmd : LoginCmd) (rc : Int) (s s' : Local) : Prop where
  steps : ∃ rsp s₁, Turn cmd s s₁ ∧ LoginAnswer cmd rsp rc s₁ s' ∧
    (rsp.statusClass ≠ 0 ∧ s₁.slot.login.phase = s.slot.login.phase ∨
      rsp.statusClass = 0 ∧ rsp.nsg = cmd.nsg ∧
        rsp.transit = (cmd.transit && !authResultIs cmd s.slot.login.ps.params "No") ∧
        s₁.slot.login.phase =
          if LoginCmd.asks cmd then (true, s.slot.login.entered + 1) else s.slot.login.phase)

/-- Authentication only records what `AuthResult` says. -/
theorem turn_authenticated (cmd : LoginCmd) (s : Local) :
    ensures (guarded (authResultIs cmd s.slot.login.ps.params "Yes")
      (modifyLogin fun l => { l with authenticated := true }) : Handler PUnit)
      (fun _ s' => Turn cmd s s' ∧ s'.slot.login.ps = s.slot.login.ps ∧
        s'.slot.login.phase = s.slot.login.phase) s := by
  simp only [ensures, wp_guarded, wp_modifyLogin]
  exact ⟨fun h => ⟨⟨rfl, rfl, rfl, .inl rfl, fun _ => .inr h⟩, rfl, rfl⟩,
    fun _ => ⟨⟨rfl, rfl, rfl, .inl rfl, .inl⟩, trivial, trivial⟩⟩

/-- Entering the full feature phase changes one parameter. -/
theorem enterFullFeature_params (cmd : LoginCmd) (l : Login) :
    (enterFullFeature id cmd l).ps = l.ps ∨
      (enterFullFeature id cmd l).ps = { l.ps with params := oneConnection l.ps.params } := by
  unfold enterFullFeature
  dsimp only
  split
  · exact .inr rfl
  · exact .inl rfl

/-- What `loginAdvance` does. -/
theorem loginAdvance_spec (cmd : LoginCmd) (textOut : Bytes) (s : Local) :
    ensures (loginAdvance env id cmd textOut) (fun rc s' => Advance cmd rc s s') s := by
  have hanswer (rsp : LoginRsp) (text : Bytes) (s₁ : Local) (ht : Turn cmd s s₁)
      (h : rsp.statusClass ≠ 0 ∧ s₁.slot.login.phase = s.slot.login.phase ∨
        rsp.statusClass = 0 ∧ rsp.nsg = cmd.nsg ∧
          rsp.transit = (cmd.transit && !authResultIs cmd s.slot.login.ps.params "No") ∧
          s₁.slot.login.phase =
            if LoginCmd.asks cmd then (true, s.slot.login.entered + 1) else s.slot.login.phase) :
      ensures (loginResponse cmd rsp text) (fun rc s' => Advance cmd rc s s') s₁ :=
    (loginResponse_spec cmd rsp text s₁).mono fun _ _ h₁ => ⟨rsp, s₁, ht, h₁, h⟩
  rw [loginAdvance, ensures, wp_bind, wp_modifyLogin, wp_bind, wp_getParams]
  have h₀ : Turn cmd s (s.setLogin { s.slot.login with loginStarted := true }) :=
    ⟨rfl, rfl, rfl, .inl rfl, .inl⟩
  refine (wp_ite _ _ _).mpr ⟨fun _ => hanswer _ _ _ h₀ (.inl ⟨?_, rfl⟩), fun _ => ?_⟩
  · change (1 : UInt8) ≠ 0
    decide
  rw [wp_bind]
  refine (turn_authenticated cmd _).mono ?_
  rintro _ s₁ ⟨h₁, hps, hphase⟩
  have h₁ : Turn cmd s s₁ := ⟨h₁.aside, h₁.wire, h₁.unread, .inl hps, h₁.authenticated⟩
  refine (wp_ite _ _ _).mpr ⟨fun hasks => ?_, fun hasks => ?_⟩
  · refine (wp_ite _ _ _).mpr ⟨fun _ => hanswer _ _ _ h₁ (.inl ⟨?_, hphase⟩), fun _ => ?_⟩
    · change (2 : UInt8) ≠ 0
      decide
    rw [wp_bind, wp_modifyLogin]
    refine hanswer _ _ _ ⟨h₁.aside, h₁.wire, h₁.unread, ?_, h₁.authenticated⟩
      (.inr ⟨rfl, rfl, rfl, ?_⟩)
    · have hparams := enterFullFeature_params id cmd s₁.slot.login
      rw [hps] at hparams
      exact hparams
    · rw [if_pos hasks]
      exact congrArg (fun x => (true, x.2 + 1)) hphase
  · exact hanswer _ _ _ h₁ (.inr ⟨rfl, rfl, rfl, hphase.trans (if_neg hasks).symm⟩)

/-- The login state but for the parameters. -/
def Login.rest (l : Login) : Login := { l with ps := ParamState.init [] ⟨0, [], []⟩ fun _ => 0 }

/-- A text exchange only changes the parameters of the login state. -/
def textual (s : Local) : Login := Login.rest s.slot.login

instance textual_parseText (text textOut : Bytes) (outgoing : Bool) (u : Users) :
    Within (Keeps textual) (parseText env text textOut outgoing u) where
  run s := (parseText_spec env text textOut outgoing u s).mono fun _ _ ⟨_, h⟩ => by rw [h]; rfl

instance textual_sockRecv (n : Nat) : Within (Keeps textual) (sockRecv n) where
  run s := wp_mono (sockRecv_spec n s) (fun _ _ ⟨⟨_, h⟩, _⟩ => by rw [h]; rfl) fun _ _ => nofun

instance textual_addPortalGroup (textOut : Bytes) :
    Within (Keeps textual) (addPortalGroup textOut) := within_gets _

instance textual_parseOutgoing (textOut : Bytes) :
    Within (Keeps textual) (parseOutgoing env textOut) := by
  unfold parseOutgoing
  refine .ite _ (.bind inferInstance fun r => ?_)
  exact within_pure _

instance textual_readLoginText (len : Nat) : Within (Keeps textual) (readLoginText env len) := by
  have hanswer (text : Bytes) : Within (Keeps textual) (answerLoginText env text) := by
    unfold answerLoginText
    refine .bind inferInstance fun r => ?_
    refine .ite _ (.bind inferInstance fun r => ?_)
    split
    · exact within_pure _
    · infer_instance
  unfold readLoginText
  infer_instance

/-- How a login request ends. -/
inductive LoginEnd (env : Env) (cmd : LoginCmd) (rc : Int) (s s' : Local) : Prop where
  | silent (hrc : rc ≠ 0) (haside : Keeps aside s s') (hwire : Keeps wire s s')
    (hlogin : Keeps textual s s')
  | refused {s₁ : Local} {rsp : LoginRsp} (hrc : rc ≠ 0) (haside : Keeps aside s s₁)
    (hwire : Keeps wire s s₁) (hlogin : Keeps textual s s₁)
    (hst : rsp.statusClass ≠ 0) (h : LoginAnswer cmd rsp rc s₁ s')
  | advanced {s₁ : Local} {textOut : Bytes} (haside : Keeps aside s s₁) (hwire : Keeps wire s s₁)
    (hreads : Reads cmd.length s s₁) (hlogin : Keeps textual s s₁)
    (h : Advance cmd rc s₁ s') (hrun : readLoginText env cmd.length s = .ret (.text textOut) s₁)

/-- A login request only concerns the login. -/
theorem LoginEnd.aside {env : Env} {cmd : LoginCmd} {rc : Int} {s s' : Local}
    (he : LoginEnd env cmd rc s s') :
    Keeps aside s s' := by
  cases he with
  | silent _ ha => exact ha
  | refused _ ha _ _ _ hr => exact Eq.trans hr.aside ha
  | advanced ha _ _ _ hr =>
    obtain ⟨_, _, ht, hr, _⟩ := hr.steps
    exact Eq.trans hr.aside (Eq.trans ht.aside ha)

/-- What `login_command_t` does. -/
theorem loginCommandT_spec (hdr : Bytes) (s : Local) :
    ensures (loginCommandT env id hdr)
      (fun rc s' => LoginEnd env (iscsiLoginCmdDecap hdr).2 rc s s') s := by
  have hrefused (rsp : LoginRsp) (h : rsp.statusClass = 2) (s₁ : Local) (haside : Keeps aside s s₁)
      (hwire : Keeps wire s s₁) (hlogin : Keeps textual s s₁) :
      ensures (loginResponse (iscsiLoginCmdDecap hdr).2 rsp [])
        (fun rc s' => LoginEnd env (iscsiLoginCmdDecap hdr).2 rc s s') s₁ := by
    have hst : rsp.statusClass ≠ 0 := by
      rw [h]
      decide
    refine (loginResponse_spec _ rsp [] s₁).mono fun rc s' h' =>
      .refused ?_ haside hwire hlogin hst h'
    obtain ⟨_, _, _, _, _, hrc, _⟩ := h'.sent
    exact fun h0 => hst (hrc.mp h0).2
  rw [loginCommandT, ensures]
  dsimp only
  refine (wp_ite _ _ _).mpr ⟨fun _ => hrefused _ rfl s rfl rfl rfl, fun _ => ?_⟩
  refine (wp_ite _ _ _).mpr ⟨fun _ => hrefused _ rfl s rfl rfl rfl, fun _ => ?_⟩
  refine (wp_ite _ _ _).mpr ⟨fun _ => hrefused _ rfl s rfl rfl rfl, fun _ => ?_⟩
  refine (wp_ite _ _ _).mpr ⟨fun _ => hrefused _ rfl s rfl rfl rfl, fun _ => ?_⟩
  rw [wp_bind]
  refine wp_mono (wp_and ensures_run ((textual_readLoginText env _).and_wp
    (readLoginText_spec env _ s))) ?_ fun _ _ _ => trivial
  rintro r s₁ ⟨hrun, ⟨⟨hreads, hwire⟩, haside⟩, hlogin⟩
  rcases r with _ | detail | textOut
  · exact .silent (by decide) haside hwire hlogin
  · exact hrefused _ rfl s₁ haside hwire hlogin
  · exact (loginAdvance_spec env id _ textOut s₁).mono fun rc s' h =>
      .advanced haside hwire (hreads (by simp)) hlogin h hrun

end Ost.Target
