import Ost.Session.Window
import Ost.Target.Negotiation

/-!
# Leaving the login phase

Both ends of a session leave the login phase with a login response that says so.  `login_command_t`
keeps what was asked for and what is granted apart, and enters the full feature phase when it was
asked for.  In the security stage the response withdraws the transition while `AuthResult` is `No`,
and the session enters the full feature phase all the same.

A session in the full feature phase may send login requests again, so it may enter the phase more
than once.
-/

namespace Ost.Target

open Ost.Iscsi Ost.Util Ost.Param Ost.Prog Ost.Disk

/-! ## Agreement -/

/-- The last PDU of a slot is a login response that ends the login phase. -/
def Grants (s s' : Slot) : Prop :=
  ∃ x, s'.conn.sent = s.conn.sent ++ [x] ∧ TargetPdu.grants x.pdu = true

/-- The two ends agree that the session has left the login phase, and it was not left from the
security stage without authentication.  `hdr` is the header of the request. -/
def Agreed (hdr : Bytes) (s s' : Slot) : Prop :=
  Grants s s' ∧ authResultIs (iscsiLoginCmdDecap hdr).2 s'.login.ps.params "No" = false

/-! ## The condition -/

/-- A login request is not one of the security stage, or `AuthResult` is not `No` any more once its
text has been answered.  The text is what comes next in `rx`. -/
def Authentic (env : Env) (cmd : LoginCmd) (params : Params) (rx : Bytes) : Prop :=
  cmd.csg ≠ 0 ∨ ∀ v ∈ paramVal params (cstr "AuthResult"),
    (Verdict.ofText env params (rx.take cmd.length)).result v ≠ cstr "No"

instance (env : Env) (cmd : LoginCmd) (params : Params) (rx : Bytes) :
    Decidable (Authentic env cmd params rx) := inferInstanceAs (Decidable (_ ∨ _))

/-- The login request that comes next is authentic. -/
def Slot.Authentic (env : Env) (s : Slot) : Prop :=
  Target.Authentic env (iscsiLoginCmdDecap s.nextHeader).2 s.login.ps.params
    (s.conn.rx.drop iscsiHeaderLen)

instance (env : Env) (s : Slot) : Decidable (s.Authentic env) :=
  inferInstanceAs (Decidable (Target.Authentic _ _ _ _))

/-! ## The request -/

section Request

variable {env : Env} {i h : Nat} {s s' : Local} {hdr : Bytes} {r : Option Int}

/-- An answer to a login request that enters the full feature phase grants it, unless `AuthResult`
is `No` in the security stage. -/
theorem Advance.agreed {cmd : LoginCmd} {rc : Int} {s₁ : Local} (hadv : Advance cmd rc s₁ s')
    (hwire : Keeps wire s s₁) (hphase : s'.slot.login.phase ≠ s₁.slot.login.phase) :
    Grants s.slot s'.slot ∧ authResultIs cmd s'.slot.login.ps.params "No" = false ↔
      authResultIs cmd s₁.slot.login.ps.params "No" = false := by
  obtain ⟨rsp, s₂, hturn, ha, hrsp⟩ := hadv.steps
  have hauth : authResultIs cmd s'.slot.login.ps.params "No" =
      authResultIs cmd s₁.slot.login.ps.params "No" := by
    rw [ha.login, hturn.authResultIs]
  rw [hauth, and_iff_right_iff_imp]
  intro hno
  rw [ha.login] at hphase
  rcases hrsp with ⟨-, hsame⟩ | ⟨hclass, hnsg, htransit, henters⟩
  · exact absurd hsame hphase
  by_cases hasks : LoginCmd.asks cmd = true
  · obtain ⟨r, d, ok, hs', hgranted, -⟩ := ha.sent
    have hsent : s₂.slot.conn.sent = s.slot.conn.sent :=
      congrArg (fun x => x.2.1) (Eq.trans hturn.wire hwire)
    simp only [LoginCmd.asks, Bool.and_eq_true, decide_eq_true_eq] at hasks
    refine ⟨⟨.loginRsp r, d, ok⟩, hs'.trans (by rw [hsent]), ?_⟩
    have hgrants : TargetPdu.grants (.loginRsp r) = LoginRsp.granted rsp := hgranted
    rw [hgrants, LoginRsp.granted, hclass, htransit, hnsg, hno, hasks.1, hasks.2]
    rfl
  · exact absurd (henters.trans (if_neg hasks)) hphase

/-- The value of `AuthResult`, as a request in the security stage sees it. -/
theorem authResultIs_eq_false {cmd : LoginCmd} {params : Params} {v : CStr} (w : String)
    (hv : paramVal params (cstr "AuthResult") = some v) :
    authResultIs cmd params w = false ↔ cmd.csg ≠ 0 ∨ v ≠ cstr w := by
  unfold authResultIs paramEquiv
  rw [hv, Bool.and_eq_false_iff, decide_eq_false_iff_not, decide_eq_false_iff_not]
  refine or_congr Iff.rfl (not_congr ?_)
  dsimp only
  by_cases h : v = cstr w
  · simp [h]
  · simp [h]

/-- A login request that enters the full feature phase. -/
theorem loginCommandT_agreed {rc : Int} (hp : Proper s.slot.login.ps.params)
    (htext : Begins (s.slot.conn.rx.take (iscsiLoginCmdDecap hdr).2.length))
    (hrun : loginCommandT env i hdr s = .ret rc s')
    (hphase : s'.slot.login.phase ≠ s.slot.login.phase) : Agreed hdr s.slot s'.slot ↔
      Authentic env (iscsiLoginCmdDecap hdr).2 s.slot.login.ps.params s.slot.conn.rx := by
  have htextual {s₁ : Local} (h : Keeps textual s s₁) :
    s₁.slot.login.phase = s.slot.login.phase := by
    have hrest := congrArg Login.phase (show textual s₁ = textual s from h)
    exact hrest
  cases (loginCommandT_spec env i hdr s).of_ret hrun with
  | silent _ _ _ hlogin => exact absurd (htextual hlogin) hphase
  | refused _ _ _ hlogin _ ha =>
    rw [ha.login] at hphase
    exact absurd (htextual hlogin) hphase
  | advanced _ hwire _ hlogin hadv hread =>
    obtain ⟨v, hv⟩ := authResult_of_proper hp
    have hvalue := ((readLoginText_proper hp hv htext).of_ret hread _ rfl).2
    rw [← htextual hlogin] at hphase
    rw [Agreed, hadv.agreed hwire hphase, authResultIs_eq_false "No" hvalue, Authentic, hv]
    simp

/-- Only a login request enters the full feature phase. -/
theorem Executed.agreed (hb : Books i s) (hx : Executed env i h hdr s s' r)
    (hpaired : Paired hdr s.slot.conn.rx) (hp : Proper s.slot.login.ps.params)
    (hphase : s'.slot.login.phase ≠ s.slot.login.phase) : Agreed hdr s.slot s'.slot ↔
      Authentic env (iscsiLoginCmdDecap hdr).2 s.slot.login.ps.params s.slot.conn.rx := by
  by_cases hop : iscsiOpcode hdr = opLoginCmd
  · cases hx with
    | outOfPhase _ _ hlogin => exact absurd (congrArg Login.phase hlogin) hphase
    | login _ hrun => exact loginCommandT_agreed hp (hpaired.1 hop) hrun hphase
    | task hop' | nop hop' | text hop' | logout hop' | scsi hop' | data hop' =>
      exact absurd (hop.symm.trans hop') (by decide)
    | unknown _ hmem => exact absurd (by rw [hop]; decide) hmem
  · exact absurd (hx.loginPhase hb hop) hphase

/-- The request at the head of the stream. -/
theorem Executed.agreed_next {q : Fifo Nat} (hb : Books i (s.setHeaderQ q).skipHeader)
    (hx : Executed env i h s.nextHeader (s.setHeaderQ q).skipHeader s' r)
    (hpaired : Paired s.nextHeader (s.slot.conn.rx.drop iscsiHeaderLen))
    (hp : Proper s.slot.login.ps.params) (hphase : s'.slot.login.phase ≠ s.slot.login.phase) :
    Agreed s.slot.nextHeader s.slot s'.slot ↔ s.slot.Authentic env := by
  have hskip : Agreed s.nextHeader s.slot s'.slot ↔
      Agreed s.nextHeader (s.setHeaderQ q).skipHeader.slot s'.slot := Iff.rfl
  exact hskip.trans (hx.agreed hb hpaired hp hphase)

/-- What becomes of the header and of the worker is no matter of the login. -/
theorem Settled.agreed {queued : Int} {s₁ : Local} (hs : Settled h hdr s₁ queued s') (t : Slot)
    (hdr' : Bytes) : s'.slot.login.phase = s₁.slot.login.phase ∧
      (Agreed hdr' t s'.slot ↔ Agreed hdr' t s₁.slot) := by
  cases hs <;> exact ⟨rfl, Iff.rfl⟩

/-- A round enters the full feature phase, or leaves the phase alone. -/
theorem Round.loginPhase_or (hb : Books i s) (hr : Round env i s s') :
    s'.slot.login.phase = s.slot.login.phase ∨
      s'.slot.login.phase = (true, s.slot.login.entered + 1) := by
  have hb₀ {q : Fifo Nat} : Books i (s.setHeaderQ q).skipHeader :=
    hb.congr rfl rfl rfl (.inl rfl) rfl rfl
  cases hr with
  | noHeader _ _ hs => exact .inl (by rw [hs]; rfl)
  | short _ _ _ _ hs => exact .inl (by rw [hs]; rfl)
  | @waits h q _ _ _ hx =>
    have h₁ := Executed.loginPhase_or (s := (s.setHeaderQ q).skipHeader) hb₀ hx
    exact h₁
  | @executed h q _ _ _ _ _ hx hs =>
    have h₁ := Executed.loginPhase_or (s := (s.setHeaderQ q).skipHeader) hb₀ hx
    rw [(hs.agreed s.slot s.slot.nextHeader).1]
    exact h₁
  | stays _ _ hs => exact .inl (by rw [hs])
  | @resumed h c hdr rc s₁ hw hready hx hs =>
    have hlogin : s₁.slot.login = s.slot.login := (hb.resumed hw hready hx).1.still.1.login
    rw [(hs.agreed s.slot s.slot.nextHeader).1, hlogin]
    exact .inl rfl

/-- A round of the worker. -/
theorem Round.agreed (hb : Books i s) (hr : Round env i s s')
    (hpaired : s.slot.waiting = none → Paired s.nextHeader (s.slot.conn.rx.drop iscsiHeaderLen))
    (hp : Proper s.slot.login.ps.params) (hphase : s'.slot.login.phase ≠ s.slot.login.phase) :
    Agreed s.slot.nextHeader s.slot s'.slot ↔ s.slot.Authentic env := by
  have hb₀ {q : Fifo Nat} : Books i (s.setHeaderQ q).skipHeader :=
    hb.congr rfl rfl rfl (.inl rfl) rfl rfl
  cases hr with
  | noHeader _ _ hs => exact absurd (by rw [hs]; rfl) hphase
  | short _ _ _ _ hs => exact absurd (by rw [hs]; rfl) hphase
  | waits hw _ _ hx =>
    exact hx.agreed_next hb₀ (hpaired hw) hp hphase
  | executed hw _ _ hx hs =>
    obtain ⟨hsame, hagreed⟩ := hs.agreed s.slot s.slot.nextHeader
    rw [hagreed]
    exact hx.agreed_next hb₀ (hpaired hw) hp (hsame ▸ hphase)
  | stays _ _ hs => exact absurd (by rw [hs]) hphase
  | @resumed h c hdr rc s₁ hw hready hx hs =>
    have hlogin : s₁.slot.login = s.slot.login := (hb.resumed hw hready hx).1.still.1.login
    have hsame := (hs.agreed s.slot s.slot.nextHeader).1
    exact absurd (by rw [hsame, hlogin]) hphase

end Request

/-! ## Runs -/

section Runs

variable {env : Env} {w₀ w w' : World}

/-- An event that leaves the phase of a session alone, or starts the session, does not enter the
full feature phase. -/
theorem not_entered {l l' : Login} (h : l'.phase = l.phase ∨ l'.phase = (false, 0)) (P : Prop) :
    (l.entered < l'.entered → P) ∧
      (l.isFullFeature = false → l'.isFullFeature = true → l.entered < l'.entered) := by
  refine ⟨fun hlt => ?_, fun hff hff' => ?_⟩
  · rcases h with h | h
    · exact absurd (congrArg Prod.snd h) hlt.ne'
    · exact absurd (congrArg Prod.snd h) (Nat.ne_zero_of_lt hlt)
  · rcases h with h | h
    · exact absurd (hff'.symm.trans ((congrArg Prod.fst h).trans hff)) (by decide)
    · exact absurd (hff'.symm.trans (congrArg Prod.fst h)) (by decide)

/-- A session enters the full feature phase in a round of its worker, in agreement with the
initiator just when the request is authentic.  No other event has it enter the phase. -/
theorem login_agreement (henv : env.NoNul) (hw₀ : w₀.Starts)
    (h : Reach (step env) PairedEvent w₀ w) (i : Nat) {e : Event} (ok : PairedEvent w e)
    (he : step env e w = .ret ⟨⟩ w') :
    ((w.slots i).login.entered < (w'.slots i).login.entered → e = .rx i ∧
      (Agreed (w.slots i).nextHeader (w.slots i) (w'.slots i) ↔ (w.slots i).Authentic env)) ∧
    ((w.slots i).login.isFullFeature = false → (w'.slots i).login.isFullFeature = true →
      (w.slots i).login.entered < (w'.slots i).login.entered) := by
  cases (step_spec env e w).of_ret he with
  | idle => exact not_entered (.inl rfl) _
  | @accept cl j hl =>
    refine not_entered ?_ _
    rw [World.slots_nextListener]
    dsimp only
    by_cases hj : i = j
    · subst hj
      rw [Function.update_self]
      exact .inr rfl
    · rw [Function.update_of_ne hj]
      exact .inl rfl
  | @round j s hp hrun =>
    by_cases hj : i = j
    · subst hj
      have hb := books_reachable hw₀ h i
      have hr := (workerRound_spec env i _).of_ret hrun
      rw [World.slots_put_self]
      rcases hr.loginPhase_or hb with hphase | hphase
      · exact not_entered (.inl hphase) _
      · have hmore : s.slot.login.entered = (w.slots i).login.entered + 1 :=
          congrArg Prod.snd hphase
        have hchange : s.slot.login.phase ≠ (w.slots i).login.phase := fun heq =>
          absurd (hmore.symm.trans (congrArg Prod.snd heq)) (Nat.succ_ne_self _)
        refine ⟨fun _ => ⟨rfl, ?_⟩, fun _ _ => by omega⟩
        exact hr.agreed hb (ok hp) (proper_reachable henv hw₀ h i hp) hchange
    · exact not_entered (.inl (by rw [World.slots_put_of_ne _ _ hj])) _
  | @ended j =>
    refine not_entered (.inl ?_) _
    dsimp only
    by_cases hj : i = j
    · subst hj
      rw [Function.update_self]
      rfl
    · rw [Function.update_of_ne hj]
  | @lun j c q s hq hrun =>
    refine not_entered (.inl ?_) _
    by_cases hj : i = j
    · subst hj
      rw [World.slots_put_self, ((lunWorker_spec _).of_ret hrun).calm.login]
      rfl
    · rw [World.slots_put_of_ne _ _ hj]
      rfl

end Runs

/-- A login request that goes from a stage to the full feature phase. -/
def loginFrom (b₁ : UInt8) : Bytes :=
  request 0x43 b₁ 32 1 0 0 ++ cstr "InitiatorName=i" ++ [0] ++ cstr "TargetName=tgt1" ++ [0]

/-- A session that skips the security stage. -/
theorem login_agreement_operational :
    ∃ w w', Reach (step smallEnv) PairedEvent smallWorld w ∧
      step smallEnv (.rx 0) w = .ret ⟨⟩ w' ∧
      (w.slots 0).login.entered < (w'.slots 0).login.entered ∧
      Agreed (w.slots 0).nextHeader (w.slots 0) (w'.slots 0) := by
  obtain ⟨w, h, hok, hauth, w', he, hlt⟩ :
      ∃ w, Reach (step smallEnv) PairedEvent smallWorld w ∧ PairedEvent w (.rx 0) ∧
        (w.slots 0).Authentic smallEnv ∧
        ∃ w', step smallEnv (.rx 0) w = .ret ⟨⟩ w' ∧
          (w.slots 0).login.entered < (w'.slots 0).login.entered :=
    exists_reach [.accept (client (loginFrom 0x87))] (by decide +kernel)
  have hsteps := login_agreement ⟨by decide, by decide⟩ starts_smallWorld h 0 hok he
  exact ⟨w, w', h, he, hlt, (hsteps.1 hlt).2.mpr hauth⟩

instance (s s' : Slot) : Decidable (Grants s s') :=
  decidable_of_iff (∃ x ∈ s'.conn.sent.getLast?, s'.conn.sent = s.conn.sent ++ [x] ∧
    TargetPdu.grants x.pdu = true) (by
    refine ⟨fun ⟨x, _, h⟩ => ⟨x, h⟩, fun ⟨x, h, hg⟩ => ⟨x, ?_, h, hg⟩⟩
    rw [h]
    simp)

instance (hdr : Bytes) (s s' : Slot) : Decidable (Agreed hdr s s') :=
  inferInstanceAs (Decidable (_ ∧ _))

/-- A session that leaves the security stage without authentication. -/
theorem login_unauthenticated :
    ∃ w, Reach (step smallEnv) (fun _ _ => True) smallWorld w ∧
      (w.slots 0).login.isFullFeature = false ∧
      ∃ w', step smallEnv (.rx 0) w = .ret ⟨⟩ w' ∧ (w'.slots 0).login.isFullFeature = true ∧
        ¬Agreed (w.slots 0).nextHeader (w.slots 0) (w'.slots 0) :=
  exists_reach [.accept (client (loginFrom 0x83))] (by decide +kernel)

end Ost.Target
