import Ost.Param.Keys

/-!
# The exchange

An initiator and a target that log in with CHAP.  The initiator opens with `AuthMethod=CHAP`; then
each end in turn parses the text of the other as incoming and, if that made a text, its own text as
outgoing, as `login_response_i` and `login_command_t` do.  The exchange is over when an end has
nothing to send, or when a parse returns an error.

The two daemons share MD5 and nothing else: what `malloc` returns and the random bytes are arbitrary
at each end.
-/

namespace Ost.Param

open Ost.Iscsi Ost.Util Ost.Prog

/-! ## The two ends -/

/-- The ends of a login. -/
inductive Role where
  | initiator
  | target
deriving DecidableEq, Repr

/-- The end that answers. -/
def Role.other : Role → Role
  | initiator => target
  | target => initiator

/-- `MAX_LEN` of `initiator.h`. -/
def maxLen : Nat := 256

/-- A configured name or secret, in an array of `MAX_LEN` bytes. -/
structure Credential where
  str : CStr
  noNul : 0 ∉ str
  short : str.length < maxLen

/-- What one end is configured with. -/
structure Credentials where
  initiatorUser : Credential
  initiatorPass : Credential
  targetUser : Credential
  targetPass : Credential

/-- Two daemons, before a login. -/
structure Setup where
  env : Role → Env
  /-- MD5 is the same function at both ends. -/
  md5_same : (env .initiator).md5 = (env .target).md5
  creds : Role → Credentials
  heap : Role → Bytes
  heapCookie : Role → Cookie
  rand : Role → Nat → UInt8

namespace Setup

/-- The credentials an incoming text is parsed with. -/
def users (e : Setup) (r : Role) : Users :=
  { initiatorUser := some (e.creds r).initiatorUser.str
    initiatorPass := (e.creds r).initiatorPass.str
    targetUser := (e.creds r).targetUser.str
    targetPass := (e.creds r).targetPass.str }

/-- The credentials an outgoing text is parsed with.  The target passes its `CHAP_N`. -/
def usersOut (e : Setup) : Role → Users
  | .initiator => e.users .initiator
  | .target => { e.users .target with initiatorUser := none }

/-- The parameters of a new session or a new connection. -/
def params (e : Setup) : Role → Params
  | .initiator => initiatorParams (e.heap .initiator) (e.env .initiator).hostname
  | .target => targetParams (e.heap .target)

/-- The state of an end before the login. -/
def fresh (e : Setup) (r : Role) : Parse :=
  { params := e.params r, cookie := none, heapCookie := e.heapCookie r, rand := e.rand r
    randPos := 0, received := [], log := [], textOut := [] }

/-- A text arrives at an end: it is parsed, and the text it makes is parsed on its way out. -/
def turn (e : Setup) (r : Role) (text : Bytes) : Prog Halt Parse Int := do
  let rc ← paramTextParse (e.env r) text false (e.users r)
  if rc ≠ 0 then return rc
  let s ← get
  if s.textOut = [] then return 0
  paramTextParse (e.env r) s.textOut true (e.usersOut r)

/-- How an exchange can end. -/
inductive Verdict where
  | /-- An end has nothing more to send. -/
    done
  | /-- The parse of an end returned an error. -/
    failed (r : Role) (rc : Int)
  | /-- The parse of an end did not return. -/
    crashed (r : Role)
  | /-- The texts went on. -/
    unfinished
deriving DecidableEq, Repr

/-- A text arrives at an end, and the ends go on in turn. -/
def exchange (e : Setup) : Nat → Role → Bytes → (Role → Parse) → Verdict × (Role → Parse)
  | 0, _, _, p => (.unfinished, p)
  | n + 1, r, text, p =>
    match e.turn r text (p r) with
    | .halt _ s => (.crashed r, Function.update p r s)
    | .ret rc s =>
      if rc ≠ 0 then (.failed r rc, Function.update p r s)
      else if s.textOut = [] then (.done, Function.update p r s)
      else e.exchange n r.other s.textOut (Function.update p r s)

/-- The text that the initiator opens with. -/
def opening : Bytes := cstr "AuthMethod=CHAP" ++ [0]

/-- A login: the initiator sends its first text, and at most `n` texts are read. -/
def login (e : Setup) (n : Nat) : Verdict × (Role → Parse) :=
  match paramTextParse (e.env .initiator) opening true (e.users .initiator)
  (e.fresh .initiator) with
  | .halt _ s => (.crashed .initiator, Function.update e.fresh .initiator s)
  | .ret rc s =>
    if rc ≠ 0 then (.failed .initiator rc, Function.update e.fresh .initiator s)
    else e.exchange n .target opening (Function.update e.fresh .initiator s)

/-- The `AuthResult` of the target. -/
def authResult (p : Role → Parse) : Option CStr := paramVal (p .target).params (cstr "AuthResult")

theorem authResult_target (p : Role → Parse) (s : Parse) :
    authResult (Function.update p .target s) = paramVal s.params (cstr "AuthResult") := by
  rw [authResult, Function.update_self]

theorem authResult_initiator (p : Role → Parse) (s : Parse) :
    authResult (Function.update p .initiator s) = authResult p := rfl

/-! ### What the ends compute -/

/-- The challenge of an end. -/
def challenge (e : Setup) (r : Role) : Bytes :=
  (List.range chapCDataLength).map fun i => e.rand r (1 + i)

/-- The response to the challenge of an end, with a secret. -/
def response (e : Setup) (r : Role) (pass : Credential) : Bytes :=
  (e.env .target).md5 (e.rand r 0 :: (pass.str ++ e.challenge r))

/-- The initiator wants to know the target too. -/
def Mutual (e : Setup) : Prop := (e.creds .initiator).targetUser.str ≠ []

instance instDecidableMutual (e : Setup) : Decidable e.Mutual := inferInstanceAs (Decidable (_ ≠ _))

end Setup

/-! ## Parsing a text -/

section Text

variable (env : Env) {rand : Nat → UInt8} {s : Parse} {x y : Side} {u : Users}

/-- The items of a text of these keys. -/
def chapItems (T : List (ChapKey × CStr)) : List Item := T.map fun kv => .pair kv.1.key (some kv.2)

theorem Completes.items {P : Parse → Prop} {Q : Int → Parse → Prop} {outgoing : Bool} {it : Item}
    {its : List Item}
    (h : Completes (parseItem env outgoing u it) (fun o s' => o = none ∧ P s') s)
    (hrest : ∀ s', P s' → Completes (parseItems env outgoing u its) Q s') :
    Completes (parseItems env outgoing u (it :: its)) Q s := by
  refine Completes.bind h fun o s₁ ⟨ho, h₁⟩ => ?_
  rw [ho]
  exact hrest s₁ h₁

theorem Completes.stop {P : Parse → Prop} {outgoing : Bool} {it : Item} {its : List Item} {rc : Int}
    (h : Completes (parseItem env outgoing u it) (fun o s' => o = some rc ∧ P s') s) :
    Completes (parseItems env outgoing u (it :: its)) (fun rc' s' => rc' = rc ∧ P s') s := by
  refine Completes.bind h fun o s₁ ⟨ho, h₁⟩ => ?_
  rw [ho]
  exact ⟨rfl, h₁⟩

/-- The pairs of a text went out. -/
def Side.sendAll : Side → List (ChapKey × CStr) → Side
  | x, [] => x
  | x, kv :: T => (x.sent kv.1).sendAll T

/-- The pairs of a text can go out, one after the other. -/
def Side.CanSend : Side → List (ChapKey × CStr) → Prop
  | _, [] => True
  | x, kv :: T => Sendable x kv.1 kv.2 ∧ (x.sent kv.1).CanSend T

theorem Shows.sendAll (h : Shows rand s x) {T : List (ChapKey × CStr)} (hT : x.CanSend T) :
    Completes (parseItems env true u (chapItems T))
      (fun rc s' => rc = 0 ∧ Shows rand s' (x.sendAll T)) s := by
  induction T generalizing s x with
  | nil => exact ⟨rfl, h⟩
  | cons kv T ih => exact .items env (h.send env hT.1) fun s₁ h₁ => ih h₁ hT.2

/-- The pairs of a text that can go out can be read back. -/
theorem Side.CanSend.pairOk {T : List (ChapKey × CStr)} (hT : x.CanSend T) :
    ∀ kv ∈ T.map fun kv => (kv.1.key, kv.2), PairOk kv := by
  induction T generalizing x with
  | nil => exact fun _ h => absurd h List.not_mem_nil
  | cons kv T ih =>
    intro p hp
    rcases List.mem_cons.mp hp with rfl | hp
    · exact ⟨kv.1.keyOk, hT.1.noNul⟩
    · exact ih hT.2 p hp

/-- The parse of a text runs over its pairs. -/
theorem Completes.parse {T : List (ChapKey × CStr)} (hT : y.CanSend T) {outgoing : Bool}
    {Q : Int → Parse → Prop}
    (h : Completes (parseItems env outgoing u (chapItems T)) Q
      (if outgoing then s else { s with textOut := [] })) :
    Completes (paramTextParse env (chapText T) outgoing u) Q s := by
  have hitems : textItems env (chapText T) = chapItems T := by
    rw [chapText, textItems_pairsText env hT.pairOk, chapItems, List.map_map]
    rfl
  have hprint : ¬textPrintOverruns (textTokens (chapText T)) = true := by
    rw [chapText, textPrintOverruns_pairsText hT.pairOk]
    exact Bool.false_ne_true
  rw [paramTextParse, if_neg hprint, hitems]
  cases outgoing with
  | true => exact h
  | false => exact h

/-- The parse of a text on its way out returns. -/
theorem Shows.parseOut (h : Shows rand s x) {T : List (ChapKey × CStr)} (hT : x.CanSend T) :
    ∃ s', paramTextParse env (chapText T) true u s = .ret 0 s' ∧ Shows rand s' (x.sendAll T) := by
  obtain ⟨rc, s', hrun, hrc, h'⟩ :=
    (Completes.parse env (u := u) hT (h.sendAll env hT)).returns
  rw [hrc] at hrun
  exact ⟨s', hrun, h'⟩

@[simp] theorem Side.text_sendAll (x : Side) (T : List (ChapKey × CStr)) :
    (x.sendAll T).text = x.text := by
  induction T generalizing x with
  | nil => rfl
  | cons kv T ih =>
    refine (ih _).trans ?_
    rw [Side.sent]
    split <;> rfl

/-- A side has sent its text. -/
def Side.flushed (x : Side) : Side := x.sendAll x.text

@[simp] theorem Side.text_flushed (x : Side) : x.flushed.text = x.text := x.text_sendAll x.text

/-- A side starts on the next text. -/
def Side.listening (x : Side) : Side := { x with text := [] }

theorem chapText_eq_nil {T : List (ChapKey × CStr)} : chapText T = [] ↔ T = [] := by
  cases T with
  | nil => exact ⟨fun _ => rfl, fun _ => rfl⟩
  | cons kv T =>
    refine ⟨fun h => ?_, fun h => absurd h (List.cons_ne_nil _ _)⟩
    change kv.1.key ++ 61 :: kv.2 ++ [0] ++ chapText T = [] at h
    simp at h

end Text

/-! ## A turn -/

namespace Setup

variable (e : Setup) {r : Role} {s : Parse} {x y x₀ : Side} {T : List (ChapKey × CStr)}

theorem turn_refused (h : Shows (e.rand r) s x) (hT : x₀.CanSend T) {rc : Int} (hrc : rc ≠ 0)
    (hin : ∀ s, Shows (e.rand r) s x.listening →
      Completes (parseItems (e.env r) false (e.users r) (chapItems T))
        (fun rc' s' => rc' = rc ∧ Shows (e.rand r) s' y) s) :
    Completes (e.turn r (chapText T)) (fun rc' s' => rc' = rc ∧ Shows (e.rand r) s' y) s := by
  have hlisten : Shows (e.rand r) { s with textOut := [] } x.listening :=
    ⟨h.params, h.id, h.challenge, h.rand, h.pos, h.result, rfl⟩
  refine Completes.bind (Completes.parse (e.env r) hT (hin _ hlisten)) fun rc' s₁ ⟨hrc', h₁⟩ => ?_
  rw [hrc', if_pos hrc]
  exact ⟨rfl, h₁⟩

theorem turn_taken (h : Shows (e.rand r) s x) (hT : x₀.CanSend T)
    (hin : ∀ s, Shows (e.rand r) s x.listening →
      Completes (parseItems (e.env r) false (e.users r) (chapItems T))
        (fun rc s' => rc = 0 ∧ Shows (e.rand r) s' y) s)
    (hout : y.CanSend y.text) :
    Completes (e.turn r (chapText T)) (fun rc s' => rc = 0 ∧ Shows (e.rand r) s' y.flushed) s := by
  have hlisten : Shows (e.rand r) { s with textOut := [] } x.listening :=
    ⟨h.params, h.id, h.challenge, h.rand, h.pos, h.result, rfl⟩
  refine Completes.bind (Completes.parse (e.env r) hT (hin _ hlisten)) fun rc s₁ ⟨hrc, h₁⟩ => ?_
  rw [hrc, if_neg (not_not.mpr rfl)]
  change Completes (if s₁.textOut = [] then return 0
    else paramTextParse (e.env r) s₁.textOut true (e.usersOut r)) _ s₁
  rw [h₁.text, Side.flushed]
  refine (wp_ite _ _ _).mpr ⟨fun hnil => ⟨rfl, ?_⟩, fun _ => ?_⟩
  · rw [chapText_eq_nil.mp hnil]
    exact h₁
  · exact Completes.parse (e.env r) hout (h₁.sendAll (e.env r) hout)

/-! ### Turns in the exchange -/

variable {text : Bytes} {p : Role → Parse} (n : Nat)

/-- A turn after which the exchange goes on. -/
theorem exchange_on (hp : Shows (e.rand r) (p r) x)
    (hturn : ∀ s, Shows (e.rand r) s x →
      Completes (e.turn r text) (fun rc s' => rc = 0 ∧ Shows (e.rand r) s' y.flushed) s)
    {kv : ChapKey × CStr} (hy : y.text = kv :: T) :
    ∃ s', Shows (e.rand r) s' y.flushed ∧ e.exchange (n + 1) r text p =
      e.exchange n r.other (chapText (kv :: T)) (Function.update p r s') := by
  obtain ⟨rc, s', hrun, hrc, h'⟩ := (hturn _ hp).returns
  have htext : s'.textOut = chapText (kv :: T) := by
    rw [h'.text, Side.text_flushed, hy]
  have hne : ¬chapText (kv :: T) = [] := fun hnil => List.cons_ne_nil _ _ (chapText_eq_nil.mp hnil)
  refine ⟨s', h', ?_⟩
  rw [exchange, hrun]
  dsimp only
  rw [hrc, if_neg (not_not.mpr rfl), htext, if_neg hne]

/-- A turn with which the exchange is done. -/
theorem exchange_done (hp : Shows (e.rand r) (p r) x)
    (hturn : ∀ s, Shows (e.rand r) s x →
      Completes (e.turn r text) (fun rc s' => rc = 0 ∧ Shows (e.rand r) s' y) s)
    (hy : y.text = []) :
    ∃ s', Shows (e.rand r) s' y ∧
      e.exchange (n + 1) r text p = (.done, Function.update p r s') := by
  obtain ⟨rc, s', hrun, hrc, h'⟩ := (hturn _ hp).returns
  refine ⟨s', h', ?_⟩
  rw [exchange, hrun]
  dsimp only
  rw [hrc, if_neg (not_not.mpr rfl), h'.text, hy]
  rfl

/-- A turn with which the exchange fails. -/
theorem exchange_failed (hp : Shows (e.rand r) (p r) x) {rc : Int} (hrc : rc ≠ 0)
    (hturn : ∀ s, Shows (e.rand r) s x →
      Completes (e.turn r text) (fun rc' s' => rc' = rc ∧ Shows (e.rand r) s' y) s) :
    ∃ s', Shows (e.rand r) s' y ∧
      e.exchange (n + 1) r text p = (.failed r rc, Function.update p r s') := by
  obtain ⟨rc', s', hrun, hrc', h'⟩ := (hturn _ hp).returns
  refine ⟨s', h', ?_⟩
  rw [exchange, hrun]
  dsimp only
  rw [hrc', if_pos hrc]

end Setup

end Ost.Param
