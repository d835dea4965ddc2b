import Ost.Param.Hex
import Ost.Param.Strings
import Ost.Prog.Safe

/-!
# What a text says about the authentication

The target keeps what has become of the authentication in its parameter `AuthResult`, which starts
as `No`.  A text moves it in three ways.  An offered `AuthMethod=None`, and an offered `CHAP_R` that
passes the comparison, set it to `Yes`.  A `CHAP_R` is an offer unless the target has put a response
of its own into a text and waits for the initiator's word on it, which a `CHAP_C` makes it do.  And
an initiator may offer `AuthResult` itself: the answer to the last such offer is committed when the
response goes out.

`Verdict` reads these three off the pairs of a text, and `Stands` says that the parameters, halfway
through a text, are as the pairs so far have it.
-/

namespace Ost.Param

open Ost.Iscsi Ost.Util Ost.Prog

/-! ## The verdict of a text -/

/-- What the pairs of a text have said about the authentication. -/
structure Verdict where
  /-- A `CHAP_R` will be taken as an answer. -/
  owed : Bool
  /-- `AuthMethod=None` or a `CHAP_R` was offered. -/
  passed : Bool
  /-- The last `AuthResult` that was offered. -/
  offered : Option CStr
deriving DecidableEq, Repr

namespace Verdict

/-- One more item is read. -/
def read (x : Verdict) : Item → Verdict
  | .pair key (some v) =>
    if key = cstr "AuthMethod" then { x with passed := x.passed || v = cstr "None" }
    else if key = cstr "CHAP_C" then { x with owed := true }
    else if key = cstr "CHAP_R" then
      if x.owed then { x with owed := false } else { x with passed := true }
    else if key = cstr "AuthResult" then { x with offered := some v }
    else x
  | .pair _ none | .tooLong _ => x

/-- The valid values of `AuthResult`. -/
def results : CStr := cstr "Yes,No,Fail"

/-- The value of `AuthResult` when a text with this verdict has been answered, and the value before
was `v`. -/
def result (x : Verdict) (v : CStr) : CStr :=
  match x.offered.filter (· ≠ inquiry) with
  | some o => listAnswer results o
  | none => if x.passed then cstr "Yes" else v

end Verdict

/-! ## The parameters of the target -/

/-- A string without a terminator inside. -/
abbrev NoNul (v : CStr) : Prop := 0 ∉ v

theorem closed_noNul : Closed NoNul where
  empty := by decide
  yes := by decide
  no := by decide
  fail := by decide
  reject := by decide
  piece _ hl _ ho := fun h0 => hl ((mem_commaFrom ho h0).resolve_left List.not_mem_nil)
  decimal x _ _ := noNul_decimal x
  hex data _ := noNul_hexDataToText data

/-- The signature that the target has registered for a key. -/
def sigOf (key : CStr) : Option Sig := (tableSigs targetParamTable).find? fun σ => σ.key == key

/-- A key that the target declares. -/
def declares (key : CStr) : Bool := (sigOf key).any fun σ => σ.type.declared

/-- A parameter of the target between two texts.  The target offers declarations only. -/
structure IscsiParameter.Proper (p : IscsiParameter) : Prop where
  registered : sigOf p.key = some p.sig
  strings : p.All NoNul
  valued : p.valueL ≠ []
  passive : p.type.declared = false → p.txOffer = false ∧ p.rxAnswer = false

/-- The parameters of the target between two texts. -/
structure Proper (params : Params) : Prop where
  known : ∀ K, (paramGet params K).isSome = (sigOf K).isSome
  each : ∀ K p, paramGet params K = some p → p.Proper

/-- One parameter of the target moves. -/
theorem Proper.modify {params : Params} {key : CStr} {f : IscsiParameter → IscsiParameter}
    (h : Proper params) (hsig : ∀ p, (f p).sig = p.sig)
    (hf : ∀ p, p.Proper → (f p).Proper) : Proper (paramModify params key f) := by
  have hkey (p : IscsiParameter) : (f p).key = p.key := congrArg Sig.key (hsig p)
  refine ⟨fun K => ?_, fun K p hp => ?_⟩
  · rw [← h.known K]
    by_cases hK : K = key
    · rw [hK, paramGet_modify_self hkey, Option.isSome_map]
    · rw [paramGet_modify_of_ne hkey hK]
  · by_cases hK : K = key
    · rw [hK, paramGet_modify_self hkey] at hp
      obtain ⟨q, hq, rfl⟩ := Option.map_eq_some_iff.mp hp
      exact hf q (h.each key q hq)
    · rw [paramGet_modify_of_ne hkey hK] at hp
      exact h.each K p hp

/-- The parameters of a new connection. -/
theorem proper_targetParams (heap : Bytes) : Proper (targetParams heap) := by
  refine ⟨fun K => ?_, fun K p hp => ?_⟩
  · have hsig := paramGet_sig (targetParams heap) K
    rw [targetParams_sigs] at hsig
    rw [sigOf, ← hsig, Option.isSome_map]
  · obtain ⟨⟨t, k, d, a⟩, hmem, rfl⟩ := List.mem_map.mp (List.mem_of_find?_eq_some hp)
    have htable : ∀ e ∈ targetParamTable, NoNul (cstr e.2.1) ∧ NoNul (cstr e.2.2.1) ∧
        NoNul (cstr e.2.2.2) := by decide
    obtain ⟨-, hd, ha⟩ := htable _ hmem
    have hnil : NoNul [] := List.not_mem_nil
    refine ⟨?_, ⟨ha, fun w hw => List.mem_singleton.mp hw ▸ hd, hnil, hnil, hnil, hnil, hnil⟩,
      List.cons_ne_nil _ _, fun _ => ⟨rfl, rfl⟩⟩
    have hsig := paramGet_sig (targetParams heap) K
    rw [targetParams_sigs, hp] at hsig
    exact (congrArg sigOf (paramGet_key hp)).trans hsig.symm

/-- A parameter in the middle of a text that says `x`.  `AuthResult` was `v` before it, and the key
`c` is being offered. -/
structure Fair (v : CStr) (x : Verdict) (c : Option CStr) (p : IscsiParameter) : Prop
    extends p.Proper where
  current : p.type.declared = false → p.key ∈ c → p.rxOffer = true
  result : p.key = cstr "AuthResult" →
    p.valueL.head? = some (if x.passed then cstr "Yes" else v) ∧
      ∀ o ∈ x.offered, p.rxOffer = true ∧ p.offerRx.str = o
  response : p.key = cstr "CHAP_R" → p.txOffer = x.owed

/-- The last `AuthResult` among some pairs. -/
def lastResult (T : List (CStr × CStr)) : Option CStr :=
  T.foldl (fun r kv => if kv.1 = cstr "AuthResult" then some kv.2 else r) none

theorem lastResult_concat (T : List (CStr × CStr)) (kv : CStr × CStr) :
    lastResult (T ++ [kv]) = if kv.1 = cstr "AuthResult" then some kv.2 else lastResult T := by
  rw [lastResult, List.foldl_append]
  rfl

/-- The last `AuthResult`, when there was one before. -/
theorem foldl_lastResult (T : List (CStr × CStr)) (i : Option CStr) :
    T.foldl (fun r kv => if kv.1 = cstr "AuthResult" then some kv.2 else r) i =
      (lastResult T).or i := by
  induction T generalizing i with
  | nil => rfl
  | cons kv T ih =>
    rw [lastResult, List.foldl_cons, List.foldl_cons, ih, ih]
    by_cases hkey : kv.1 = cstr "AuthResult"
    · simp only [if_pos hkey, Option.or_assoc, Option.some_or]
    · simp only [if_neg hkey, Option.or_none]

theorem lastResult_cons (kv : CStr × CStr) (T : List (CStr × CStr)) (r : CStr) :
    (lastResult (kv :: T)).getD r =
      (lastResult T).getD (if kv.1 = cstr "AuthResult" then kv.2 else r) := by
  rw [lastResult, List.foldl_cons, foldl_lastResult]
  by_cases hkey : kv.1 = cstr "AuthResult"
  · rw [if_pos hkey, if_pos hkey]
    cases lastResult T <;> rfl
  · rw [if_neg hkey, if_neg hkey, Option.or_none]

/-- Without a last `AuthResult` there is none. -/
theorem key_ne_of_lastResult {T : List (CStr × CStr)} {kv : CStr × CStr} (h : lastResult T = none)
    (hkv : kv ∈ T) : kv.1 ≠ cstr "AuthResult" := by
  induction T with
  | nil => exact absurd hkv List.not_mem_nil
  | cons kv' T ih =>
    rw [lastResult, List.foldl_cons, foldl_lastResult, Option.or_eq_none_iff] at h
    rcases List.mem_cons.mp hkv with rfl | hkv
    · intro hkey
      rw [if_pos hkey] at h
      exact absurd h.2 (Option.some_ne_none _)
    · exact ih h.1 hkv

/-- The text that goes out answers the offers so far. -/
structure Told (x : Verdict) (s : Parse) (T : List (CStr × CStr)) : Prop where
  ok : ∀ kv ∈ T, PairOk kv
  answers : ∀ kv ∈ T, ∀ p, s.par kv.1 = some p → p.type.declared = false → p.rxOffer = true
  silent : x.offered = none → lastResult T = none
  result : ∀ o ∈ x.offered, o ≠ inquiry → lastResult T = some (listAnswer Verdict.results o)

/-- The state of a parse in the middle of a text that says `x`. -/
structure Stands (v : CStr) (x : Verdict) (c : Option CStr) (s : Parse) : Prop where
  known : ∀ K, (s.par K).isSome = (sigOf K).isSome
  fair : ∀ K p, s.par K = some p → Fair v x c p
  text : ∃ T, s.textOut = pairsText T ∧ Told x s T

/-- The names and secrets that are sent are strings. -/
structure Users.NoNul (u : Users) : Prop where
  initiatorUser : ∀ v ∈ u.initiatorUser, Param.NoNul v
  targetUser : Param.NoNul u.targetUser

/-- The names that the target sends are strings. -/
structure Env.NoNul (env : Env) : Prop where
  hostname : Param.NoNul env.hostname
  targetAddress : Param.NoNul env.targetAddress

variable (env : Env) {v w : CStr} {x : Verdict} {c : Option CStr} {s : Parse} {p : IscsiParameter}
  {u : Users} {K : CStr}

/-! ## Keys and types -/

/-- The type that a key has. -/
theorem IscsiParameter.Proper.type_eq (hp : p.Proper) {σ : Sig} (hkey : p.key = K)
    (hσ : sigOf K = some σ) : p.type = σ.type := by
  have hsig := hp.registered
  rw [hkey, hσ] at hsig
  exact (congrArg Sig.type (Option.some.inj hsig)).symm

/-- The valid values that a key has. -/
theorem IscsiParameter.Proper.valid_eq (hp : p.Proper) {σ : Sig} (hkey : p.key = K)
    (hσ : sigOf K = some σ) : p.valid = σ.valid := by
  have hsig := hp.registered
  rw [hkey, hσ] at hsig
  exact (congrArg Sig.valid (Option.some.inj hsig)).symm

/-- Whether a parameter is declared. -/
theorem IscsiParameter.Proper.declared_eq (hp : p.Proper) : p.type.declared = declares p.key := by
  rw [declares, hp.registered]
  rfl

/-- The result is negotiated from a list. -/
theorem sigOf_authResult :
    sigOf (cstr "AuthResult") = some ⟨cstr "AuthResult", .list, Verdict.results⟩ := by decide

/-- A change that keeps the signature keeps the type. -/
theorem type_of_sig {f : IscsiParameter → IscsiParameter} (hf : ∀ p, (f p).sig = p.sig)
    (p : IscsiParameter) : (f p).type = p.type := congrArg Sig.type (hf p)

/-- A declaration can take any flags. -/
theorem IscsiParameter.Proper.of_declared {q : IscsiParameter} (hp : p.Proper)
    (hd : p.type.declared = true) (hsig : q.sig = p.sig) (hq : q.All Param.NoNul)
    (hvalued : q.valueL ≠ []) : q.Proper := by
  have hkey : q.key = p.key := congrArg Sig.key hsig
  have htype : q.type = p.type := congrArg Sig.type hsig
  refine ⟨?_, hq, hvalued, fun h => ?_⟩
  · rw [hkey, hsig]
    exact hp.registered
  · rw [htype, hd] at h
    exact absurd h (by decide)

/-- A declaration can take any flags, but for `CHAP_R` they say whether a response is owed. -/
theorem Fair.of_declared {q : IscsiParameter} {x' : Verdict} {c' : Option CStr} (hp : Fair v x c p)
    (hd : p.type.declared = true) (hsig : q.sig = p.sig) (hq : q.All Param.NoNul)
    (hvalued : q.valueL ≠ []) (hresponse : p.key = cstr "CHAP_R" → q.txOffer = x'.owed) :
    Fair v x' c' q := by
  have hkey : q.key = p.key := congrArg Sig.key hsig
  have htype : q.type = p.type := congrArg Sig.type hsig
  refine ⟨hp.toProper.of_declared hd hsig hq hvalued, fun h => ?_, fun h => ?_, fun h => ?_⟩
  · rw [htype, hd] at h
    exact absurd h (by decide)
  · have hlist := hp.type_eq (hkey.symm.trans h) sigOf_authResult
    rw [hlist] at hd
    exact absurd hd (by decide)
  · exact hresponse (hkey.symm.trans h)

/-! ## The primitives -/

/-- A program that goes on with what the text says. -/
abbrev Steady {α : Type} (v : CStr) (x : Verdict) (c : Option CStr) (P : α → Prop)
    (y : Prog Halt Parse α) : Prop := Safe (Stands v x c) P y

/-- The parameters are the same. -/
theorem Told.congr {s' : Parse} {T : List (CStr × CStr)} (h : Told x s T)
    (hparams : s'.params = s.params) : Told x s' T :=
  { h with answers := fun kv hkv p hp => h.answers kv hkv p (by rwa [Parse.par, ← hparams]) }

/-- A change outside the parameters and the text. -/
theorem Stands.congr (h : Stands v x c s) {s' : Parse} (hparams : s'.params = s.params)
    (htext : s'.textOut = s.textOut) : Stands v x c s' := by
  have hpar (K : CStr) : s'.par K = s.par K := congrArg (paramGet · K) hparams
  obtain ⟨T, hT, htold⟩ := h.text
  exact ⟨fun K => hpar K ▸ h.known K, fun K p hp => h.fair K p (hpar K ▸ hp), T, htext.trans hT,
    htold.congr hparams⟩

/-- One parameter moves, and what the text says may move with it. -/
theorem Stands.set {key : CStr} {f : IscsiParameter → IscsiParameter} {x' : Verdict}
    {c' : Option CStr} (h : Stands v x c s) (hsig : ∀ p, (f p).sig = p.sig)
    (hf : ∀ p, p.key = key → Fair v x c p → Fair v x' c' (f p) ∧
      (p.type.declared = false → p.rxOffer = true → (f p).rxOffer = true))
    (hothers : ∀ p, p.key ≠ key → Fair v x c p → Fair v x' c' p)
    (hoffered : x'.offered = x.offered) : Stands v x' c' (s.set key f) := by
  have hkey := key_of_sig hsig
  have hself : (s.set key f).par key = (s.par key).map f := paramGet_modify_self hkey
  have hother (K : CStr) (hne : K ≠ key) : (s.set key f).par K = s.par K :=
    paramGet_modify_of_ne hkey hne
  obtain ⟨T, hT, htold⟩ := h.text
  refine ⟨fun K => ?_, fun K q hq => ?_, T, hT, { htold with
    answers := fun kv hkv q hq hd => ?_, silent := ?_, result := ?_ }⟩
  · rw [← h.known K]
    by_cases hK : K = key
    · rw [hK, hself, Option.isSome_map]
    · rw [hother K hK]
  · by_cases hK : K = key
    · rw [hK, hself] at hq
      obtain ⟨p, hp, rfl⟩ := Option.map_eq_some_iff.mp hq
      exact (hf p (paramGet_key hp) (h.fair key p hp)).1
    · rw [hother K hK] at hq
      exact hothers q (fun heq => hK ((paramGet_key hq).symm.trans heq)) (h.fair K q hq)
  · by_cases hK : kv.1 = key
    · rw [hK, hself] at hq
      obtain ⟨p, hp, rfl⟩ := Option.map_eq_some_iff.mp hq
      rw [type_of_sig hsig] at hd
      exact (hf p (paramGet_key hp) (h.fair key p hp)).2 hd
        (htold.answers kv hkv p (hK ▸ hp) hd)
    · rw [hother _ hK] at hq
      exact htold.answers kv hkv q hq hd
  · rw [hoffered]
    exact htold.silent
  · rw [hoffered]
    exact htold.result

section Primitives

variable {key : CStr} {f : IscsiParameter → IscsiParameter}

/-- A declaration is set. -/
theorem Stands.setDeclared (hs : Stands v x c s) (hd : declares key = true)
    (hsig : ∀ p, (f p).sig = p.sig) (hall : ∀ p, p.All NoNul → (f p).All NoNul)
    (hvalued : ∀ p, p.valueL ≠ [] → (f p).valueL ≠ [])
    (hresponse : key = cstr "CHAP_R" → ∀ p, (f p).txOffer = p.txOffer) :
    Stands v x c (s.set key f) := by
  refine hs.set hsig (fun p hkey hp => ?_) (fun _ _ hp => hp) rfl
  have htype : p.type.declared = true := by rw [hp.declared_eq, hkey, hd]
  refine ⟨hp.of_declared htype (hsig p) (hall p hp.strings) (hvalued p hp.valued) fun h => ?_,
    fun h => ?_⟩
  · rw [hresponse (hkey.symm.trans h) p, hp.response h]
  · rw [htype] at h
    exact absurd h (by decide)

theorem steady_setDeclared (hd : declares key = true) (hsig : ∀ p, (f p).sig = p.sig)
    (hall : ∀ p, p.All NoNul → (f p).All NoNul) (hvalued : ∀ p, p.valueL ≠ [] → (f p).valueL ≠ [])
    (hresponse : key = cstr "CHAP_R" → ∀ p, (f p).txOffer = p.txOffer) :
    Steady v x c (fun _ => True) (setParam key f) :=
  .modify fun _ hs => hs.setDeclared hd hsig hall hvalued hresponse

/-- A field is set that no flag depends on. -/
theorem steady_setAside (hsig : ∀ p, (f p).sig = p.sig) (hall : ∀ p, p.All NoNul → (f p).All NoNul)
    (haside : ∀ p, (f p).valueL = p.valueL ∧ (f p).txOffer = p.txOffer ∧
      (f p).rxOffer = p.rxOffer ∧ (f p).rxAnswer = p.rxAnswer ∧ (f p).offerRx = p.offerRx) :
    Steady v x c (fun _ => True) (setParam key f) := by
  refine .modify fun s hs => Stands.set hs hsig (fun p _ hp => ?_) (fun _ _ hp => hp) rfl
  obtain ⟨hvalue, htx, hrx, hanswer, hoffer⟩ := haside p
  have hkey := key_of_sig hsig p
  have htype := type_of_sig hsig p
  refine ⟨⟨⟨?_, hall p hp.strings, ?_, ?_⟩, ?_, ?_, ?_⟩, ?_⟩
  · rw [hkey, hsig]
    exact hp.registered
  · rw [hvalue]
    exact hp.valued
  · rw [htype, htx, hanswer]
    exact hp.passive
  · rw [htype, hkey, hrx]
    exact hp.current
  · rw [hkey, hvalue, hrx, hoffer]
    exact hp.result
  · rw [hkey, htx]
    exact hp.response
  · rw [hrx]
    exact fun _ => id

/-- A pair is added to the text. -/
theorem Told.concat {T : List (CStr × CStr)} (h : Told x s T) (hkey : KeyOk key) (hw : NoNul w)
    (hne : key ≠ cstr "AuthResult")
    (hcur : ∀ p, s.par key = some p → p.type.declared = false → p.rxOffer = true) :
    Told x s (T ++ [(key, w)]) := by
  have hlast : lastResult (T ++ [(key, w)]) = lastResult T :=
    (lastResult_concat T _).trans (if_neg hne)
  refine ⟨fun kv hkv => ?_, fun kv hkv => ?_, fun h' => hlast.trans (h.silent h'),
    fun o ho hq => hlast.trans (h.result o ho hq)⟩
  · rcases List.mem_append.mp hkv with hkv | hkv
    · exact h.ok kv hkv
    · exact List.mem_singleton.mp hkv ▸ ⟨hkey, hw⟩
  · rcases List.mem_append.mp hkv with hkv | hkv
    · exact h.answers kv hkv
    · exact List.mem_singleton.mp hkv ▸ hcur

/-- A pair that fits the text. -/
theorem paramTextAdd_pairsText {T : List (CStr × CStr)} {text : Bytes}
    (h : paramTextAdd key w (pairsText T) = some text) : text = pairsText (T ++ [(key, w)]) := by
  unfold paramTextAdd at h
  split at h
  · exact absurd h (by simp)
  · rw [← Option.some.inj h, pairsText_append]
    simp [pairsText]

/-- A pair is added that declares, or that answers what is being offered. -/
theorem Stands.add {text : Bytes} (hs : Stands v x c s) (hkey : KeyOk key) (hw : NoNul w)
    (hne : key ≠ cstr "AuthResult") (hcur : declares key = true ∨ key ∈ c)
    (h : paramTextAdd key w s.textOut = some text) : Stands v x c { s with textOut := text } := by
  obtain ⟨T, hT, htold⟩ := hs.text
  rw [hT] at h
  refine ⟨hs.known, hs.fair, T ++ [(key, w)], paramTextAdd_pairsText h, ?_⟩
  refine Told.congr (s := s) ?_ rfl
  refine htold.concat hkey hw hne fun p hp hd => ?_
  have hfair := hs.fair key p hp
  rw [hfair.declared_eq, paramGet_key hp] at hd
  rcases hcur with hcur | hcur
  · exact absurd (hd.symm.trans hcur) (by decide)
  · exact hfair.current (by rw [hfair.declared_eq, paramGet_key hp, hd]) (paramGet_key hp ▸ hcur)

theorem steady_textAdd (hkey : KeyOk key) (hw : NoNul w) (hne : key ≠ cstr "AuthResult")
    (hcur : declares key = true ∨ key ∈ c) : Steady v x c (fun _ => True) (textAdd key w) := by
  refine ⟨fun s hs => (wp_bind _ _).mpr (wp_get.mpr ?_)⟩
  cases h : paramTextAdd key w s.textOut with
  | none => exact ⟨trivial, hs⟩
  | some text => exact ⟨trivial, hs.add hkey hw hne hcur h⟩

theorem steady_logEvent (e : AuthEvent) : Steady v x c (fun _ => True) (logEvent e) :=
  .modify fun _ hs => hs.congr rfl rfl

theorem steady_getCookie : Steady v x c (fun _ => True) getCookie where
  run s hs := by
    rw [wp, getCookie_eq]
    exact ⟨trivial, hs.congr rfl rfl⟩

theorem steady_setCookie (k : Cookie) : Steady v x c (fun _ => True) (setCookie k) :=
  .modify fun _ hs => hs.congr rfl rfl

theorem steady_genRandomData (length : Nat) : Steady v x c (fun _ => True) (genRandomData length) :=
  .bind .get fun _ _ => .bind (.modify fun _ hs => hs.congr rfl rfl) fun _ _ => .pure trivial

theorem steady_found (key : CStr) : Steady v x c (fun _ => True) (found key) :=
  .gets fun _ _ => trivial

theorem steady_initiatorUser (hu : u.NoNul) : Steady v x c NoNul (initiatorUser u) := by
  refine .gets fun s hs => ?_
  cases h : u.initiatorUser with
  | some w => exact hu.initiatorUser w h
  | none =>
    cases hw : paramVal s.params (cstr "CHAP_N") with
    | none => exact (by decide : NoNul [])
    | some w =>
      obtain ⟨p, hp, hw⟩ := Option.bind_eq_some_iff.mp hw
      exact (hs.fair _ p hp).strings.valueL w (List.mem_of_getElem? hw)

end Primitives

end Ost.Param
