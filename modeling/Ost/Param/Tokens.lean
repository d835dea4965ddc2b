import Ost.Param.Room
import Ost.Param.Declarations
import Mathlib.Logic.Relation

/-!
# Tokens without a delimiter

The loop of `param_text_parse` takes the text token by token.  A token without `=` is reported, but
the variables `key` and `value` are as the token before it left them, and the rest of the body is
done for that pair once more.  A key that is too long for its buffer is copied to one that is too
short by one, and a value of 4096 bytes passes the test of its length and loses its terminator.
-/

namespace Ost.Param

open Ost.Iscsi Ost.Util Ost.Prog

/-! ## The loop, token by token -/

/-- What the body works on after a token, and the variables `key` and `value` then. -/
def readToken (key : CStr) (value : Option CStr) (t : CStr) : Item × CStr × Option CStr :=
  match splitEq t with
  | none => (.pair key value, key, value)
  | some (k, v) =>
    if k.length ≥ iscsiParamKeyLen - 1 then (.tooLong k, key, value)
    else (.pair k (some v), k, some v)

theorem readToken_none {key t : CStr} {value : Option CStr} (h : splitEq t = none) :
    readToken key value t = (.pair key value, key, value) := by
  rw [readToken, h]

theorem readToken_short {key t k v : CStr} {value : Option CStr} (h : splitEq t = some (k, v))
    (hk : k.length < iscsiParamKeyLen - 1) :
    readToken key value t = (.pair k (some v), k, some v) := by
  rw [readToken, h]
  exact if_neg (Nat.not_le.mpr hk)

theorem readToken_long {key t k v : CStr} {value : Option CStr} (h : splitEq t = some (k, v))
    (hk : ¬k.length < iscsiParamKeyLen - 1) :
    readToken key value t = (.tooLong k, key, value) := by
  rw [readToken, h]
  exact if_pos (Nat.not_lt.mp hk)

theorem itemsFrom_cons (key : CStr) (value : Option CStr) (t : CStr) (ts : List CStr) :
    itemsFrom key value (t :: ts) = (readToken key value t).1 ::
      itemsFrom (readToken key value t).2.1 (readToken key value t).2.2 ts := by
  rw [itemsFrom]
  cases h : splitEq t with
  | none => rw [readToken_none h]
  | some kv =>
    dsimp only
    by_cases hk : kv.1.length < iscsiParamKeyLen - 1
    · rw [readToken_short h hk, if_neg (Nat.not_le.mpr hk)]
    · rw [readToken_long h hk, if_pos (Nat.not_lt.mp hk)]

/-- A place in the loop: the variables, and the tokens that are still to be taken. -/
structure Place where
  key : CStr
  value : Option CStr
  tokens : List CStr
  state : Parse

variable (env : Env) (u : Users)

namespace Place

/-- The next token is taken, and the loop goes on. -/
inductive Next : Place → Place → Prop
  | taken {key t : CStr} {value : Option CStr} {ts : List CStr} {s s' : Parse}
      (h : parseItem env false u (readToken key value t).1 s = .ret none s') :
      Next ⟨key, value, t :: ts, s⟩
        ⟨(readToken key value t).2.1, (readToken key value t).2.2, ts, s'⟩

/-- The loop begins. -/
def start (text : Bytes) (s : Parse) : Place :=
  ⟨env.staleKey, none, textTokens text, { s with textOut := [] }⟩

/-- The rest of the loop. -/
def rest (c : Place) : Outcome Halt Parse Int :=
  parseItems env false u (itemsFrom c.key c.value c.tokens) c.state

end Place

/-- The loop comes to a place when it parses a text. -/
abbrev Comes (text : Bytes) (s : Parse) (c : Place) : Prop :=
  Relation.ReflTransGen (Place.Next env u) (Place.start env text s) c

variable {env u} {text : Bytes} {s : Parse} {c c' : Place}

theorem Place.Next.rest (h : c.Next env u c') : c.rest env u = c'.rest env u := by
  obtain ⟨hitem⟩ := h
  rw [Place.rest, itemsFrom_cons, parseItems, bind_apply, hitem]
  rfl

theorem Comes.rest (h : Comes env u text s c)
    (hprint : textPrintOverruns (textTokens text) = false) :
    paramTextParse env text false u s = c.rest env u := by
  induction h with
  | refl =>
    unfold paramTextParse
    rw [hprint]
    rfl
  | tail _ hnext ih => rw [ih, hnext.rest]

/-- What is stored fits. -/
theorem Place.Next.roomy (hu : u.Roomy) (h : c.Next env u c') (hc : c.state.Roomy) :
    c'.state.Roomy := by
  obtain ⟨hitem⟩ := h
  generalize (readToken _ _ _).1 = it at hitem
  cases it with
  | pair key value =>
    exact ((parseItem_pair_returnsIff env hu hc key value).toEnsures.of_ret hitem).2
  | tooLong k => cases hitem

theorem Comes.roomy (hu : u.Roomy) (hs : s.Roomy) (h : Comes env u text s c) : c.state.Roomy := by
  induction h with
  | refl => exact { hs with textOut := Nat.zero_le _ }
  | tail _ hnext ih => exact hnext.roomy hu ih

/-! ## Repeating a pair -/

/-- No parameter is changed and no flag of one, and neither is the text that goes out. -/
structure Unchanged (s s' : Parse) : Prop where
  par : ∀ K, s'.par K = s.par K
  textOut : s'.textOut = s.textOut

/-- The pair has been received before, with the same result: it was settled, or it was answered and
the text has no room for the answer any more. -/
def IscsiParameter.Idle (p : IscsiParameter) (v : CStr) (text : Bytes) : Prop :=
  p.txOffer = false ∧ p.offered v = p ∧
    if v ≠ inquiry ∧ p.type.declared = true then p.settled v = p
    else ∀ a, answerOf p v = some a → p.answerTx = a ∧ paramTextAdd p.key a text = none

/-- The pair of the variables can be parsed again without an effect. -/
def Repeatable (key : CStr) (value : Option CStr) (s : Parse) : Prop :=
  match s.par key with
  | none => paramTextAdd key (cstr "NotUnderstood") s.textOut = none
  | some p => ∃ v, value = some v ∧ v.length ≠ iscsiParamMaxLen ∧
      (v.length > iscsiParamMaxLen ∨ key ∉ authKeys ∧ p.Idle v s.textOut)

theorem paramTextAdd_ne {key a : CStr} {text text' : Bytes}
    (h : paramTextAdd key a text = some text') : text' ≠ text := by
  unfold paramTextAdd at h
  split at h
  · exact absurd h (by simp)
  · rintro rfl
    have := congrArg List.length (Option.some.inj h)
    simp at this

section Pairs

variable {p : IscsiParameter} {key v : CStr} {value : Option CStr}

theorem txOffer_negotiateStep (outgoing : Bool) :
    (p.negotiateStep outgoing).1.txOffer = p.txOffer := by
  unfold IscsiParameter.negotiateStep IscsiParameter.settled
  split
  · rfl
  · rfl
  · dsimp only
    split <;> rfl

/-- An offer that has been received before. -/
theorem offered_eq_iff : p.offered v = p ↔ p.rxOffer = true ∧ p.offerRx.strcpy v = p.offerRx := by
  constructor
  · intro h
    exact ⟨(congrArg IscsiParameter.rxOffer h).symm, congrArg IscsiParameter.offerRx h⟩
  · rintro ⟨h₁, h₂⟩
    rw [IscsiParameter.offered, h₂, ← h₁]

/-- An offer that is settled as it was has been received before. -/
theorem settled_offered_eq_iff :
    (p.offered v).settled v = p ↔ p.offered v = p ∧ p.settled v = p := by
  have hoffered : ((p.offered v).settled v).offerRx = (p.offered v).offerRx ∧
      ((p.offered v).settled v).rxOffer = true := by
    unfold IscsiParameter.settled
    split <;> exact ⟨rfl, rfl⟩
  constructor
  · intro h
    rw [h] at hoffered
    have hsame : p.offered v = p := offered_eq_iff.mpr ⟨hoffered.2, hoffered.1.symm⟩
    exact ⟨hsame, by rwa [hsame] at h⟩
  · rintro ⟨hsame, h⟩
    rw [hsame, h]

/-- An offer that is answered as it was has been received before. -/
theorem replied_eq_iff {a : CStr} : p.replied v a = p ↔ p.offered v = p ∧ p.answerTx = a := by
  constructor
  · intro h
    have hsame : p.offered v = p := offered_eq_iff.mpr
      ⟨(congrArg IscsiParameter.rxOffer h).symm, congrArg IscsiParameter.offerRx h⟩
    exact ⟨hsame, (congrArg IscsiParameter.answerTx h).symm⟩
  · rintro ⟨hsame, rfl⟩
    unfold IscsiParameter.replied
    rw [hsame]

/-- When a pair that comes in changes nothing. -/
theorem idle_iff {text : Bytes} : (p.receiveStep v).1 = p ∧
    (textWith p.key (p.reply v) text).getD text = text ↔ p.Idle v text := by
  unfold IscsiParameter.Idle
  cases htx : p.txOffer with
  | true =>
    refine iff_of_false (fun h => ?_) (by simp)
    have hflag := congrArg IscsiParameter.txOffer h.1
    rw [IscsiParameter.receiveStep, htx, if_pos rfl, txOffer_negotiateStep] at hflag
    exact absurd hflag (by simp [IscsiParameter.answered])
  | false =>
    by_cases hd : v ≠ inquiry ∧ p.type.declared = true
    · rw [IscsiParameter.receiveStep_declaration hd.2 htx hd.1, settled_offered_eq_iff, if_pos hd,
        IscsiParameter.reply, htx, if_neg Bool.false_ne_true, if_pos hd]
      simp [textWith]
    · rw [IscsiParameter.receiveStep, IscsiParameter.reply, htx, if_neg Bool.false_ne_true,
        if_neg Bool.false_ne_true, if_neg hd, if_neg hd, if_neg hd]
      cases ha : answerOf (p.offered v) v with
      | none =>
        have hnone (hsame : p.offered v = p) : answerOf p v = none := by rw [← hsame, ha]
        refine ⟨fun h => ⟨rfl, h.1, fun a h' => ?_⟩, fun h => ⟨h.2.1, rfl⟩⟩
        rw [hnone h.1] at h'
        exact absurd h' (by simp)
      | some a =>
        have hsome (hsame : p.offered v = p) : answerOf p v = some a := by rw [← hsame, ha]
        dsimp only
        rw [replied_eq_iff, textWith]
        constructor
        · rintro ⟨⟨hsame, hans⟩, htext⟩
          refine ⟨rfl, hsame, fun b hb => ?_⟩
          obtain rfl := Option.some.inj ((hsome hsame).symm.trans hb)
          refine ⟨hans, ?_⟩
          cases hadd : paramTextAdd p.key a text with
          | none => rfl
          | some text' =>
            rw [hadd] at htext
            exact absurd htext (paramTextAdd_ne hadd)
        · rintro ⟨-, hsame, h⟩
          obtain ⟨hans, htext⟩ := h a (hsome hsame)
          exact ⟨⟨hsame, hans⟩, by rw [htext]; rfl⟩

/-! ### The pair of the variables -/

/-- A value that is longer than its field is refused. -/
theorem parseItem_refused (hp : s.par key = some p) (hlong : iscsiParamMaxLen < v.length) :
    ensures (parseItem env false u (.pair key (some v))) (fun _ s' => Unchanged s s') s := by
  refine ensures.bind (P := fun _ s' => s'.par key = some p ∧ Unchanged s s')
    ⟨hp, fun _ => rfl, rfl⟩ fun _ s₁ ⟨hp₁, hsame⟩ => ?_
  rw [ensures, wp_bind, wp_get, show paramGet s₁.params key = some p from hp₁]
  dsimp only
  rw [if_pos hlong]
  exact hsame

/-- A pair that can be repeated changes nothing. -/
theorem Repeatable.unchanged (h : Repeatable key value s) :
    ensures (parseItem env false u (.pair key value)) (fun _ s' => Unchanged s s') s := by
  unfold Repeatable at h
  cases hp : s.par key with
  | none =>
    rw [hp] at h
    refine (parseItem_unknown env hp).mono fun _ s' ⟨hpar, hout⟩ => ⟨hpar, ?_⟩
    rw [h] at hout
    exact hout.2
  | some p =>
    rw [hp] at h
    obtain ⟨v, rfl, hne, hlong | ⟨hplain, hidle⟩⟩ := h
    · exact parseItem_refused hp hlong
    · rcases Nat.lt_or_gt_of_ne hne with hshort | hlong
      · obtain ⟨hstep, htext⟩ := idle_iff.mpr hidle
        refine wp_mono (wp_and (completes_parseItem_in env (u := u) hplain hp hshort)
          (ensures_forall fun K => ensures_forall fun (hne : K ≠ key) =>
            parseItem_plain_ne env (u := u) hplain hne (some v) s)) (fun _ s' h => ?_)
          fun _ _ _ => trivial
        obtain ⟨⟨hpar, hout⟩, hothers⟩ := h
        refine ⟨fun K => ?_, ?_⟩
        · by_cases hK : K = key
          · rw [hK, hp, ← paramGet_key hp, hpar, hstep]
          · exact hothers K hK
        · cases htw : textWith p.key (p.reply v) s.textOut with
          | none =>
            rw [htw] at hout
            exact hout.2
          | some text =>
            rw [htw] at hout htext
            exact hout.2.trans htext
      · exact parseItem_refused hp hlong

/-- A pair that changes nothing can be repeated. -/
theorem repeatable_of_unchanged {o : Option Int} {s' : Parse} (hu : u.Roomy) (hs : s.Roomy)
    (hplain : s.par key = none ∨ key ∉ authKeys)
    (hret : parseItem env false u (.pair key value) s = .ret o s') (h : Unchanged s s') :
    Repeatable key value s := by
  unfold Repeatable
  cases hp : s.par key with
  | none =>
    obtain ⟨-, hout⟩ := (parseItem_unknown env hp).of_ret hret
    cases hadd : paramTextAdd key (cstr "NotUnderstood") s.textOut with
    | none => rfl
    | some text =>
      rw [hadd] at hout
      exact absurd (hout.2.symm.trans h.textOut) (paramTextAdd_ne hadd)
  | some p =>
    have hsome : s.par key ≠ none := fun h => Option.some_ne_none p (hp.symm.trans h)
    obtain ⟨v, rfl, hne⟩ := ((parseItem_pair_returnsIff env hu hs key value).toEnsures.of_ret
      hret).1.resolve_left hsome
    refine ⟨v, rfl, hne, ?_⟩
    rcases Nat.lt_or_gt_of_ne hne with hshort | hlong
    · have hplain := hplain.resolve_left hsome
      obtain ⟨hpar, hout⟩ := (completes_parseItem_in env (u := u) hplain hp hshort).of_ret hret
      refine .inr ⟨hplain, idle_iff.mp ⟨?_, ?_⟩⟩
      · have hsame := h.par key
        rw [paramGet_key hp] at hpar
        exact Option.some.inj (hpar.symm.trans (hsame.trans hp))
      · cases htw : textWith p.key (p.reply v) s.textOut with
        | none => rfl
        | some text =>
          rw [htw] at hout
          exact hout.2.symm.trans h.textOut
    · exact .inl hlong

end Pairs

/-! ## A text of any tokens -/

/-- A text of any bytes is parsed to an end without a write beyond an array, and its tokens without
`=` change nothing. -/
structure Harmless (env : Env) (u : Users) (text : Bytes) (s : Parse) : Prop where
  /-- The parse returns. -/
  parsed : ∃ rc s', paramTextParse env text false u s = .ret rc s' ∧ s'.Roomy
  /-- Nothing is stored that does not fit. -/
  roomy : ∀ c, Comes env u text s c → c.state.Roomy
  /-- A token without `=` changes nothing. -/
  inert : ∀ c, Comes env u text s c → ∀ t ts, c.tokens = t :: ts → splitEq t = none →
    ∀ o s', parseItem env false u (.pair c.key c.value) c.state = .ret o s' → Unchanged c.state s'

/-- The next token is one that the loop can take: its key and its value leave room for a
terminator, and without `=` it finds a pair that can be repeated. -/
def Place.Tame (c : Place) : Prop :=
  ∀ t ts, c.tokens = t :: ts →
    (∀ k v, splitEq t = some (k, v) → k.length < iscsiParamKeyLen - 1 ∧
      (c.state.par k = none ∨ v.length ≠ iscsiParamMaxLen)) ∧
    (splitEq t = none → Repeatable c.key c.value c.state)

/-- The tokens that the loop comes to are tame, and those that are printed have keys that fit the
buffer of `param_text_print`. -/
structure TameText (env : Env) (u : Users) (text : Bytes) (s : Parse) : Prop where
  printed : textPrintOverruns (textTokens text) = false
  tokens : ∀ c, Comes env u text s c → c.Tame

/-- The pairs that are parsed again have no key of the authentication. -/
def PlainRepeats (env : Env) (u : Users) (text : Bytes) (s : Parse) : Prop :=
  ∀ c, Comes env u text s c → ∀ t ts, c.tokens = t :: ts → splitEq t = none →
    c.state.par c.key = none ∨ c.key ∉ authKeys

section Texts

/-- A tame token is taken. -/
theorem Place.Tame.returns {t : CStr} {ts : List CStr} (hu : u.Roomy) (hc : c.state.Roomy)
    (h : c.Tame) (ht : c.tokens = t :: ts) :
    ∃ o s', parseItem env false u (readToken c.key c.value t).1 c.state = .ret o s' ∧ s'.Roomy := by
  obtain ⟨hpair, hnone⟩ := h t ts ht
  cases hsplit : splitEq t with
  | none =>
    rw [readToken_none hsplit]
    refine ((parseItem_pair_returnsIff env hu hc c.key c.value).toWp ?_).returns
    have hrep := hnone hsplit
    unfold Repeatable at hrep
    cases hp : c.state.par c.key with
    | none => exact .inl rfl
    | some p =>
      rw [hp] at hrep
      obtain ⟨v, hv, hne, -⟩ := hrep
      exact .inr ⟨v, hv, hne⟩
  | some kv =>
    obtain ⟨hk, hv⟩ := hpair kv.1 kv.2 hsplit
    rw [readToken_short hsplit hk]
    exact ((parseItem_pair_returnsIff env hu hc kv.1 (some kv.2)).toWp
      (hv.imp_right fun hne => ⟨kv.2, rfl, hne⟩)).returns

theorem rest_returns (hu : u.Roomy) (hc : c.state.Roomy)
    (h : ∀ c', Relation.ReflTransGen (Place.Next env u) c c' → c'.Tame) :
    ∃ rc s', c.rest env u = .ret rc s' ∧ s'.Roomy := by
  obtain ⟨key, value, ts, s⟩ := c
  induction ts generalizing key value s with
  | nil => exact ⟨0, s, rfl, hc⟩
  | cons t ts ih =>
    obtain ⟨o, s', hitem, hs'⟩ := (h _ .refl).returns hu hc rfl
    cases o with
    | some rc =>
      refine ⟨rc, s', ?_, hs'⟩
      rw [Place.rest, itemsFrom_cons, parseItems, bind_apply, hitem]
      rfl
    | none =>
      have hnext : Place.Next env u ⟨key, value, t :: ts, s⟩ _ := .taken hitem
      obtain ⟨rc, s'', hrest, hs''⟩ := ih _ _ _ hs' fun c' hc' => h c' (.head hnext hc')
      exact ⟨rc, s'', hnext.rest.trans hrest, hs''⟩

/-- A parse that returns has taken each of its tokens. -/
theorem Comes.item_returns {t : CStr} {ts : List CStr} {rc : Int} {s' : Parse}
    (h : c.rest env u = .ret rc s') (ht : c.tokens = t :: ts) :
    ∃ o s₁, parseItem env false u (readToken c.key c.value t).1 c.state = .ret o s₁ := by
  rw [Place.rest, ht, itemsFrom_cons, parseItems, bind_apply] at h
  cases hitem : parseItem env false u (readToken c.key c.value t).1 c.state with
  | ret o s₁ => exact ⟨o, s₁, rfl⟩
  | halt e s₁ =>
    rw [hitem] at h
    exact absurd h (by simp)

/-- A text whose tokens are tame is harmless; and a harmless text has tame tokens, where no pair of
the authentication is parsed again. -/
theorem text_harmless (hu : u.Roomy) (hs : s.Roomy) :
    (TameText env u text s → Harmless env u text s) ∧
      (PlainRepeats env u text s → Harmless env u text s → TameText env u text s) := by
  have hroomy (c : Place) (hc : Comes env u text s c) : c.state.Roomy := hc.roomy hu hs
  constructor
  · intro h
    refine ⟨?_, hroomy, fun c hc t ts ht hsplit o s' hret => ?_⟩
    · rw [Comes.rest .refl h.printed]
      exact rest_returns hu (hroomy _ .refl) h.tokens
    · exact ((h.tokens c hc t ts ht).2 hsplit).unchanged.of_ret hret
  · intro hplain h
    obtain ⟨rc, s', hrun, -⟩ := h.parsed
    have hprint : textPrintOverruns (textTokens text) = false := by
      by_contra hover
      unfold paramTextParse at hrun
      rw [if_pos (by simpa using hover)] at hrun
      exact absurd hrun (by simp [Prog.halt])
    refine ⟨hprint, fun c hc t ts ht => ?_⟩
    obtain ⟨o, s₁, hret⟩ := Comes.item_returns ((hc.rest hprint).symm.trans hrun) ht
    refine ⟨fun k v hsplit => ?_, fun hsplit => ?_⟩
    · by_cases hk : k.length < iscsiParamKeyLen - 1
      · rw [readToken_short hsplit hk] at hret
        refine ⟨hk, ((parseItem_pair_returnsIff env hu (hroomy c hc) k (some v)).toEnsures.of_ret
          hret).1.imp_right ?_⟩
        rintro ⟨w, hw, hne⟩
        exact Option.some.inj hw ▸ hne
      · rw [readToken_long hsplit hk] at hret
        exact absurd hret (by simp [parseItem, Prog.halt])
    · rw [readToken_none hsplit] at hret
      exact repeatable_of_unchanged hu (hroomy c hc) (hplain c hc t ts ht hsplit) hret
        (h.inert c hc t ts ht hsplit o s₁ hret)

end Texts

/-! ## A discovery session -/

section Discovery

theorem roomy_discovery : discovery.Roomy :=
  ⟨by decide +kernel, by decide, List.length_replicate, List.length_replicate⟩

theorem roomy_initiatorOnly : initiatorOnly.Roomy :=
  ⟨fun v hv => Option.some.inj hv ▸ (by decide : Fits (cstr "i")), by decide⟩

/-- A declaration, and a token without `=` behind it. -/
def declarationText : Bytes := cstr "TargetName=disk" ++ 0 :: cstr "x" ++ [0]

/-- The places that the loop comes to in the text. -/
theorem comes_declarationText {c : Place}
    (h : Comes zeroEnv initiatorOnly declarationText discovery c) :
    c = Place.start zeroEnv declarationText discovery ∨
      (c.key = targetName ∧ c.value = some (cstr "disk") ∧ c.tokens = [cstr "x"] ∧
        c.state.par targetName = some (targetNames.receiveStep (cstr "disk")).1) ∨
      c.tokens = [] := by
  induction h with
  | refl => exact .inl rfl
  | tail _ hnext ih =>
    obtain ⟨hitem⟩ := hnext
    rcases ih with hstart | ⟨-, -, htokens, -⟩ | hnil
    · obtain ⟨rfl, rfl, htokens, rfl⟩ := Place.mk.inj hstart
      obtain ⟨rfl, rfl⟩ := List.cons.inj (htokens.trans
        (by decide : textTokens declarationText = [cstr "TargetName=disk", cstr "x"]))
      have hread : readToken [] none (cstr "TargetName=disk") =
          (.pair targetName (some (cstr "disk")), targetName, some (cstr "disk")) := by decide
      have hp : ({ discovery with textOut := [] } : Parse).par targetName = some targetNames := by
        decide
      rw [show zeroEnv.staleKey = [] from rfl, hread] at hitem ⊢
      have hrec := (completes_parseItem_in zeroEnv (u := initiatorOnly) (v := cstr "disk")
        (by decide) hp (by decide)).of_ret hitem
      exact .inr (.inl ⟨rfl, rfl, rfl, hrec.1⟩)
    · obtain ⟨-, rfl⟩ := List.cons.inj htokens
      exact .inr (.inr rfl)
    · exact absurd hnil (List.cons_ne_nil _ _)

/-- The token repeats a declaration, and nothing is changed. -/
theorem text_harmless_declaration :
    Harmless zeroEnv initiatorOnly declarationText discovery := by
  refine (text_harmless roomy_initiatorOnly roomy_discovery).1 ⟨by decide, fun c hc => ?_⟩
  rintro t ts ht
  rcases comes_declarationText hc with rfl | ⟨hkey, hvalue, htokens, hpar⟩ | hnil
  · obtain ⟨rfl, rfl⟩ := List.cons.inj (ht.symm.trans
      (by decide : textTokens declarationText = [cstr "TargetName=disk", cstr "x"]))
    have hsplit : splitEq (cstr "TargetName=disk") = some (targetName, cstr "disk") := by decide
    refine ⟨fun k v h => ?_, fun h => absurd (hsplit.symm.trans h) (by simp)⟩
    obtain ⟨rfl, rfl⟩ := Prod.mk.inj (Option.some.inj (hsplit.symm.trans h))
    exact ⟨by decide, .inr (by decide)⟩
  · obtain ⟨rfl, rfl⟩ := List.cons.inj (ht.symm.trans htokens)
    have hsplit : splitEq (cstr "x") = none := by decide
    refine ⟨fun k v h => absurd (hsplit.symm.trans h) (by simp), fun _ => ?_⟩
    rw [Repeatable, hkey, hpar]
    refine ⟨cstr "disk", hvalue, by decide, .inr ⟨by decide, by decide, by decide, ?_⟩⟩
    rw [if_pos (by decide)]
    decide
  · exact absurd (hnil.symm.trans ht) (List.cons_ne_nil _ _).symm

/-- The key is not known, and the token repeats that it is not. -/
def unknownText : Bytes := cstr "A=B" ++ 0 :: cstr "C" ++ [0]

/-- A key of 63 characters. -/
def longKeyText : Bytes := List.replicate 63 65 ++ cstr "=B" ++ [0]

theorem harmful_of_full {v : CStr} (hv : v.length = iscsiParamMaxLen) (h0 : 0 ∉ v) :
    ¬Harmless zeroEnv initiatorOnly (pairsText [(targetName, v)]) discovery := by
  intro h
  have hok : ∀ kv ∈ [(targetName, v)], PairOk kv := fun kv hkv =>
    List.mem_singleton.mp hkv ▸ ⟨(by decide : KeyOk targetName), h0⟩
  obtain ⟨rc, s', hrun, -⟩ := h.parsed
  have hp : ({ discovery with textOut := [] } : Parse).par targetName = some targetNames := by
    decide
  obtain ⟨o, s₁, hitem⟩ := Comes.item_returns ((Comes.rest .refl
    (textPrintOverruns_pairsText hok)).symm.trans hrun) (textTokens_pairsText hok)
  rw [readToken_short (splitEq_pair (by decide : 61 ∉ targetName) v)
    (by decide : targetName.length < iscsiParamKeyLen - 1)] at hitem
  obtain hnone | ⟨w, hw, hne⟩ := ((parseItem_pair_returnsIff zeroEnv roomy_initiatorOnly
    (Comes.roomy roomy_initiatorOnly roomy_discovery .refl) targetName
    (some v)).toEnsures.of_ret hitem).1
  · exact Option.some_ne_none _ (hp.symm.trans hnone)
  · exact hne (Option.some.inj hw ▸ hv)

/-- A value of 4096 bytes. -/
def longValue : CStr := List.replicate 4096 65

/-- Whether a text is parsed to an end. -/
def isParsed (text : Bytes) : Bool :=
  match paramTextParse zeroEnv text false initiatorOnly discovery with
  | .ret _ _ => true
  | .halt _ _ => false

theorem isParsed_of_harmless {text : Bytes}
    (h : Harmless zeroEnv initiatorOnly text discovery) : isParsed text = true := by
  obtain ⟨rc, s', hrun, -⟩ := h.parsed
  rw [isParsed, hrun]

/-- A token without `=` adds to the text, and a key and a value that are just too long are written
beyond their arrays. -/
theorem text_harmful : ¬Harmless zeroEnv initiatorOnly unknownText discovery ∧
    ¬Harmless zeroEnv initiatorOnly longKeyText discovery ∧
    ¬Harmless zeroEnv initiatorOnly (pairsText [(targetName, longValue)]) discovery := by
  refine ⟨fun h => ?_, fun h => ?_, fun h => ?_⟩
  · have hunknown : (Place.start zeroEnv unknownText discovery).state.par (cstr "A") = none := by
      decide
    obtain ⟨o, s₁, hitem, -⟩ := ((parseItem_pair_returnsIff zeroEnv roomy_initiatorOnly
      (Comes.roomy roomy_initiatorOnly roomy_discovery .refl) (cstr "A")
      (some (cstr "B"))).toWp (.inl hunknown)).returns
    obtain ⟨hpar, rfl, htext⟩ := (parseItem_unknown zeroEnv hunknown).of_ret hitem
    have hcomes : Comes zeroEnv initiatorOnly unknownText discovery
        ⟨cstr "A", some (cstr "B"), [cstr "C"], s₁⟩ := .single (.taken (t := cstr "A=B") hitem)
    have hunknown₁ := (hpar (cstr "A")).trans hunknown
    obtain ⟨o, s₂, hret, -⟩ := ((parseItem_pair_returnsIff zeroEnv roomy_initiatorOnly
      (hcomes.roomy roomy_initiatorOnly roomy_discovery) (cstr "A")
      (some (cstr "B"))).toWp (.inl hunknown₁)).returns
    obtain ⟨-, hout⟩ := (parseItem_unknown zeroEnv hunknown₁).of_ret hret
    have hsame := (h.inert _ hcomes _ _ rfl (by decide) o s₂ hret).textOut
    dsimp only at hsame
    rw [htext] at hout hsame
    exact absurd (hout.2.symm.trans hsame) (by decide)
  · exact absurd (isParsed_of_harmless h) (by decide +kernel)
  · exact harmful_of_full List.length_replicate
      (fun h0 => absurd (List.eq_of_mem_replicate h0) (by decide)) h

end Discovery

end Ost.Param
