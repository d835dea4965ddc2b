import Mathlib.Logic.Relation
import Ost.Initiator.Recovery

/-!
# Calls that are under way

`initiator_abort` and the second half of `session_destroy_i` take the commands of the tx queue out
one by one and put them back, there or through a queue of their own.  Only each of these operations
is locked.  Here every one of them is a step of its own, and the workers, the callers and other
aborts go on in between.

A call that nothing comes between is `initiatorAbort` or `sessionDestroyI`.
-/

namespace Ost.Initiator

open Ost.Iscsi Ost.Util Ost.Param Ost.Prog

/-! ## `initiator_abort` -/

/-- How far a call of `initiator_abort` has got. -/
inductive AbortPhase where
  | /-- At the head of the loop. -/
    scan (start : Option Nat)
  | /-- With a command of another tag, which it has taken from the queue. -/
    pass (start : Option Nat) (ptr : Nat)
  | /-- Behind the loop, with the command of the tag that it has taken from the queue. -/
    finish (ptr : Option Nat)
deriving DecidableEq, Repr

/-- The command that the call has taken from the queue. -/
def AbortPhase.carried : AbortPhase → List Nat
  | .scan _ => []
  | .pass _ ptr => [ptr]
  | .finish ptr => ptr.toList

/-- The first statements. -/
def abortBegin (c : Nat) : Handler PUnit :=
  modifyCmd c fun t => { t with status := -1, aborted := true }

/-- A step of the call for the command `c`: how far it has got, or whether it has returned 0. -/
def abortStep (c : Nat) : AbortPhase → Handler (AbortPhase ⊕ Bool)
  | .scan start => do
    match ← queueRemove with
    | none => return .inl (.finish none)
    | some ptr =>
      if (← getCmd ptr).tag = (← getCmd c).tag then return .inl (.finish (some ptr))
      else return .inl (.pass start ptr)
  | .pass start ptr => do
    if !(← queueInsert ptr) then return .inr false
    if start = some ptr then return .inl (.finish none)
    else return .inl (.scan (start <|> some ptr))
  | .finish _ => do return .inr (← iscsiDoneI c)

/-! ## `session_destroy_i` -/

/-- How far `session_destroy_i` has got, from the point where the workers have stopped. -/
inductive DrainPhase where
  | /-- In the first loop. -/
    empty (tmp : Fifo Nat)
  | /-- In the second loop. -/
    refill (tmp : Fifo Nat)
  | /-- In the third loop. -/
    hash
  | /-- With a command that it has taken from the hash. -/
    requeue (c : Nat)
  | /-- Behind the loops. -/
    close
  | /-- In `initiator_abort` for the command `c`, which it has taken from the queue (in the first
    loop) or from the hash. -/
    abort (tmp : Option (Fifo Nat)) (c : Nat) (phase : AbortPhase)

/-- Where the loop goes on after `initiator_abort`. -/
def DrainPhase.resume : Option (Fifo Nat) → DrainPhase
  | some tmp => .empty tmp
  | none => .hash

/-- The commands that `session_destroy_i` has taken. -/
def DrainPhase.carried : DrainPhase → List Nat
  | .empty tmp | .refill tmp => tmp.toList
  | .hash | .close => []
  | .requeue c => [c]
  | .abort tmp c phase => c :: phase.carried ++ tmp.toList.flatMap Fifo.toList

/-- A step of `session_destroy_i`: how far it has got, or what it has returned. -/
def drainStep : DrainPhase → Handler (DrainPhase ⊕ Int)
  | .empty tmp => do
    match ← queueRemove with
    | none => return .inl (.refill tmp)
    | some c =>
      if (← getCmd c).body.isControl then do
        abortBegin c
        return .inl (.abort (some tmp) c (.scan none))
      else match tmp.insert c with
        | none => return .inr (-1)
        | some tmp => return .inl (.empty tmp)
  | .refill tmp =>
    match tmp.remove with
    | none => return .inl .hash
    | some (c, tmp) => do
      if !(← queueInsert c) then return .inr (-1)
      return .inl (.refill tmp)
  | .hash => do
    match ← hashTakeHead with
    | none => return .inl .close
    | some c =>
      if (← getCmd c).body.isControl then do
        abortBegin c
        return .inl (.abort none c (.scan none))
      else return .inl (.requeue c)
  | .requeue c => do
    modifyCmd c InitiatorCmd.reset
    if !(← queueInsert c) then return .inr (-1)
    return .inl .hash
  | .close => do
    let b ← gets fun s => s.books
    if b.cmdHash.count ≠ 0 then return .inr (-1)
    modifyFlags fun _ => .zero
    return .inr 0
  | .abort tmp c phase => do
    match ← abortStep c phase with
    | .inl phase => return .inl (.abort tmp c phase)
    | .inr ok => if ok then return .inl (.resume tmp) else return .inr (-1)

/-! ## Threads -/

/-- A call of `initiator_abort`. -/
structure AbortCall where
  cmd : Nat
  phase : AbortPhase
deriving DecidableEq, Repr

/-- A session with the calls that are under way. -/
structure Threads where
  session : Session
  aborts : List AbortCall
  drain : Option DrainPhase

/-- Run a handler. -/
def inSession {α : Type} (x : Handler α) : Prog Halt Threads α :=
  zoom Threads.session (fun t s => { t with session := s }) id x

/-- What can happen. -/
inductive ThreadEvent where
  | /-- An event of the session.  An abort or the end of the session only begins. -/
    session (e : Event)
  | /-- A call of `initiator_abort` goes on. -/
    abort (i : Nat)
  | /-- `session_destroy_i` goes on. -/
    drain

variable (env : Env) (cfg : TargetConfig)

/-- `session_destroy_i` has waited for the workers. -/
def drainBegin : Handler Bool := do
  let s ← get
  guarded s.stopped (modify fun s => { s with stopping := false, accepted := [], answers := [] })
  return s.stopped

/-- Something that the session manager does when it is not in `session_destroy_i`. -/
def onManager (x : Prog Halt Threads PUnit) : Prog Halt Threads PUnit := do
  let t ← get
  guarded (t.drain.isNone = true) x

/-- An event of the session. -/
def sessionNext : Event → Prog Halt Threads PUnit
  | .abort c => do
    inSession (abortBegin c)
    modify fun t => { t with aborts := t.aborts ++ [⟨c, .scan none⟩] }
  | .start params => onManager (inSession (next env cfg (.start params)))
  | .stop => onManager (inSession (next env cfg .stop))
  | .destroy => onManager do
    if ← inSession drainBegin then
      modify fun t => { t with drain := some (.empty (.init (configInitiatorQueueDepth - 1))) }
  | e => inSession (next env cfg e)

/-- One step. -/
def threadNext : ThreadEvent → Prog Halt Threads PUnit
  | .session e => sessionNext env cfg e
  | .abort i => do
    match (← get).aborts[i]? with
    | none => return
    | some a =>
      match ← inSession (abortStep a.cmd a.phase) with
      | .inl phase => modify fun t => { t with aborts := t.aborts.set i ⟨a.cmd, phase⟩ }
      | .inr _ => modify fun t => { t with aborts := t.aborts.eraseIdx i }
  | .drain => do
    match (← get).drain with
    | none => return
    | some phase =>
      match ← inSession (drainStep phase) with
      | .inl phase => modify fun t => { t with drain := some phase }
      | .inr _ => modify fun t => { t with drain := none }

/-- The commands that calls have taken from the queue or the hash. -/
def Threads.carried (t : Threads) : List Nat :=
  t.aborts.flatMap (fun a => a.phase.carried) ++ (t.drain.toList.flatMap DrainPhase.carried)

/-! ## Nothing comes between -/

section Alone

variable {σ α : Type} {step : σ → Handler (σ ⊕ α)} {x y z : σ × Session} {a : α} {s s' : Session}

/-- A call goes on. -/
def Goes (step : σ → Handler (σ ⊕ α)) (x y : σ × Session) : Prop :=
  step x.1 x.2 = .ret (.inl y.1) y.2

/-- A call goes on for any number of steps. -/
abbrev GoesOn (step : σ → Handler (σ ⊕ α)) : σ × Session → σ × Session → Prop :=
  Relation.ReflTransGen (Goes step)

/-- A call goes on and returns. -/
def Returns (step : σ → Handler (σ ⊕ α)) (x : σ × Session) (a : α) (s' : Session) : Prop :=
  ∃ y, GoesOn step x y ∧ step y.1 y.2 = .ret (.inr a) s'

theorem Returns.head (h : GoesOn step x y) (h' : Returns step y a s') : Returns step x a s' := by
  obtain ⟨z, hz, hret⟩ := h'
  exact ⟨z, h.trans hz, hret⟩

/-- A session with another queue. -/
def Session.withQueue (s : Session) (q : Fifo Nat) : Session :=
  s.setBooks { s.books with txQueue := q }

variable {c x ptr : Nat} {q q' tmp : Fifo Nat} {start : Option Nat} {ok : Bool}

theorem queueRemove_none (h : s.books.txQueue.remove = none) : queueRemove s = .ret none s := by
  rw [queueRemove, h]

theorem queueRemove_some (h : s.books.txQueue.remove = some (c, q)) :
    queueRemove s = .ret (some c) (s.withQueue q) := by
  rw [queueRemove, h]
  rfl

theorem queueInsert_some (h : s.books.txQueue.insert c = some q) :
    queueInsert c s = .ret true (s.withQueue q) := by
  rw [queueInsert, h]
  rfl

theorem queueInsert_none (h : s.books.txQueue.insert c = none) :
    queueInsert c s = .ret false s := by
  rw [queueInsert, h]

theorem abortStep_empty (h : s.books.txQueue.remove = none) :
    abortStep c (.scan start) s = .ret (.inl (.finish none)) s := by
  rw [abortStep, bind_ret (queueRemove_none h)]
  rfl

/-- Looking at a command that has been taken. -/
theorem abortStep_look (h : s.books.txQueue.remove = some (x, q)) :
    abortStep c (.scan start) s = .ret (.inl
      (if (s.books.mem x).tag = (s.books.mem c).tag then .finish (some x) else .pass start x))
      (s.withQueue q) := by
  rw [abortStep, bind_ret (queueRemove_some h)]
  change (if (s.books.mem x).tag = (s.books.mem c).tag
    then (pure (.inl (.finish (some x))) : Handler (AbortPhase ⊕ Bool))
    else pure (.inl (.pass start x))) (s.withQueue q) = _
  split <;> rfl

/-- Putting it back. -/
theorem abortStep_pass (h : s.books.txQueue.insert x = some q) :
    abortStep c (.pass start x) s = .ret (.inl
      (if start = some x then .finish none else .scan (start <|> some x))) (s.withQueue q) := by
  rw [abortStep, bind_ret (queueInsert_some h)]
  change (if start = some x then (pure (.inl (.finish none)) : Handler (AbortPhase ⊕ Bool))
    else pure (.inl (.scan (start <|> some x)))) (s.withQueue q) = _
  split <;> rfl

/-- The loop of `initiator_abort`, when it ends before the bound. -/
theorem goesOn_scan {n : Nat} (hstart : ∀ d, start = some d → d ∈ s.books.txQueue.toList.take n)
    (hn : start = none → s.books.txQueue.toList.length < n)
    (hscan : abortScan (fun d => (s.books.mem d).tag) (s.books.mem c).tag n start s.books.txQueue =
      some q) : ∃ ptr, GoesOn (abortStep c) (.scan start, s) (.finish ptr, s.withQueue q) := by
  induction n generalizing s start with
  | zero =>
    cases start with
    | none => exact absurd (hn rfl) (Nat.not_lt_zero _)
    | some d => exact absurd (hstart d rfl) (by simp)
  | succ n ih =>
    rw [abortScan] at hscan
    rcases hr : s.books.txQueue.remove with _ | ⟨x, q₁⟩
    · rw [hr] at hscan
      obtain rfl := Option.some.inj hscan
      exact ⟨none, .single (abortStep_empty hr)⟩
    obtain ⟨hl, -⟩ := Fifo.remove_some hr
    have hlook : abortStep c (.scan start) s = _ := abortStep_look hr
    simp only [hr] at hscan
    by_cases htag : (s.books.mem x).tag = (s.books.mem c).tag
    · rw [if_pos htag] at hscan hlook
      obtain rfl := Option.some.inj hscan
      exact ⟨some x, .single hlook⟩
    rw [if_neg htag] at hscan hlook
    replace hlook : Goes (abortStep c) (.scan start, s) (.pass start x, s.withQueue q₁) := hlook
    rcases hi : q₁.insert x with _ | q₂
    · rw [hi] at hscan
      cases hscan
    obtain ⟨hl₂, -⟩ := Fifo.insert_some hi
    have hpass : abortStep c (.pass start x) (s.withQueue q₁) = _ := abortStep_pass hi
    simp only [hi] at hscan
    by_cases hx : start = some x
    · rw [if_pos hx] at hscan hpass
      obtain rfl := Option.some.inj hscan
      replace hpass : Goes (abortStep c) (.pass start x, s.withQueue q₁)
        (.finish none, s.withQueue q₂) := hpass
      exact ⟨none, .head hlook (.single hpass)⟩
    rw [if_neg hx] at hscan hpass
    replace hpass : Goes (abortStep c) (.pass start x, s.withQueue q₁)
      (.scan (start <|> some x), s.withQueue q₂) := hpass
    suffices hgo : ∃ ptr, GoesOn (abortStep c) (.scan (start <|> some x), s.withQueue q₂)
        (.finish ptr, s.withQueue q) by
      obtain ⟨ptr, hgo⟩ := hgo
      exact ⟨ptr, .head hlook (.head hpass hgo)⟩
    refine ih (s := s.withQueue q₂) ?_ ?_ hscan
    · intro d hd
      change d ∈ q₂.toList.take n
      rw [hl₂]
      cases start with
      | none =>
        obtain rfl : x = d := Option.some.inj hd
        have hlen := hn rfl
        rw [hl, List.length_cons] at hlen
        rw [List.take_of_length_le (by simp; omega)]
        simp
      | some e =>
        obtain rfl : e = d := Option.some.inj hd
        have hmem := hstart e rfl
        rw [hl, List.take_succ_cons, List.mem_cons] at hmem
        have hmem' := hmem.resolve_left fun heq => hx (heq ▸ rfl)
        rw [List.take_append]
        exact List.mem_append_left _ hmem'
    · intro hnone
      cases start <;> cases hnone

/-- A call of `initiator_abort` that nothing comes between. -/
theorem abort_alone (h : initiatorAbort c s = .ret ok s') :
    ∃ s₁, abortBegin c s = .ret ⟨⟩ s₁ ∧ Returns (abortStep c) (.scan none, s₁) ok s' := by
  refine ⟨s.setCmd c { s.books.mem c with status := -1, aborted := true }, rfl, ?_⟩
  set s₁ := s.setCmd c { s.books.mem c with status := -1, aborted := true }
  obtain ⟨q, hq, -⟩ := abortScan_spec (fun d => (s₁.books.mem d).tag) (s₁.books.mem c).tag
    (s₁.books.txQueue.toList.length + 1) none s₁.books.txQueue
  obtain ⟨ptr, hgo⟩ := goesOn_scan (fun _ hd => absurd hd (Option.some_ne_none _).symm)
    (fun _ => Nat.lt_succ_self _) hq
  refine ⟨_, hgo, ?_⟩
  have hdone : iscsiDoneI c (s₁.withQueue q) = .ret ok s' := by
    have hbegin : modifyCmd c (fun t => { t with status := -1, aborted := true }) s =
        .ret ⟨⟩ s₁ := rfl
    rw [initiatorAbort, bind_ret hbegin, gets_bind] at h
    simp only [hq] at h
    exact h
  change abortStep c (.finish ptr) (s₁.withQueue q) = _
  rw [abortStep, bind_ret hdone]
  rfl

/-- `session_destroy_i` goes on while `initiator_abort` does. -/
theorem goesOn_abort (tmp : Option (Fifo Nat)) {x y : AbortPhase × Session}
    (h : GoesOn (abortStep c) x y) :
    GoesOn drainStep (.abort tmp c x.1, x.2) (.abort tmp c y.1, y.2) := by
  induction h with
  | refl => exact .refl
  | @tail y z _ hstep ih =>
    refine ih.tail ?_
    change drainStep (.abort tmp c y.1) y.2 = _
    rw [drainStep, bind_ret hstep]
    rfl

/-- `session_destroy_i` gets to a point, or returns -1. -/
def Leads (x : DrainPhase × Session) (r : Option DrainPhase) (s' : Session) : Prop :=
  r.elim (Returns drainStep x (-1) s') fun p => GoesOn drainStep x (p, s')

theorem Leads.head {x y : DrainPhase × Session} {r : Option DrainPhase}
    (h : GoesOn drainStep x y) (h' : Leads y r s') : Leads x r s' := by
  cases r with
  | none => exact Returns.head h h'
  | some p => exact h.trans h'

/-- `session_destroy_i` aborts a command. -/
theorem leads_abort (tmp : Option (Fifo Nat)) (h : initiatorAbort c s = .ret ok s') :
    ∃ s₁, abortBegin c s = .ret ⟨⟩ s₁ ∧
      Leads (.abort tmp c (.scan none), s₁)
      (if ok = true then some (.resume tmp) else none) s' := by
  obtain ⟨s₁, hbegin, y, hgo, hret⟩ := abort_alone h
  have hgo' := goesOn_abort tmp hgo
  have hlast : drainStep (.abort tmp c y.1) y.2 =
      .ret (if ok = true then .inl (.resume tmp) else .inr (-1)) s' := by
    rw [drainStep, bind_ret hret]
    cases ok <;> rfl
  refine ⟨s₁, hbegin, ?_⟩
  cases ok with
  | true => exact hgo'.tail hlast
  | false => exact ⟨_, hgo', hlast⟩

/-- The loop goes on after it. -/
theorem wp_abort_leads (tmp : Option (Fifo Nat)) {x : DrainPhase × Session} {k : Bool → Handler α}
    {r : α → Option DrainPhase}
    (hx : ∀ s₁, abortBegin c s = .ret ⟨⟩ s₁ → Goes drainStep x (.abort tmp c (.scan none), s₁))
    (hfalse : ∀ s', wp (k false) (fun a s'' => r a = none ∧ s'' = s') (fun _ _ => True) s')
    (htrue : ∀ s', wp (k true) (fun a s'' => Leads (.resume tmp, s') (r a) s'')
      (fun _ _ => True) s') :
    wp (initiatorAbort c) (fun ok s' => wp (k ok) (fun a s'' => Leads x (r a) s'')
      (fun _ _ => True) s') (fun _ _ => True) s := by
  rw [wp]
  split
  · rename_i ok s' h
    obtain ⟨s₁, hbegin, hleads⟩ := leads_abort tmp h
    have hhead : GoesOn drainStep x (.abort tmp c (.scan none), s₁) := .single (hx s₁ hbegin)
    cases ok with
    | true => exact wp_mono (htrue s') (fun a s'' h => h.head (hhead.trans hleads)) fun _ _ => id
    | false =>
      refine wp_mono (hfalse s') (fun a s'' h => ?_) fun _ _ => id
      obtain ⟨hr, rfl⟩ := h
      rw [hr]
      exact Returns.head hhead hleads
  · trivial

theorem drainStep_emptied (h : s.books.txQueue.remove = none) :
    Goes drainStep (.empty tmp, s) (.refill tmp, s) := by
  change drainStep (.empty tmp) s = _
  rw [drainStep, bind_ret (queueRemove_none h)]
  rfl

theorem drainStep_control (h : s.books.txQueue.remove = some (c, q))
    (hc : (s.books.mem c).body.isControl = true)
    (hbegin : abortBegin c (s.withQueue q) = .ret ⟨⟩ s') :
    Goes drainStep (.empty tmp, s) (.abort (some tmp) c (.scan none), s') := by
  change drainStep (.empty tmp) s = _
  rw [drainStep, bind_ret (queueRemove_some h)]
  change (if (s.books.mem c).body.isControl = true then
    (abortBegin c >>= fun _ => pure _ : Handler (DrainPhase ⊕ Int)) else _) (s.withQueue q) = _
  rw [if_pos hc, bind_ret hbegin]
  rfl

theorem drainStep_put (h : s.books.txQueue.remove = some (c, q))
    (hc : ¬(s.books.mem c).body.isControl = true) : drainStep (.empty tmp) s =
      .ret ((tmp.insert c).elim (.inr (-1)) fun tmp => .inl (.empty tmp)) (s.withQueue q) := by
  rw [drainStep, bind_ret (queueRemove_some h)]
  change (if (s.books.mem c).body.isControl = true then _ else (_ : Handler (DrainPhase ⊕ Int)))
    (s.withQueue q) = _
  rw [if_neg hc]
  cases tmp.insert c <;> rfl

/-- The first loop. -/
theorem drainQueue_leads {n : Nat} : wp (drainQueue n tmp)
    (fun r s' => Leads (.empty tmp, s) (r.map .refill) s') (fun _ _ => True) s := by
  induction n generalizing s tmp with
  | zero => trivial
  | succ n ih =>
    simp only [drainQueue, wp_bind]
    rw [wp_queueRemove]
    refine ⟨fun hr => .single (drainStep_emptied hr), fun c q hr => ?_⟩
    simp only [wp_bind, wp_getCmd]
    refine (wp_ite _ _ _).mpr ⟨fun hc => ?_, fun hc => ?_⟩
    · rw [wp_bind]
      refine wp_abort_leads (some tmp) (r := Option.map .refill)
        (fun s₁ => drainStep_control hr hc) (fun s' => ?_) fun s' => ?_
      · exact ⟨rfl, rfl⟩
      · exact ih
    · have hput : drainStep (.empty tmp) s = _ := drainStep_put hr hc
      rcases hi : tmp.insert c with _ | tmp₁
      · rw [hi] at hput
        exact ⟨_, .refl, hput⟩
      · rw [hi] at hput
        have hgoes : Goes drainStep (.empty tmp, s) (.empty tmp₁, s.withQueue q) := hput
        exact wp_mono ih (fun r s' h => h.head (.single hgoes)) fun _ _ => id

/-- The second loop. -/
theorem refillQueue_leads {n : Nat} : wp (refillQueue n tmp)
    (fun ok s' => Leads (.refill tmp, s) (if ok = true then some .hash else none) s')
      (fun _ _ => True) s := by
  induction n generalizing s tmp with
  | zero => trivial
  | succ n ih =>
    simp only [refillQueue]
    rcases hr : tmp.remove with _ | ⟨c, tmp₁⟩
    · have hgoes : Goes drainStep (.refill tmp, s) (.hash, s) := by
        change drainStep (.refill tmp) s = _
        rw [drainStep, hr]
        rfl
      exact .single hgoes
    simp only [wp_bind]
    rw [wp_queueInsert]
    refine ⟨fun hi => ?_, fun q hi => ?_⟩
    · have hret : drainStep (.refill tmp) s = .ret (.inr (-1)) s := by
        rw [drainStep, hr]
        dsimp only
        rw [bind_ret (queueInsert_none hi)]
        rfl
      exact ⟨_, .refl, hret⟩
    · have hgoes : Goes drainStep (.refill tmp, s) (.refill tmp₁, s.withQueue q) := by
        change drainStep (.refill tmp) s = _
        rw [drainStep, hr]
        dsimp only
        rw [bind_ret (queueInsert_some hi)]
        rfl
      refine (wp_ite _ _ _).mpr ⟨fun hf => absurd hf (by decide), fun _ => ?_⟩
      exact wp_mono ih (fun r s' h => h.head (.single hgoes)) fun _ _ => id

/-- A session with another hash. -/
def Session.withHash (s : Session) (t : TagHash Nat) : Session :=
  s.setBooks { s.books with cmdHash := t }

theorem hashTakeHead_some {t : TagHash Nat} (h : s.books.cmdHash.removeHead = some (c, t)) :
    hashTakeHead s = .ret (some c) (s.withHash t) := by
  rw [hashTakeHead, h]
  rfl

theorem drainStep_outstanding {t : TagHash Nat} (h : s.books.cmdHash.removeHead = some (c, t))
    (hc : (s.books.mem c).body.isControl = true)
    (hbegin : abortBegin c (s.withHash t) = .ret ⟨⟩ s') :
    Goes drainStep (.hash, s) (.abort none c (.scan none), s') := by
  change drainStep .hash s = _
  rw [drainStep, bind_ret (hashTakeHead_some h)]
  change (if (s.books.mem c).body.isControl = true then
    (abortBegin c >>= fun _ => pure _ : Handler (DrainPhase ⊕ Int)) else _) (s.withHash t) = _
  rw [if_pos hc, bind_ret hbegin]
  rfl

theorem drainStep_unhash {t : TagHash Nat} (h : s.books.cmdHash.removeHead = some (c, t))
    (hc : ¬(s.books.mem c).body.isControl = true) :
    Goes drainStep (.hash, s) (.requeue c, s.withHash t) := by
  change drainStep .hash s = _
  rw [drainStep, bind_ret (hashTakeHead_some h)]
  change (if (s.books.mem c).body.isControl = true then _ else
    (pure _ : Handler (DrainPhase ⊕ Int))) (s.withHash t) = _
  rw [if_neg hc]
  rfl

theorem drainStep_requeue {s₁ : Session} (h : s₁ = s.setCmd c (s.books.mem c).reset) :
    drainStep (.requeue c) s = .ret
      ((s₁.books.txQueue.insert c).elim (.inr (-1)) fun _ => .inl .hash)
      ((s₁.books.txQueue.insert c).elim s₁ fun q => s₁.withQueue q) := by
  have hreset : modifyCmd c InitiatorCmd.reset s = .ret ⟨⟩ s₁ := h ▸ rfl
  rw [drainStep, bind_ret hreset]
  rcases hi : s₁.books.txQueue.insert c with _ | q
  · rw [bind_ret (queueInsert_none hi)]
    rfl
  · rw [bind_ret (queueInsert_some hi)]
    rfl

/-- The third loop. -/
theorem drainHash_leads {n : Nat} : wp (drainHash n)
    (fun ok s' => Leads (.hash, s) (if ok = true then some .close else none) s')
      (fun _ _ => True) s := by
  induction n generalizing s with
  | zero => trivial
  | succ n ih =>
    simp only [drainHash, wp_bind]
    rw [wp_hashTakeHead]
    refine ⟨fun hr => ?_, fun c t hr => ?_⟩
    · have hgoes : Goes drainStep (.hash, s) (.close, s) := by
        have hnone : hashTakeHead s = .ret none s := by rw [hashTakeHead, hr]
        change drainStep .hash s = _
        rw [drainStep, bind_ret hnone]
        rfl
      exact .single hgoes
    simp only [wp_bind, wp_getCmd]
    refine (wp_ite _ _ _).mpr ⟨fun hc => ?_, fun hc => ?_⟩
    · rw [wp_bind]
      refine wp_abort_leads none
        (r := fun ok => if ok = true then some .close else none)
        (fun s₁ => drainStep_outstanding hr hc) (fun s' => ?_) fun s' => ?_
      · exact ⟨rfl, rfl⟩
      · exact ih
    · have htake := drainStep_unhash hr hc
      have hput := drainStep_requeue (s := s.withHash t) (c := c) rfl
      simp only [wp_bind, wp_modifyCmd]
      rw [wp_queueInsert]
      refine ⟨fun hi => ?_, fun q hi => ?_⟩
      · have hi' : ((s.withHash t).setCmd c
          ((s.withHash t).books.mem c).reset).books.txQueue.insert c = none := hi
        rw [hi'] at hput
        exact ⟨_, .single htake, hput⟩
      · have hi' : ((s.withHash t).setCmd c
          ((s.withHash t).books.mem c).reset).books.txQueue.insert c = some q := hi
        rw [hi'] at hput
        have hgoes : Goes drainStep (.requeue c, s.withHash t) (.hash,
          ((s.withHash t).setCmd c ((s.withHash t).books.mem c).reset).withQueue q) := hput
        refine (wp_ite _ _ _).mpr ⟨fun hf => absurd hf (by decide), fun _ => ?_⟩
        exact wp_mono ih (fun r s' h => h.head (.head htake (.single hgoes))) fun _ _ => id

/-- A call of `session_destroy_i` that nothing comes between. -/
theorem drain_alone {rc : Int} (h : sessionDestroyI s = .ret rc s') :
    Returns drainStep (.empty (.init (configInitiatorQueueDepth - 1)), s) rc s' := by
  have hrun : wp sessionDestroyI (fun rc s' =>
      Returns drainStep (.empty (.init (configInitiatorQueueDepth - 1)), s) rc s')
      (fun _ _ => True) s := by
    simp only [sessionDestroyI, wp_bind, wp_gets]
    refine wp_mono drainQueue_leads ?_ fun _ _ => id
    rintro (_ | tmp) s₁ h₁
    · exact h₁
    simp only [wp_bind]
    refine wp_mono refillQueue_leads ?_ fun _ _ => id
    rintro ok s₂ h₂
    refine (wp_ite _ _ _).mpr ⟨fun hf => ?_, fun hok => ?_⟩
    · rw [if_neg (by simpa using hf)] at h₂
      exact Returns.head h₁ h₂
    rw [if_pos (by simpa using hok)] at h₂
    simp only [wp_bind, wp_gets]
    refine wp_mono drainHash_leads ?_ fun _ _ => id
    rintro ok s₃ h₃
    refine (wp_ite _ _ _).mpr ⟨fun hf => ?_, fun hok => ?_⟩
    · rw [if_neg (by simpa using hf)] at h₃
      exact Returns.head h₁ (Returns.head h₂ h₃)
    rw [if_pos (by simpa using hok)] at h₃
    have hlast : drainStep .close s₃ = if s₃.books.cmdHash.count ≠ 0 then .ret (.inr (-1)) s₃
        else .ret (.inr 0) { s₃ with flags := .zero } := by
      rw [drainStep, gets_bind]
      split <;> rfl
    have hgo := (Relation.ReflTransGen.trans h₁ h₂).trans h₃
    simp only [wp_bind, wp_gets]
    refine (wp_ite _ _ _).mpr ⟨fun hne => ⟨_, hgo, ?_⟩, fun hzero => ⟨_, hgo, ?_⟩⟩
    · rw [if_pos hne] at hlast
      exact hlast
    · rw [if_neg hzero] at hlast
      exact hlast
  exact hrun.of_ret h

end Alone

end Ost.Initiator
