import Ost.Prog.Basic

/-!
# Runs of an event-driven system

A system is a program for each event.  `Reach next Ok s₀` holds of the states that a
sequence of events leads to, where every event meets the condition `Ok` in the state it
finds and does not halt the process.  With `Ok` always true these are the reachable states;
with a condition on inputs they are the states of the runs whose steps all meet it.
-/

universe u

namespace Ost.Prog

variable {ε σ ι : Type u} {next : ι → Prog ε σ PUnit} {Ok Ok' : σ → ι → Prop} {s₀ s : σ}

/-- The states reached from `s₀` by events that meet `Ok`. -/
inductive Reach (next : ι → Prog ε σ PUnit) (Ok : σ → ι → Prop) (s₀ : σ) : σ → Prop where
  | refl : Reach next Ok s₀ s₀
  | tail {s s' : σ} {e : ι} (h : Reach next Ok s₀ s) (ok : Ok s e) (he : next e s = .ret ⟨⟩ s') :
    Reach next Ok s₀ s'

/-- What holds at the start and is kept by every event that meets the condition holds in every
state of the run. -/
theorem Reach.invariant {P : σ → Prop} (h₀ : P s₀)
    (hstep : ∀ s e, P s → Ok s e → ensures (next e) (fun _ s' => P s') s)
    (h : Reach next Ok s₀ s) : P s := by
  induction h with
  | refl => exact h₀
  | tail _ ok he ih => exact (hstep _ _ ih ok).of_ret he

/-- A run under a condition is a run under every weaker condition. -/
theorem Reach.mono (hOk : ∀ s e, Ok s e → Ok' s e) (h : Reach next Ok s₀ s) :
    Reach next Ok' s₀ s := by
  induction h with
  | refl => exact .refl
  | tail _ ok he ih => exact .tail ih (hOk _ _ ok) he

/-- A run can go on from where another has ended. -/
theorem Reach.trans {s' : σ} (h : Reach next Ok s₀ s) (h' : Reach next Ok s s') :
    Reach next Ok s₀ s' := by
  induction h' with
  | refl => exact h
  | tail _ ok he ih => exact .tail ih ok he

/-- The invariant rule on top of an invariant that is already known. -/
theorem Reach.invariant_of {I P : σ → Prop} (hI : ∀ s, Reach next Ok s₀ s → I s) (h₀ : P s₀)
    (hstep : ∀ s e, I s → P s → Ok s e → ensures (next e) (fun _ s' => P s') s)
    (h : Reach next Ok s₀ s) : P s := by
  induction h with
  | refl => exact h₀
  | tail h ok he ih => exact (hstep _ _ (hI _ h) ih ok).of_ret he

section Lists

variable [∀ s e, Decidable (Ok s e)]

variable (next Ok) in
/-- Run a list of events, each of which has to meet the condition. -/
def runList : List ι → σ → Option σ
  | [], s => some s
  | e :: es, s =>
    if Ok s e then
      match next e s with
      | .ret _ s' => runList es s'
      | .halt _ _ => none
    else none

/-- The end of a list of events that meet the condition and halt nowhere is reached. -/
theorem reach_runList {es : List ι} {s' : σ} (h : runList next Ok es s = some s')
    (hs : Reach next Ok s₀ s) : Reach next Ok s₀ s' := by
  induction es generalizing s with
  | nil =>
    obtain rfl := Option.some.inj h
    exact hs
  | cons e es ih =>
    rw [runList] at h
    split at h
    · split at h
      · exact ih h (.tail hs ‹_› ‹_›)
      · exact nomatch h
    · exact nomatch h

/-- What holds at the end of a list of events holds in a state that is reached. -/
theorem exists_reach {P : σ → Prop} [DecidablePred P] (es : List ι)
    (h : (runList next Ok es s₀).any (fun s => decide (P s)) = true) :
    ∃ s, Reach next Ok s₀ s ∧ P s := by
  obtain ⟨s, hs, hP⟩ := (Option.any_eq_true _ _).mp h
  exact ⟨s, reach_runList hs .refl, of_decide_eq_true hP⟩

/-- Running a program decides how it returns. -/
instance {ε σ α : Type} {x : Prog ε σ α} {a : α} [DecidableEq α] {P : σ → Prop} [DecidablePred P]
    {s : σ} : Decidable (∃ s', x s = .ret a s' ∧ P s') :=
  match h : x s with
  | .ret b s' => decidable_of_iff (b = a ∧ P s') (by simp [and_assoc])
  | .halt _ _ => .isFalse (by simp)

end Lists

end Ost.Prog
