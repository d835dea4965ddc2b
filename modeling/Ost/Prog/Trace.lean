import Mathlib.Data.List.Basic
import Ost.Prog.Basic

/-!
# Operations, results and specifications

A component answers operations one after another.  `trace step ops s` are the operations with their
results, and `Allows Spec` says of such a list that an abstract machine, which need not be
deterministic, can give the same results.  A refinement relation that every operation keeps makes
every trace of the component one of the specification.

`calls` is the same for operations that may halt.  There the relation may depend on the calls that
are still to come, so that it can say what they will need.
-/

universe u v w x

namespace Ost.Prog

variable {σ : Type u} {τ : Type v} {ι : Type w} {ρ : Type x}

/-- The operations with their results, and the state afterwards. -/
def trace (step : ι → σ → ρ × σ) : List ι → σ → List (ι × ρ) × σ
  | [], s => ([], s)
  | i :: ops, s => ((i, (step i s).1) :: (trace step ops (step i s).2).1,
      (trace step ops (step i s).2).2)

/-- The abstract machine gives the results. -/
inductive Runs (Spec : τ → ι → ρ → τ → Prop) : τ → List (ι × ρ) → τ → Prop
  | nil (t : τ) : Runs Spec t [] t
  | cons {t t₁ t₂ : τ} {i : ι} {r : ρ} {l : List (ι × ρ)} (h : Spec t i r t₁)
      (hl : Runs Spec t₁ l t₂) : Runs Spec t ((i, r) :: l) t₂

variable {step : ι → σ → ρ × σ} {Spec : τ → ι → ρ → τ → Prop} {R : σ → τ → Prop} {s : σ} {t : τ}

/-- The rule of refinement. -/
theorem runs_trace (h : ∀ i s t, R s t → ∃ t', Spec t i (step i s).1 t' ∧ R (step i s).2 t')
    (ops : List ι) (hst : R s t) :
    ∃ t', Runs Spec t (trace step ops s).1 t' ∧ R (trace step ops s).2 t' := by
  induction ops generalizing s t with
  | nil => exact ⟨t, .nil t, hst⟩
  | cons i ops ih =>
    obtain ⟨t₁, hspec, hst₁⟩ := h i s t hst
    obtain ⟨t₂, hruns, hst₂⟩ := ih hst₁
    exact ⟨t₂, .cons hspec hruns, hst₂⟩

/-! ## Operations that may halt -/

section Calls

variable {ε σ ι ρ : Type u} {τ : Type v} {call : ι → Prog ε σ ρ} {Spec : τ → ι → ρ → τ → Prop}
  {s : σ} {t : τ}

/-- The calls, one after another, with their results. -/
def calls (call : ι → Prog ε σ ρ) : List ι → Prog ε σ (List (ι × ρ))
  | [] => return []
  | i :: ops => do
    let r ← call i
    return (i, r) :: (← calls call ops)

/-- Every call is made in a state with `P`. -/
def Along (P : ι → σ → Prop) (call : ι → Prog ε σ ρ) : List ι → σ → Prop
  | [], _ => True
  | i :: ops, s => P i s ∧ ensures (call i) (fun _ s' => Along P call ops s') s

theorem calls_cons {i : ι} {r : ρ} {s' : σ} (h : call i s = .ret r s') (ops : List ι) :
    calls call (i :: ops) s =
      (do return (i, r) :: (← calls call ops) : Prog ε σ (List (ι × ρ))) s' := by
  rw [calls, bind_apply, h]

/-- What every call keeps is kept by all of them. -/
instance within_calls {R : σ → σ → Prop} [IsPreorder σ R] (call : ι → Prog ε σ ρ)
    [h : ∀ i, Within R (call i)] (ops : List ι) : Within R (calls call ops) := by
  induction ops with
  | nil => exact within_pure _
  | cons i ops ih =>
    rw [calls]
    infer_instance

/-- What every call that is made in a state with `P` keeps holds before each of them, and at the
end. -/
theorem along_calls {P : ι → σ → Prop} {I : σ → Prop}
    (h : ∀ i s, P i s → I s → ensures (call i) (fun _ s' => I s') s) {ops : List ι}
    (hP : Along P call ops s) (hs : I s) :
    Along (fun _ s => I s) call ops s ∧ ensures (calls call ops) (fun _ s' => I s') s := by
  induction ops generalizing s with
  | nil => exact ⟨trivial, hs⟩
  | cons i ops ih =>
    have hcall := wp_and (h i s hP.1 hs) hP.2
    refine ⟨⟨hs, wp_mono hcall (fun r s' h => (ih h.2 h.1).1) fun _ _ _ => trivial⟩, ?_⟩
    rw [calls]
    refine (wp_bind _ _).mpr (wp_mono hcall (fun r s' h => ?_) fun _ _ _ => trivial)
    exact (ih h.2 h.1).2.bind fun _ _ hs' => hs'

/-- What holds of every call and every state holds along all of them. -/
theorem along_of_forall {P : ι → σ → Prop} (h : ∀ i s, P i s) (ops : List ι) :
    Along P call ops s := by
  induction ops generalizing s with
  | nil => trivial
  | cons i ops ih => exact ⟨h i s, (ensures_true _ s).mono fun _ _ _ => ih⟩

/-- The rule of refinement for calls. -/
theorem runs_calls {R : List ι → σ → τ → Prop}
    (h : ∀ i ops s t, R (i :: ops) s t →
      ∃ r s' t', call i s = .ret r s' ∧ Spec t i r t' ∧ R ops s' t')
    {ops : List ι} (hst : R ops s t) :
    ∃ l s' t', calls call ops s = .ret l s' ∧ Runs Spec t l t' ∧ R [] s' t' := by
  induction ops generalizing s t with
  | nil => exact ⟨[], s, t, rfl, .nil t, hst⟩
  | cons i ops ih =>
    obtain ⟨r, s₁, t₁, hcall, hspec, hst₁⟩ := h i ops s t hst
    obtain ⟨l, s₂, t₂, hrun, hruns, hst₂⟩ := ih hst₁
    refine ⟨(i, r) :: l, s₂, t₂, ?_, .cons hspec hruns, hst₂⟩
    rw [calls_cons hcall, bind_apply, hrun]
    rfl

end Calls

end Ost.Prog
