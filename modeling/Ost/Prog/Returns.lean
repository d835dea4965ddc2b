import Ost.Prog.Basic

/-!
# When a program returns

`ReturnsIff x C Q s` says when the run of `x` from `s` returns, and how: it returns just when
`C` holds, and then with `Q`.  The rules follow the text of a program, so that one lemma for a
function serves both the proofs that assume that it returned and the proofs that it does.
-/

universe u

namespace Ost.Prog

variable {ε σ α β : Type u} {x : Prog ε σ α} {C C' D : Prop} {Q Q' : α → σ → Prop} {s : σ}

/-- The run of `x` from `s` returns just when `C` holds, and then with `Q`. -/
def ReturnsIff (x : Prog ε σ α) (C : Prop) (Q : α → σ → Prop) (s : σ) : Prop :=
  wp x (fun a s' => C ∧ Q a s') (fun _ _ => ¬C) s

namespace ReturnsIff

/-- What holds of the runs that return. -/
theorem toEnsures (h : ReturnsIff x C Q s) : ensures x (fun a s' => C ∧ Q a s') s :=
  wp_mono h (fun _ _ h => h) fun _ _ _ => trivial

/-- A run under the condition returns. -/
theorem toWp (h : ReturnsIff x C Q s) (hC : C) : wp x Q (fun _ _ => False) s :=
  wp_mono h (fun _ _ h => h.2) fun _ _ h => h hC

/-- The rule of consequence. -/
theorem congr (h : ReturnsIff x C Q s) (hC : C ↔ C') (hQ : ∀ a s', C → Q a s' → Q' a s') :
    ReturnsIff x C' Q' s :=
  wp_mono h (fun a s' h => ⟨hC.mp h.1, hQ a s' h.1 h.2⟩) fun _ _ h h' => h (hC.mpr h')

/-- The rule of consequence for the condition. -/
theorem congr_left (h : ReturnsIff x C Q s) (hC : C ↔ C') : ReturnsIff x C' Q s :=
  h.congr hC fun _ _ _ h => h

/-- The rule of consequence for the postcondition. -/
theorem mono (h : ReturnsIff x C Q s) (hQ : ∀ a s', C → Q a s' → Q' a s') : ReturnsIff x C Q' s :=
  h.congr Iff.rfl hQ

/-- A move of the runs that return. -/
theorem within {R : σ → σ → Prop} (h : ReturnsIff x C Q s) (hx : Within R x) :
    ReturnsIff x C (fun a s' => Q a s' ∧ R s s') s :=
  wp_mono (wp_and h (hx.run s)) (fun _ _ h => ⟨h.1.1, h.1.2, h.2⟩) fun _ _ h => h.1

protected theorem pure {a : α} (h : Q a s) : ReturnsIff (pure a : Prog ε σ α) True Q s :=
  ⟨trivial, h⟩

protected theorem halt (e : ε) : ReturnsIff (halt e : Prog ε σ α) False Q s := id

/-- The rule of sequencing.  The condition of the second stage is one on the state at the start. -/
theorem bind {x : Prog ε σ β} {k : β → Prog ε σ α} {P : β → σ → Prop} (h : ReturnsIff x C P s)
    (hk : ∀ b s', C → P b s' → ReturnsIff (k b) D Q s') : ReturnsIff (x >>= k) (C ∧ D) Q s := by
  refine (wp_bind _ _).mpr (wp_mono h ?_ fun _ _ h hCD => h hCD.1)
  rintro b s' ⟨hC, hP⟩
  exact (hk b s' hC hP).congr (by simp [hC]) fun _ _ _ h => h

/-- A first stage that always returns. -/
theorem bind_of_true {x : Prog ε σ β} {k : β → Prog ε σ α} {P : β → σ → Prop}
    (h : ReturnsIff x True P s) (hk : ∀ b s', P b s' → ReturnsIff (k b) D Q s') :
    ReturnsIff (x >>= k) D Q s :=
  (h.bind fun b s' _ => hk b s').congr_left (by rw [true_and])

/-- The rule of conditionals. -/
theorem ite {c : Prop} [Decidable c] {y : Prog ε σ α} (hx : c → ReturnsIff x C Q s)
    (hy : ¬c → ReturnsIff y D Q s) :
    ReturnsIff (if c then x else y) ((c → C) ∧ (¬c → D)) Q s := by
  by_cases hc : c
  · rw [if_pos hc]
    exact (hx hc).congr_left (by simp [hc])
  · rw [if_neg hc]
    exact (hy hc).congr_left (by simp [hc])

/-- A test that ends the process when it fails. -/
theorem ite_halt {c : Prop} [Decidable c] {e : ε} (hx : ¬c → ReturnsIff x C Q s) :
    ReturnsIff (if c then halt e else x) (¬c ∧ C) Q s :=
  (ite (fun _ => ReturnsIff.halt e) hx).congr_left (by by_cases hc : c <;> simp [hc])

/-- A test that ends the process when it does not hold. -/
theorem ite_else_halt {c : Prop} [Decidable c] {e : ε} (hx : c → ReturnsIff x C Q s) :
    ReturnsIff (if c then x else halt e) (c ∧ C) Q s :=
  (ite hx fun _ => ReturnsIff.halt e).congr_left (by by_cases hc : c <;> simp [hc])

end ReturnsIff

/-- A program that only updates the state returns. -/
theorem returnsIff_modify {f : σ → σ} {Q : PUnit → σ → Prop} (h : Q ⟨⟩ (f s)) :
    ReturnsIff (modify f : Prog ε σ PUnit) True Q s := ⟨trivial, h⟩

/-- Reading a part of the state returns. -/
theorem returnsIff_gets {f : σ → α} (h : Q (f s) s) :
    ReturnsIff (gets f : Prog ε σ α) True Q s := ⟨trivial, h⟩

end Ost.Prog
