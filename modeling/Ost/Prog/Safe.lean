import Ost.Prog.Basic

/-!
# Programs that keep an invariant

`Safe I P x` says that `x` returns from every state with the invariant `I`, that the state then has
the invariant still, and that the value has `P`.  The rule of sequencing hands what is known of the
first value on to the second stage.
-/

universe u

namespace Ost.Prog

variable {ε σ α β : Type u} {I : σ → Prop} {P : α → Prop} {s : σ}

/-- `x` returns a value with `P`, and keeps `I`. -/
structure Safe (I : σ → Prop) (P : α → Prop) (x : Prog ε σ α) : Prop where
  /-- One run. -/
  run : ∀ s, I s → wp x (fun a s' => P a ∧ I s') (fun _ _ => False) s

namespace Safe

protected theorem pure {a : α} (h : P a) : Safe I P (pure a : Prog ε σ α) :=
  ⟨fun _ hs => ⟨h, hs⟩⟩

protected theorem get : Safe I I (get : Prog ε σ σ) := ⟨fun _ hs => ⟨hs, hs⟩⟩

/-- Reading a part of the state. -/
protected theorem gets {f : σ → α} (h : ∀ s, I s → P (f s)) : Safe I P (gets f : Prog ε σ α) :=
  ⟨fun s hs => ⟨h s hs, hs⟩⟩

/-- A program that only updates the state. -/
protected theorem modify {f : σ → σ} (h : ∀ s, I s → I (f s)) :
    Safe I (fun _ => True) (modify f : Prog ε σ PUnit) := ⟨fun s hs => ⟨trivial, h s hs⟩⟩

/-- The rule of sequencing. -/
protected theorem bind {x : Prog ε σ β} {k : β → Prog ε σ α} {Q : β → Prop} (hx : Safe I Q x)
    (hk : ∀ b, Q b → Safe I P (k b)) : Safe I P (x >>= k) where
  run s hs := by
    rw [wp_bind]
    exact wp_mono (hx.run s hs) (fun b s' h => (hk b h.1).run s' h.2) fun _ _ => id

/-- What follows a safe program, with a postcondition that is no invariant. -/
theorem before {x : Prog ε σ β} {k : β → Prog ε σ α} {Q : α → σ → Prop} {E : ε → σ → Prop}
    {R : β → Prop} (hx : Safe I R x) (hs : I s) (hk : ∀ b s', R b → I s' → wp (k b) Q E s') :
    wp (x >>= k) Q E s := by
  rw [wp_bind]
  exact wp_mono (hx.run s hs) (fun b s' h => hk b s' h.1 h.2) fun _ _ => False.elim

/-- The rule of a choice. -/
protected theorem ite {c : Prop} [Decidable c] {x y : Prog ε σ α} (hx : c → Safe I P x)
    (hy : ¬c → Safe I P y) : Safe I P (if c then x else y) := by
  split
  · exact hx ‹_›
  · exact hy ‹_›

/-- The rule of a guard. -/
protected theorem guarded {c : Prop} [Decidable c] {x : Prog ε σ PUnit}
    (hx : Safe I (fun _ => True) x) : Safe I (fun _ => True) (guarded c x) :=
  .ite (fun _ => hx) fun _ => .pure trivial

end Safe

end Ost.Prog
