import Ost.Param.Session

/-!
# Texts of pairs

The text a side sends is a sequence of `key=value` strings, each with its terminator.  The
lexer of `param_text_parse` reads back from it the pairs it was made of, and what it lexes
does not depend on who sent it.
-/

namespace Ost.Param

open Ost.Iscsi Ost.Util Ost.Prog

/-! ## Pairs -/

/-- The text of a sequence of pairs, as `PARAM_TEXT_ADD` appends them. -/
def pairsText : List (CStr × CStr) → Bytes
  | [] => []
  | (k, v) :: T => k ++ 61 :: v ++ [0] ++ pairsText T

@[simp] theorem pairsText_append (T T' : List (CStr × CStr)) :
    pairsText (T ++ T') = pairsText T ++ pairsText T' := by
  induction T with
  | nil => rfl
  | cons kv T ih => simp [pairsText, ih]

/-- A key that a text can carry. -/
structure KeyOk (k : CStr) : Prop where
  noNul : 0 ∉ k
  noEq : 61 ∉ k
  short : k.length < iscsiParamKeyLen - 1

instance (k : CStr) : Decidable (KeyOk k) :=
  decidable_of_iff (0 ∉ k ∧ 61 ∉ k ∧ k.length < iscsiParamKeyLen - 1)
    ⟨fun h => ⟨h.1, h.2.1, h.2.2⟩, fun h => ⟨h.1, h.2, h.3⟩⟩

/-- A pair that a text can carry. -/
def PairOk (kv : CStr × CStr) : Prop := KeyOk kv.1 ∧ 0 ∉ kv.2

/-- The lexer reads on over a string. -/
theorem tokensFrom_append {s : CStr} (hs : 0 ∉ s) (cur : CStr) (text : Bytes) :
    tokensFrom cur (s ++ text) = tokensFrom (cur ++ s) text := by
  induction s generalizing cur with
  | nil => simp
  | cons c s ih =>
    obtain ⟨hc, hs⟩ := not_or.mp fun h => hs (List.mem_cons.mpr h)
    have step : tokensFrom cur (c :: (s ++ text)) = tokensFrom (cur ++ [c]) (s ++ text) :=
      tokensFrom.eq_5 _ _ _ (fun _ h => hc h.symm) fun _ _ _ h => hc h.symm
    rw [List.cons_append, step, ih hs, List.append_assoc]
    rfl

/-- The lexer ends a token at a terminator. -/
theorem tokensFrom_nul {cur : CStr} (hcur : cur ≠ []) (text : Bytes) :
    tokensFrom cur (0 :: text) = cur :: tokensFrom [] text := by
  cases cur with
  | nil => exact absurd rfl hcur
  | cons c cur => rw [tokensFrom]

/-- The tokens of a text of pairs. -/
theorem textTokens_pairsText {T : List (CStr × CStr)} (hT : ∀ kv ∈ T, PairOk kv) :
    textTokens (pairsText T) = T.map fun kv => kv.1 ++ 61 :: kv.2 := by
  induction T with
  | nil => rfl
  | cons kv T ih =>
    obtain ⟨hk, hv⟩ := hT _ List.mem_cons_self
    have hs : 0 ∉ kv.1 ++ 61 :: kv.2 := by
      simp only [List.mem_append, List.mem_cons, not_or]
      exact ⟨hk.noNul, by decide, hv⟩
    change tokensFrom [] ((kv.1 ++ 61 :: kv.2) ++ [0] ++ pairsText T) = _
    rw [List.append_assoc, tokensFrom_append hs]
    change tokensFrom (kv.1 ++ 61 :: kv.2) (0 :: pairsText T) = _
    rw [tokensFrom_nul (by simp)]
    exact congrArg _ (ih fun kv h => hT kv (List.mem_cons_of_mem _ h))

/-- A token is split behind its key. -/
theorem splitEq_pair {k : CStr} (hk : 61 ∉ k) (v : CStr) :
    splitEq (k ++ 61 :: v) = some (k, v) := by
  induction k with
  | nil => rfl
  | cons c k ih =>
    obtain ⟨hc, hk⟩ := not_or.mp fun h => hk (List.mem_cons.mpr h)
    have step : splitEq (c :: (k ++ 61 :: v)) =
        (splitEq (k ++ 61 :: v)).map fun kv => (c :: kv.1, kv.2) := by
      rw [splitEq]
      exact fun h => hc h.symm
    rw [List.cons_append, step, ih hk]
    rfl

/-- The items of a text of pairs are the pairs. -/
theorem textItems_pairsText (env : Env) {T : List (CStr × CStr)} (hT : ∀ kv ∈ T, PairOk kv) :
    textItems env (pairsText T) = T.map fun kv => .pair kv.1 (some kv.2) := by
  rw [textItems, textTokens_pairsText hT]
  generalize env.staleKey = key
  generalize (none : Option CStr) = value
  induction T generalizing key value with
  | nil => rfl
  | cons kv T ih =>
    obtain ⟨hk, -⟩ := hT _ List.mem_cons_self
    rw [List.map_cons, itemsFrom, splitEq_pair hk.noEq]
    refine (if_neg (Nat.not_le.mpr hk.short)).trans ?_
    exact congrArg _ (ih (fun kv h => hT kv (List.mem_cons_of_mem _ h)) _ _)

/-- `param_text_print` copes with a text of pairs. -/
theorem textPrintOverruns_pairsText {T : List (CStr × CStr)} (hT : ∀ kv ∈ T, PairOk kv) :
    textPrintOverruns (textTokens (pairsText T)) = false := by
  rw [textTokens_pairsText hT]
  induction T with
  | nil => rfl
  | cons kv T ih =>
    obtain ⟨hk, -⟩ := hT _ List.mem_cons_self
    have hlen : ¬ kv.1.length ≥ 256 := by
      have := hk.short
      simp only [iscsiParamKeyLen] at this
      omega
    rw [List.map_cons, textPrintOverruns, splitEq_pair hk.noEq]
    simp only [decide_eq_false hlen, Bool.false_or]
    exact ih fun kv h => hT kv (List.mem_cons_of_mem _ h)

/-! ## Values without a terminator -/

/-- The pieces of a string have no bytes of their own. -/
theorem mem_commaFrom {c : UInt8} {s piece : CStr} : ∀ {cur : CStr},
    piece ∈ commaFrom cur s → c ∈ piece → c ∈ cur ∨ c ∈ s := by
  induction s with
  | nil =>
    intro cur hp hc
    rw [commaFrom, List.mem_singleton] at hp
    exact .inl (hp ▸ hc)
  | cons d s ih =>
    intro cur hp hc
    by_cases hd : d = 44
    · subst hd
      rcases List.mem_cons.mp hp with rfl | hp
      · exact .inl hc
      · exact .inr (List.mem_cons_of_mem _ ((ih hp hc).resolve_left List.not_mem_nil))
    · rw [commaFrom.eq_3 _ _ _ fun h => hd h] at hp
      rcases ih hp hc with h | h
      · rcases List.mem_append.mp h with h | h
        · exact .inl h
        · exact .inr (List.mem_singleton.mp h ▸ List.mem_cons_self)
      · exact .inr (List.mem_cons_of_mem _ h)

/-- The digits of a number are not terminators. -/
theorem noNul_digits (n : Nat) : 0 ∉ cstr n.repr := by
  intro h
  obtain ⟨c, hc, h0⟩ := List.mem_map.mp h
  rw [Nat.toList_repr] at hc
  have hd := Nat.isDigit_of_mem_toDigits (by decide) (by decide) hc
  simp only [Char.isDigit, Bool.and_eq_true, decide_eq_true_eq] at hd
  have hlo : 48 ≤ c.toNat := hd.1
  have hhi : c.toNat ≤ 57 := hd.2
  have h0' : c.toNat % 256 = 0 := congrArg UInt8.toNat h0
  omega

/-- A negative number is printed with its sign. -/
theorem decimal_negSucc (n : Nat) : decimal (Int.negSucc n) = 45 :: cstr (n + 1).repr := by
  have hs : toString (Int.negSucc n) = "-" ++ (n + 1).repr := rfl
  rw [decimal, hs, cstr, String.toList_append, List.map_append]
  rfl

/-- A decimal number has no terminator. -/
theorem noNul_decimal (x : Int) : 0 ∉ decimal x := by
  cases x with
  | ofNat n => exact noNul_digits n
  | negSucc n =>
    rw [decimal_negSucc, List.mem_cons, not_or]
    exact ⟨by decide, noNul_digits _⟩

end Ost.Param
