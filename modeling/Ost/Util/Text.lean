import Mathlib.Data.List.Basic
import Mathlib.Data.List.Infix
import Mathlib.Tactic.IntervalCases

/-!
# Printed numbers, path names and shell patterns

A store that names its files by printing numbers keeps them apart only as far as the printed
names differ.  Here is what that rests on: a numeral determines its number, a numeral has no
separators in it, and so a name built from numerals and separators determines all of them.

A pattern `prefix*` of the shell is another matter: it matches the names that the prefix begins.
-/

namespace Ost.Util

/-- A name, as the list of its characters. -/
abbrev Text := List Char

/-! ## Numerals -/

/-- `%x` with `0x` in front. -/
def hex (n : Nat) : Text := '0' :: 'x' :: Nat.toDigits 16 n

/-- `%u`. -/
def dec (n : Nat) : Text := Nat.toDigits 10 n

/-- A digit determines its value. -/
theorem digitChar_inj {a b : Nat} (ha : a < 16) (hb : b < 16) (h : a.digitChar = b.digitChar) :
    a = b := by
  have all : ∀ a : Fin 16, ∀ b : Fin 16, Nat.digitChar a = Nat.digitChar b → a = b := by decide
  exact congrArg Fin.val (all ⟨a, ha⟩ ⟨b, hb⟩ h)

/-- A numeral determines its number. -/
theorem toDigits_inj {b : Nat} (hb : 1 < b) (hb' : b ≤ 16) {m n : Nat}
    (h : Nat.toDigits b m = Nat.toDigits b n) : m = n := by
  induction m using Nat.strongRecOn generalizing n with
  | _ m ih =>
  rw [Nat.toDigits_eq_if hb, Nat.toDigits_eq_if hb (n := n)] at h
  have hm := Nat.mod_lt m (by omega : 0 < b)
  have hn := Nat.mod_lt n (by omega : 0 < b)
  split_ifs at h with h₁ h₂ h₂
  · exact digitChar_inj (by omega) (by omega) (List.singleton_inj.mp h)
  · have hlen := congrArg List.length h
    simp at hlen
  · have hlen := congrArg List.length h
    simp at hlen
  · obtain ⟨hq, hr⟩ := List.append_inj' h rfl
    have hdiv := ih (m / b) (Nat.div_lt_self (by omega) hb) hq
    have hmod := digitChar_inj (by omega) (by omega) (List.singleton_inj.mp hr)
    rw [← Nat.div_add_mod m b, ← Nat.div_add_mod n b, hdiv, hmod]

/-- What a numeral consists of. -/
theorem mem_toDigits {b : Nat} (hb : 1 < b) (n : Nat) {c : Char} (h : c ∈ Nat.toDigits b n) :
    ∃ d < b, c = d.digitChar := by
  induction n using Nat.strongRecOn with
  | _ n ih =>
  rw [Nat.toDigits_eq_if hb] at h
  split_ifs at h with hn
  · exact ⟨n, hn, List.mem_singleton.mp h⟩
  · rcases List.mem_append.mp h with h | h
    · exact ih (n / b) (Nat.div_lt_self (by omega) hb) h
    · exact ⟨n % b, Nat.mod_lt n (by omega), List.mem_singleton.mp h⟩

/-- The characters that structure a path or a pattern. -/
def Separator (c : Char) : Prop := c = '/' ∨ c = '.' ∨ c = '*'

/-- A digit is not a separator. -/
theorem not_separator_digitChar {d : Nat} (hd : d < 16) : ¬Separator d.digitChar := by
  unfold Separator
  interval_cases d <;> decide

/-- A numeral has no separators. -/
theorem not_mem_toDigits {b : Nat} (hb : 1 < b) (hb' : b ≤ 16) (n : Nat) {c : Char}
    (hc : Separator c) : c ∉ Nat.toDigits b n := by
  intro h
  obtain ⟨d, hd, rfl⟩ := mem_toDigits hb n h
  exact not_separator_digitChar (by omega) hc

theorem hex_inj {m n : Nat} (h : hex m = hex n) : m = n :=
  toDigits_inj (by decide) (by decide) (List.cons.inj (List.cons.inj h).2).2

theorem dec_inj {m n : Nat} (h : dec m = dec n) : m = n :=
  toDigits_inj (by decide) (by decide) h

theorem not_mem_hex (n : Nat) {c : Char} (hc : Separator c) : c ∉ hex n := by
  intro h
  rcases List.mem_cons.mp h with rfl | h
  · exact absurd hc (by unfold Separator; decide)
  · rcases List.mem_cons.mp h with rfl | h
    · exact absurd hc (by unfold Separator; decide)
    · exact not_mem_toDigits (by decide) (by decide) n hc h

theorem not_mem_dec (n : Nat) {c : Char} (hc : Separator c) : c ∉ dec n :=
  not_mem_toDigits (by decide) (by decide) n hc

/-! ## Separators -/

/-- What stands in front of the first separator, and what stands behind it. -/
theorem append_sep_inj {c : Char} {a a' r r' : Text} (ha : c ∉ a) (ha' : c ∉ a')
    (h : a ++ c :: r = a' ++ c :: r') : a = a' ∧ r = r' := by
  induction a generalizing a' with
  | nil =>
    cases a' with
    | nil => exact ⟨rfl, (List.cons.inj h).2⟩
    | cons x a' => exact absurd (List.mem_cons.mpr (.inl (List.cons.inj h).1)) ha'
  | cons x a ih =>
    cases a' with
    | nil => exact absurd (List.mem_cons.mpr (.inl (List.cons.inj h).1.symm)) ha
    | cons y a' =>
      obtain ⟨rfl, htail⟩ := List.cons.inj h
      obtain ⟨rfl, hr⟩ := ih (fun h => ha (List.mem_cons_of_mem _ h))
        (fun h => ha' (List.mem_cons_of_mem _ h)) htail
      exact ⟨rfl, hr⟩

/-- A text without a separator that begins a separated text begins its first part. -/
theorem prefix_of_prefix_append_sep {c : Char} {a b r : Text} (ha : c ∉ a)
    (h : a <+: b ++ c :: r) : a <+: b := by
  by_cases hlen : a.length ≤ b.length
  · exact List.prefix_of_prefix_length_le h (List.prefix_append _ _) hlen
  · have htake : c ∈ (b ++ c :: r).take a.length := by
      rw [List.take_append, List.mem_append]
      refine .inr ?_
      obtain ⟨n, hn⟩ : ∃ n, a.length - b.length = n + 1 := ⟨a.length - b.length - 1, by omega⟩
      rw [hn, List.take_succ_cons]
      exact List.mem_cons_self
    rw [← List.prefix_iff_eq_take.mp h] at htake
    exact absurd htake ha

/-- The directory part of a path: what stands in front of the last slash. -/
def dirname (p : Text) : Text := ((p.reverse.dropWhile (· ≠ '/')).drop 1).reverse

/-- The directory of a path that was put together with a slash. -/
theorem dirname_append (d : Text) {f : Text} (hf : '/' ∉ f) : dirname (d ++ '/' :: f) = d := by
  have hdrop : ∀ (r s : Text), '/' ∉ r → (r ++ '/' :: s).dropWhile (· ≠ '/') = '/' :: s := by
    intro r s hr
    induction r with
    | nil => simp
    | cons x r ih =>
      have hx : x ≠ '/' := fun h => hr (List.mem_cons.mpr (.inl h.symm))
      have hr' : '/' ∉ r := fun h => hr (List.mem_cons_of_mem _ h)
      rw [List.cons_append, List.dropWhile_cons_of_pos (by simpa using hx)]
      exact ih hr'
  have hrev : (d ++ '/' :: f).reverse = f.reverse ++ '/' :: d.reverse := by simp
  rw [dirname, hrev, hdrop _ _ (by simpa using hf)]
  simp

/-! ## Patterns -/

/-- Whether `k` holds of the text behind some first part without a slash. -/
def afterStar (k : Text → Bool) : Text → Bool
  | [] => k []
  | c :: s => k (c :: s) || (c ≠ '/' && afterStar k s)

/-- Whether a pattern of the shell matches a path.  A star stands for any text without a slash,
and every other character for itself. -/
def globMatch : Text → Text → Bool
  | [], s => s.isEmpty
  | p :: ps, s =>
    if p = '*' then afterStar (globMatch ps) s
    else
      match s with
      | [] => false
      | c :: s => c = p && globMatch ps s

/-- A star at the end of a pattern stands for any text without a slash. -/
theorem globMatch_star (s : Text) : globMatch ['*'] s = true ↔ '/' ∉ s := by
  change afterStar List.isEmpty s = true ↔ _
  induction s with
  | nil => simp [afterStar]
  | cons c s ih =>
    rw [afterStar, Bool.or_eq_true, Bool.and_eq_true, ih, List.mem_cons, not_or, decide_eq_true_iff]
    constructor
    · rintro (h | ⟨hc, hs⟩)
      · exact nomatch h
      · exact ⟨fun h => hc h.symm, hs⟩
    · rintro ⟨hc, hs⟩
      exact .inr ⟨fun h => hc h.symm, hs⟩

/-- A pattern `prefix*` matches the paths that the prefix begins and that stay in its directory. -/
theorem globMatch_append_star {p : Text} (hp : '*' ∉ p) (s : Text) :
    globMatch (p ++ ['*']) s = true ↔ ∃ t, s = p ++ t ∧ '/' ∉ t := by
  induction p generalizing s with
  | nil =>
    rw [List.nil_append, globMatch_star]
    exact ⟨fun h => ⟨s, rfl, h⟩, fun ⟨t, e, h⟩ => e ▸ h⟩
  | cons x p ih =>
    have hx : x ≠ '*' := fun h => hp (List.mem_cons.mpr (.inl h.symm))
    have hp' : '*' ∉ p := fun h => hp (List.mem_cons_of_mem _ h)
    cases s with
    | nil => simp [globMatch, hx]
    | cons c s =>
      rw [List.cons_append, globMatch.eq_def]
      simp only [if_neg hx, Bool.and_eq_true, decide_eq_true_iff, ih hp']
      constructor
      · rintro ⟨rfl, t, rfl, ht⟩
        exact ⟨t, rfl, ht⟩
      · rintro ⟨t, e, ht⟩
        obtain ⟨rfl, rfl⟩ := List.cons.inj e
        exact ⟨rfl, t, rfl, ht⟩

end Ost.Util
