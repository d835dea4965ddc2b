import Ost.Param.Offers
import Mathlib.Tactic.IntervalCases

/-!
# Numerals

A number is printed with `%i` and read with `iscsi_atoi`, and an `int` comes back as it was.
-/

namespace Ost.Param

open Ost.Iscsi Ost.Util Ost.Prog

/-- The digit of a number. -/
theorem digit?_digitChar {d : Nat} (hd : d < 10) :
    digit? (UInt8.ofNat d.digitChar.toNat) = some d := by
  interval_cases d <;> rfl

/-- A digit is read behind others. -/
theorem leadingNat_append {s : CStr} (hs : ∀ c ∈ s, (digit? c).isSome) {c : UInt8} {d : Nat}
    (hc : digit? c = some d) (k : Nat) : leadingNat (s ++ [c]) k = 10 * leadingNat s k + d := by
  induction s generalizing k with
  | nil =>
    rw [List.nil_append]
    simp only [leadingNat, hc]
  | cons x s ih =>
    obtain ⟨y, hy⟩ := Option.isSome_iff_exists.mp (hs x List.mem_cons_self)
    rw [List.cons_append, leadingNat, leadingNat, hy]
    exact ih (fun c h => hs c (List.mem_cons_of_mem _ h)) _

/-- The numeral of a number: digits, of which there is at least one, and they are read back. -/
theorem leadingNat_repr (n : Nat) : cstr n.repr ≠ [] ∧ (∀ c ∈ cstr n.repr, (digit? c).isSome) ∧
    leadingNat (cstr n.repr) 0 = n := by
  rw [cstr, Nat.toList_repr]
  induction n using Nat.strongRecOn with
  | _ n ih =>
  rw [Nat.toDigits_eq_if (by decide)]
  split
  · have hd := digit?_digitChar ‹n < 10›
    refine ⟨by simp, by simp [hd], ?_⟩
    rw [List.map_singleton, ← List.nil_append [_], leadingNat_append (by simp) hd]
    exact Nat.zero_add n
  · obtain ⟨-, hdigits, hread⟩ := ih (n / 10) (by omega)
    have hd := digit?_digitChar (Nat.mod_lt n (by decide : 0 < 10))
    rw [List.map_append, List.map_singleton]
    refine ⟨by simp, fun c hc => ?_, ?_⟩
    · rcases List.mem_append.mp hc with hc | hc
      · exact hdigits c hc
      · rw [List.mem_singleton.mp hc, hd]
        rfl
    · rw [leadingNat_append hdigits hd, hread]
      omega

/-- A string that begins with a digit is read as its digits. -/
theorem strtol_digits {s : CStr} (hne : s ≠ []) (hs : ∀ c ∈ s, (digit? c).isSome) :
    strtol s = min 9223372036854775807 (leadingNat s 0 : Int) := by
  obtain ⟨c, t, rfl⟩ := List.exists_cons_of_ne_nil hne
  have hc := hs c List.mem_cons_self
  have hrange : 48 ≤ c ∧ c ≤ 57 := by
    unfold digit? at hc
    split at hc
    · assumption
    · exact absurd hc (by simp)
  have hblank : (c == 32 || (9 ≤ c && c ≤ 13)) = false := by
    obtain ⟨h₁, h₂⟩ := hrange
    rw [UInt8.le_iff_toNat_le] at h₁ h₂
    simp [← UInt8.toNat_inj, UInt8.le_iff_toNat_le] at *
    omega
  have hminus : c ≠ 45 := by
    rintro rfl
    exact absurd hrange.1 (by decide)
  have hplus : c ≠ 43 := by
    rintro rfl
    exact absurd hrange.1 (by decide)
  unfold strtol
  dsimp only
  rw [List.dropWhile_cons_of_neg (by simp [hblank])]
  split
  · exact absurd (List.cons.inj ‹_›).1 hminus
  · exact absurd (List.cons.inj ‹_›).1 hplus
  · rfl

/-- A printed number is read back. -/
theorem strtol_decimal {x : Int} (hlo : -2147483648 ≤ x) (hhi : x < 2147483648) :
    strtol (decimal x) = x := by
  cases x with
  | ofNat n =>
    obtain ⟨hne, hdigits, hread⟩ := leadingNat_repr n
    change strtol (cstr n.repr) = _
    rw [strtol_digits hne hdigits, hread]
    change min 9223372036854775807 (n : Int) = (n : Int)
    exact min_eq_right (by change (n : Int) < _ at hhi; omega)
  | negSucc n =>
    obtain ⟨-, -, hread⟩ := leadingNat_repr (n + 1)
    rw [decimal_negSucc]
    change max (-9223372036854775808) (-(leadingNat (cstr (n + 1).repr) 0 : Int)) = _
    rw [hread, max_eq_right (by omega)]
    rfl

/-- A printed `int` has eleven characters at most. -/
theorem length_decimal_le {x : Int} (hlo : -2147483648 ≤ x) (hhi : x < 2147483648) :
    (decimal x).length ≤ 11 := by
  have hrepr {n : Nat} (hn : n ≤ 2147483648) : (cstr n.repr).length ≤ 10 := by
    rw [cstr, List.length_map, Nat.toList_repr]
    exact (Nat.length_toDigits_le_iff (by decide) (by decide)).mpr (by omega)
  cases x with
  | ofNat n =>
    exact (hrepr (n := n) (by change (n : Int) < _ at hhi; omega)).trans (by decide)
  | negSucc n =>
    rw [decimal_negSucc, List.length_cons]
    exact Nat.succ_le_succ (hrepr (by omega))

/-- A printed `int` is read back by `iscsi_atoi`. -/
theorem toInt_iscsiAtoi_decimal {x : Int} (hlo : -2147483648 ≤ x) (hhi : x < 2147483648) :
    toInt (iscsiAtoi (decimal x)) = x := by
  have hpos := Int.emod_nonneg x (by decide : (4294967296 : Int) ≠ 0)
  have hlt := Int.emod_lt_of_pos x (by decide : (0 : Int) < 4294967296)
  rw [toInt, iscsiAtoi, strtol_decimal hlo hhi, wrapInt,
    UInt32.toNat_ofNat_of_lt' (show _ < 4294967296 by omega), Int.toNat_of_nonneg hpos]
  refine (Int.emod_bmod (n := 4294967296) x).trans ?_
  exact Int.bmod_eq_of_le (by omega) (by omega)

/-- An `int`. -/
theorem toInt_bounds (n : UInt32) : -2147483648 ≤ toInt n ∧ toInt n < 2147483648 := by
  have hlo := @Int.le_bmod n.toNat 4294967296 (by decide)
  have hhi := @Int.bmod_lt n.toNat 4294967296 (by decide)
  exact ⟨by rw [toInt, wrapInt]; omega, by rw [toInt, wrapInt]; omega⟩

end Ost.Param
