import Ost.Param.Offers

/-!
# Numbers and bytes in texts

`HexTextToData` reads back what `HexDataToText` has written, and `driver_atoi` what `sprintf` has
made of a byte.  Neither text has a terminator in it, so a pair can carry it.
-/

namespace Ost.Param

open Ost.Iscsi Ost.Util

/-! ## Hexadecimal text -/

/-- The first half of a byte. -/
theorem toNat_shiftRight_lt (n : UInt8) : (n >>> 4).toNat < 16 := by
  have hlt := n.toNat_lt
  rw [UInt8.toNat_shiftRight]
  change n.toNat >>> 4 < 16
  rw [Nat.shiftRight_eq_div_pow]
  omega

/-- The second half of a byte. -/
theorem toNat_and_lt (n : UInt8) : (n &&& 0xf).toNat < 16 := by
  rw [UInt8.toNat_and]
  exact Nat.lt_of_le_of_lt Nat.and_le_right (by decide)

/-- A digit is read back. -/
theorem hexIndex_hexChar {n : UInt8} (hn : n.toNat < 16) : hexIndex (hexChar n) = some n := by
  have hall : ∀ k < 16, hexIndex (hexChar (UInt8.ofNat k)) = some (UInt8.ofNat k) := by decide
  have hback := hall n.toNat hn
  rwa [UInt8.ofNat_toNat] at hback

/-- A digit is not a terminator. -/
theorem hexChar_ne_zero {n : UInt8} (hn : n.toNat < 16) : 0 ≠ hexChar n := by
  have hall : ∀ k < 16, 0 ≠ hexChar (UInt8.ofNat k) := by decide
  have hne := hall n.toNat hn
  rwa [UInt8.ofNat_toNat] at hne

/-- The halves of a byte. -/
theorem halves (n : UInt8) : (n >>> 4) <<< 4 ||| (n &&& 0xf) = n := by
  have hall : ∀ k < 256, (UInt8.ofNat k >>> 4) <<< 4 ||| (UInt8.ofNat k &&& 0xf) =
    UInt8.ofNat k := by
    decide +kernel
  have hsame := hall n.toNat n.toNat_lt
  rwa [UInt8.ofNat_toNat] at hsame

/-- The text has two digits for every byte. -/
inductive HexDigits : CStr → Bytes → Prop
  | /-- No digits for no bytes. -/
    nil : HexDigits [] []
  | /-- The digits of the first byte come first. -/
    cons {c₁ c₂ n₁ n₂ : UInt8} {text : CStr} {data : Bytes} (h₁ : hexIndex c₁ = some n₁)
      (h₂ : hexIndex c₂ = some n₂) (h : HexDigits text data) :
      HexDigits (c₁ :: c₂ :: text) ((n₁ <<< 4 ||| n₂) :: data)

/-- The text encodes the bytes: `0x` or `0X`, and two digits for every byte. -/
def HexText (text : CStr) (data : Bytes) : Prop :=
  ∃ x digits, (x = 120 ∨ x = 88) ∧ text = 48 :: x :: digits ∧ HexDigits digits data

/-- Two digits make a byte. -/
theorem HexDigits.length_eq {text : CStr} {data : Bytes} (h : HexDigits text data) :
    text.length = 2 * data.length := by
  induction h with
  | nil => rfl
  | cons _ _ _ ih =>
    rw [List.length_cons, List.length_cons, List.length_cons, ih]
    omega

theorem HexText.length_eq {text : CStr} {data : Bytes} (h : HexText text data) :
    text.length = 2 * data.length + 2 := by
  obtain ⟨x, digits, -, rfl, hdigits⟩ := h
  rw [List.length_cons, List.length_cons, hdigits.length_eq]

/-- The loop reads the bytes. -/
theorem hexPairs_digits {text : CStr} {data acc : Bytes} {n : Nat} (h : HexDigits text data)
    (hlen : acc.length + data.length ≤ n) (hpos : 0 < acc.length + data.length) :
    hexPairs n text acc = (((acc.length + data.length : Nat) : Int), acc ++ data) := by
  induction h generalizing acc with
  | nil =>
    have hne : acc.length ≠ 0 := by
      rw [List.length_nil, Nat.add_zero] at hpos
      exact Nat.ne_of_gt hpos
    rw [hexPairs, if_neg hne, List.length_nil, Nat.add_zero, List.append_nil]
  | @cons c₁ c₂ n₁ n₂ text data h₁ h₂ h ih =>
    rw [List.length_cons] at hlen hpos ⊢
    have hroom : ¬acc.length ≥ n := by omega
    have hstep := @ih (acc ++ [n₁ <<< 4 ||| n₂])
      (by rw [List.length_append, List.length_singleton]; omega)
      (by rw [List.length_append, List.length_singleton]; omega)
    rw [List.length_append, List.length_singleton, List.append_assoc] at hstep
    rw [hexPairs, h₁, h₂]
    dsimp only
    rw [if_neg hroom, hstep, Nat.add_assoc, Nat.add_comm 1]
    rfl

/-- `HexTextToData` reads an encoding. -/
theorem hexTextToData_hexText {buf : CBuf} {data : Bytes} {n : Nat} (h : HexText buf.str data)
    (hlen : data.length ≤ n) (hpos : 0 < data.length) :
    hexTextToData buf n = ((data.length : Int), data) := by
  have heven : ¬buf.str.length % 2 = 1 := by
    rw [h.length_eq]
    omega
  obtain ⟨x, digits, -, htext, hdigits⟩ := h
  unfold hexTextToData
  rw [if_neg heven, htext]
  have hread := @hexPairs_digits _ _ [] n hdigits
    (by rwa [List.length_nil, Nat.zero_add]) (by rwa [List.length_nil, Nat.zero_add])
  rw [List.length_nil, Nat.zero_add, List.nil_append] at hread
  exact hread

/-- The loop writes no more than there is room for. -/
theorem length_hexPairs_le {n : Nat} (text : CStr) {acc : Bytes} (hacc : acc.length ≤ n) :
    (hexPairs n text acc).2.length ≤ n := by
  fun_induction hexPairs n text acc with
  | case1 acc => exact hacc
  | case2 c acc => exact hacc
  | case3 acc c₁ c₂ text n₁ n₂ h₁ h₂ hfull => exact hacc
  | case4 acc c₁ c₂ text n₁ n₂ h₁ h₂ hroom ih =>
    refine ih ?_
    rw [List.length_append, List.length_singleton]
    omega
  | case5 acc c₁ c₂ text hbad => exact hacc

/-- `HexTextToData` writes no more than there is room for. -/
theorem length_hexTextToData_le (buf : CBuf) (n : Nat) : (hexTextToData buf n).2.length ≤ n := by
  unfold hexTextToData
  dsimp only
  split
  · split
    · exact Nat.zero_le _
    · split
      · exact Nat.zero_le _
      · split
        · exact Nat.zero_le _
        · exact length_hexPairs_le _ (by rw [List.length_singleton]; omega)
  · exact length_hexPairs_le _ (Nat.zero_le _)

/-- `HexDataToText` writes two digits for every byte. -/
theorem hexText_hexDataToText (data : Bytes) : HexText (hexDataToText data) data := by
  refine ⟨120, _, .inl rfl, rfl, ?_⟩
  induction data with
  | nil => exact .nil
  | cons b data ih =>
    have hcons := HexDigits.cons (hexIndex_hexChar (toNat_shiftRight_lt b))
      (hexIndex_hexChar (toNat_and_lt b)) ih
    rwa [halves] at hcons

theorem length_hexDataToText (data : Bytes) : (hexDataToText data).length = 2 * data.length + 2 :=
  (hexText_hexDataToText data).length_eq

/-- `HexTextToData` reads back what `HexDataToText` has written. -/
theorem hexTextToData_hexDataToText {data : Bytes} {n : Nat} (hlen : data.length ≤ n)
    (hpos : 0 < data.length) {buf : CBuf} (hbuf : buf.str = hexDataToText data) :
    hexTextToData buf n = ((data.length : Int), data) :=
  hexTextToData_hexText (hbuf ▸ hexText_hexDataToText data) hlen hpos

/-- A hexadecimal text has no terminator. -/
theorem noNul_hexDataToText (data : Bytes) : 0 ∉ hexDataToText data := by
  simp only [hexDataToText, List.mem_cons, List.mem_flatMap, List.not_mem_nil, not_or, not_exists,
    not_and, not_false_eq_true, and_true]
  exact ⟨by decide, by decide, fun n _ =>
    ⟨hexChar_ne_zero (toNat_shiftRight_lt n), hexChar_ne_zero (toNat_and_lt n)⟩⟩

/-! ## Decimal text -/

/-- `driver_atoi` reads a byte back. -/
theorem driverAtoiByte_decimal (b : UInt8) : driverAtoiByte (decimal b.toNat) = b := by
  have hall : ∀ k < 256, driverAtoiByte (decimal (k : Nat)) = UInt8.ofNat k := by decide +kernel
  rw [hall b.toNat b.toNat_lt, UInt8.ofNat_toNat]

/-- A byte has three digits at most. -/
theorem length_decimal (b : UInt8) : (decimal b.toNat).length ≤ 3 := by
  have hall : ∀ k < 256, (decimal (k : Nat)).length ≤ 3 := by decide +kernel
  exact hall b.toNat b.toNat_lt

end Ost.Param
