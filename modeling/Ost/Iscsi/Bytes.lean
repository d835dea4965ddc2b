import Mathlib.Data.List.Basic
import Mathlib.Tactic.IntervalCases

/-!
# Byte strings and big-endian fields

The iSCSI basic header segment is 48 bytes of big-endian fields that the code reads
and writes through casted pointers.  This file has the reads (`byte`, `be16`, `be24`,
`be32`), the stores (`put8`, `put16`, `put32`), and the lemmas that say which read sees
which store.
-/

namespace Ost.Iscsi

/-- A byte string. -/
abbrev Bytes := List UInt8

/-- The byte at offset `i`. -/
def byte (h : Bytes) (i : Nat) : UInt8 := h.getD i 0

/-- The two bytes at offset `i` in network order. -/
def be16 (h : Bytes) (i : Nat) : Nat := (byte h i).toNat * 256 + (byte h (i + 1)).toNat

/-- The three bytes at offset `i` in network order. -/
def be24 (h : Bytes) (i : Nat) : Nat := be16 h i * 256 + (byte h (i + 2)).toNat

/-- The four bytes at offset `i` in network order: `NTOHL(*((unsigned *)(h+i)))`. -/
def be32 (h : Bytes) (i : Nat) : UInt32 := UInt32.ofNat (be24 h i * 256 + (byte h (i + 3)).toNat)

/-- Eight bytes in network order: `NTOHLL(*((uint64_t *)(h+i)))`. -/
def be64 (h : Bytes) (i : Nat) : UInt64 :=
  UInt64.ofNat ((be32 h i).toNat * 4294967296 + (be32 h (i + 4)).toNat)

/-- Store a byte at offset `i`. -/
def put8 (h : Bytes) (i : Nat) (b : UInt8) : Bytes := h.set i b

/-- Store two bytes in network order at offset `i`. -/
def put16 (h : Bytes) (i : Nat) (x : Nat) : Bytes :=
  put8 (put8 h i (UInt8.ofNat (x / 256))) (i + 1) (UInt8.ofNat x)

/-- Store four bytes in network order at offset `i`: `*((unsigned *)(h+i)) = HTONL(x)`. -/
def put32 (h : Bytes) (i : Nat) (x : UInt32) : Bytes :=
  put16 (put16 h i (x.toNat / 65536)) (i + 2) x.toNat

/-- Store eight bytes in network order at offset `i`: `*((uint64_t *)(h+i)) = HTONLL(x)`. -/
def put64 (h : Bytes) (i : Nat) (x : Nat) : Bytes :=
  put32 (put32 h i (UInt32.ofNat (x / 4294967296))) (i + 4) (UInt32.ofNat x)

/-- Copy bytes to offset `i`: `memcpy(h + i, b, b.length)`. -/
def putBytes (h : Bytes) (i : Nat) (b : Bytes) : Bytes := h.take i ++ b ++ h.drop (i + b.length)

@[simp] theorem length_put8 (h : Bytes) (i : Nat) (b : UInt8) :
    (put8 h i b).length = h.length := List.length_set

@[simp] theorem length_put16 (h : Bytes) (i x : Nat) : (put16 h i x).length = h.length := by
  simp [put16]

@[simp] theorem length_put32 (h : Bytes) (i : Nat) (x : UInt32) :
    (put32 h i x).length = h.length := by
  simp [put32]

/-- A byte read sees a byte store at the same offset. -/
@[simp] theorem byte_put8_self {h : Bytes} {i : Nat} (b : UInt8) (hi : i < h.length) :
    byte (put8 h i b) i = b := by
  simp [byte, put8, List.getD_eq_getElem?_getD, hi]

/-- A byte read does not see a store elsewhere. -/
@[simp] theorem byte_put8_of_ne {h : Bytes} {i j : Nat} (b : UInt8) (hij : i ≠ j) :
    byte (put8 h i b) j = byte h j := by
  simp [byte, put8, List.getD_eq_getElem?_getD, List.getElem?_set_ne hij]

/-- Storing what is there changes nothing. -/
@[simp] theorem put8_eq_self {h : Bytes} {i : Nat} {b : UInt8} (hb : byte h i = b) :
    put8 h i b = h := by
  apply List.ext_getElem? 
  intro j
  rw [put8, List.getElem?_set]
  split
  · subst hb
    rename_i hij
    subst hij
    by_cases hi : i < h.length
    · simp [byte, List.getD_eq_getElem?_getD, hi]
    · simp [hi]
  · rfl

@[simp] theorem byte_put16_of_ne {h : Bytes} {i j : Nat} (x : Nat) (hij : j < i ∨ i + 2 ≤ j) :
    byte (put16 h i x) j = byte h j := by
  unfold put16
  rw [byte_put8_of_ne _ (by omega), byte_put8_of_ne _ (by omega)]

@[simp] theorem byte_put32_of_ne {h : Bytes} {i j : Nat} (x : UInt32) (hij : j < i ∨ i + 4 ≤ j) :
    byte (put32 h i x) j = byte h j := by
  unfold put32
  rw [byte_put16_of_ne _ (by omega), byte_put16_of_ne _ (by omega)]

theorem be16_lt (h : Bytes) (i : Nat) : be16 h i < 65536 := by
  have h₀ := (byte h i).toNat_lt
  have h₁ := (byte h (i + 1)).toNat_lt
  unfold be16
  omega

theorem be24_lt (h : Bytes) (i : Nat) : be24 h i < 16777216 := by
  have h₀ := be16_lt h i
  have h₁ := (byte h (i + 2)).toNat_lt
  unfold be24
  omega

/-- The number a four-byte field holds. -/
theorem be32_toNat (h : Bytes) (i : Nat) :
    (be32 h i).toNat = be24 h i * 256 + (byte h (i + 3)).toNat := by
  have h₀ := be24_lt h i
  have h₁ := (byte h (i + 3)).toNat_lt
  unfold be32
  rw [UInt32.toNat_ofNat']
  omega

/-- A two-byte read sees a two-byte store at the same offset. -/
@[simp] theorem be16_put16_self {h : Bytes} {i : Nat} (x : Nat) (hi : i + 2 ≤ h.length) :
    be16 (put16 h i x) i = x % 65536 := by
  have h₀ : byte (put16 h i x) i = UInt8.ofNat (x / 256) := by
    unfold put16
    rw [byte_put8_of_ne _ (by omega), byte_put8_self _ (by omega)]
  have h₁ : byte (put16 h i x) (i + 1) = UInt8.ofNat x := by
    unfold put16
    rw [byte_put8_self _ (by simp; omega)]
  rw [be16, h₀, h₁, UInt8.toNat_ofNat', UInt8.toNat_ofNat']
  omega

/-- A two-byte read does not see a two-byte store outside it. -/
@[simp] theorem be16_put16_of_ne {h : Bytes} {i j : Nat} (x : Nat) (hij : i + 2 ≤ j ∨ j + 2 ≤ i) :
    be16 (put16 h i x) j = be16 h j := by
  unfold be16
  rw [byte_put16_of_ne _ (by omega), byte_put16_of_ne _ (by omega)]

/-- A word is its two halves. -/
theorem be32_toNat_be16 (h : Bytes) (i : Nat) :
    (be32 h i).toNat = be16 h i * 65536 + be16 h (i + 2) := by
  rw [be32_toNat]
  simp only [be24, be16, Nat.add_assoc, Nat.reduceAdd]
  omega

/-- A word read sees a word store at the same offset. -/
@[simp] theorem be32_put32_self {h : Bytes} {i : Nat} (x : UInt32) (hi : i + 4 ≤ h.length) :
    be32 (put32 h i x) i = x := by
  have hx := x.toNat_lt
  apply UInt32.toNat_inj.mp
  rw [be32_toNat_be16]
  unfold put32
  rw [be16_put16_of_ne _ (by omega), be16_put16_self _ (by omega),
    be16_put16_self _ (by simp; omega)]
  omega

/-- A word read does not see a byte store outside it. -/
@[simp] theorem be32_put8_of_ne {h : Bytes} {i j : Nat} (b : UInt8) (hij : i < j ∨ j + 4 ≤ i) :
    be32 (put8 h i b) j = be32 h j := by
  unfold be32 be24 be16
  simp only [byte_put8_of_ne b (show i ≠ j by omega), byte_put8_of_ne b (show i ≠ j + 1 by omega),
    byte_put8_of_ne b (show i ≠ j + 2 by omega), byte_put8_of_ne b (show i ≠ j + 3 by omega)]

/-- A word read does not see a two-byte store outside it. -/
@[simp] theorem be32_put16_of_ne {h : Bytes} {i j : Nat} (x : Nat) (hij : i + 2 ≤ j ∨ j + 4 ≤ i) :
    be32 (put16 h i x) j = be32 h j := by
  unfold put16
  rw [be32_put8_of_ne _ (by omega), be32_put8_of_ne _ (by omega)]

/-- A word read does not see a word store outside it. -/
@[simp] theorem be32_put32_of_ne {h : Bytes} {i j : Nat} (x : UInt32)
    (hij : i + 4 ≤ j ∨ j + 4 ≤ i) : be32 (put32 h i x) j = be32 h j := by
  unfold put32
  rw [be32_put16_of_ne _ (by omega), be32_put16_of_ne _ (by omega)]

/-- A word read does not see an overlapping store of zeros over zeros. -/
@[simp] theorem be32_put16_zero {h : Bytes} {i : Nat} (hi : i + 4 ≤ h.length)
    (hz : be16 h (i + 2) = 0) : be32 (put16 h i 0) i = 0 := by
  apply UInt32.toNat_inj.mp
  rw [be32_toNat_be16, be16_put16_self _ (by omega), be16_put16_of_ne _ (by omega), hz]
  rfl

/-- A two-byte read does not see a byte store outside it. -/
@[simp] theorem be16_put8_of_ne {h : Bytes} {i j : Nat} (b : UInt8) (hij : i < j ∨ j + 2 ≤ i) :
    be16 (put8 h i b) j = be16 h j := by
  simp only [be16, byte_put8_of_ne b (show i ≠ j by omega),
    byte_put8_of_ne b (show i ≠ j + 1 by omega)]

/-- A two-byte read does not see a word store outside it. -/
@[simp] theorem be16_put32_of_ne {h : Bytes} {i j : Nat} (x : UInt32)
    (hij : i + 4 ≤ j ∨ j + 2 ≤ i) : be16 (put32 h i x) j = be16 h j := by
  simp only [be16, byte_put32_of_ne x (show j < i ∨ i + 4 ≤ j by omega),
    byte_put32_of_ne x (show j + 1 < i ∨ i + 4 ≤ j + 1 by omega)]

/-- A two-byte read sees the low half of a word store. -/
@[simp] theorem be16_put32_low {h : Bytes} {i j : Nat} (x : UInt32) (hi : i + 4 ≤ h.length)
    (hj : j = i + 2) : be16 (put32 h i x) j = x.toNat % 65536 := by
  subst hj
  unfold put32
  rw [be16_put16_self _ (by simp; omega)]

/-- A three-byte read does not see a byte store outside it. -/
@[simp] theorem be24_put8_of_ne {h : Bytes} {i j : Nat} (b : UInt8) (hij : i < j ∨ j + 3 ≤ i) :
    be24 (put8 h i b) j = be24 h j := by
  rw [be24, be24, be16_put8_of_ne b (by omega), byte_put8_of_ne b (by omega)]

/-- A three-byte read does not see a word store outside it. -/
@[simp] theorem be24_put32_of_ne {h : Bytes} {i j : Nat} (x : UInt32)
    (hij : i + 4 ≤ j ∨ j + 3 ≤ i) : be24 (put32 h i x) j = be24 h j := by
  rw [be24, be24, be16_put32_of_ne x (by omega), byte_put32_of_ne x (by omega)]

/-- The first byte of a word store. -/
@[simp] theorem byte_put32_high {h : Bytes} {i : Nat} (x : UInt32) (hi : i + 4 ≤ h.length) :
    byte (put32 h i x) i = UInt8.ofNat (x.toNat / 16777216) := by
  unfold put32 put16
  rw [byte_put8_of_ne _ (by omega), byte_put8_of_ne _ (by omega), byte_put8_of_ne _ (by omega),
    byte_put8_self _ (by omega), Nat.div_div_eq_div_mul]

/-- A word is its first byte and the three that follow. -/
theorem be32_toNat_be24 (h : Bytes) (i : Nat) :
    (be32 h i).toNat = (byte h i).toNat * 16777216 + be24 h (i + 1) := by
  rw [be32_toNat, be24, be24, be16, be16, Nat.add_assoc i 1 1, Nat.add_assoc i 1 2]
  omega

/-- A three-byte read sees all but the first byte of a word store. -/
@[simp] theorem be24_put32_low {h : Bytes} {i j : Nat} (x : UInt32) (hi : i + 4 ≤ h.length)
    (hj : j = i + 1) : be24 (put32 h i x) j = x.toNat % 16777216 := by
  subst hj
  have hx := x.toNat_lt
  have hword := congrArg UInt32.toNat (be32_put32_self x hi)
  have hhigh := congrArg UInt8.toNat (byte_put32_high x hi)
  rw [be32_toNat_be24] at hword
  rw [UInt8.toNat_ofNat'] at hhigh
  omega

/-- A word whose first byte was stored over. -/
@[simp] theorem be32_put8_put32 {h : Bytes} {i : Nat} (x : UInt32) (b : UInt8)
    (hi : i + 4 ≤ h.length) : be32 (put8 (put32 h i x) i b) i =
      UInt32.ofNat (b.toNat * 16777216 + x.toNat % 16777216) := by
  have hhigh : byte (put8 (put32 h i x) i b) i = b := byte_put8_self _ (by simp; omega)
  have hlow : be24 (put8 (put32 h i x) i b) (i + 1) = x.toNat % 16777216 := by
    rw [be24_put8_of_ne _ (by omega), be24_put32_low x hi rfl]
  have hb := b.toNat_lt
  apply UInt32.toNat_inj.mp
  rw [be32_toNat_be24, hhigh, hlow, UInt32.toNat_ofNat']
  omega

/-! ## Stores and the bytes behind them -/

@[simp] theorem put8_append {h : Bytes} {i : Nat} (b : UInt8) (t : Bytes) (hi : i < h.length) :
    put8 (h ++ t) i b = put8 h i b ++ t := List.set_append_left i b hi

@[simp] theorem put16_append {h : Bytes} {i : Nat} (x : Nat) (t : Bytes) (hi : i + 2 ≤ h.length) :
    put16 (h ++ t) i x = put16 h i x ++ t := by
  unfold put16
  rw [put8_append _ _ (by omega), put8_append _ _ (by simp; omega)]

@[simp] theorem put32_append {h : Bytes} {i : Nat} (x : UInt32) (t : Bytes)
    (hi : i + 4 ≤ h.length) : put32 (h ++ t) i x = put32 h i x ++ t := by
  unfold put32
  rw [put16_append _ _ (by omega), put16_append _ _ (by simp; omega)]

/-! ## Bytes behind an offset -/

theorem byte_drop (h : Bytes) (n i : Nat) : byte (h.drop n) i = byte h (n + i) := by
  simp [byte, List.getD_eq_getElem?_getD]

theorem be32_drop (h : Bytes) (n i : Nat) : be32 (h.drop n) i = be32 h (n + i) := by
  simp [be32, be24, be16, byte_drop, Nat.add_assoc]

/-- Loads agree where the bytes do. -/
theorem be16_congr {h h' : Bytes} {i j : Nat} (e : ∀ k < 2, byte h (i + k) = byte h' (j + k)) :
    be16 h i = be16 h' j := by
  have e₀ := e 0 (by decide)
  have e₁ := e 1 (by decide)
  rw [be16, be16, e₁]
  exact congrArg (fun b : UInt8 => b.toNat * 256 + (byte h' (j + 1)).toNat) e₀

theorem be32_congr {h h' : Bytes} {i j : Nat} (e : ∀ k < 4, byte h (i + k) = byte h' (j + k)) :
    be32 h i = be32 h' j := by
  rw [be32, be32, be24, be24, be16_congr fun k hk => e k (by omega), e 2 (by decide),
    e 3 (by decide)]

/-! ## Copied bytes -/

section Copies

variable {h b : Bytes} {i j : Nat}

/-- The bytes that were copied to the end. -/
theorem drop_putBytes (hi : i ≤ h.length) (hb : i + b.length = h.length) :
    (putBytes h i b).drop i = b := by
  rw [putBytes, hb, List.drop_length, List.append_nil, List.drop_left' (by simp [hi])]

/-- A byte in front of what was copied. -/
@[simp] theorem byte_putBytes (hj : j < i) (hi : i ≤ h.length) :
    byte (putBytes h i b) j = byte h j := by
  have hj' : j < (h.take i).length := by
    rw [List.length_take]
    omega
  simp only [byte, putBytes, List.append_assoc, List.getD_eq_getElem?_getD]
  rw [List.getElem?_append_left hj', List.getElem?_take_of_lt hj]

@[simp] theorem be16_putBytes (hj : j + 2 ≤ i) (hi : i ≤ h.length) :
    be16 (putBytes h i b) j = be16 h j := by
  rw [be16, byte_putBytes (by omega) hi, byte_putBytes (by omega) hi, be16]

@[simp] theorem be24_putBytes (hj : j + 3 ≤ i) (hi : i ≤ h.length) :
    be24 (putBytes h i b) j = be24 h j := by
  rw [be24, be16_putBytes (by omega) hi, byte_putBytes (by omega) hi, be24]

@[simp] theorem be32_putBytes (hj : j + 4 ≤ i) (hi : i ≤ h.length) :
    be32 (putBytes h i b) j = be32 h j := by
  rw [be32, be24_putBytes (by omega) hi, byte_putBytes (by omega) hi, be32]

end Copies

/-- `CONFIG_ISCSI_MAX_AHS_LEN`. -/
def configIscsiMaxAhsLen : Nat := 128

/-- `ISCSI_HEADER_LEN`. -/
def iscsiHeaderLen : Nat := 48

/-- A header after `memset(header, 0, ISCSI_HEADER_LEN)`. -/
def zeroHeader : Bytes := List.replicate iscsiHeaderLen 0

@[simp] theorem length_zeroHeader : zeroHeader.length = 48 := List.length_replicate

/-- A zeroed header reads zero everywhere. -/
@[simp] theorem byte_zeroHeader (i : Nat) : byte zeroHeader i = 0 := by
  rw [byte, zeroHeader, List.getD_eq_getElem?_getD, List.getElem?_replicate]
  split <;> rfl

@[simp] theorem be16_zeroHeader (i : Nat) : be16 zeroHeader i = 0 := by simp [be16]

@[simp] theorem be24_zeroHeader (i : Nat) : be24 zeroHeader i = 0 := by simp [be24]

@[simp] theorem be32_zeroHeader (i : Nat) : be32 zeroHeader i = 0 := by simp [be32]

/-- `memset(header, 0, ISCSI_HEADER_LEN)` on the buffer that a header goes to. -/
def clearHeader (h : Bytes) : Bytes := zeroHeader ++ h.drop iscsiHeaderLen

@[simp] theorem clearHeader_zeroHeader : clearHeader zeroHeader = zeroHeader := rfl

/-- Round a length up to a multiple of `ISCSI_SOCK_MSG_BYTE_ALIGN`, which is 4. -/
def pad4 (n : Nat) : Nat := n + (4 - n % 4) % 4

theorem le_pad4 (n : Nat) : n ≤ pad4 n := Nat.le_add_right _ _

end Ost.Iscsi
