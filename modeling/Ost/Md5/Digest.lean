import Ost.Iscsi.Bytes
import Ost.Util.Blocks

/-!
# MD5

`md5.c`, as CHAP uses it: `MD5Init`, `MD5Update` for each part of the message and `MD5Final`, on a
context that takes in the message block by block.  The host is a little-endian one, on which
`byteSwap` is empty.

`md5` is the digest as the algorithm is described: the padded message is cut into blocks and folded
with a compression function that goes round by round.  The code computes it (`md5Run_eq`), wherever
the message is cut and however long it is, with the rounds unrolled and one of the functions
rewritten.
-/

namespace Ost.Md5

open Ost.Iscsi Ost.Util

/-! ## The transformation -/

/-- The four words of a digest. -/
@[ext] structure Digest where
  a : UInt32
  b : UInt32
  c : UInt32
  d : UInt32
deriving DecidableEq, Repr

/-- The four rounds. -/
inductive Round where
  | one | two | three | four
deriving DecidableEq, Repr

/-- `F1`. -/
def f1 (x y z : UInt32) : UInt32 := z ^^^ (x &&& (y ^^^ z))

/-- `F2`. -/
def f2 (x y z : UInt32) : UInt32 := f1 z x y

/-- `F3`. -/
def f3 (x y z : UInt32) : UInt32 := x ^^^ y ^^^ z

/-- `F4`. -/
def f4 (x y z : UInt32) : UInt32 := y ^^^ (x ||| ~~~z)

/-- The macro that a step is expanded with. -/
def Round.code : Round → UInt32 → UInt32 → UInt32 → UInt32
  | .one => f1
  | .two => f2
  | .three => f3
  | .four => f4

/-- The word number `k` of a block, as a little-endian host reads it. -/
def word (m : Bytes) (k : Nat) : UInt32 :=
  (byte m (4 * k)).toUInt32 ||| (byte m (4 * k + 1)).toUInt32 <<< 8 |||
    (byte m (4 * k + 2)).toUInt32 <<< 16 ||| (byte m (4 * k + 3)).toUInt32 <<< 24

/-- The bytes of a word. -/
def wordBytes (x : UInt32) : Bytes :=
  [x.toUInt8, (x >>> 8).toUInt8, (x >>> 16).toUInt8, (x >>> 24).toUInt8]

/-- `w<<s | w>>(32-s)`. -/
def rotate (w s : UInt32) : UInt32 := w <<< s ||| w >>> (32 - s)

/-- A use of `MD5STEP`: the function, the word of the block, the constant and the rotation. -/
abbrev Step := Round × Nat × UInt32 × UInt32

/-- `MD5STEP(f, w, x, y, z, in, s)`, with the registers turned so that the next step finds its `w`
where this one has found it. -/
def md5Step (m : Bytes) (s : Digest) (r : Step) : Digest :=
  let w := s.a + (r.1.code s.b s.c s.d + (word m r.2.1 + r.2.2.1))
  { a := s.d, b := rotate w r.2.2.2 + s.b, c := s.b, d := s.c }

/-- The steps of `MD5Transform` in their order. -/
def md5Steps : List Step :=
  [(.one, 0, 0xd76aa478, 7), (.one, 1, 0xe8c7b756, 12),
   (.one, 2, 0x242070db, 17), (.one, 3, 0xc1bdceee, 22),
   (.one, 4, 0xf57c0faf, 7), (.one, 5, 0x4787c62a, 12),
   (.one, 6, 0xa8304613, 17), (.one, 7, 0xfd469501, 22),
   (.one, 8, 0x698098d8, 7), (.one, 9, 0x8b44f7af, 12),
   (.one, 10, 0xffff5bb1, 17), (.one, 11, 0x895cd7be, 22),
   (.one, 12, 0x6b901122, 7), (.one, 13, 0xfd987193, 12),
   (.one, 14, 0xa679438e, 17), (.one, 15, 0x49b40821, 22),
   (.two, 1, 0xf61e2562, 5), (.two, 6, 0xc040b340, 9),
   (.two, 11, 0x265e5a51, 14), (.two, 0, 0xe9b6c7aa, 20),
   (.two, 5, 0xd62f105d, 5), (.two, 10, 0x02441453, 9),
   (.two, 15, 0xd8a1e681, 14), (.two, 4, 0xe7d3fbc8, 20),
   (.two, 9, 0x21e1cde6, 5), (.two, 14, 0xc33707d6, 9),
   (.two, 3, 0xf4d50d87, 14), (.two, 8, 0x455a14ed, 20),
   (.two, 13, 0xa9e3e905, 5), (.two, 2, 0xfcefa3f8, 9),
   (.two, 7, 0x676f02d9, 14), (.two, 12, 0x8d2a4c8a, 20),
   (.three, 5, 0xfffa3942, 4), (.three, 8, 0x8771f681, 11),
   (.three, 11, 0x6d9d6122, 16), (.three, 14, 0xfde5380c, 23),
   (.three, 1, 0xa4beea44, 4), (.three, 4, 0x4bdecfa9, 11),
   (.three, 7, 0xf6bb4b60, 16), (.three, 10, 0xbebfbc70, 23),
   (.three, 13, 0x289b7ec6, 4), (.three, 0, 0xeaa127fa, 11),
   (.three, 3, 0xd4ef3085, 16), (.three, 6, 0x04881d05, 23),
   (.three, 9, 0xd9d4d039, 4), (.three, 12, 0xe6db99e5, 11),
   (.three, 15, 0x1fa27cf8, 16), (.three, 2, 0xc4ac5665, 23),
   (.four, 0, 0xf4292244, 6), (.four, 7, 0x432aff97, 10),
   (.four, 14, 0xab9423a7, 15), (.four, 5, 0xfc93a039, 21),
   (.four, 12, 0x655b59c3, 6), (.four, 3, 0x8f0ccc92, 10),
   (.four, 10, 0xffeff47d, 15), (.four, 1, 0x85845dd1, 21),
   (.four, 8, 0x6fa87e4f, 6), (.four, 15, 0xfe2ce6e0, 10),
   (.four, 6, 0xa3014314, 15), (.four, 13, 0x4e0811a1, 21),
   (.four, 4, 0xf7537e82, 6), (.four, 11, 0xbd3af235, 10),
   (.four, 2, 0x2ad7d2bb, 15), (.four, 9, 0xeb86d391, 21)]

/-- The word-wise sum. -/
def Digest.add (s t : Digest) : Digest :=
  { a := s.a + t.a, b := s.b + t.b, c := s.c + t.c, d := s.d + t.d }

/-- `MD5Transform`. -/
def md5Transform (buf : Digest) (m : Bytes) : Digest := buf.add (md5Steps.foldl (md5Step m) buf)

/-! ## The context -/

/-- `struct MD5Context`: the array `in` is kept as the bytes that are copied into it. -/
structure Context where
  buf : Digest
  bytes₀ : UInt32
  bytes₁ : UInt32
  input : Bytes
deriving DecidableEq, Repr

/-- The constants of `MD5Init`. -/
def md5Start : Digest :=
  { a := 0x67452301, b := 0xefcdab89, c := 0x98badcfe, d := 0x10325476 }

/-- `MD5Init`. -/
def md5Init (ctx : Context) : Context := { ctx with buf := md5Start, bytes₀ := 0, bytes₁ := 0 }

/-- The loop of `MD5Update` over whole blocks: what it has computed, the array `in` after it, and
what is left of the data. -/
def md5Blocks : Nat → Digest → Bytes → Bytes → Digest × Bytes × Bytes
  | 0, buf, input, data => (buf, input, data)
  | fuel + 1, buf, input, data =>
    if 64 ≤ data.length then
      md5Blocks fuel (md5Transform buf (putBytes input 0 (data.take 64)))
        (putBytes input 0 (data.take 64)) (data.drop 64)
    else (buf, input, data)

/-- `MD5Update`. -/
def md5Update (ctx : Context) (data : Bytes) : Context :=
  let bytes₀ := ctx.bytes₀ + UInt32.ofNat data.length
  let bytes₁ := if bytes₀ < ctx.bytes₀ then ctx.bytes₁ + 1 else ctx.bytes₁
  let t := 64 - (ctx.bytes₀ &&& 0x3f).toNat
  if data.length < t then
    { ctx with bytes₀, bytes₁, input := putBytes ctx.input (64 - t) data }
  else
    let input := putBytes ctx.input (64 - t) (data.take t)
    let (buf, input, rest) :=
      md5Blocks data.length (md5Transform ctx.buf input) input (data.drop t)
    { buf, bytes₀, bytes₁, input := putBytes input 0 rest }

/-- The bytes of a digest. -/
def Digest.bytes (s : Digest) : Bytes :=
  wordBytes s.a ++ wordBytes s.b ++ wordBytes s.c ++ wordBytes s.d

/-- `MD5Final`: the digest.  The context is not used again. -/
def md5Final (ctx : Context) : Bytes :=
  let count := (ctx.bytes₀ &&& 0x3f).toNat
  let input := putBytes ctx.input count [0x80]
  let (buf, input, pos, n) :=
    if 55 < count then
      let input := putBytes input (count + 1) (List.replicate (63 - count) 0)
      (md5Transform ctx.buf input, input, 0, 56)
    else (ctx.buf, input, count + 1, 55 - count)
  let input := putBytes input pos (List.replicate n 0)
  let input := putBytes input 56 (wordBytes (ctx.bytes₀ <<< 3))
  let input := putBytes input 60 (wordBytes (ctx.bytes₁ <<< 3 ||| ctx.bytes₀ >>> 29))
  (md5Transform buf input).bytes

/-- The digest of a message that is handed over in parts, with a context that holds anything. -/
def md5Run (ctx : Context) (parts : List Bytes) : Bytes :=
  md5Final (parts.foldl md5Update (md5Init ctx))

/-! ## The digest as it is described -/

/-- The functions of the four rounds. -/
def Round.eval : Round → UInt32 → UInt32 → UInt32 → UInt32
  | .one, x, y, z => (x &&& y) ||| (~~~x &&& z)
  | .two, x, y, z => (x &&& z) ||| (y &&& ~~~z)
  | .three, x, y, z => x ^^^ y ^^^ z
  | .four, x, y, z => y ^^^ (x ||| ~~~z)

/-- The round of the operation number `i`. -/
def roundOf (i : Nat) : Round :=
  match i / 16 with
  | 0 => .one
  | 1 => .two
  | 2 => .three
  | _ => .four

/-- The word that the operation number `i` adds. -/
def wordOf (i : Nat) : Nat :=
  match roundOf i with
  | .one => i % 16
  | .two => (5 * i + 1) % 16
  | .three => (3 * i + 5) % 16
  | .four => 7 * i % 16

/-- How far it rotates. -/
def shiftOf (i : Nat) : UInt32 :=
  match roundOf i with
  | .one => [7, 12, 17, 22].getD (i % 4) 0
  | .two => [5, 9, 14, 20].getD (i % 4) 0
  | .three => [4, 11, 16, 23].getD (i % 4) 0
  | .four => [6, 10, 15, 21].getD (i % 4) 0

/-- The table of constants. -/
def constOf (i : Nat) : UInt32 := (md5Steps.getD i (.one, 0, 0, 0)).2.2.1

/-- An operation. -/
def operation (m : Bytes) (s : Digest) (i : Nat) : Digest :=
  { a := s.d
    b := s.b +
      rotate (s.a + (roundOf i).eval s.b s.c s.d + word m (wordOf i) + constOf i) (shiftOf i)
    c := s.b
    d := s.c }

/-- The compression function. -/
def compress (s : Digest) (m : Bytes) : Digest := s.add ((List.range 64).foldl (operation m) s)

/-- What is appended to a message of `n` bytes: a one, zeros up to eight bytes before the end of a
block, and the number of bits. -/
def padding (n : Nat) : Bytes :=
  0x80 :: List.replicate ((119 - n % 64) % 64) 0 ++
    (wordBytes (UInt32.ofNat (8 * n)) ++ wordBytes (UInt32.ofNat (8 * n / 4294967296)))

/-- The digest of a message. -/
def md5 (msg : Bytes) : Bytes :=
  (Intake.feed compress 64 ⟨md5Start, []⟩ (msg ++ padding msg.length)).state.bytes

/-! ## The transformation is the compression function -/

section Transform

/-- The functions of the code are those of the rounds. -/
theorem Round.code_eq_eval (r : Round) (x y z : UInt32) : r.code x y z = r.eval x y z := by
  have hchoose (p q r : Bool) : (r ^^ (p && (q ^^ r))) = (p && q || !p && r) := by
    cases p <;> cases q <;> cases r <;> rfl
  have hchoose' (p q r : Bool) : (q ^^ (r && (p ^^ q))) = (p && r || q && !r) := by
    cases p <;> cases q <;> cases r <;> rfl
  cases r with
  | one =>
    refine UInt32.eq_of_toBitVec_eq (BitVec.eq_of_getLsbD_eq fun i hi => ?_)
    simp [code, eval, f1, hi, hchoose]
  | two =>
    refine UInt32.eq_of_toBitVec_eq (BitVec.eq_of_getLsbD_eq fun i hi => ?_)
    simp [code, eval, f1, f2, hi, hchoose']
  | three | four => rfl

/-- The unrolled steps go through the operations in their order. -/
theorem md5Steps_eq :
    md5Steps = (List.range 64).map fun i => (roundOf i, wordOf i, constOf i, shiftOf i) := by
  decide +kernel

theorem md5Step_eq (m : Bytes) (s : Digest) (i : Nat) :
    md5Step m s (roundOf i, wordOf i, constOf i, shiftOf i) = operation m s i := by
  simp only [md5Step, operation, Round.code_eq_eval, UInt32.add_assoc, UInt32.add_comm s.b]

/-- `MD5Transform` computes the compression function. -/
theorem md5Transform_eq : md5Transform = compress := by
  funext s m
  have hsteps : md5Steps.foldl (md5Step m) s = (List.range 64).foldl (operation m) s := by
    rw [md5Steps_eq, List.foldl_map]
    exact List.foldl_ext _ _ _ fun t i _ => md5Step_eq m t i
  rw [md5Transform, hsteps]
  rfl

end Transform

/-! ## The context holds the message -/

/-- What has been made of a message so far. -/
def taken (msg : Bytes) : Intake Digest UInt8 := Intake.feed compress 64 ⟨md5Start, []⟩ msg

/-- The context has taken in a message. -/
structure Holds (ctx : Context) (msg : Bytes) : Prop where
  bytes : ctx.bytes₁.toNat * 4294967296 + ctx.bytes₀.toNat = msg.length % 18446744073709551616
  length : ctx.input.length = 64
  buf : ctx.buf = (taken msg).state
  pending : ctx.input.take (msg.length % 64) = (taken msg).pending

section Parts

variable {ctx : Context} {msg data : Bytes}

theorem length_taken (msg : Bytes) : (taken msg).pending.length = msg.length % 64 := by
  rw [taken, Intake.length_pending (by decide), List.length_nil, Nat.zero_add]

theorem length_putBytes {l b : Bytes} {i : Nat} (h : i + b.length ≤ l.length) :
    (putBytes l i b).length = l.length := by
  simp only [putBytes, List.length_append, List.length_take, List.length_drop]
  omega

/-- What was copied into an array, with what stands before it. -/
theorem take_putBytes {l b : Bytes} {i : Nat} (h : i ≤ l.length) :
    (putBytes l i b).take (i + b.length) = l.take i ++ b := by
  rw [putBytes, List.take_append_of_le_length]
  · exact List.take_of_length_le (by simp)
  · simp only [List.length_append, List.length_take]
    omega

theorem putBytes_full {l b : Bytes} {i : Nat} (h : i + b.length = l.length) :
    putBytes l i b = l.take i ++ b := by
  rw [putBytes, List.drop_eq_nil_of_le (by omega), List.append_nil]

theorem holds_init (hlen : ctx.input.length = 64) : Holds (md5Init ctx) [] :=
  ⟨by simp [md5Init], hlen, rfl, rfl⟩

/-- The bytes that wait in the array. -/
theorem Holds.count (h : Holds ctx msg) : (ctx.bytes₀ &&& 0x3f).toNat = msg.length % 64 := by
  have hbytes := h.bytes
  have hand : (ctx.bytes₀ &&& 0x3f).toNat = ctx.bytes₀.toNat % 64 := by
    rw [UInt32.toNat_and]
    exact Nat.and_two_pow_sub_one_eq_mod _ 6
  omega

/-- The count of the bytes with its carry. -/
theorem Holds.bytes_add (h : Holds ctx msg) (hdata : data.length < 4294967296) :
    (if ctx.bytes₀ + UInt32.ofNat data.length < ctx.bytes₀ then ctx.bytes₁ + 1
      else ctx.bytes₁).toNat * 4294967296 + (ctx.bytes₀ + UInt32.ofNat data.length).toNat =
      (msg ++ data).length % 18446744073709551616 := by
  have hbytes := h.bytes
  have h₀ := ctx.bytes₀.toNat_lt
  have h₁ := ctx.bytes₁.toNat_lt
  have hsum : (ctx.bytes₀ + UInt32.ofNat data.length).toNat =
      (ctx.bytes₀.toNat + data.length) % 4294967296 := by
    rw [UInt32.toNat_add, UInt32.toNat_ofNat_of_lt' hdata]
  have hcarry : (ctx.bytes₁ + 1).toNat = (ctx.bytes₁.toNat + 1) % 4294967296 := UInt32.toNat_add ..
  generalize ctx.bytes₀ + UInt32.ofNat data.length = low at hsum ⊢
  generalize ctx.bytes₁ + 1 = high at hcarry ⊢
  rw [List.length_append, ← Nat.mod_add_mod, ← hbytes]
  clear hbytes
  split
  · rename_i hlt
    replace hlt := UInt32.lt_iff_toNat_lt.mp hlt
    have hlow : low.toNat + 4294967296 = ctx.bytes₀.toNat + data.length := by omega
    have hlt' := low.toNat_lt
    rcases Nat.lt_or_ge (ctx.bytes₁.toNat + 1) 4294967296 with hb | hb
    · have hhigh : high.toNat = ctx.bytes₁.toNat + 1 := hcarry.trans (Nat.mod_eq_of_lt hb)
      rw [Nat.mod_eq_of_lt (by omega)]
      omega
    · have hlast : ctx.bytes₁.toNat = 4294967295 := by omega
      rw [hlast] at hcarry ⊢
      omega
  · rename_i hge
    replace hge := mt UInt32.lt_iff_toNat_lt.mpr hge
    have hlow : low.toNat = ctx.bytes₀.toNat + data.length := by omega
    rw [Nat.mod_eq_of_lt (by omega)]
    omega

/-- The loop over whole blocks takes all but what does not fill one. -/
theorem md5Blocks_spec {fuel : Nat} {buf : Digest} {input : Bytes} (hlen : input.length = 64)
    (hfuel : data.length ≤ fuel) :
    ∃ input' rest, md5Blocks fuel buf input data =
        ((Intake.feed compress 64 ⟨buf, []⟩ data).state, input', rest) ∧
      input'.length = 64 ∧ (Intake.feed compress 64 ⟨buf, []⟩ data).pending = rest := by
  induction fuel generalizing buf input data with
  | zero =>
    obtain rfl : data = [] := List.length_eq_zero_iff.mp (Nat.le_zero.mp hfuel)
    exact ⟨input, [], rfl, hlen, rfl⟩
  | succ fuel ih =>
    rw [md5Blocks]
    split
    · rename_i h64
      have htake : (data.take 64).length = 64 := by
        rw [List.length_take]
        omega
      have hput : putBytes input 0 (data.take 64) = data.take 64 :=
        putBytes_full (by rw [htake, hlen])
      have hfeed : Intake.feed compress 64 ⟨buf, []⟩ data =
          Intake.feed compress 64 ⟨compress buf (data.take 64), []⟩ (data.drop 64) := by
        rw [← Intake.feed_block (by decide) htake, ← Intake.feed_append, List.take_append_drop]
      rw [hput, hfeed, md5Transform_eq]
      exact ih htake (by rw [List.length_drop]; omega)
    · rename_i h64
      rw [Intake.feed_of_lt (by rw [List.length_nil]; omega)]
      exact ⟨input, data, rfl, hlen, rfl⟩

/-- `MD5Update` takes in a part of the message. -/
theorem Holds.update (h : Holds ctx msg) (hdata : data.length < 4294967296) :
    Holds (md5Update ctx data) (msg ++ data) := by
  have hbytes := h.bytes_add hdata
  have hpending := length_taken msg
  have hmod : msg.length % 64 < 64 := Nat.mod_lt _ (by decide)
  have hcount : 64 - (64 - msg.length % 64) = msg.length % 64 := by omega
  have hinput := h.length
  have hfeed : taken (msg ++ data) = Intake.feed compress 64 (taken msg) data := Intake.feed_append
  simp only [md5Update, h.count, hcount]
  split
  · rename_i hlt
    have hlt' : (taken msg).pending.length + data.length < 64 := by omega
    have hlen : (msg ++ data).length % 64 = msg.length % 64 + data.length := by
      rw [List.length_append]
      omega
    rw [Intake.feed_of_lt hlt'] at hfeed
    refine ⟨hbytes, ?_, ?_, ?_⟩
    · exact (length_putBytes (by omega)).trans hinput
    · rw [hfeed]
      exact h.buf
    · rw [hfeed, hlen, take_putBytes (by omega), h.pending]
  · rename_i hge
    set t := 64 - msg.length % 64 with ht
    have htake : (data.take t).length = t := by
      rw [List.length_take]
      omega
    have hput : putBytes ctx.input (msg.length % 64) (data.take t) =
        (taken msg).pending ++ data.take t := by
      rw [putBytes_full (by omega), h.pending]
    have hfill : Intake.feed compress 64 (taken msg) (data.take t) =
        ⟨compress ctx.buf ((taken msg).pending ++ data.take t), []⟩ := by
      rw [h.buf]
      exact Intake.feed_of_eq (by omega) (by omega)
    have hfeed' : taken (msg ++ data) = Intake.feed compress 64
        ⟨compress ctx.buf ((taken msg).pending ++ data.take t), []⟩ (data.drop t) := by
      rw [← hfill, ← Intake.feed_append, List.take_append_drop, hfeed]
    have hblock : ((taken msg).pending ++ data.take t).length = 64 := by
      rw [List.length_append]
      omega
    rw [hput, md5Transform_eq]
    obtain ⟨input, rest, hloop, hlen, hrest⟩ := @md5Blocks_spec (data.drop t) data.length
      (compress ctx.buf ((taken msg).pending ++ data.take t)) _ hblock
      (by rw [List.length_drop]; omega)
    rw [hloop]
    dsimp only
    rw [← hfeed'] at hrest ⊢
    have hrlen : rest.length = (msg ++ data).length % 64 := hrest ▸ length_taken _
    have hrlt : rest.length < 64 := hrlen ▸ Nat.mod_lt _ (by decide)
    refine ⟨hbytes, ?_, rfl, ?_⟩
    · exact (length_putBytes (by omega)).trans hlen
    · have htaken := take_putBytes (l := input) (b := rest) (Nat.zero_le _)
      rw [Nat.zero_add, List.take_zero, List.nil_append] at htaken
      rw [← hrlen, htaken, hrest]

theorem Holds.foldl {parts : List Bytes} (h : Holds ctx msg)
    (hparts : ∀ p ∈ parts, p.length < 4294967296) :
    Holds (parts.foldl md5Update ctx) (msg ++ parts.flatten) := by
  induction parts generalizing ctx msg with
  | nil => simpa using h
  | cons p parts ih =>
    rw [List.foldl_cons, List.flatten_cons, ← List.append_assoc]
    exact ih (h.update (hparts p List.mem_cons_self)) fun q hq =>
      hparts q (List.mem_cons_of_mem _ hq)

end Parts

/-! ## The end of the message -/

section Final

variable {ctx : Context} {msg : Bytes}

/-- The number of bits, as `MD5Final` writes it. -/
theorem Holds.bits (h : Holds ctx msg) :
    ctx.bytes₀ <<< 3 = UInt32.ofNat (8 * msg.length) ∧
      ctx.bytes₁ <<< 3 ||| ctx.bytes₀ >>> 29 =
        UInt32.ofNat (8 * msg.length / 4294967296) := by
  have hbytes := h.bytes
  have h₀ := ctx.bytes₀.toNat_lt
  have h₁ := ctx.bytes₁.toNat_lt
  have hlow : (ctx.bytes₀ <<< 3).toNat = ctx.bytes₀.toNat * 8 % 4294967296 := by
    rw [UInt32.toNat_shiftLeft]
    exact congrArg (· % 4294967296) (Nat.shiftLeft_eq _ _)
  have hhigh : (ctx.bytes₁ <<< 3).toNat = ctx.bytes₁.toNat % 536870912 * 8 := by
    rw [UInt32.toNat_shiftLeft]
    refine (congrArg (· % 4294967296) (Nat.shiftLeft_eq ctx.bytes₁.toNat 3)).trans ?_
    omega
  have hcarry : (ctx.bytes₀ >>> 29).toNat = ctx.bytes₀.toNat / 536870912 := by
    rw [UInt32.toNat_shiftRight]
    exact Nat.shiftRight_eq_div_pow _ _
  have hor : (ctx.bytes₁ <<< 3 ||| ctx.bytes₀ >>> 29).toNat =
      ctx.bytes₁.toNat % 536870912 * 8 + ctx.bytes₀.toNat / 536870912 := by
    rw [UInt32.toNat_or, hhigh, hcarry]
    have hlt : ctx.bytes₀.toNat / 536870912 < 2 ^ 3 := by omega
    have hor := Nat.shiftLeft_add_eq_or_of_lt hlt (ctx.bytes₁.toNat % 536870912)
    rw [Nat.shiftLeft_eq] at hor
    exact hor.symm
  refine ⟨UInt32.toNat_inj.mp ?_, UInt32.toNat_inj.mp ?_⟩
  · rw [hlow, UInt32.toNat_ofNat']
    omega
  · rw [hor, UInt32.toNat_ofNat']
    omega

@[simp] theorem length_wordBytes (x : UInt32) : (wordBytes x).length = 4 := rfl

theorem fill_last {input : Bytes} {pos n : Nat} {x y : UInt32} (hlen : input.length = 64)
    (hpos : pos + n = 56) :
    putBytes (putBytes (putBytes input pos (List.replicate n 0)) 56 (wordBytes x)) 60
      (wordBytes y) = input.take pos ++ List.replicate n 0 ++ (wordBytes x ++ wordBytes y) := by
  have h₁ : (putBytes input pos (List.replicate n 0)).length = 64 :=
    (length_putBytes (by simp; omega)).trans hlen
  have h₂ : (putBytes (putBytes input pos (List.replicate n 0)) 56 (wordBytes x)).length = 64 :=
    (length_putBytes (by rw [h₁]; simp)).trans h₁
  have ht₁ := take_putBytes (l := input) (b := List.replicate n (0 : UInt8)) (i := pos) (by omega)
  have ht₂ := take_putBytes (l := putBytes input pos (List.replicate n 0)) (b := wordBytes x)
    (i := 56) (by omega)
  rw [List.length_replicate, hpos] at ht₁
  rw [length_wordBytes] at ht₂
  rw [putBytes_full (by rw [h₂]; rfl), ht₂, ht₁]
  simp only [List.append_assoc]

/-- `MD5Final` appends the padding. -/
theorem Holds.final (h : Holds ctx msg) : md5Final ctx = md5 msg := by
  obtain ⟨hlow, hhigh⟩ := h.bits
  have hmod : msg.length % 64 < 64 := Nat.mod_lt _ (by decide)
  have hpending := length_taken msg
  have hinput := h.length
  have hone : (putBytes ctx.input (msg.length % 64) [0x80]).length = 64 :=
    (length_putBytes (by simp; omega)).trans hinput
  have htake : (putBytes ctx.input (msg.length % 64) [0x80]).take (msg.length % 64 + 1) =
      (taken msg).pending ++ [0x80] :=
    (take_putBytes (b := [0x80]) (by omega)).trans (by rw [h.pending])
  have hfeed : Intake.feed compress 64 ⟨md5Start, []⟩ (msg ++ padding msg.length) =
      Intake.feed compress 64 (taken msg) (padding msg.length) := Intake.feed_append
  rw [md5, hfeed]
  simp only [md5Final, h.count, hlow, hhigh, md5Transform_eq]
  split
  · rename_i hbig
    set zeros := putBytes (putBytes ctx.input (msg.length % 64) [0x80]) (msg.length % 64 + 1)
      (List.replicate (63 - msg.length % 64) 0) with hzeros
    have hfull : zeros = (taken msg).pending ++
        (0x80 :: List.replicate (63 - msg.length % 64) 0) := by
      rw [hzeros, putBytes_full (by simp; omega), htake, List.append_assoc]
      rfl
    have hlen : zeros.length = 64 := by
      rw [hfull]
      simp
      omega
    have hpad : padding msg.length = (0x80 :: List.replicate (63 - msg.length % 64) 0) ++
        (List.replicate 56 0 ++ (wordBytes (UInt32.ofNat (8 * msg.length)) ++
          wordBytes (UInt32.ofNat (8 * msg.length / 4294967296)))) := by
      have hsum : (119 - msg.length % 64) % 64 = 63 - msg.length % 64 + 56 := by omega
      rw [padding, hsum, List.replicate_add]
      simp only [List.cons_append, List.append_assoc]
    have hfill : Intake.feed compress 64 (taken msg)
        (0x80 :: List.replicate (63 - msg.length % 64) 0) = ⟨compress ctx.buf zeros, []⟩ := by
      rw [h.buf, hfull]
      exact Intake.feed_of_eq (by omega) (by simp; omega)
    dsimp only
    rw [fill_last hlen rfl, hpad, Intake.feed_append, hfill,
      Intake.feed_block (by decide) (by simp), List.take_zero, List.nil_append]
  · rename_i hsmall
    have hpad : padding msg.length = [0x80] ++ (List.replicate (55 - msg.length % 64) 0 ++
        (wordBytes (UInt32.ofNat (8 * msg.length)) ++
          wordBytes (UInt32.ofNat (8 * msg.length / 4294967296)))) := by
      have hsum : (119 - msg.length % 64) % 64 = 55 - msg.length % 64 := by omega
      rw [padding, hsum]
      rfl
    dsimp only
    rw [fill_last hone (by omega), htake, hpad, Intake.feed_of_eq (by omega)
      (by simp; omega), h.buf]
    simp only [List.append_assoc]

end Final

/-- Wherever a message is cut into parts that `MD5Update` can take, and whatever the context holds
before, the code computes the digest of the message. -/
theorem md5Run_eq {ctx : Context} {parts : List Bytes} (hlen : ctx.input.length = 64)
    (hparts : ∀ p ∈ parts, p.length < 4294967296) : md5Run ctx parts = md5 parts.flatten := by
  have h := (holds_init hlen).foldl hparts
  rw [List.nil_append] at h
  exact h.final

/-- An id, a secret and a challenge. -/
theorem md5Run_eq_chap : md5Run ⟨md5Start, 7, 7, List.replicate 64 1⟩ [[5], [98, 97, 114], [1, 2]] =
    md5 [5, 98, 97, 114, 1, 2] := md5Run_eq (by decide) (by simp)

example : md5 [97, 98, 99] = [0x90, 0x01, 0x50, 0x98, 0x3c, 0xd2, 0x4f, 0xb0, 0xd6,
    0x96, 0x3f, 0x7d, 0x28, 0xe1, 0x7f, 0x72] := by decide +kernel

/-! ## Collisions -/

section Collisions

variable {msg msg' : Bytes}

theorem wordBytes_injective {x y : UInt32} (h : wordBytes x = wordBytes y) : x = y := by
  have hx := x.toNat_lt
  have hy := y.toNat_lt
  simp only [wordBytes, List.cons.injEq, and_true, ← UInt8.toNat_inj, UInt32.toNat_toUInt8,
    UInt32.toNat_shiftRight] at h
  obtain ⟨h₀, h₁, h₂, h₃⟩ := h
  simp only [UInt32.reduceToNat, Nat.reduceMod, Nat.shiftRight_eq_div_pow,
    Nat.reducePow] at h₁ h₂ h₃
  refine UInt32.toNat_inj.mp ?_
  omega

theorem bytes_injective {s t : Digest} (h : s.bytes = t.bytes) : s = t := by
  simp only [Digest.bytes, List.append_assoc] at h
  obtain ⟨ha, h⟩ := List.append_inj h rfl
  obtain ⟨hb, h⟩ := List.append_inj h rfl
  obtain ⟨hc, hd⟩ := List.append_inj h rfl
  exact Digest.ext (wordBytes_injective ha) (wordBytes_injective hb) (wordBytes_injective hc)
    (wordBytes_injective hd)

/-- The number of bits at the end of the padding. -/
def bitCount (n : Nat) : Bytes :=
  wordBytes (UInt32.ofNat (8 * n)) ++ wordBytes (UInt32.ofNat (8 * n / 4294967296))

theorem bitCount_injective {n n' : Nat} (hn : n < 2305843009213693952)
    (hn' : n' < 2305843009213693952) (h : bitCount n = bitCount n') : n = n' := by
  obtain ⟨hlow, hhigh⟩ := List.append_inj h rfl
  have hlow := congrArg UInt32.toNat (wordBytes_injective hlow)
  have hhigh := congrArg UInt32.toNat (wordBytes_injective hhigh)
  rw [UInt32.toNat_ofNat', UInt32.toNat_ofNat'] at hlow hhigh
  omega

theorem length_padding {n : Nat} : (n + (padding n).length) % 64 = 0 := by
  simp only [padding, List.length_append, List.length_cons, List.length_replicate, length_wordBytes]
  omega

/-- The blocks of a message and its padding. -/
def md5Blocked (msg : Bytes) : List Bytes :=
  blocksOf 64 ((msg.length + (padding msg.length).length) / 64) (msg ++ padding msg.length)

theorem length_padded (msg : Bytes) : (msg ++ padding msg.length).length =
    64 * ((msg.length + (padding msg.length).length) / 64) := by
  have h := length_padding (n := msg.length)
  rw [List.length_append]
  omega

theorem foldl_md5Blocked (msg : Bytes) :
    md5 msg = ((md5Blocked msg).foldl compress md5Start).bytes := by
  have hfeed := Intake.feed_flatten (f := compress) (t := md5Start) (by decide : 0 < 64)
    (length_of_mem_blocksOf (length_padded msg))
  rw [flatten_blocksOf (length_padded msg)] at hfeed
  rw [md5, hfeed]
  rfl

/-- The last block ends with the number of bits. -/
theorem exists_last (msg : Bytes) :
    ∃ bs b, md5Blocked msg = bs ++ [b] ∧ b.drop 56 = bitCount msg.length := by
  have hbs := length_of_mem_blocksOf (length_padded msg)
  have hflat := flatten_blocksOf (length_padded msg)
  rcases List.eq_nil_or_concat (md5Blocked msg) with hnil | ⟨bs, b, hb⟩
  · have hlen := congrArg List.length hnil
    rw [md5Blocked, length_blocksOf, List.length_nil] at hlen
    have hpad := length_padding (n := msg.length)
    have hpos : 0 < (padding msg.length).length := List.length_pos_of_mem List.mem_cons_self
    omega
  rw [List.concat_eq_append] at hb
  refine ⟨bs, b, hb, ?_⟩
  rw [md5Blocked] at hb
  rw [hb] at hbs hflat
  have hlen : b.length = 64 := hbs b (by simp)
  have hsplit : bs.flatten ++ b.take 56 ++ b.drop 56 =
      msg ++ (0x80 :: List.replicate ((119 - msg.length % 64) % 64) 0) ++ bitCount msg.length := by
    rw [List.append_assoc, List.take_append_drop]
    rw [List.flatten_append, List.flatten_singleton] at hflat
    rw [hflat, List.append_assoc]
    rfl
  refine (List.append_inj' hsplit ?_).2
  rw [List.length_drop, hlen]
  rfl

/-- Two messages with the same digest give a collision of the compression function among the calls
that their digests make. -/
theorem md5_collision (hmsg : msg.length < 2305843009213693952)
    (hmsg' : msg'.length < 2305843009213693952) (hne : msg ≠ msg') (h : md5 msg = md5 msg') :
    Collide compress md5Start (md5Blocked msg) (md5Blocked msg') := by
  obtain ⟨bs, b, hbs, hbits⟩ := exists_last msg
  obtain ⟨bs', b', hbs', hbits'⟩ := exists_last msg'
  rw [foldl_md5Blocked, foldl_md5Blocked] at h
  have hfold := bytes_injective h
  by_cases hb : b = b'
  · -- the lengths are the same, so that the messages differ in a block
    have hlen : msg.length = msg'.length :=
      bitCount_injective hmsg hmsg' (hbits ▸ hbits' ▸ congrArg (List.drop 56) hb)
    refine Collide.of_foldl ?_ (fun he => hne ?_) hfold
    · rw [md5Blocked, md5Blocked, length_blocksOf, length_blocksOf, hlen]
    · have hmsgs := congrArg List.flatten he
      rw [md5Blocked, md5Blocked, flatten_blocksOf (length_padded msg),
        flatten_blocksOf (length_padded msg')] at hmsgs
      exact (List.append_inj hmsgs hlen).1
  · rw [hbs, hbs'] at hfold ⊢
    exact .of_last (fun he => hb (Prod.mk.inj he).2) hfold

end Collisions

end Ost.Md5
