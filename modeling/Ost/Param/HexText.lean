import Mathlib.Data.List.GetD
import Ost.Param.Hex

/-!
# What the hexadecimal reader reads

`HexTextToData` walks along the characters of its text, and it is told how many there are.  Here the
text is memory, with characters at all places, and a call says how far it has read.  What it does is
compared with `hexTextToData`, which sees the string alone.

Its test for the prefix accepts any second character: `text[1] != 'x' || text[1] != 'X'` is always
true.  A text that begins with `0` loses its first two characters, and the text `0` has no second
one.
-/

namespace Ost.Param

open Ost.Iscsi Ost.Util

/-! ## The program -/

/-- The loop of `HexDataToText`: the return value, and the string that it leaves. -/
def hexDigitsInto : Bytes → Nat → CStr → Int × CStr
  | [], _, text => (0, text)
  | n :: data, textLength, text =>
    if textLength < 3 then (-1, text)
    else hexDigitsInto data (textLength - 2) (text ++ [hexChar (n >>> 4), hexChar (n &&& 0xf)])

/-- `HexDataToText` into a buffer of `textLength` characters; `none` is a buffer left as it is. -/
def hexDataToTextInto (data : Bytes) (textLength : Nat) : Int × Option CStr :=
  if textLength = 0 then (-1, none)
  else if data = [] then (-1, some [])
  else if textLength < 3 then (-1, some [])
  else
    let (rc, text) := hexDigitsInto data (textLength - 2) [48, 120]
    (rc, some text)

/-- What a call of `HexTextToData` returns and writes, and the place behind the last character that
it has read. -/
structure HexRead where
  rc : Int
  data : Bytes
  reach : Nat
deriving DecidableEq, Repr

/-- The loop of `HexTextToData` from the place `pos` on; `room` is what `data` has left. -/
def hexPairsAt (text : Nat → UInt8) (room pos : Nat) (data : Bytes) : HexRead :=
  if text pos = 0 then ⟨if data.length = 0 then -1 else wrapInt data.length, data, pos + 1⟩
  else
    match hexIndex (text pos) with
    | none => ⟨-1, data, pos + 1⟩
    | some n₁ =>
      if text (pos + 1) = 0 then ⟨-1, data, pos + 2⟩
      else
        match hexIndex (text (pos + 1)) with
        | none => ⟨-1, data, pos + 2⟩
        | some n₂ =>
          match room with
          | 0 => ⟨-1, data, pos + 2⟩
          | room + 1 => hexPairsAt text room (pos + 2) (data ++ [n₁ <<< 4 ||| n₂])
termination_by structural room

/-- `HexTextToData`. -/
def hexTextToDataAt (text : Nat → UInt8) (textLength dataLength : Nat) : HexRead :=
  -- the prefix
  let pos := if text 0 = 48 ∧ (text 1 ≠ 120 ∨ text 1 ≠ 88) then 2 else 0
  let textLength := if pos = 2 then (textLength + 4294967294) % 4294967296 else textLength
  if textLength % 2 = 1 then
    match hexIndex (text pos) with
    | none => ⟨-1, [], pos + 1⟩
    | some n₂ =>
      if dataLength < 1 then ⟨-1, [], pos + 1⟩
      else hexPairsAt text (dataLength - 1) (pos + 1) [n₂]
  else hexPairsAt text dataLength pos []

/-! ## Texts in memory -/

/-- There is a string at the place `pos`, and then its terminator. -/
def StringAt (text : Nat → UInt8) : Nat → CStr → Prop
  | pos, [] => text pos = 0
  | pos, c :: s => text pos = c ∧ c ≠ 0 ∧ StringAt text (pos + 1) s

/-- The memory of a buffer; behind it there is nothing that matters. -/
def CBuf.char (buf : CBuf) (i : Nat) : UInt8 := (buf.str ++ 0 :: buf.tail).getD i 0

theorem stringAt_append {s : CStr} (hs : 0 ∉ s) (pre stale : Bytes) :
    StringAt (fun i => (pre ++ s ++ 0 :: stale).getD i 0) pre.length s := by
  induction s generalizing pre with
  | nil =>
    change ((pre ++ [] ++ 0 :: stale).getD pre.length 0 : UInt8) = 0
    rw [List.append_nil, List.getD_append_right _ _ _ _ (le_refl _), Nat.sub_self]
    rfl
  | cons c s ih =>
    rw [List.mem_cons, not_or] at hs
    refine ⟨?_, Ne.symm hs.1, ?_⟩
    · dsimp only
      rw [List.append_assoc, List.getD_append_right _ _ _ _ (le_refl _), Nat.sub_self]
      rfl
    · have hrest := ih hs.2 (pre ++ [c])
      rwa [List.append_assoc pre, List.singleton_append, List.length_append,
        List.length_singleton] at hrest

theorem CBuf.stringAt {buf : CBuf} (hs : 0 ∉ buf.str) : StringAt buf.char 0 buf.str :=
  stringAt_append hs [] buf.tail

section Loop

variable {text : Nat → UInt8}

theorem wrapInt_neg_one : wrapInt (-1) = -1 := by decide

/-- On a string the loop does what `hexPairs` does, and reads up to the terminator. -/
theorem hexPairsAt_spec {s : CStr} {pos room n : Nat} {data : Bytes} (hs : StringAt text pos s)
    (hn : n = data.length + room) :
    (hexPairsAt text room pos data).rc = wrapInt (hexPairs n s data).1 ∧
    (hexPairsAt text room pos data).data = (hexPairs n s data).2 ∧
    (hexPairsAt text room pos data).reach ≤ pos + s.length + 1 := by
  fun_induction hexPairs n s data generalizing pos room with
  | case1 data =>
    have hend : text pos = 0 := hs
    rw [hexPairsAt, if_pos hend]
    refine ⟨?_, rfl, le_refl _⟩
    dsimp only
    by_cases hlen : data.length = 0
    · rw [if_pos hlen, if_pos hlen, wrapInt_neg_one]
    · rw [if_neg hlen, if_neg hlen]
  | case2 c data =>
    obtain ⟨rfl, hc, hend⟩ := hs
    have hend : text (pos + 1) = 0 := hend
    rw [hexPairsAt, if_neg hc]
    cases hexIndex (text pos) with
    | none => exact ⟨rfl, rfl, Nat.le_succ _⟩
    | some n₁ =>
      dsimp only
      rw [if_pos hend]
      exact ⟨rfl, rfl, le_refl _⟩
  | case3 c₁ c₂ s data n₁ n₂ h₂ h₁ hfull =>
    obtain ⟨rfl, hc₁, rfl, hc₂, hs⟩ := hs
    obtain rfl : room = 0 := by omega
    rw [hexPairsAt, if_neg hc₁, h₁]
    dsimp only
    rw [if_neg hc₂, h₂]
    refine ⟨rfl, rfl, ?_⟩
    rw [List.length_cons, List.length_cons]
    dsimp only
    omega
  | case4 c₁ c₂ s data n₁ n₂ h₂ h₁ hroom ih =>
    obtain ⟨rfl, hc₁, rfl, hc₂, hs⟩ := hs
    obtain ⟨room, rfl⟩ : ∃ k, room = k + 1 := ⟨room - 1, by omega⟩
    rw [hexPairsAt, if_neg hc₁, h₁]
    dsimp only
    rw [if_neg hc₂, h₂]
    dsimp only
    have hroom' : n = (data ++ [n₁ <<< 4 ||| n₂]).length + room := by
      rw [List.length_append, List.length_singleton]
      omega
    obtain ⟨hrc, hdata, hreach⟩ := ih hs hroom'
    refine ⟨hrc, hdata, hreach.trans ?_⟩
    rw [List.length_cons, List.length_cons]
    omega
  | case5 c₁ c₂ s data hbad =>
    obtain ⟨rfl, hc₁, rfl, hc₂, hs⟩ := hs
    rw [hexPairsAt, if_neg hc₁, List.length_cons, List.length_cons]
    cases h₁ : hexIndex (text pos) with
    | none =>
      refine ⟨rfl, rfl, ?_⟩
      dsimp only
      omega
    | some n₁ =>
      dsimp only
      rw [if_neg hc₂]
      cases h₂ : hexIndex (text (pos + 1)) with
      | none =>
        refine ⟨rfl, rfl, ?_⟩
        dsimp only
        omega
      | some n₂ => exact absurd h₂ (hbad n₁ n₂ h₁)

theorem lt_reach_hexPairsAt (room pos : Nat) (data : Bytes) :
    pos < (hexPairsAt text room pos data).reach := by
  fun_induction hexPairsAt text room pos data with
  | case6 pos data h₁ n₁ hn₁ h₂ n₂ hn₂ room ih =>
    exact (Nat.lt_add_of_pos_right Nat.two_pos).trans ih
  | _ => simp

/-- What is read once the prefix is gone. -/
def hexBody (n : Nat) (body : CStr) : Int × Bytes :=
  if body.length % 2 = 1 then
    match body with
    | [] => (-1, [])
    | c :: body =>
      match hexIndex c with
      | none => (-1, [])
      | some n₂ => if n < 1 then (-1, []) else hexPairs n body [n₂]
  else hexPairs n body []

/-- The reader, when the prefix has been looked for. -/
theorem hexTextToDataAt_body {pos len n : Nat} {body : CStr}
    (hpos : pos = if text 0 = 48 then 2 else 0) (hbody : StringAt text pos body)
    (hlen : len % 2 = body.length % 2) :
    (hexTextToDataAt text len n).rc = wrapInt (hexBody n body).1 ∧
    (hexTextToDataAt text len n).data = (hexBody n body).2 ∧
    (hexTextToDataAt text len n).reach ≤ pos + body.length + 1 := by
  have hprefix : (if text 0 = 48 ∧ (text 1 ≠ 120 ∨ text 1 ≠ 88) then 2 else 0) = pos := by
    rw [hpos]
    refine if_congr (and_iff_left ?_) rfl rfl
    by_cases hx : text 1 = 120
    · exact .inr (by rw [hx]; decide)
    · exact .inl hx
  have hparity : (if pos = 2 then (len + 4294967294) % 4294967296 else len) % 2 =
      body.length % 2 := by
    split <;> omega
  rw [hexTextToDataAt, hprefix, hparity]
  unfold hexBody
  by_cases hodd : body.length % 2 = 1
  · rw [if_pos hodd, if_pos hodd]
    cases body with
    | nil => exact absurd hodd (by decide)
    | cons c body =>
      obtain ⟨rfl, -, hbody⟩ := hbody
      rw [List.length_cons]
      dsimp only
      cases hexIndex (text pos) with
      | none => exact ⟨wrapInt_neg_one.symm, rfl, by dsimp only; omega⟩
      | some n₂ =>
        dsimp only
        by_cases hroom : n < 1
        · rw [if_pos hroom, if_pos hroom]
          exact ⟨wrapInt_neg_one.symm, rfl, by dsimp only; omega⟩
        · rw [if_neg hroom, if_neg hroom]
          have hn : n = [n₂].length + (n - 1) := by
            rw [List.length_singleton]
            omega
          obtain ⟨hrc, hdata, hreach⟩ := hexPairsAt_spec hbody hn
          exact ⟨hrc, hdata, by omega⟩
  · rw [if_neg hodd, if_neg hodd]
    exact hexPairsAt_spec hbody (Nat.zero_add n).symm

/-- The digits of a text: without its first two characters, when the first one is `0`. -/
def hexDigits (t : CStr) : CStr := if t.head? = some 48 then t.drop 2 else t

/-- But for the text `0` the reader reads the digits, and no further than the terminator. -/
theorem hexTextToDataAt_spec {t : CStr} (ht : StringAt text 0 t) (hne : t ≠ [48]) (n : Nat) :
    (hexTextToDataAt text t.length n).rc = wrapInt (hexBody n (hexDigits t)).1 ∧
    (hexTextToDataAt text t.length n).data = (hexBody n (hexDigits t)).2 ∧
    (hexTextToDataAt text t.length n).reach ≤ t.length + 1 := by
  cases t with
  | nil =>
    have hend : text 0 = 0 := ht
    exact hexTextToDataAt_body (by rw [hend]; decide) ht rfl
  | cons c s =>
    have hc : text 0 = c := ht.1
    by_cases h0 : c = 48
    · cases s with
      | nil => exact absurd (by rw [h0]) hne
      | cons c' s =>
        have hpos : 2 = if text 0 = 48 then 2 else 0 := (if_pos (hc.trans h0)).symm
        have hparity : (c :: c' :: s).length % 2 = s.length % 2 := by
          rw [List.length_cons, List.length_cons]
          omega
        rw [hexDigits, if_pos (by rw [List.head?_cons, h0])]
        obtain ⟨hrc, hdata, hreach⟩ :=
          hexTextToDataAt_body (n := n) hpos ht.2.2.2.2 hparity
        refine ⟨hrc, hdata, hreach.trans ?_⟩
        rw [List.length_cons, List.length_cons]
        omega
    · rw [hexDigits, if_neg (by rw [List.head?_cons]; exact fun h => h0 (Option.some.inj h))]
      have hpos : 0 = if text 0 = 48 then 2 else 0 := (if_neg (hc ▸ h0)).symm
      have hbody := hexTextToDataAt_body (n := n) hpos ht rfl
      rwa [Nat.zero_add] at hbody

/-- The model that sees the string alone agrees. -/
theorem hexTextToData_eq {buf : CBuf} (hne : buf.str ≠ [48]) (n : Nat) :
    hexTextToData buf n = hexBody n (hexDigits buf.str) := by
  unfold hexTextToData hexBody hexDigits
  split
  · exact absurd ‹_› hne
  · rename_i c s heq
    have hparity : (48 :: c :: s : CStr).length % 2 = s.length % 2 := by
      rw [List.length_cons, List.length_cons]
      omega
    rw [heq, hparity]
    rfl
  · rename_i h1 h2
    have hhead : buf.str.head? ≠ some 48 := by
      intro hhead
      obtain ⟨s, hs⟩ := List.head?_eq_some_iff.mp hhead
      cases s with
      | nil => exact h1 hs
      | cons c s => exact h2 c s hs
    exact (congrArg (hexBody n) (if_neg hhead : hexDigits buf.str = buf.str)).symm

/-- After the text `0` the reader goes on. -/
theorem hexTextToDataAt_zero (ht : StringAt text 0 [48]) (n : Nat) :
    3 ≤ (hexTextToDataAt text 1 n).reach := by
  have hprefix : (if text 0 = 48 ∧ (text 1 ≠ 120 ∨ text 1 ≠ 88) then 2 else 0) = 2 := by
    have h1 : text 1 = 0 := ht.2.2
    exact if_pos ⟨ht.1, .inl (by rw [h1]; decide)⟩
  rw [hexTextToDataAt, hprefix, if_pos rfl, if_pos (by decide)]
  cases hexIndex (text 2) with
  | none => exact le_refl 3
  | some n₂ =>
    dsimp only
    split
    · exact le_refl 3
    · exact (Nat.le_succ 3).trans (lt_reach_hexPairsAt _ _ _)

end Loop

/-! ## Writing and reading -/

/-- The loop writes two digits for every byte. -/
theorem hexDigitsInto_eq {data : Bytes} {textLength : Nat} (text : CStr)
    (hlen : 2 * data.length + 1 ≤ textLength) :
    hexDigitsInto data textLength text =
      ((0 : Int),
        text ++ data.flatMap fun (n : UInt8) => [hexChar (n >>> 4), hexChar (n &&& 0xf)]) := by
  induction data generalizing textLength text with
  | nil => rw [hexDigitsInto, List.flatMap_nil, List.append_nil]
  | cons n data ih =>
    rw [List.length_cons] at hlen
    rw [hexDigitsInto, if_neg (by omega), ih _ (by omega), List.flatMap_cons, List.append_assoc]

/-- With room for the digits and the terminator `HexDataToText` writes them. -/
theorem hexDataToTextInto_eq {data : Bytes} {textLength : Nat} (hne : data ≠ [])
    (hlen : 2 * data.length + 3 ≤ textLength) :
    hexDataToTextInto data textLength = (0, some (hexDataToText data)) := by
  rw [hexDataToTextInto, if_neg (by omega), if_neg hne, if_neg (by omega),
    hexDigitsInto_eq _ (by omega)]
  rfl

/-- What was written is read back. -/
theorem hexTextToDataAt_hexDataToText {data : Bytes} {n : Nat} {text : Nat → UInt8}
    (hne : data ≠ []) (hlen : data.length ≤ n) (hsmall : data.length < 2147483648)
    (ht : StringAt text 0 (hexDataToText data)) :
    (hexTextToDataAt text (hexDataToText data).length n).rc = data.length ∧
    (hexTextToDataAt text (hexDataToText data).length n).data = data := by
  have hshort : hexDataToText data ≠ [48] := by
    rw [hexDataToText]
    exact fun h => List.cons_ne_nil _ _ (List.cons.inj h).2
  have hread := hexTextToData_hexDataToText hlen (List.length_pos_iff.mpr hne)
    (show (CBuf.mk (hexDataToText data) []).str = hexDataToText data from rfl)
  obtain ⟨hrc, hdata, -⟩ := hexTextToDataAt_spec ht hshort n
  rw [← @hexTextToData_eq ⟨hexDataToText data, []⟩ hshort n, hread] at hrc hdata
  exact ⟨hrc.trans (wrapInt_of_lt hsmall), hdata⟩

/-! ## Digits with and without a prefix -/

/-- Every character is a hexadecimal digit. -/
def IsHex (t : CStr) : Prop := ∀ c ∈ t, (hexIndex c).isSome

theorem length_hexPairs {n : Nat} {t : CStr} {data : Bytes} (ht : IsHex t)
    (hn : data.length + t.length / 2 ≤ n) :
    (hexPairs n t data).2.length = data.length + t.length / 2 := by
  fun_induction hexPairs n t data with
  | case1 data => rfl
  | case2 c data => simp
  | case3 c₁ c₂ t data n₁ n₂ h₂ h₁ hfull =>
    rw [List.length_cons, List.length_cons] at hn
    omega
  | case4 c₁ c₂ t data n₁ n₂ h₂ h₁ hroom ih =>
    have hrest : IsHex t := fun c hc => ht c (List.mem_cons_of_mem _ (List.mem_cons_of_mem _ hc))
    rw [List.length_cons, List.length_cons] at hn ⊢
    rw [List.length_append, List.length_singleton] at ih
    rw [ih hrest (by omega)]
    omega
  | case5 c₁ c₂ t data hbad =>
    obtain ⟨n₁, h₁⟩ := Option.isSome_iff_exists.mp (ht c₁ List.mem_cons_self)
    obtain ⟨n₂, h₂⟩ :=
      Option.isSome_iff_exists.mp (ht c₂ (List.mem_cons_of_mem _ List.mem_cons_self))
    exact absurd h₂ (hbad n₁ n₂ h₁)

/-- As many bytes as there are pairs, and one for a digit that is left over. -/
theorem length_hexBody {n : Nat} {t : CStr} (ht : IsHex t) (hn : t.length ≤ n) :
    (hexBody n t).2.length = (t.length + 1) / 2 := by
  unfold hexBody
  split
  · cases t with
    | nil => rfl
    | cons c t =>
      obtain ⟨n₂, hc⟩ := Option.isSome_iff_exists.mp (ht c List.mem_cons_self)
      rw [List.length_cons] at hn ⊢
      dsimp only
      rw [hc]
      dsimp only
      rw [if_neg (by omega), length_hexPairs (fun c hc => ht c (List.mem_cons_of_mem _ hc))
        (by rw [List.length_singleton]; omega), List.length_singleton]
      omega
  · rw [length_hexPairs ht (by rw [List.length_nil]; omega), List.length_nil]
    omega

theorem IsHex.not_mem_zero {t : CStr} (ht : IsHex t) : 0 ∉ t :=
  fun h => absurd (ht 0 h) (by decide)

/-- The text is read as the one with a prefix is. -/
def ReadsAlike (t : CStr) : Prop :=
  ∀ (x : UInt8) (text text' : Nat → UInt8) (n : Nat), x = 120 ∨ x = 88 → n < 4294967296 →
    StringAt text 0 t → StringAt text' 0 (48 :: x :: t) →
    (hexTextToDataAt text t.length n).rc = (hexTextToDataAt text' (t.length + 2) n).rc ∧
    (hexTextToDataAt text t.length n).data = (hexTextToDataAt text' (t.length + 2) n).data

theorem hexTextToDataAt_body_prefixed {x : UInt8} {t : CStr} {text : Nat → UInt8}
    (ht : StringAt text 0 (48 :: x :: t)) (n : Nat) :
    (hexTextToDataAt text (t.length + 2) n).rc = wrapInt (hexBody n t).1 ∧
    (hexTextToDataAt text (t.length + 2) n).data = (hexBody n t).2 := by
  have hshort : (48 :: x :: t : CStr) ≠ [48] := fun h => List.cons_ne_nil _ _ (List.cons.inj h).2
  obtain ⟨hrc, hdata, -⟩ := hexTextToDataAt_spec ht hshort n
  exact ⟨hrc, hdata⟩

/-- A string of digits is read as the one with a prefix is just when it does not begin with `0`. -/
theorem readsAlike_iff {t : CStr} (ht : IsHex t) (hlen : t.length + 2 < 4294967296) :
    ReadsAlike t ↔ t.head? ≠ some 48 := by
  constructor
  · intro halike hhead
    obtain ⟨s, rfl⟩ := List.head?_eq_some_iff.mp hhead
    have hnul : 0 ∉ (48 :: 120 :: 48 :: s : CStr) := by
      rw [List.mem_cons, List.mem_cons, not_or, not_or]
      exact ⟨by decide, by decide, ht.not_mem_zero⟩
    rw [List.length_cons] at hlen
    obtain ⟨-, hdata⟩ := halike 120 (CBuf.char ⟨48 :: s, []⟩) (CBuf.char ⟨48 :: 120 :: 48 :: s, []⟩)
      (s.length + 1) (.inl rfl) (by omega) (CBuf.stringAt ht.not_mem_zero) (CBuf.stringAt hnul)
    have hlong := length_hexBody ht (le_refl (s.length + 1))
    rw [(hexTextToDataAt_body_prefixed (CBuf.stringAt hnul) _).2] at hdata
    cases s with
    | nil =>
      rw [← hdata] at hlong
      exact absurd hlong (by decide)
    | cons c r =>
      have hne : (48 :: c :: r : CStr) ≠ [48] := fun h => List.cons_ne_nil _ _ (List.cons.inj h).2
      have hrest : IsHex r := fun c hc => ht c (List.mem_cons_of_mem _ (List.mem_cons_of_mem _ hc))
      have htext : StringAt (CBuf.char ⟨48 :: c :: r, []⟩) 0 (48 :: c :: r) :=
        CBuf.stringAt ht.not_mem_zero
      have hshort : _ = (hexBody ((c :: r).length + 1) r).2 :=
        (hexTextToDataAt_spec htext hne _).2.1
      have hbytes : (hexBody ((c :: r).length + 1) r).2.length = (r.length + 1) / 2 :=
        length_hexBody hrest (by rw [List.length_cons]; omega)
      rw [← hdata, hshort, hbytes, List.length_cons, List.length_cons] at hlong
      omega
  · intro hhead x text text' n hx hn htext htext'
    have hne : t ≠ [48] := by
      rintro rfl
      exact hhead rfl
    obtain ⟨hrc, hdata, -⟩ := hexTextToDataAt_spec htext hne n
    obtain ⟨hrc', hdata'⟩ := hexTextToDataAt_body_prefixed htext' n
    rw [hexDigits, if_neg hhead] at hrc hdata
    exact ⟨hrc.trans hrc'.symm, hdata.trans hdata'.symm⟩

/-! ## The two functions together -/

/-- What is written is read back; the reader stays within the text unless it is the text `0`; and
digits are read as with a prefix unless they begin with `0`. -/
theorem hexText_decodes (data : Bytes) (t : CStr) (textLength n : Nat) :
    (data ≠ [] → textLength < 4294967296 → 2 * data.length + 3 ≤ textLength → data.length ≤ n →
      ∃ t', hexDataToTextInto data textLength = (0, some t') ∧
        ∀ text, StringAt text 0 t' → (hexTextToDataAt text t'.length n).rc = data.length ∧
          (hexTextToDataAt text t'.length n).data = data) ∧
    (∀ text, StringAt text 0 t →
      ((hexTextToDataAt text t.length n).reach ≤ t.length + 1 ↔ t ≠ [48])) ∧
    (IsHex t → t.length + 2 < 4294967296 → (ReadsAlike t ↔ t.head? ≠ some 48)) := by
  refine ⟨fun hne hint hroom hlen => ?_, fun text ht => ⟨?_, fun hne => ?_⟩, readsAlike_iff⟩
  · exact ⟨_, hexDataToTextInto_eq hne hroom, fun text =>
      hexTextToDataAt_hexDataToText hne hlen (by omega)⟩
  · rintro hreach rfl
    exact absurd ((hexTextToDataAt_zero ht n).trans hreach) (by decide)
  · exact (hexTextToDataAt_spec ht hne n).2.2

/-- Three bytes there and back, and the digits of one of them. -/
theorem hexText_decodes_three :
    (∃ t, hexDataToTextInto [0, 171, 255] 9 = (0, some t) ∧
      ∀ text, StringAt text 0 t → (hexTextToDataAt text t.length 3).rc = 3 ∧
        (hexTextToDataAt text t.length 3).data = [0, 171, 255]) ∧
    (hexTextToDataAt (CBuf.char ⟨[97, 98], []⟩) 2 3).reach ≤ 3 ∧ ReadsAlike [97, 98] := by
  have h := hexText_decodes [0, 171, 255] [97, 98] 9 3
  exact ⟨h.1 (by decide) (by decide) (by decide) (by decide),
    (h.2.1 _ (CBuf.stringAt (by decide))).mpr (by decide),
    (h.2.2 (by unfold IsHex; decide +kernel) (by decide)).mpr (by decide)⟩

/-- Of the text `0` the reader takes what stands behind the terminator, and `00` has no bytes where
`0x00` has one. -/
theorem hexText_misread :
    hexTextToDataAt (CBuf.char ⟨[48], [49, 50]⟩) 1 4 = ⟨-1, [1], 5⟩ ∧ ¬ReadsAlike [48, 48] := by
  refine ⟨by decide, fun halike => ?_⟩
  obtain ⟨hrc, -⟩ := halike 120 (CBuf.char ⟨[48, 48], []⟩) (CBuf.char ⟨[48, 120, 48, 48], []⟩) 4
    (.inl rfl) (by decide) (CBuf.stringAt (by decide)) (CBuf.stringAt (by decide))
  exact absurd hrc (by decide)

end Ost.Param
