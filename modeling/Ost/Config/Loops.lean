import Ost.Config.Comments

/-!
# The loops that remove comments

The text in the buffer never gets longer than `file_length`, and the room between its end and
`file_length` stays the same while comments are cut out.  With that the first loop is a rescan of
the text, and so is the second one until it comes to a comment in the last line.
-/

namespace Ost.Config

open Ost.Iscsi Ost.Param Ost.Prog Ost.Util

/-! ## The text in the buffer -/

theorem takeWhile_text {s : CStr} (hs : (0 : UInt8) ∉ s) (rest : Bytes) :
    (s ++ 0 :: rest).takeWhile (· ≠ 0) = s := by
  rw [List.takeWhile_append_of_pos, List.takeWhile_cons_of_neg (by decide), List.append_nil]
  exact fun x hx => decide_eq_true fun hzero => hs (hzero ▸ hx)

/-- The buffer holds a text, which is no longer than `file_length` says. -/
structure Holds (s : CStr) (len : Nat) (u : Setup) : Prop where
  fileLength : u.fileLength = len
  le : s.length ≤ len
  lt : len < u.buffer.length
  text : (0 : UInt8) ∉ s
  buffer : ∃ junk, u.buffer = s ++ 0 :: junk

namespace Holds

variable {s a b c : CStr} {len i : Nat} {u : Setup}

theorem stringAt (h : Holds s len u) (hi : i ≤ s.length) : stringAt i u = .ret (s.drop i) u := by
  obtain ⟨junk, hbuffer⟩ := h.buffer
  have hdrop : u.buffer.drop i = s.drop i ++ 0 :: junk := by
    rw [hbuffer, List.drop_append_of_le_length hi]
  have hmem : (0 : UInt8) ∈ u.buffer.drop i := by
    rw [hdrop]
    exact List.mem_append_right _ List.mem_cons_self
  have htake : (u.buffer.drop i).takeWhile (· ≠ 0) = s.drop i := by
    rw [hdrop]
    exact takeWhile_text (fun hmem => h.text (List.mem_of_mem_drop hmem)) junk
  rw [Config.stringAt, get_bind, if_pos hmem, htake]
  rfl

theorem strstr (h : Holds s len u) (hi : i ≤ s.length) (pat : CStr) :
    strstr i pat u = .ret ((firstIdx pat (s.drop i)).map (i + ·)) u := by
  rw [Config.strstr, bind_ret (h.stringAt hi)]
  rfl

end Holds

/-- A byte at the end of a text, or behind it. -/
theorem exists_set {t : CStr} {x : UInt8} {rest : Bytes} {i : Nat} (hi : t.length ≤ i)
    (hx : i = t.length ∨ x = 0) :
    ∃ rest', (t ++ x :: rest).set i 0 = t ++ 0 :: rest' := by
  obtain ⟨j, rfl⟩ := Nat.exists_eq_add_of_le hi
  rw [List.set_append_right _ _ hi, Nat.add_sub_cancel_left]
  cases j with
  | zero => exact ⟨rest, rfl⟩
  | succ j =>
    obtain rfl := hx.resolve_left (by omega)
    exact ⟨rest.set j 0, rfl⟩

/-- Zero is stored at the end of the text or behind it. -/
theorem store_end {t : CStr} {x : UInt8} {rest : Bytes} {i : Nat} {u : Setup}
    (hbuffer : u.buffer = t ++ x :: rest) (hi : t.length ≤ i) (hlt : i < u.buffer.length)
    (hx : i = t.length ∨ x = 0) :
    ∃ rest', store i 0 u = .ret ⟨⟩ { u with buffer := t ++ 0 :: rest' } ∧
      (t ++ 0 :: rest').length = u.buffer.length := by
  obtain ⟨rest', hset⟩ := @exists_set t x rest i hi hx
  have hbound : (0 : Int) ≤ i ∧ (i : Int) < u.buffer.length := ⟨by omega, by omega⟩
  refine ⟨rest', ?_, ?_⟩
  · have hset' : u.buffer.set (i : Int).toNat 0 = t ++ 0 :: rest' := by
      rw [hbuffer, Int.toNat_natCast, hset]
    rw [store, get_bind, if_pos hbound, ← hset']
    rfl
  · rw [← hset, hbuffer, List.length_set]

/-- A piece may be cut out when its place and what is behind it do not overlap, or when that does
not matter. -/
def Ok (moves : Bool) (slack : Nat) (c : CStr) (behind : Nat) : Prop :=
  moves = true ∨ slack + behind ≤ c.length

section CutOut

variable {moves : Bool} {a b c : CStr} {len e : Nat} {u : Setup} {n d : Int}

/-- What is moved to where a piece started. -/
theorem memcpy_ret (h : Holds (a ++ c ++ b) len u)
    (hok : Ok moves (len - (a ++ c ++ b).length) c b.length) (he : e = a.length + c.length)
    (hn : n = len - a.length - c.length) :
    memcpy moves a.length e n u = .ret ⟨⟩ { u with
      buffer := u.buffer.take a.length ++ (u.buffer.drop e).take (len - a.length - c.length) ++
        u.buffer.drop (len - c.length) } := by
  have hle := h.le
  have hlt := h.lt
  rw [List.length_append, List.length_append] at hle
  rw [Ok, List.length_append, List.length_append] at hok
  have hm : n.toNat = len - a.length - c.length := by omega
  have hin : ¬(n < 0 ∨ u.buffer.length < e + n.toNat ∨ u.buffer.length < a.length + n.toNat) := by
    omega
  have hapart : ¬(a.length < e + n.toNat ∧ e < a.length + n.toNat ∧
      ¬(moves = true ∧ a.length ≤ e)) := by
    rcases hok with hmoves | hfits
    · exact fun hover => hover.2.2 ⟨hmoves, by omega⟩
    · omega
  rw [memcpy, get_bind, if_neg hin, if_neg hapart, hm,
    show a.length + (len - a.length - c.length) = len - c.length by omega]
  rfl

/-- The text is there then, and what follows it is the end of it unless the text fills the room. -/
theorem moved_text {buffer : Bytes} (hbuffer : ∃ junk, buffer = a ++ c ++ b ++ 0 :: junk)
    (hle : a.length + c.length + b.length ≤ len) (hlt : len < buffer.length) :
    ∃ x rest, buffer.take a.length ++ (buffer.drop (a.length + c.length)).take
        (len - a.length - c.length) ++ buffer.drop (len - c.length) = a ++ b ++ x :: rest ∧
      (len - c.length = (a ++ b).length ∨ x = 0) ∧
      (a ++ b ++ x :: rest).length = buffer.length := by
  obtain ⟨junk, rfl⟩ := hbuffer
  have htake : (a ++ c ++ b ++ 0 :: junk).take a.length = a := by
    rw [List.append_assoc, List.append_assoc, List.take_left]
  have hdrop : (a ++ c ++ b ++ 0 :: junk).drop (a.length + c.length) = b ++ 0 :: junk := by
    rw [List.append_assoc (a ++ c), ← List.length_append, List.drop_left]
  rw [htake, hdrop]
  obtain ⟨k, hk⟩ := Nat.exists_eq_add_of_le hle
  have hm : len - a.length - c.length = b.length + k := by omega
  rw [hm, List.take_length_add_append]
  cases k with
  | zero =>
    have hlast : len - c.length < (a ++ c ++ b ++ 0 :: junk).length := by omega
    rw [List.drop_eq_getElem_cons hlast, List.take_zero, List.append_nil]
    refine ⟨_, _, rfl, .inl ?_, ?_⟩
    · rw [List.length_append]
      omega
    · rw [← List.drop_eq_getElem_cons hlast, List.length_append, List.length_append,
        List.length_drop]
      omega
  | succ k =>
    rw [List.take_succ_cons]
    refine ⟨0, junk.take k ++ (a ++ c ++ b ++ 0 :: junk).drop (len - c.length), ?_, .inr rfl, ?_⟩
    · simp only [List.append_assoc, List.cons_append]
    · simp only [List.length_append, List.length_cons, List.length_take, List.length_drop] at hlt ⊢
      omega

theorem cutOut_ret (h : Holds (a ++ c ++ b) len u)
    (hok : Ok moves (len - (a ++ c ++ b).length) c b.length) (he : e = a.length + c.length)
    (hn : n = len - a.length - c.length) (hd : d = c.length) :
    ∃ u', (do
      memcpy moves a.length e n
      modify fun s => { s with fileLength := s.fileLength - d }
      store (← get).fileLength 0 : SetupProg PUnit) u = .ret ⟨⟩ u' ∧
      Holds (a ++ b) (len - c.length) u' ∧ u'.removed = u.removed := by
  have hle := h.le
  have hlt := h.lt
  rw [List.length_append, List.length_append] at hle
  obtain ⟨x, rest, hmoved, hx, hlength⟩ := moved_text h.buffer hle hlt
  rw [← he] at hmoved
  have hi : (a ++ b).length ≤ len - c.length := by
    rw [List.length_append]
    omega
  have hfile : u.fileLength - d = (len - c.length : Nat) := by
    rw [h.fileLength, hd]
    omega
  have htext : (0 : UInt8) ∉ a ++ b := by
    have htext := h.text
    simp only [List.mem_append, not_or] at htext ⊢
    exact ⟨htext.1.1, htext.2⟩
  rw [bind_ret (memcpy_ret h hok he hn), modify_bind, get_bind, hmoved]
  dsimp only
  rw [hfile]
  obtain ⟨rest', hstore, hlength'⟩ := store_end (u := { u with
    buffer := a ++ b ++ x :: rest, fileLength := (len - c.length : Nat) }) rfl hi
    (by dsimp only; omega) hx
  refine ⟨_, hstore, ⟨rfl, hi, ?_, htext, rest', rfl⟩, rfl⟩
  dsimp only at hlength' ⊢
  omega

theorem cutOut_fault (h : Holds (a ++ c ++ b) len u) (hc : c ≠ [])
    (hok : ¬Ok moves (len - (a ++ c ++ b).length) c b.length) (he : e = a.length + c.length)
    (hn : n = len - a.length - c.length) :
    (do
      memcpy moves a.length e n
      modify fun s => { s with fileLength := s.fileLength - d }
      store (← get).fileLength 0 : SetupProg PUnit) u = .halt .fault u := by
  have hle := h.le
  have hlt := h.lt
  have hpos := List.length_pos_of_ne_nil hc
  rw [List.length_append, List.length_append] at hle
  rw [Ok, List.length_append, List.length_append, not_or] at hok
  have hin : ¬(n < 0 ∨ u.buffer.length < e + n.toNat ∨ u.buffer.length < a.length + n.toNat) := by
    omega
  have hover : a.length < e + n.toNat ∧ e < a.length + n.toNat ∧
      ¬(moves = true ∧ a.length ≤ e) := ⟨by omega, by omega, fun hm => hok.1 hm.1⟩
  refine bind_halt ?_
  rw [memcpy, get_bind, if_neg hin, if_pos hover]
  rfl

end CutOut

/-! ## Loops -/

section While

variable {round : SetupProg PUnit} {pat : CStr} {n m : Nat} {u u₁ u₂ : Setup}

theorem whilePtr_end {s : CStr} {len : Nat} (hround : round u = .ret ⟨⟩ u₁) (h : Holds s len u₁)
    (hpat : firstIdx pat s = none) : whilePtr round pat (n + 1) u = .ret ⟨⟩ u₁ := by
  rw [whilePtr, bind_ret hround, bind_ret (h.strstr (Nat.zero_le _) pat), List.drop_zero, hpat]
  rfl

theorem whilePtr_again {s : CStr} {len p : Nat} (hround : round u = .ret ⟨⟩ u₁) (h : Holds s len u₁)
    (hpat : firstIdx pat s = some p) :
    whilePtr round pat (n + 1) u = whilePtr round pat n u₁ := by
  rw [whilePtr, bind_ret hround, bind_ret (h.strstr (Nat.zero_le _) pat), List.drop_zero, hpat]
  rfl

theorem whilePtr_halt {e : Halt} (hround : round u = .halt e u₁) :
    whilePtr round pat (n + 1) u = .halt e u₁ :=
  bind_halt hround

theorem whilePtr_mono (hret : whilePtr round pat n u = .ret ⟨⟩ u₁) (hle : n ≤ m) :
    whilePtr round pat m u = .ret ⟨⟩ u₁ := by
  induction n generalizing m u with
  | zero => cases hret
  | succ n ih =>
    obtain ⟨m, rfl⟩ := Nat.exists_eq_add_one_of_ne_zero (by omega : m ≠ 0)
    rw [whilePtr] at hret ⊢
    cases hround : round u with
    | halt e v =>
      rw [bind_halt hround] at hret
      cases hret
    | ret r v =>
      rw [bind_ret hround] at hret ⊢
      cases hfind : strstr 0 pat v with
      | halt e w =>
        rw [bind_halt hfind] at hret
        cases hret
      | ret p w =>
        rw [bind_ret hfind] at hret ⊢
        cases p with
        | none => exact hret
        | some p => exact ih hret (by omega)

/-- It does not matter how many there might have been. -/
theorem whilePtr_unique (h₁ : whilePtr round pat n u = .ret ⟨⟩ u₁)
    (h₂ : whilePtr round pat m u = .ret ⟨⟩ u₂) : u₁ = u₂ :=
  (Outcome.ret.inj ((whilePtr_mono h₁ (Nat.le_max_left n m)).symm.trans
    (whilePtr_mono h₂ (Nat.le_max_right n m)))).2

end While

/-! ## C comments -/

section CComments

variable {moves : Bool} {s a b c : CStr} {len : Nat} {u : Setup}

/-- A text without the start of a comment stays. -/
theorem removeCComment_bare (h : Holds s len u) (hs : Bare s) :
    removeCComment moves u = .ret ⟨⟩ u := by
  rw [removeCComment, bind_ret (h.strstr (Nat.zero_le _) _), List.drop_zero,
    firstIdx_pair_eq_none.mpr hs]
  rfl

/-- So does one in which the first comment has no end. -/
theorem removeCComment_open (h : Holds s len u) (hcut : cLoop.cut s = none) :
    removeCComment moves u = .ret ⟨⟩ u := by
  by_cases hs : Bare s
  · exact removeCComment_bare h hs
  · obtain ⟨p, hp⟩ := Option.ne_none_iff_exists'.mp (mt firstIdx_pair_eq_none.mp hs)
    obtain ⟨a, t, rfl, rfl, ha⟩ := firstIdx_pair_split hp
    rw [cLoop, cRange_cut 1 ha, Option.map_eq_none_iff] at hcut
    have hle : a.length + 1 ≤ (a ++ 47 :: 42 :: t).length := by
      rw [List.length_append, List.length_cons]
      omega
    rw [removeCComment, bind_ret (h.strstr (Nat.zero_le _) _), List.drop_zero, hp, Option.map_some,
      Nat.zero_add]
    dsimp only
    rw [bind_ret (h.strstr hle _), List.drop_length_add_append, hcut]
    rfl

/-- A round that finds a comment. -/
theorem removeCComment_cut (h : Holds s len u) (hcut : cLoop.cut s = some (a, c, b)) :
    ∃ (e : Nat) (n d : Int), e = a.length + c.length ∧ n = len - a.length - c.length ∧
      d = c.length ∧ removeCComment moves u = (do
        memcpy moves a.length e n
        modify fun s => { s with fileLength := s.fileLength - d }
        store (← get).fileLength 0 : SetupProg PUnit) { u with removed := u.removed ++ [c] } := by
  obtain ⟨t, q, rfl, ha, hq, rfl, rfl⟩ := cRange_split hcut
  have hle : a.length + 1 ≤ (a ++ 47 :: 42 :: t).length := by
    rw [List.length_append, List.length_cons]
    omega
  have hlen : ((47 :: 42 :: t).take (1 + q + 2)).length = 1 + q + 2 := by
    obtain ⟨m, b, hm, rfl, -⟩ := firstIdx_pair_split hq
    have hlen := congrArg List.length hm
    simp only [List.length_drop, List.length_append, List.length_cons] at hlen
    rw [List.length_take, List.length_cons, List.length_cons]
    omega
  obtain ⟨junk, hbuffer⟩ := h.buffer
  have hremoved : (u.buffer.drop a.length).take (a.length + 1 + q + 2 - a.length) =
      (47 :: 42 :: t).take (1 + q + 2) := by
    rw [hbuffer, List.append_assoc, List.drop_left,
      show a.length + 1 + q + 2 - a.length = 1 + q + 2 by omega, List.take_append_of_le_length]
    rw [List.length_take] at hlen
    omega
  rw [removeCComment, bind_ret (h.strstr (Nat.zero_le _) _), List.drop_zero, firstIdx_pair ha,
    Option.map_some, Nat.zero_add]
  dsimp only
  rw [bind_ret (h.strstr hle _), List.drop_length_add_append, hq, Option.map_some]
  dsimp only
  rw [modify_bind, get_bind, hremoved]
  refine ⟨_, _, _, ?_, ?_, ?_, rfl⟩
  · rw [hlen]
    omega
  · rw [hlen]
    dsimp only
    rw [h.fileLength]
    push_cast
    omega
  · rw [hlen]
    push_cast
    omega

/-- A comment that may be cut out is cut out. -/
theorem removeCComment_ret (h : Holds s len u) (hcut : cLoop.cut s = some (a, c, b))
    (hok : Ok moves (len - s.length) c b.length) :
    ∃ u₁, removeCComment moves u = .ret ⟨⟩ u₁ ∧ Holds (a ++ b) (len - c.length) u₁ ∧
      u₁.removed = u.removed ++ [c] := by
  obtain ⟨e, n, d, he, hn, hd, hround⟩ := @removeCComment_cut moves s a b c len u h hcut
  obtain rfl := cLoop.split hcut
  have h' : Holds (a ++ c ++ b) len { u with removed := u.removed ++ [c] } :=
    ⟨h.fileLength, h.le, h.lt, h.text, h.buffer⟩
  obtain ⟨u₁, hret, hholds, hremoved⟩ := cutOut_ret h' hok he hn hd
  exact ⟨u₁, hround.trans hret, hholds, hremoved⟩

/-- One that may not is a fault. -/
theorem removeCComment_fault (h : Holds s len u) (hcut : cLoop.cut s = some (a, c, b))
    (hok : ¬Ok moves (len - s.length) c b.length) :
    ∃ u₁, removeCComment moves u = .halt .fault u₁ := by
  obtain ⟨e, n, d, he, hn, -, hround⟩ := @removeCComment_cut moves s a b c len u h hcut
  have hc := cLoop.ne_nil hcut
  obtain rfl := cLoop.split hcut
  have h' : Holds (a ++ c ++ b) len { u with removed := u.removed ++ [c] } :=
    ⟨h.fileLength, h.le, h.lt, h.text, h.buffer⟩
  exact ⟨_, hround.trans (cutOut_fault h' hc hok he hn)⟩

theorem slack_cut (h : Holds s len u) (hcut : cLoop.cut s = some (a, c, b)) :
    len - c.length - (a ++ b).length = len - s.length := by
  have hle := h.le
  rw [cLoop.split hcut] at hle ⊢
  simp only [List.length_append] at hle ⊢
  omega

/-- **The first loop**, where it ends, has taken out of the text what a rescan takes out. -/
theorem cLoop_rescan {n : Nat} {u' : Setup} (h : Holds s len u)
    (hret : whilePtr (removeCComment moves) [47, 42] n u = .ret ⟨⟩ u') :
    ∃ cs w len', Rescan cLoop Bare (Ok moves (len - s.length)) s cs w ∧
      u'.removed = u.removed ++ cs ∧ Holds w len' u' ∧ len' - w.length = len - s.length := by
  induction n generalizing s len u with
  | zero => cases hret
  | succ n ih =>
    by_cases hs : Bare s
    · rw [whilePtr_end (removeCComment_bare h hs) h (firstIdx_pair_eq_none.mpr hs)] at hret
      cases hret
      exact ⟨[], s, len, .done hs, (List.append_nil _).symm, h, rfl⟩
    obtain ⟨p, hp⟩ := Option.ne_none_iff_exists'.mp (mt firstIdx_pair_eq_none.mp hs)
    cases hcut : cLoop.cut s with
    | none =>
      rw [whilePtr_again (removeCComment_open h hcut) h hp] at hret
      exact ih h hret
    | some r =>
      obtain ⟨a, c, b⟩ := r
      by_cases hok : Ok moves (len - s.length) c b.length
      · obtain ⟨u₁, hround, h₁, hremoved⟩ := removeCComment_ret h hcut hok
        by_cases hab : Bare (a ++ b)
        · rw [whilePtr_end hround h₁ (firstIdx_pair_eq_none.mpr hab)] at hret
          cases hret
          exact ⟨[c], a ++ b, _, .cut hcut hok (.done hab), hremoved, h₁, slack_cut h hcut⟩
        · obtain ⟨p', hp'⟩ := Option.ne_none_iff_exists'.mp (mt firstIdx_pair_eq_none.mp hab)
          rw [whilePtr_again hround h₁ hp'] at hret
          obtain ⟨cs, w, len', hscan, hcs, hw, hslack⟩ := ih h₁ hret
          rw [slack_cut h hcut] at hscan hslack
          refine ⟨c :: cs, w, len', .cut hcut hok hscan, ?_, hw, hslack⟩
          rw [hcs, hremoved, List.append_assoc, List.singleton_append]
      · obtain ⟨u₁, hround⟩ := removeCComment_fault h hcut hok
        rw [whilePtr_halt hround] at hret
        cases hret

/-- It ends where a rescan does. -/
theorem rescan_cLoop {slack : Nat} {cs : List CStr} {w : CStr}
    (hscan : Rescan cLoop Bare (Ok moves slack) s cs w) (h : Holds s len u)
    (hslack : len - s.length = slack) :
    ∃ n u' len', whilePtr (removeCComment moves) [47, 42] n u = .ret ⟨⟩ u' ∧
      u'.removed = u.removed ++ cs ∧ Holds w len' u' ∧ len' - w.length = slack := by
  induction hscan generalizing len u with
  | @done s hs =>
    exact ⟨1, u, len, whilePtr_end (removeCComment_bare h hs) h (firstIdx_pair_eq_none.mpr hs),
      (List.append_nil _).symm, h, hslack⟩
  | @cut s a c b w cs hcut hok hscan ih =>
    obtain ⟨u₁, hround, h₁, hremoved⟩ := removeCComment_ret h hcut (hslack ▸ hok)
    obtain ⟨n, u', len', hret, hcs, hw, hslack'⟩ := ih h₁ ((slack_cut h hcut).trans hslack)
    by_cases hab : Bare (a ++ b)
    · obtain ⟨rfl, rfl⟩ := (Rescan.done_iff cLoop_agrees hab).mp hscan
      exact ⟨1, u₁, _, whilePtr_end hround h₁ (firstIdx_pair_eq_none.mpr hab), hremoved, h₁,
        (slack_cut h hcut).trans hslack⟩
    · obtain ⟨p, hp⟩ := Option.ne_none_iff_exists'.mp (mt firstIdx_pair_eq_none.mp hab)
      refine ⟨n + 1, u', len', (whilePtr_again hround h₁ hp).trans hret, ?_, hw, hslack'⟩
      rw [hcs, hremoved, List.append_assoc, List.singleton_append]

/-- It does not end at a comment without an end. -/
theorem cLoop_hangs (h : Holds s len u) (hcut : cLoop.cut s = none) (hs : ¬Bare s) (n : Nat) :
    whilePtr (removeCComment moves) [47, 42] n u = .halt .hang u := by
  obtain ⟨p, hp⟩ := Option.ne_none_iff_exists'.mp (mt firstIdx_pair_eq_none.mp hs)
  induction n with
  | zero => rfl
  | succ n ih => rw [whilePtr_again (removeCComment_open h hcut) h hp, ih]

end CComments

/-! ## Shell comments -/

section ShellComments

variable {moves : Bool} {s a b c m t : CStr} {len n : Nat} {u u₁ u₂ : Setup}

theorem removeShellComment_bare (h : Holds s len u) (hs : 35 ∉ s) :
    removeShellComment moves u = .ret ⟨⟩ u := by
  rw [removeShellComment, bind_ret (h.strstr (Nat.zero_le _) _), List.drop_zero,
    firstIdx_item_eq_none.mpr hs]
  rfl

/-- A round that finds a comment in a line that ends. -/
theorem removeShellComment_line (h : Holds (a ++ 35 :: (m ++ 10 :: b)) len u) (ha : 35 ∉ a)
    (hm : 10 ∉ m) :
    ∃ (e : Nat) (n d : Int), e = a.length + (35 :: (m ++ [10])).length ∧
      n = len - a.length - (35 :: (m ++ [10])).length ∧ d = (35 :: (m ++ [10])).length ∧
      removeShellComment moves u = (do
        memcpy moves a.length e n
        modify fun s => { s with fileLength := s.fileLength - d }
        store (← get).fileLength 0 : SetupProg PUnit) u := by
  have hle : a.length + 1 ≤ (a ++ 35 :: (m ++ 10 :: b)).length := by
    rw [List.length_append, List.length_cons]
    omega
  have hlen : (35 :: (m ++ [10])).length = m.length + 2 := by
    rw [List.length_cons, List.length_append, List.length_singleton]
  rw [removeShellComment, bind_ret (h.strstr (Nat.zero_le _) _), List.drop_zero, firstIdx_item ha,
    Option.map_some, Nat.zero_add]
  dsimp only
  rw [bind_ret (h.strstr hle _), List.drop_length_add_append, List.drop_one, List.tail_cons,
    firstIdx_item hm, Option.map_some]
  dsimp only
  rw [get_bind]
  refine ⟨_, _, _, ?_, ?_, ?_, rfl⟩
  · rw [hlen]
    omega
  · rw [hlen, h.fileLength]
    push_cast
    omega
  · rw [hlen]
    push_cast
    omega

/-- Zero is stored somewhere in the text, or behind it. -/
theorem store_take (h : Holds s len u) {i : Nat} (hi : i ≤ len) (hfile : u₁.fileLength = i)
    (hbuffer : u₁.buffer = u.buffer) :
    ∃ u₂, store i 0 u₁ = .ret ⟨⟩ u₂ ∧ u₂.removed = u₁.removed ∧ Holds (s.take i) i u₂ := by
  obtain ⟨junk, hjunk⟩ := h.buffer
  have hlt := h.lt
  have hbound : (0 : Int) ≤ i ∧ (i : Int) < u₁.buffer.length := ⟨by omega, by rw [hbuffer]; omega⟩
  refine ⟨{ u₁ with buffer := u₁.buffer.set (i : Int).toNat 0 }, ?_, rfl, ?_⟩
  · rw [store, get_bind, if_pos hbound]
    rfl
  · refine ⟨hfile, ?_, ?_, fun hmem => h.text (List.mem_of_mem_take hmem), ?_⟩
    · rw [List.length_take]
      exact Nat.min_le_left _ _
    · dsimp only
      rw [List.length_set, hbuffer]
      omega
    · dsimp only
      rw [hbuffer, hjunk, Int.toNat_natCast]
      by_cases hs : s.length ≤ i
      · rw [List.take_of_length_le hs]
        exact exists_set hs (.inr rfl)
      · rw [List.set_append_left _ _ (not_le.mp hs),
          List.set_eq_take_append_cons_drop, if_pos (not_le.mp hs), List.append_assoc]
        exact ⟨_, rfl⟩

/-- A round that finds a comment in the last line moves the end of the text, or the end of the room
behind it. -/
theorem removeShellComment_last (h : Holds (a ++ 35 :: t) len u) (ha : 35 ∉ a) (ht : 10 ∉ t) :
    ∃ u₁, removeShellComment moves u = .ret ⟨⟩ u₁ ∧ u₁.removed = u.removed ∧
      Holds ((a ++ 35 :: t).take (len - (t.length + 1))) (len - (t.length + 1)) u₁ := by
  have hle := h.le
  rw [List.length_append, List.length_cons] at hle
  have hstart : a.length + 1 ≤ (a ++ 35 :: t).length := by
    rw [List.length_append, List.length_cons]
    omega
  have hfile : u.fileLength - (35 :: t).length = (len - (t.length + 1) : Nat) := by
    rw [h.fileLength, List.length_cons]
    omega
  rw [removeShellComment, bind_ret (h.strstr (Nat.zero_le _) _), List.drop_zero, firstIdx_item ha,
    Option.map_some, Nat.zero_add]
  dsimp only
  rw [bind_ret (h.strstr hstart _), List.drop_length_add_append, List.drop_one, List.tail_cons,
    firstIdx_item_eq_none.mpr ht, Option.map_none]
  dsimp only
  rw [bind_ret (h.stringAt (Nat.le_of_succ_le hstart)), List.drop_left, modify_bind,
    get_bind, hfile]
  exact store_take h (by omega) rfl rfl

/-- The rounds at the last line. -/
theorem shellLoop_last (h : Holds (a ++ 35 :: t) len u) (ha : 35 ∉ a) (ht : 10 ∉ t) :
    ∃ n u' len', whilePtr (removeShellComment moves) [35] n u = .ret ⟨⟩ u' ∧
      u'.removed = u.removed ∧ Holds a len' u' := by
  induction len using Nat.strong_induction_on generalizing t u with
  | h len ih =>
    have hle := h.le
    rw [List.length_append, List.length_cons] at hle
    obtain ⟨u₁, hround, hremoved, h₁⟩ : ∃ u₁, removeShellComment moves u = .ret ⟨⟩ u₁ ∧
      u₁.removed = u.removed ∧
      Holds ((a ++ 35 :: t).take (len - (t.length + 1))) (len - (t.length + 1)) u₁ :=
        removeShellComment_last h ha ht
    obtain ⟨k, hk⟩ := Nat.exists_eq_add_of_le (by omega : a.length ≤ len - (t.length + 1))
    rw [hk, List.take_length_add_append] at h₁
    cases k with
    | zero =>
      rw [List.take_zero, List.append_nil] at h₁
      exact ⟨1, u₁, _, whilePtr_end hround h₁ (firstIdx_item_eq_none.mpr ha), hremoved, h₁⟩
    | succ k =>
      rw [List.take_succ_cons] at h₁
      obtain ⟨n, u', len', hret, hremoved', hw⟩ :=
        ih _ (by omega) h₁ fun hmem => ht (List.mem_of_mem_take hmem)
      exact ⟨n + 1, u', len', (whilePtr_again hround h₁ (firstIdx_item ha)).trans hret,
        hremoved'.trans hremoved, hw⟩

/-- A comment may be taken out of the last line anyway. -/
def OkLine (moves : Bool) (slack : Nat) (c : CStr) (behind : Nat) : Prop :=
  10 ∉ c ∨ Ok moves slack c behind

/-- A comment that may be cut out is cut out. -/
theorem removeShellComment_ret (h : Holds (a ++ 35 :: (m ++ 10 :: b)) len u) (ha : 35 ∉ a)
    (hm : 10 ∉ m)
    (hok : Ok moves (len - (a ++ 35 :: (m ++ 10 :: b)).length) (35 :: (m ++ [10])) b.length) :
    ∃ u₁, removeShellComment moves u = .ret ⟨⟩ u₁ ∧
      Holds (a ++ b) (len - (35 :: (m ++ [10])).length) u₁ ∧ u₁.removed = u.removed := by
  obtain ⟨e, n, d, he, hn, hd, hround⟩ := @removeShellComment_line moves a b m len u h ha hm
  rw [hround]
  rw [shellComments.split (shell_cut_line ha hm)] at h hok
  exact cutOut_ret h hok he hn hd

/-- One that may not is a fault. -/
theorem removeShellComment_fault (h : Holds (a ++ 35 :: (m ++ 10 :: b)) len u) (ha : 35 ∉ a)
    (hm : 10 ∉ m)
    (hok : ¬Ok moves (len - (a ++ 35 :: (m ++ 10 :: b)).length) (35 :: (m ++ [10])) b.length) :
    removeShellComment moves u = .halt .fault u := by
  obtain ⟨e, n, d, he, hn, -, hround⟩ := @removeShellComment_line moves a b m len u h ha hm
  rw [hround]
  rw [shellComments.split (shell_cut_line ha hm)] at h hok
  exact cutOut_fault h (List.cons_ne_nil _ _) hok he hn

theorem slack_line (h : Holds (a ++ 35 :: (m ++ 10 :: b)) len u) :
    len - (35 :: (m ++ [10])).length - (a ++ b).length =
      len - (a ++ 35 :: (m ++ 10 :: b)).length := by
  have hle := h.le
  simp only [List.length_append, List.length_cons, List.length_nil] at hle ⊢
  omega

/-- **The second loop**, where it ends, has taken out of the text what a rescan takes out. -/
theorem shellLoop_rescan {u' : Setup} (h : Holds s len u)
    (hret : whilePtr (removeShellComment moves) [35] n u = .ret ⟨⟩ u') :
    ∃ cs w len', Rescan shellComments (35 ∉ ·) (OkLine moves (len - s.length)) s cs w ∧
      u'.removed = u.removed ∧ Holds w len' u' := by
  induction n generalizing s len u with
  | zero => cases hret
  | succ n ih =>
    by_cases hs : (35 : UInt8) ∈ s
    · rcases shell_cases hs with ⟨a, m, b, rfl, ha, hm⟩ | ⟨a, t, rfl, ha, ht⟩
      · by_cases hok : Ok moves (len - (a ++ 35 :: (m ++ 10 :: b)).length)
          (35 :: (m ++ [10])) b.length
        · obtain ⟨u₁, hround, h₁, hremoved⟩ := removeShellComment_ret h ha hm hok
          by_cases hab : (35 : UInt8) ∈ a ++ b
          · obtain ⟨p, hp⟩ :=
              Option.ne_none_iff_exists'.mp (mt firstIdx_item_eq_none.mp (not_not.mpr hab))
            rw [whilePtr_again hround h₁ hp] at hret
            obtain ⟨cs, w, len', hscan, hcs, hw⟩ := ih h₁ hret
            rw [slack_line h] at hscan
            exact ⟨_, w, len', .cut (shell_cut_line ha hm) (.inr hok) hscan, hcs.trans hremoved, hw⟩
          · rw [whilePtr_end hround h₁ (firstIdx_item_eq_none.mpr hab)] at hret
            cases hret
            exact ⟨_, a ++ b, _, .cut (shell_cut_line ha hm) (.inr hok) (.done hab), hremoved, h₁⟩
        · rw [whilePtr_halt (removeShellComment_fault h ha hm hok)] at hret
          cases hret
      · obtain ⟨n', u'', len', hret', hremoved, hw⟩ := @shellLoop_last moves a t len u h ha ht
        obtain rfl := whilePtr_unique hret hret'
        have hc : (10 : UInt8) ∉ 35 :: t := List.not_mem_cons_of_ne_of_not_mem (by decide) ht
        refine ⟨[35 :: t], a, len', .cut (shell_cut_last ha ht) (.inl hc) ?_, hremoved, hw⟩
        rw [List.append_nil]
        exact .done ha
    · rw [whilePtr_end (removeShellComment_bare h hs) h (firstIdx_item_eq_none.mpr hs)] at hret
      cases hret
      exact ⟨[], s, len, .done hs, rfl, h⟩

/-- It ends where a rescan does. -/
theorem rescan_shellLoop {slack : Nat} {cs : List CStr} {w : CStr}
    (hscan : Rescan shellComments (35 ∉ ·) (OkLine moves slack) s cs w) (h : Holds s len u)
    (hslack : len - s.length = slack) :
    ∃ n u' len', whilePtr (removeShellComment moves) [35] n u = .ret ⟨⟩ u' ∧
      u'.removed = u.removed ∧ Holds w len' u' := by
  induction hscan generalizing len u with
  | @done s hs =>
    exact ⟨1, u, len, whilePtr_end (removeShellComment_bare h hs) h (firstIdx_item_eq_none.mpr hs),
      rfl, h⟩
  | @cut s a c b w cs hcut hok hscan ih =>
    have hs : (35 : UInt8) ∈ s := by
      by_contra hs
      exact absurd ((shell_cut_none hs).symm.trans hcut) (Option.some_ne_none _).symm
    rcases shell_cases hs with ⟨a, m, b, rfl, ha, hm⟩ | ⟨a, t, rfl, ha, ht⟩
    · cases Option.some.inj ((shell_cut_line ha hm).symm.trans hcut)
      have hok' := hok.resolve_left (not_not.mpr (by simp))
      obtain ⟨u₁, hround, h₁, hremoved⟩ := removeShellComment_ret h ha hm (hslack ▸ hok')
      obtain ⟨n, u', len', hret, hcs, hw⟩ := ih h₁ ((slack_line h).trans hslack)
      by_cases hab : (35 : UInt8) ∈ a ++ b
      · obtain ⟨p, hp⟩ :=
          Option.ne_none_iff_exists'.mp (mt firstIdx_item_eq_none.mp (not_not.mpr hab))
        exact ⟨n + 1, u', len', (whilePtr_again hround h₁ hp).trans hret, hcs.trans hremoved, hw⟩
      · obtain ⟨rfl, rfl⟩ := (Rescan.done_iff shell_agrees hab).mp hscan
        exact ⟨1, u₁, _, whilePtr_end hround h₁ (firstIdx_item_eq_none.mpr hab), hremoved, h₁⟩
    · cases Option.some.inj ((shell_cut_last ha ht).symm.trans hcut)
      rw [List.append_nil] at hscan
      obtain ⟨rfl, rfl⟩ := (Rescan.done_iff shell_agrees ha).mp hscan
      exact shellLoop_last h ha ht

/-- The text without its shell comments has none. -/
theorem shellComments_rest (s : CStr) : (35 : UInt8) ∉ shellComments.rest s := by
  induction s using shellComments.induction with
  | none s hcut =>
    rw [shellComments.rest_of_none hcut]
    intro hs
    rcases shell_cases hs with ⟨a, m, b, rfl, ha, hm⟩ | ⟨a, t, rfl, ha, ht⟩
    · exact absurd (hcut.symm.trans (shell_cut_line ha hm)) (Option.some_ne_none _).symm
    · exact absurd (hcut.symm.trans (shell_cut_last ha ht)) (Option.some_ne_none _).symm
  | some s a c b hcut ih =>
    rw [shellComments.rest_of_some hcut]
    have hs : (35 : UInt8) ∈ s := by
      by_contra hs
      exact absurd ((shell_cut_none hs).symm.trans hcut) (Option.some_ne_none _).symm
    have ha : (35 : UInt8) ∉ a := by
      rcases shell_cases hs with ⟨a', m, b', rfl, ha, hm⟩ | ⟨a', t, rfl, ha, ht⟩
      · cases Option.some.inj ((shell_cut_line ha hm).symm.trans hcut)
        exact ha
      · cases Option.some.inj ((shell_cut_last ha ht).symm.trans hcut)
        exact ha
    exact fun h => (List.mem_append.mp h).elim ha ih

end ShellComments

/-! ## Both loops -/

/-- The loops end; the first one cuts out the C comments of the text, piece by piece, and the second
one leaves it without its shell comments. -/
def Removes (moves : Bool) (s : CStr) (n : Nat) (u u₂ : Setup) : Prop :=
  ∃ u₁, whilePtr (removeCComment moves) [47, 42] n u = .ret ⟨⟩ u₁ ∧
    u₁.removed = u.removed ++ (cComments.pieces s).map Prod.fst ∧
    stringAt 0 u₁ = .ret (cComments.rest s) u₁ ∧
    whilePtr (removeShellComment moves) [35] n u₁ = .ret ⟨⟩ u₂ ∧
    stringAt 0 u₂ = .ret (shellComments.rest (cComments.rest s)) u₂

/-- A text that the loops can deal with: without its C comments it has no start of one, the C
comments are plain, and what is cut out may be cut out. -/
structure Tractable (moves : Bool) (slack : Nat) (s : CStr) : Prop where
  bare : Bare (cComments.rest s)
  plain : ∀ p ∈ cComments.pieces s, Plain p.1
  ok : ∀ p ∈ cComments.pieces s, Ok moves slack p.1 p.2
  okLine : ∀ p ∈ shellComments.pieces (cComments.rest s), OkLine moves slack p.1 p.2

/-- **The loops remove the comments** just when they can deal with the text. -/
theorem removes_iff {moves : Bool} {s : CStr} {len : Nat} {u : Setup} (h : Holds s len u) :
    (∃ n u₂, Removes moves s n u u₂) ↔ Tractable moves (len - s.length) s := by
  have hlines (n : Nat) (cs : List CStr) (w : CStr) := @Rescan.sweep_iff UInt8 shellComments
    shellComments (35 ∉ ·) (fun _ => True) (OkLine moves n) [] (cComments.rest s) w cs shell_agrees
    (shellComments_rest _) fun _ _ => trivial
  constructor
  · rintro ⟨n, u₂, u₁, hc, hremoved, htext, hshell, -⟩
    obtain ⟨cs, w, len', hscan, hcs, hw, hslack⟩ := cLoop_rescan h hc
    obtain rfl : cs = (cComments.pieces s).map Prod.fst :=
      List.append_cancel_left (hcs.symm.trans hremoved)
    obtain rfl : w = cComments.rest s :=
      (Outcome.ret.inj ((hw.stringAt (Nat.zero_le _)).symm.trans htext)).1
    obtain ⟨hbare, hplain, hok⟩ := (Rescan.exact_iff cLoop_agrees).mp hscan
    obtain ⟨cs', w', len'', hscan', -⟩ := shellLoop_rescan hw hshell
    rw [hslack] at hscan'
    exact ⟨hbare, hplain, hok, ((hlines _ _ _).mp hscan').1⟩
  · intro htract
    obtain ⟨n, u₁, len', hc, hremoved, hw, hslack⟩ :=
      rescan_cLoop ((Rescan.exact_iff cLoop_agrees).mpr ⟨htract.bare, htract.plain, htract.ok⟩)
      h rfl
    obtain ⟨m, u₂, len'', hshell, -, hw'⟩ :=
      rescan_shellLoop ((hlines _ _ _).mpr ⟨htract.okLine, rfl, rfl⟩) hw hslack
    exact ⟨max n m, u₂, u₁, whilePtr_mono hc (Nat.le_max_left n m), hremoved,
      hw.stringAt (Nat.zero_le _), whilePtr_mono hshell (Nat.le_max_right n m),
      hw'.stringAt (Nat.zero_le _)⟩

end Ost.Config
