import Ost.Config.Basic

/-!
# Comments of the configuration file

What the comments of a text are, and what the loops of `get_target_config` find: a C comment begins
with two characters, ends with two others and may not end before these have gone by, but the loop
looks for the end from the second character on.  A shell comment ends with its line, and takes the
end of the line with it.
-/

namespace Ost.Config

open Ost.Iscsi Ost.Param Ost.Prog Ost.Util

/-! ## The comments of a text -/

/-- The first C comment: where it starts and how long it is.  The search for its end starts `k`
characters behind its start. -/
def cRange (k : Nat) (s : CStr) : Option (Nat × Nat) :=
  (firstIdx [47, 42] s).bind fun p =>
    (firstIdx [42, 47] (s.drop (p + k))).map fun q => (p, k + q + 2)

theorem cRange_spec {k p m : Nat} {s : CStr} (h : cRange k s = some (p, m)) :
    p < s.length ∧ 0 < m := by
  obtain ⟨p', hp, hq⟩ := Option.bind_eq_some_iff.mp h
  obtain ⟨q, -, hr⟩ := Option.map_eq_some_iff.mp hq
  cases hr
  obtain ⟨a, b, rfl, rfl, -⟩ := firstIdx_pair_split hp
  refine ⟨?_, by omega⟩
  rw [List.length_append, List.length_cons]
  omega

/-- The C comments: the two characters that start one are not part of its end. -/
def cComments : Cutter UInt8 := .ofRange (cRange 2) cRange_spec

/-- What the loop takes for C comments. -/
def cLoop : Cutter UInt8 := .ofRange (cRange 1) cRange_spec

/-- The first shell comment, with the end of its line. -/
def shellRange (s : CStr) : Option (Nat × Nat) :=
  (firstIdx [35] s).map fun p => (p, match firstIdx [10] (s.drop (p + 1)) with
    | some q => q + 2
    | none => s.length - p)

theorem shellRange_spec {p m : Nat} {s : CStr} (h : shellRange s = some (p, m)) :
    p < s.length ∧ 0 < m := by
  obtain ⟨p', hp, hr⟩ := Option.map_eq_some_iff.mp h
  obtain ⟨a, b, rfl, rfl, -⟩ := firstIdx_item_split hp
  have hlt : a.length < (a ++ 35 :: b).length := by
    rw [List.length_append, List.length_cons]
    omega
  cases hr
  refine ⟨hlt, ?_⟩
  split <;> omega

/-- The shell comments. -/
def shellComments : Cutter UInt8 := .ofRange shellRange shellRange_spec

/-! ## C comments, from the left and from the start -/

/-- A text without the start of a comment. -/
abbrev Bare (s : CStr) : Prop := Apart 47 42 s

/-- The first comment, when what is before it has none. -/
theorem cRange_cut {a t : CStr} (k : Nat) (ha : Bare (a ++ [47])) :
    (Cutter.ofRange (cRange k) cRange_spec).cut (a ++ 47 :: 42 :: t) =
      (firstIdx [42, 47] ((47 :: 42 :: t).drop k)).map fun q =>
        (a, (47 :: 42 :: t).take (k + q + 2), (47 :: 42 :: t).drop (k + q + 2)) := by
  change (cRange k (a ++ 47 :: 42 :: t)).map _ = _
  rw [cRange, firstIdx_pair ha, Option.bind_some, Option.map_map, List.drop_length_add_append]
  refine Option.map_congr fun q _ => ?_
  dsimp only [Function.comp_apply]
  rw [List.take_left, List.drop_left, List.drop_length_add_append]

/-- A text without the start of a comment has none. -/
theorem cut_of_bare {k : Nat} {s : CStr} (h : Bare s) :
    (Cutter.ofRange (cRange k) cRange_spec).cut s = none := by
  change (cRange k s).map _ = none
  rw [cRange, firstIdx_pair_eq_none.mpr h]
  rfl

/-- What the first comment is. -/
theorem cRange_split {k : Nat} {s a c b : CStr}
    (h : (Cutter.ofRange (cRange k) cRange_spec).cut s = some (a, c, b)) :
    ∃ t q, s = a ++ 47 :: 42 :: t ∧ Bare (a ++ [47]) ∧
      firstIdx [42, 47] ((47 :: 42 :: t).drop k) = some q ∧
      c = (47 :: 42 :: t).take (k + q + 2) ∧ b = (47 :: 42 :: t).drop (k + q + 2) := by
  by_cases hs : Bare s
  · exact absurd ((cut_of_bare hs).symm.trans h) (Option.some_ne_none _).symm
  · obtain ⟨p, hp⟩ := Option.ne_none_iff_exists'.mp (mt firstIdx_pair_eq_none.mp hs)
    obtain ⟨a', t, rfl, -, ha⟩ := firstIdx_pair_split hp
    rw [cRange_cut k ha] at h
    obtain ⟨q, hq, hr⟩ := Option.map_eq_some_iff.mp h
    cases hr
    exact ⟨t, q, rfl, ha, hq, rfl, rfl⟩

/-- The two characters that start a comment are not taken for a part of its end. -/
def Plain (c : CStr) : Prop := ¬[47, 42, 47] <+: c

instance instDecidablePlain (c : CStr) : Decidable (Plain c) :=
  inferInstanceAs (Decidable ¬[47, 42, 47] <+: c)

/-- Then the search from the second character does not end there. -/
theorem plain_iff {t : CStr} (q : Nat) :
    Plain ((47 :: 42 :: t).take (2 + q + 2)) ↔ ¬[42, 47].isPrefixOf (42 :: t) = true := by
  rw [Plain, List.isPrefixOf_iff_prefix, show 2 + q + 2 = q + 4 by omega]
  cases t with
  | nil => simp
  | cons d t => simp

/-- The loop takes plain comments for what they are. -/
theorem cLoop_agrees : Agrees cLoop cComments Bare Plain where
  done h := cut_of_bare h
  plain := by
    intro pre l a c b hcut hdone hplain
    obtain ⟨t, q, rfl, -, hq, rfl, rfl⟩ := cRange_split hcut
    have hpre : Bare (pre ++ a ++ [47]) := by
      rw [← List.append_assoc] at hdone
      exact Apart.concat (List.isChain_append.mp hdone).1 (by decide)
    rw [← List.append_assoc, cLoop, cRange_cut 1 hpre, List.drop_one, List.tail_cons, firstIdx_cons,
      if_neg ((plain_iff q).mp hplain)]
    rw [List.drop_succ_cons, List.drop_succ_cons, List.drop_zero] at hq
    rw [hq, Option.map_some, Option.map_some, show 1 + (q + 1) + 2 = 2 + q + 2 by omega]
  other := by
    intro pre l a c b hcut hdone hplain
    obtain ⟨t, q, rfl, -, hq, rfl, rfl⟩ := cRange_split hcut
    have hpre : Bare (pre ++ a ++ [47]) := by
      rw [← List.append_assoc] at hdone
      exact Apart.concat (List.isChain_append.mp hdone).1 (by decide)
    refine ⟨pre ++ a, (47 :: 42 :: t).take 3, (47 :: 42 :: t).drop 3, ?_, ?_⟩
    · rw [← List.append_assoc, cLoop, cRange_cut 1 hpre, List.drop_one, List.tail_cons,
        firstIdx_cons, if_pos (not_not.mp (mt (plain_iff q).mpr hplain)), Option.map_some]
    · rw [List.drop_succ_cons, List.drop_succ_cons, List.drop_zero] at hq
      obtain ⟨m, b, rfl, rfl, -⟩ := firstIdx_pair_split hq
      intro heq
      have hlen := congrArg List.length heq
      simp only [List.length_take, List.length_cons, List.length_append] at hlen
      omega

/-! ## Shell comments, from the left and from the start -/

/-- A comment that ends with its line. -/
theorem shell_cut_line {a m b : CStr} (ha : 35 ∉ a) (hm : 10 ∉ m) :
    shellComments.cut (a ++ 35 :: (m ++ 10 :: b)) = some (a, 35 :: (m ++ [10]), b) := by
  change (shellRange (a ++ 35 :: (m ++ 10 :: b))).map _ = _
  rw [shellRange, firstIdx_item ha, Option.map_some, List.drop_length_add_append, List.drop_one,
    List.tail_cons, firstIdx_item hm, Option.map_some]
  dsimp only
  rw [List.take_left, List.drop_left, List.drop_length_add_append]
  have hsplit : 35 :: (m ++ 10 :: b) = 35 :: (m ++ [10]) ++ b := by simp
  have hlen : (35 :: (m ++ [10])).length = m.length + 2 := by simp
  rw [hsplit, ← hlen, List.take_left, List.drop_left]

/-- A comment in the last line. -/
theorem shell_cut_last {a t : CStr} (ha : 35 ∉ a) (ht : 10 ∉ t) :
    shellComments.cut (a ++ 35 :: t) = some (a, 35 :: t, []) := by
  change (shellRange (a ++ 35 :: t)).map _ = _
  rw [shellRange, firstIdx_item ha, Option.map_some, List.drop_length_add_append, List.drop_one,
    List.tail_cons, firstIdx_item_eq_none.mpr ht, Option.map_some]
  dsimp only
  rw [List.take_left, List.drop_left, List.drop_length_add_append, List.length_append,
    Nat.add_sub_cancel_left, List.take_length, List.drop_length]

/-- A text without the start of a comment has none. -/
theorem shell_cut_none {s : CStr} (h : 35 ∉ s) : shellComments.cut s = none := by
  change (shellRange s).map _ = none
  rw [shellRange, firstIdx_item_eq_none.mpr h]
  rfl

/-- The first comment ends with its line, or it is in the last line. -/
theorem shell_cases {s : CStr} (h : 35 ∈ s) :
    (∃ a m b, s = a ++ 35 :: (m ++ 10 :: b) ∧ 35 ∉ a ∧ 10 ∉ m) ∨
    ∃ a t, s = a ++ 35 :: t ∧ 35 ∉ a ∧ 10 ∉ t := by
  obtain ⟨p, hp⟩ := Option.ne_none_iff_exists'.mp (mt firstIdx_item_eq_none.mp (not_not.mpr h))
  obtain ⟨a, t, rfl, -, ha⟩ := firstIdx_item_split hp
  by_cases ht : (10 : UInt8) ∈ t
  · obtain ⟨q, hq⟩ := Option.ne_none_iff_exists'.mp (mt firstIdx_item_eq_none.mp (not_not.mpr ht))
    obtain ⟨m, b, rfl, -, hm⟩ := firstIdx_item_split hq
    exact .inl ⟨a, m, b, rfl, ha, hm⟩
  · exact .inr ⟨a, t, rfl, ha, ht⟩

/-- The loop finds what there is behind a text without comments. -/
theorem shell_agrees : Agrees shellComments shellComments (35 ∉ ·) fun _ => True where
  done h := shell_cut_none h
  plain := by
    intro pre l a c b hcut hdone _
    have hpre : (35 : UInt8) ∉ pre := fun h => hdone (List.mem_append_left _ h)
    by_cases hl : (35 : UInt8) ∈ l
    · rcases shell_cases hl with ⟨a', m, b', rfl, ha, hm⟩ | ⟨a', t, rfl, ha, ht⟩
      · have hpa : (35 : UInt8) ∉ pre ++ a' := fun h => (List.mem_append.mp h).elim hpre ha
        cases Option.some.inj ((shell_cut_line ha hm).symm.trans hcut)
        rw [← List.append_assoc, shell_cut_line hpa hm]
      · have hpa : (35 : UInt8) ∉ pre ++ a' := fun h => (List.mem_append.mp h).elim hpre ha
        cases Option.some.inj ((shell_cut_last ha ht).symm.trans hcut)
        rw [← List.append_assoc, shell_cut_last hpa ht]
    · exact absurd ((shell_cut_none hl).symm.trans hcut) (Option.some_ne_none _).symm
  other _ _ h := absurd trivial h

end Ost.Config
