import Mathlib.Data.List.TakeWhile
import Ost.Config.Loops

/-!
# From the file to the targets

What is read is a text, the loops take the comments out of it, and each token with `ip=` starts the
next target.  The function gives up at a token that would start the tenth, and `g_target` has room
for eight.
-/

namespace Ost.Config

open Ost.Iscsi Ost.Param Ost.Prog Ost.Util

/-! ## Reading -/

/-- The text of a file: what fits in the buffer, up to a character that is zero. -/
def fileText (file : Bytes) : CStr := (file.take bufferLength).takeWhile (· ≠ 0)

/-- It is at the start of what is read. -/
theorem fileText_spec (file junk : Bytes) : (0 : UInt8) ∉ fileText file ∧
    ∃ rest, file.take bufferLength ++ 0 :: junk = fileText file ++ 0 :: rest := by
  by_cases hzero : (0 : UInt8) ∈ file.take bufferLength
  · obtain ⟨s, rest, hsplit, hs⟩ := List.eq_append_cons_of_mem hzero
    have htext : fileText file = s := by
      rw [fileText, hsplit]
      exact takeWhile_text hs rest
    rw [htext, hsplit, List.append_assoc, List.cons_append]
    exact ⟨hs, _, rfl⟩
  · have htext : fileText file = file.take bufferLength := by
      rw [fileText, List.takeWhile_eq_self_iff]
      exact fun x hx => decide_eq_true fun h => hzero (h ▸ hx)
    rw [htext]
    exact ⟨hzero, junk, rfl⟩

/-- The buffer holds the text of the file. -/
theorem readFile_holds (heap : Nat → UInt8) (file : Bytes) (u : Setup) :
    ∃ u₁, readFile heap file u = .ret ⟨⟩ u₁ ∧ u₁.removed = [] ∧
      Holds (fileText file) bufferLength u₁ := by
  obtain ⟨htext, hbuffer⟩ := fileText_spec file
    ((List.range (bufferLength - (file.take bufferLength).length)).map heap)
  have htake : (file.take bufferLength).length ≤ bufferLength := List.length_take_le _ _
  refine ⟨_, rfl, rfl, rfl, ?_, ?_, htext, hbuffer⟩
  · exact (List.takeWhile_prefix _).length_le.trans htake
  · dsimp only
    rw [List.length_append, List.length_cons, List.length_map, List.length_range]
    omega

/-! ## Assigning -/

section Assign

variable {tid : Int} {set : InitiatorTarget → InitiatorTarget} {u : Setup}

/-- An entry that there is, or all of them. -/
theorem assign_ret (hlo : -1 ≤ tid) (hhi : tid < configInitiatorMaxTargets) :
    ∃ u', assign tid set u = .ret ⟨⟩ u' ∧ u'.buffer = u.buffer := by
  by_cases hall : tid = -1
  · rw [assign, if_pos hall]
    exact ⟨_, rfl, rfl⟩
  · rw [assign, if_neg hall, if_pos ⟨by omega, hhi⟩]
    exact ⟨_, rfl, rfl⟩

/-- An entry that there is not. -/
theorem assign_fault (hhi : configInitiatorMaxTargets ≤ tid) :
    assign tid set u = .halt .fault u := by
  rw [assign, if_neg (by omega), if_neg (by omega)]
  rfl

/-- A token that does not start a target, when there is one to be set or all are. -/
theorem assignToken_ret (hlo : -1 ≤ tid) (hhi : tid < configInitiatorMaxTargets) (token : CStr) :
    ∃ u', assignToken tid token u = .ret ⟨⟩ u' := by
  rw [assignToken]
  cases keys.find? fun key => key.isIn token with
  | none => exact ⟨u, rfl⟩
  | some key =>
    obtain ⟨u', hret, -⟩ := @assign_ret tid (key.set (token.drop key.len)) u hlo hhi
    exact ⟨u', hret⟩

end Assign

/-- The targets that tokens start. -/
def numIps (ts : List CStr) : Nat := ts.countP ipKey.isIn

/-- **The tokens** are assigned if there is an entry for each target, and otherwise there is a
fault. -/
theorem assignTokens_spec (ts : List CStr) {tid : Int} (u : Setup) (hlo : -1 ≤ tid)
    (hhi : tid < configInitiatorMaxTargets) :
    (tid + numIps ts < configInitiatorMaxTargets →
      ∃ u', assignTokens ts tid u = .ret (some (tid + numIps ts)) u') ∧
    (configInitiatorMaxTargets ≤ tid + numIps ts →
      ∃ u', assignTokens ts tid u = .halt .fault u') := by
  induction ts generalizing tid u with
  | nil =>
    have hnone : numIps [] = 0 := rfl
    rw [hnone, Nat.cast_zero, add_zero]
    exact ⟨fun _ => ⟨u, rfl⟩, fun hle => absurd hhi (not_lt.mpr hle)⟩
  | cons token ts ih =>
    rw [assignTokens]
    by_cases hip : ipKey.isIn token = true
    · have hnum : tid + numIps (token :: ts) = tid + 1 + numIps ts := by
        rw [numIps, List.countP_cons_of_pos hip, numIps]
        push_cast
        omega
      rw [if_pos hip, if_neg (by omega), hnum]
      by_cases hlast : tid + 1 < configInitiatorMaxTargets
      · obtain ⟨u', hret, -⟩ :=
          @assign_ret (tid + 1) (ipKey.set (token.drop ipKey.len)) u (by omega) hlast
        rw [bind_ret hret]
        exact ih u' (by omega) hlast
      · rw [bind_halt (assign_fault (not_lt.mp hlast))]
        exact ⟨fun hlt => absurd hlt (by omega), fun _ => ⟨u, rfl⟩⟩
    · have hnum : numIps (token :: ts) = numIps ts := by
        rw [numIps, List.countP_cons_of_neg hip, numIps]
      obtain ⟨u', hret⟩ := @assignToken_ret tid u hlo hhi token
      rw [if_neg hip, bind_ret hret, hnum]
      exact ih u' hlo hhi

/-- The text is a matter of the buffer. -/
theorem stringAt_of_buffer {s : CStr} {u u' : Setup} {i : Nat} (htext : stringAt i u = .ret s u)
    (hbuffer : u'.buffer = u.buffer) : stringAt i u' = .ret s u' := by
  rw [stringAt, get_bind] at htext ⊢
  rw [hbuffer]
  by_cases hmem : (0 : UInt8) ∈ u.buffer.drop i
  · rw [if_pos hmem] at htext ⊢
    rw [(Outcome.ret.inj htext).1]
    rfl
  · rw [if_neg hmem] at htext
    cases htext

/-- Everything is assigned if the text has no more tokens with `ip=` than there are entries. -/
theorem assignAll_spec {s : CStr} {u : Setup} (htext : stringAt 0 u = .ret s u) :
    (numIps (tokens s) ≤ configInitiatorMaxTargets → ∃ u', assignAll u = .ret 0 u') ∧
    (configInitiatorMaxTargets < numIps (tokens s) → ∃ u', assignAll u = .halt .fault u') := by
  obtain ⟨u₁, hport, hbuffer⟩ : ∃ u₁, assign (-1) (fun t => { t with port := iscsiPort }) u =
      .ret ⟨⟩ u₁ ∧ u₁.buffer = u.buffer := assign_ret le_rfl (by decide)
  obtain ⟨hfew, hmany⟩ := @assignTokens_spec (tokens s) (-1) u₁ le_rfl (by decide)
  rw [assignAll, bind_ret hport, bind_ret (stringAt_of_buffer htext hbuffer)]
  constructor
  · intro hle
    obtain ⟨u₂, hret⟩ := hfew (by omega)
    rw [bind_ret hret]
    exact ⟨_, rfl⟩
  · intro hlt
    obtain ⟨u₂, hfault⟩ := hmany (by omega)
    exact ⟨u₂, bind_halt hfault⟩

/-! ## The file -/

/-- The text of a file without its comments. -/
def strippedText (file : Bytes) : CStr := shellComments.rest (cComments.rest (fileText file))

/-- The function gets to its end: the loops remove the comments, and there is an entry of `g_target`
for everything that is set. -/
def Parses (moves : Bool) (heap : Nat → UInt8) (file : Bytes) (u₀ : Setup) : Prop :=
  ∃ n u u₂ r u₃, readFile heap file u₀ = .ret ⟨⟩ u ∧ Removes moves (fileText file) n u u₂ ∧
    assignAll u₂ = .ret r u₃

/-- **A file is parsed** just when the loops can deal with its text and it names no more than eight
targets. -/
theorem parses_iff (moves : Bool) (heap : Nat → UInt8) (file : Bytes) (u₀ : Setup) :
    Parses moves heap file u₀ ↔
      Tractable moves (bufferLength - (fileText file).length) (fileText file) ∧
      numIps (tokens (strippedText file)) ≤ configInitiatorMaxTargets := by
  obtain ⟨u, hread, -, hholds⟩ := readFile_holds heap file u₀
  rw [← removes_iff hholds]
  constructor
  · rintro ⟨n, u', u₂, r, u₃, hread', hremoves, hassign⟩
    obtain rfl := (Outcome.ret.inj (hread.symm.trans hread')).2
    refine ⟨⟨n, u₂, hremoves⟩, not_lt.mp fun hmany => ?_⟩
    obtain ⟨u₁, -, -, -, -, htext⟩ := hremoves
    obtain ⟨u', hfault⟩ := (assignAll_spec htext).2 hmany
    rw [hfault] at hassign
    cases hassign
  · rintro ⟨⟨n, u₂, hremoves⟩, hfew⟩
    obtain ⟨u₁, -, -, -, -, htext⟩ := id hremoves
    obtain ⟨u₃, hassign⟩ := (assignAll_spec htext).1 hfew
    exact ⟨n, u, u₂, 0, u₃, hread, hremoves, hassign⟩

/-- A comment that is never closed. -/
def openFile : Bytes := cstr "ip=1.2.3.4 /* which=disk"

/-- Nine targets. -/
def nineFile : Bytes := (List.replicate 9 (cstr "ip=1.2.3.4\n")).flatten

/-- The first loop does not end there. -/
theorem openFile_hangs (moves : Bool) (heap : Nat → UInt8) (u₀ : Setup) :
    ∃ u, readFile heap openFile u₀ = .ret ⟨⟩ u ∧
      ∀ n, whilePtr (removeCComment moves) [47, 42] n u = .halt .hang u := by
  obtain ⟨u, hread, -, hholds⟩ := readFile_holds heap openFile u₀
  rw [show fileText openFile = openFile by decide +kernel] at hholds
  exact ⟨u, hread, cLoop_hangs hholds (by decide +kernel) (by decide +kernel)⟩

/-- The loop does not end at a comment that is never closed, and the ninth of nine targets is
written behind the end of `g_target`. -/
theorem parses_fails :
    (∀ n, ∃ u, getTargetConfig true n (fun _ => 0) (cstr "cfg") (some openFile) true .start =
      .halt .hang u) ∧
    (∃ n u, getTargetConfig true n (fun _ => 0) (cstr "cfg") (some nineFile) true .start =
      .halt .fault u) ∧
    ¬∀ moves heap file u₀, Parses moves heap file u₀ := by
  refine ⟨fun n => ?_, ?_, fun h => ?_⟩
  · obtain ⟨u, hread, hhang⟩ := openFile_hangs true (fun _ => 0) .start
    refine ⟨u, ?_⟩
    change parseFile true n (fun _ => 0) openFile .start = _
    rw [parseFile, bind_ret hread, removeComments, bind_assoc, bind_halt (hhang n)]
  · obtain ⟨u, hread, -, hholds⟩ := readFile_holds (fun _ => 0) nineFile .start
    rw [show fileText nineFile = nineFile by decide +kernel] at hholds
    have hbare : Bare nineFile := by decide +kernel
    have hshell : (35 : UInt8) ∉ nineFile := by decide +kernel
    obtain ⟨u', hfault⟩ := (assignAll_spec (hholds.stringAt (Nat.zero_le _))).2 (by decide +kernel)
    refine ⟨1, u', ?_⟩
    change parseFile true 1 (fun _ => 0) nineFile .start = _
    rw [parseFile, bind_ret hread, removeComments, bind_assoc,
      bind_ret (whilePtr_end (removeCComment_bare hholds hbare) hholds
        (firstIdx_pair_eq_none.mpr hbare)),
      bind_ret (whilePtr_end (removeShellComment_bare hholds hshell) hholds
        (firstIdx_item_eq_none.mpr hshell)), hfault]
  · obtain ⟨u, hread, hhang⟩ := openFile_hangs true (fun _ => 0) .start
    obtain ⟨n, u', u₂, r, u₃, hread', ⟨u₁, hc, -⟩, -⟩ := h true (fun _ => 0) openFile .start
    obtain rfl := (Outcome.ret.inj (hread.symm.trans hread')).2
    rw [hhang n] at hc
    cases hc

end Ost.Config
