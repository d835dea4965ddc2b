import Mathlib.Data.List.Rotate
import Ost.Initiator.Moves
import Ost.Initiator.World

/-!
# The order of the tx queue after an abort

`initiator_abort` searches the tx queue by taking its commands out at the front and putting them
back at the end.  What it has passed over by the time it stops is then behind what it has not
looked at.  The theorem of this module says for which queues that is the order from before.
-/

namespace Ost.Initiator

open Ost.Iscsi Ost.Util Ost.Prog

/-- The other commands are left in the queue, each once and as they stood, and the callback of the
command `c` was called. -/
structure OrderKept (c : Nat) (s s' : Session) : Prop where
  nodup : s'.books.txQueue.toList.Nodup
  queue : s'.books.txQueue.toList = s.books.txQueue.toList.filter (· ≠ c)
  called : s'.books.called = s.books.called ++ [c]

/-- No command is twice in the queue `l`, and the first of those with the tag of `c` is `c` itself,
at one end of `l`.  Without such a command there is at most one. -/
def Abortable (tagOf : Nat → UInt32) (c : Nat) (l : List Nat) : Prop :=
  l.Nodup ∧ match l.find? fun d => tagOf d = tagOf c with
    | none => l.length ≤ 1
    | some d => d = c ∧ (l.head? = some c ∨ l.getLast? = some c)

/-! ## Where the scan stops -/

section Scan

variable {tagOf : Nat → UInt32} {tag : UInt32} {n : Nat} {q : Fifo Nat}

/-- The scan that meets the first command again has turned the queue by one. -/
theorem abortScan_around {a : Nat} {l₁ l₂ : List Nat} (ha : tagOf a ≠ tag)
    (hl₁ : ∀ d ∈ l₁, tagOf d ≠ tag) (hnew : a ∉ l₁) (hn : l₁.length < n)
    (hq : q.toList = l₁ ++ a :: l₂) :
    ∃ q', abortScan tagOf tag n (some a) q = some q' ∧ q'.toList = l₂ ++ l₁ ++ [a] := by
  induction l₁ generalizing n q l₂ with
  | nil =>
    obtain ⟨n, rfl⟩ := Nat.exists_eq_succ_of_ne_zero (Nat.ne_of_gt hn)
    obtain ⟨q', hl, hstep⟩ := abortScan_rotate n (some a) hq ha
    exact ⟨q', by rw [hstep, if_pos rfl], by rw [hl, List.append_nil]⟩
  | cons b l₁ ih =>
    obtain ⟨n, rfl⟩ := Nat.exists_eq_succ_of_ne_zero
      (Nat.ne_of_gt (Nat.lt_of_le_of_lt (Nat.zero_le _) hn))
    obtain ⟨q₁, hl, hstep⟩ := abortScan_rotate n (some a) hq
      (hl₁ b List.mem_cons_self)
    have hne : some a ≠ some b := fun h => hnew (Option.some.inj h ▸ List.mem_cons_self)
    obtain ⟨q', hscan, hl'⟩ := ih (fun d hd => hl₁ d (List.mem_cons_of_mem _ hd))
      (fun h => hnew (List.mem_cons_of_mem _ h)) (Nat.lt_of_succ_lt_succ hn)
      (hl.trans (List.append_assoc l₁ (a :: l₂) [b]))
    refine ⟨q', ?_, hl'.trans (congrArg (· ++ [a]) (List.append_assoc l₂ [b] l₁))⟩
    rw [hstep, if_neg hne]
    exact hscan

/-- Without a command of the tag the scan turns the queue by one. -/
theorem abortScan_missed (hn : q.toList.length < n) (hnew : q.toList.Nodup)
    (hmiss : ∀ d ∈ q.toList, tagOf d ≠ tag) :
    ∃ q', abortScan tagOf tag n none q = some q' ∧ q'.toList = q.toList.rotate 1 := by
  obtain ⟨n, rfl⟩ := Nat.exists_eq_succ_of_ne_zero
    (Nat.ne_of_gt (Nat.lt_of_le_of_lt (Nat.zero_le _) hn))
  rcases hl : q.toList with _ | ⟨a, l⟩
  · rw [abortScan]
    rcases hr : q.remove with _ | ⟨x, q₁⟩
    · exact ⟨q, rfl, hl⟩
    · exact absurd ((Fifo.remove_some hr).1.symm.trans hl) (List.cons_ne_nil _ _)
  rw [hl] at hn hnew hmiss
  obtain ⟨ha, hmiss⟩ := List.forall_mem_cons.mp hmiss
  obtain ⟨q₁, hl₁, hstep⟩ := abortScan_rotate n none hl ha
  obtain ⟨q', hscan, hl'⟩ := abortScan_around ha hmiss (List.nodup_cons.mp hnew).1
    (Nat.lt_of_succ_lt_succ hn) hl₁
  refine ⟨q', ?_, by rw [hl', List.nil_append, List.rotate_cons_succ, List.rotate_zero]⟩
  rw [hstep, if_neg (Option.some_ne_none a).symm]
  exact hscan

/-- Without a command twice the scan finds the first one with the tag. -/
theorem abortScan_first {c : Nat} {l₁ l₂ : List Nat} (hc : tagOf c = tag)
    (hl₁ : ∀ d ∈ l₁, tagOf d ≠ tag) (hn : l₁.length < n) (hnew : q.toList.Nodup)
    (hq : q.toList = l₁ ++ c :: l₂) :
    ∃ q', abortScan tagOf tag n none q = some q' ∧ q'.toList = l₂ ++ l₁ := by
  refine abortScan_found hc hl₁ hn hq fun d hd => ?_
  rcases l₁ with _ | ⟨a, l₁⟩
  · exact absurd hd.symm (Option.some_ne_none d)
  obtain rfl : a = d := Option.some.inj hd
  rw [hq] at hnew
  exact (List.nodup_cons.mp (hnew.sublist (List.sublist_append_left _ _))).1

end Scan

/-! ## The order of the others -/

/-- Turning a queue of distinct commands by one leaves it as it was when it has at most one. -/
theorem rotate_one_eq_iff {l : List Nat} (h : l.Nodup) : l.rotate 1 = l ↔ l.length ≤ 1 := by
  rcases l with _ | ⟨a, _ | ⟨b, l⟩⟩
  · exact ⟨fun _ => Nat.zero_le _, fun _ => rfl⟩
  · exact ⟨fun _ => Nat.le_refl _, fun _ => List.rotate_singleton _ _⟩
  · rw [List.rotate_cons_succ, List.rotate_zero]
    constructor
    · intro he
      obtain ⟨rfl, -⟩ := List.cons.inj he
      exact absurd List.mem_cons_self (List.nodup_cons.mp h).1
    · intro hlen
      exact absurd hlen (by rw [List.length_cons, List.length_cons]; omega)

/-- Two parts without a common command can be swapped only when one of them is empty. -/
theorem append_comm_iff {l₁ l₂ : List Nat} (h : (l₁ ++ l₂).Nodup) :
    l₂ ++ l₁ = l₁ ++ l₂ ↔ l₁ = [] ∨ l₂ = [] := by
  constructor
  · intro he
    rcases l₁ with _ | ⟨a, l₁⟩
    · exact .inl rfl
    rcases l₂ with _ | ⟨b, l₂⟩
    · exact .inr rfl
    obtain ⟨rfl, -⟩ := List.cons.inj he
    exact absurd rfl ((List.nodup_append.mp h).2.2 b List.mem_cons_self b List.mem_cons_self)
  · rintro (rfl | rfl)
    · exact List.append_nil _
    · exact (List.append_nil _).symm

/-- Taking out the command in the middle. -/
theorem filter_middle {c : Nat} {l₁ l₂ : List Nat} (h : (l₁ ++ c :: l₂).Nodup) :
    (l₁ ++ c :: l₂).filter (· ≠ c) = l₁ ++ l₂ := by
  have hnew : c ∉ l₁ := fun hm => (List.nodup_append.mp h).2.2 c hm c List.mem_cons_self rfl
  calc (l₁ ++ c :: l₂).filter (· ≠ c)
      = (l₁ ++ c :: l₂).filter (· != c) :=
        List.filter_congr fun d _ => (Bool.eq_iff_iff.mpr (by simp))
    _ = (l₁ ++ c :: l₂).erase c := (h.erase_eq_filter c).symm
    _ = l₁ ++ l₂ := by rw [List.erase_append_right _ hnew, List.erase_cons_head]

/-- A command stands at an end when there is nothing on one of its sides. -/
theorem ends_iff {c : Nat} {l₁ l₂ : List Nat} (h : (l₁ ++ c :: l₂).Nodup) :
    (l₁ ++ c :: l₂).head? = some c ∨ (l₁ ++ c :: l₂).getLast? = some c ↔ l₁ = [] ∨ l₂ = [] := by
  obtain ⟨-, hl₂, hdisj⟩ := List.nodup_append.mp h
  refine or_congr ⟨fun he => ?_, fun he => by rw [he]; rfl⟩ ⟨fun he => ?_, fun he => by simp [he]⟩
  · rcases l₁ with _ | ⟨a, l₁⟩
    · rfl
    · obtain rfl : a = c := Option.some.inj he
      exact absurd rfl (hdisj a List.mem_cons_self a List.mem_cons_self)
  · rcases l₂.eq_nil_or_concat with rfl | ⟨m, a, rfl⟩
    · rfl
    · rw [List.concat_eq_append] at he hl₂
      rw [← List.cons_append, ← List.append_assoc, List.getLast?_concat] at he
      obtain rfl : a = c := Option.some.inj he
      exact absurd (List.mem_append_right m List.mem_cons_self) (List.nodup_cons.mp hl₂).1

/-- When the scan keeps the order of the others. -/
theorem abortScan_keeps_iff {tagOf : Nat → UInt32} {c : Nat} {q q' : Fifo Nat}
    (hscan : abortScan tagOf (tagOf c) (q.toList.length + 1) none q = some q') :
    q'.toList.Nodup ∧ q'.toList = q.toList.filter (· ≠ c) ↔ Abortable tagOf c q.toList := by
  by_cases hnew : q.toList.Nodup
  swap
  · -- At most one command is taken out, and it would have to be the one that stood there twice.
    refine ⟨fun h => ?_, fun h => absurd h.1 hnew⟩
    obtain ⟨hnew', hq'⟩ := h
    obtain ⟨q₁, hscan₁, -, hperm⟩ := abortScan_spec tagOf (tagOf c) (q.toList.length + 1) none q
    obtain rfl : q' = q₁ := Option.some.inj (hscan.symm.trans hscan₁)
    rcases hperm with hperm | ⟨x, -, hperm⟩
    · exact absurd (hperm.nodup_iff.mpr hnew') hnew
    have hx : x ∈ q'.toList := by
      by_contra hx
      exact hnew (hperm.nodup_iff.mpr (List.nodup_cons.mpr ⟨hx, hnew'⟩))
    have hne : x ≠ c := by
      rw [hq'] at hx
      exact of_decide_eq_true (List.mem_filter.mp hx).2
    have hcount := hperm.count_eq x
    rw [List.count_cons_self, List.count_eq_one_of_mem hnew' hx] at hcount
    have hone := List.count_eq_one_of_mem hnew' hx
    rw [hq', List.count_filter (by simpa using hne)] at hone
    omega
  rcases hfind : q.toList.find? fun d => tagOf d = tagOf c with _ | d
  · have hmiss : ∀ d ∈ q.toList, tagOf d ≠ tagOf c := by
      simpa using List.find?_eq_none.mp hfind
    obtain ⟨q₁, hscan₁, hl⟩ := abortScan_missed (Nat.lt_succ_self _) hnew hmiss
    obtain rfl : q' = q₁ := Option.some.inj (hscan.symm.trans hscan₁)
    have hall : q.toList.filter (· ≠ c) = q.toList :=
      List.filter_eq_self.mpr fun d hd => decide_eq_true fun h => hmiss d hd (h ▸ rfl)
    rw [hl, hall, rotate_one_eq_iff hnew, List.nodup_rotate, Abortable, hfind]
  · obtain ⟨hd, l₁, l₂, hq, hl₁⟩ := List.find?_eq_some_iff_append.mp hfind
    replace hd : tagOf d = tagOf c := of_decide_eq_true hd
    replace hl₁ : ∀ e ∈ l₁, tagOf e ≠ tagOf c := by simpa using hl₁
    have hlen : l₁.length < q.toList.length + 1 := by
      rw [hq, List.length_append]
      omega
    obtain ⟨q₁, hscan₁, hl⟩ := abortScan_first hd hl₁ hlen hnew hq
    obtain rfl : q' = q₁ := Option.some.inj (hscan.symm.trans hscan₁)
    rw [hl, Abortable, hfind, hq]
    rw [hq] at hnew
    have hrest : (l₁ ++ l₂).Nodup := by
      refine hnew.sublist (List.Sublist.append_left ?_ _)
      exact List.sublist_cons_self d l₂
    constructor
    · rintro ⟨-, he⟩
      have hdc : d = c := by
        by_contra hne
        have hm : d ∈ (l₁ ++ d :: l₂).filter (· ≠ c) :=
          List.mem_filter.mpr ⟨List.mem_append_right _ List.mem_cons_self, decide_eq_true hne⟩
        rw [← he, List.mem_append, or_comm, ← List.mem_append] at hm
        exact (List.nodup_cons.mp (List.nodup_middle.mp hnew)).1 hm
      subst hdc
      rw [filter_middle hnew] at he
      exact ⟨hnew, rfl, (ends_iff hnew).mpr ((append_comm_iff hrest).mp he)⟩
    · rintro ⟨-, rfl, hend⟩
      rw [filter_middle hnew]
      have he := (append_comm_iff hrest).mpr ((ends_iff hnew).mp hend)
      exact ⟨he ▸ hrest, he⟩

/-- **An abort keeps the order of the other commands exactly when** the queue holds no command
twice and the aborted one is the first of its tag and at one end of the queue, or there is at most
one command, and none of its tag. -/
theorem initiatorAbort_keepsOrder (s : Session) (c : Nat) :
    (∃ ok s', initiatorAbort c s = .ret ok s' ∧ OrderKept c s s') ↔
      Abortable (fun d => (s.books.mem d).tag) c s.books.txQueue.toList := by
  obtain ⟨ok, s', hret, -, ha⟩ := (initiatorAbort_spec c s).returns
  rw [← abortScan_keeps_iff ha.queue]
  constructor
  · rintro ⟨ok', s₁, hret₁, hkeep⟩
    obtain ⟨-, rfl⟩ := Outcome.ret.inj (hret.symm.trans hret₁)
    exact ⟨hkeep.nodup, hkeep.queue⟩
  · rintro ⟨hnew, hq⟩
    exact ⟨ok, s', hret, hnew, hq, ha.called⟩

/-- Three writes are waiting. -/
def threeQueued : Handler PUnit := do
  initiatorEnqueue 1 1 smallWrite true
  initiatorEnqueue 2 2 smallWrite true
  initiatorEnqueue 3 3 smallWrite true

/-- Aborting the second of three swaps the other two. -/
theorem initiatorAbort_reorders : ∃ s s',
    threeQueued smallSession = .ret ⟨⟩ s ∧ s.books.txQueue.toList = [1, 2, 3] ∧
      initiatorAbort 2 s = .ret true s' ∧ s'.books.txQueue.toList = [3, 1] ∧
      ¬OrderKept 2 s s' :=
  ⟨_, _, rfl, by decide, rfl, by decide, fun h => absurd h.queue (by decide)⟩

end Ost.Initiator
