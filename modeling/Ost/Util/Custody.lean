import Mathlib.Data.Multiset.AddSub
import Mathlib.Data.Multiset.Count
import Mathlib.Data.Multiset.Filter
import Mathlib.Logic.Relation

/-!
# Who has a job

A component takes over a job from its owner, works on it, and gives it back by telling the
owner that it is done.  In between the job is in a queue, where it may stand more than once,
in a table of jobs that are under way, in the hand of the worker that takes jobs from the
queue, or in the hand of a reader, which finds jobs in the table.

A `Ledger` says where the jobs are, and `Ledger.Move` is the list of the ways in which they
may move.  `Ledger.Sound` is what an owner relies on: a job that has been given back is
nowhere and is given back once, and any other job is somewhere.  Every move keeps it.

Nothing here knows what a job is, or in which order the queue is served.
-/

namespace Ost.Util

variable {ι : Type}

/-- Where the jobs of a component are. -/
structure Ledger (ι : Type) where
  /-- The jobs taken over, oldest first. -/
  issued : List ι
  /-- The jobs given back, oldest first. -/
  done : List ι
  /-- The jobs in the queue. -/
  queue : Multiset ι
  /-- The jobs under way. -/
  table : Multiset ι
  /-- The job in the worker's hand. -/
  hand : Option ι
  /-- The job in the reader's hand. -/
  reader : Option ι
  /-- The jobs that nobody queues again while they are under way. -/
  solo : ι → Prop

namespace Ledger

/-- A job that the component is responsible for. -/
def Live (l : Ledger ι) (c : ι) : Prop := c ∈ l.issued ∧ c ∉ l.done

variable [DecidableEq ι]

/-- How jobs move. -/
inductive Move : Ledger ι → Ledger ι → Prop where
  | /-- A job is taken over and queued. -/
    issue {l : Ledger ι} (c : ι) (solo' : ι → Prop) (fresh : c ∉ l.issued)
      (solo : ∀ d, d ≠ c → (solo' d ↔ l.solo d)) :
      Move l { l with issued := l.issued ++ [c], queue := c ::ₘ l.queue, solo := solo' }
  | /-- The worker takes a job. -/
    take {l : Ledger ι} (c : ι) (q : Multiset ι) (queue : l.queue = c ::ₘ q)
      (hand : l.hand = none) : Move l { l with queue := q, hand := some c }
  | /-- The worker puts its job back. -/
    putBack {l : Ledger ι} (c : ι) (hand : l.hand = some c) (table : l.solo c → c ∉ l.table) :
      Move l { l with queue := c ::ₘ l.queue, hand := none }
  | /-- The worker adds its job to the table. -/
    register {l : Ledger ι} (c : ι) (hand : l.hand = some c) (table : c ∉ l.table) :
      Move l { l with table := c ::ₘ l.table }
  | /-- The worker lets go of a job that is elsewhere as well. -/
    release {l : Ledger ι} (c : ι) (hand : l.hand = some c) (kept : c ∈ l.queue ∨ c ∈ l.table) :
      Move l { l with hand := none }
  | /-- The reader turns to a job of the table, or to none. -/
    read {l : Ledger ι} (r : Option ι) (table : ∀ c, r = some c → c ∈ l.table) :
      Move l { l with reader := r }
  | /-- A job that is under way is queued again. -/
    again {l : Ledger ι} (c : ι) (table : c ∈ l.table) (solo : ¬l.solo c) :
      Move l { l with queue := c ::ₘ l.queue }
  | /-- A job goes from the table back to the queue. -/
    requeue {l : Ledger ι} (c : ι) (t : Multiset ι) (table : l.table = c ::ₘ t)
      (reader : l.reader ≠ some c) (hand : l.solo c → l.hand ≠ some c) :
      Move l { l with table := t, queue := c ::ₘ l.queue }
  | /-- A job is given back, and leaves the queue and the table. -/
    finish {l : Ledger ι} (c : ι) (live : l.Live c) (queue : l.queue.count c ≤ 1)
      (hand : l.hand ≠ some c) (reader : l.reader ≠ some c) :
      Move l { l with
        done := l.done ++ [c], queue := l.queue.erase c, table := l.table.erase c }

/-- Any number of moves. -/
abbrev Moves : Ledger ι → Ledger ι → Prop := Relation.ReflTransGen Move

/-- What the owners of the jobs rely on. -/
structure Sound (l : Ledger ι) : Prop where
  done_issued : ∀ c ∈ l.done, c ∈ l.issued
  done_nodup : l.done.Nodup
  queue_live : ∀ c ∈ l.queue, l.Live c
  table_live : ∀ c ∈ l.table, l.Live c
  hand_live : ∀ c, l.hand = some c → l.Live c
  reader_table : ∀ c, l.reader = some c → c ∈ l.table
  table_nodup : l.table.Nodup
  placed : ∀ c, l.Live c → c ∈ l.queue ∨ c ∈ l.table ∨ l.hand = some c
  solo_once : ∀ c, l.solo c →
    l.queue.count c ≤ 1 ∧ (c ∈ l.table ∨ l.hand = some c → c ∉ l.queue)

/-- What has been taken over stays taken over, and whether it may be queued twice is settled. -/
theorem Moves.issued {l l' : Ledger ι} {c : ι} (h : Moves l l') (hc : c ∈ l.issued) :
    c ∈ l'.issued ∧ (l'.solo c ↔ l.solo c) := by
  induction h with
  | refl => exact ⟨hc, Iff.rfl⟩
  | tail _ hm ih =>
    cases hm with
    | issue d solo' fresh solo =>
      have hne : c ≠ d := fun he => fresh (he ▸ ih.1)
      exact ⟨List.mem_append_left _ ih.1, (solo c hne).trans ih.2⟩
    | _ => exact ih

namespace Sound

variable {l l' : Ledger ι} {c : ι}

/-- A ledger without jobs. -/
theorem empty (hi : l.issued = []) (hd : l.done = []) (hq : l.queue = 0) (ht : l.table = 0)
    (hh : l.hand = none) (hr : l.reader = none) : l.Sound := by
  constructor <;> simp [hi, hd, hq, ht, hh, hr, Live]

theorem issue (h : l.Sound) {solo' : ι → Prop} (hc : c ∉ l.issued)
    (hs : ∀ d, d ≠ c → (solo' d ↔ l.solo d)) :
    Sound { l with issued := l.issued ++ [c], queue := c ::ₘ l.queue, solo := solo' } := by
  have old : ∀ d, l.Live d → d ≠ c := fun d hd he => hc (he ▸ hd.1)
  have live : ∀ d, l.Live d → d ∈ l.issued ++ [c] ∧ d ∉ l.done := fun d hd =>
    ⟨List.mem_append_left _ hd.1, hd.2⟩
  have hcq : c ∉ l.queue := fun hm => old c (h.queue_live c hm) rfl
  constructor
  · exact fun d hd => List.mem_append_left _ (h.done_issued d hd)
  · exact h.done_nodup
  · intro d hd
    rcases Multiset.mem_cons.mp hd with rfl | hd
    · exact ⟨by simp, fun hm => hc (h.done_issued d hm)⟩
    · exact live d (h.queue_live d hd)
  · exact fun d hd => live d (h.table_live d hd)
  · exact fun d hd => live d (h.hand_live d hd)
  · exact h.reader_table
  · exact h.table_nodup
  · rintro d ⟨hi, hd⟩
    rcases List.mem_append.mp hi with hi | hi
    · exact (h.placed d ⟨hi, hd⟩).imp_left (Multiset.mem_cons_of_mem ·)
    · rw [List.mem_singleton.mp hi]
      exact .inl (Multiset.mem_cons_self _ _)
  · intro d hd
    rcases eq_or_ne d c with rfl | hne
    · refine ⟨?_, ?_⟩
      · simp [Multiset.count_eq_zero_of_notMem hcq]
      · rintro (hm | hm)
        · exact absurd rfl (old _ (h.table_live _ hm))
        · exact absurd rfl (old _ (h.hand_live _ hm))
    · obtain ⟨h₁, h₂⟩ := h.solo_once d ((hs d hne).mp hd)
      refine ⟨by simpa [Multiset.count_cons_of_ne hne] using h₁, fun hm => ?_⟩
      simpa [hne] using h₂ hm

theorem take (h : l.Sound) {q : Multiset ι} (hq : l.queue = c ::ₘ q) (hh : l.hand = none) :
    Sound { l with queue := q, hand := some c } := by
  have sub : ∀ d ∈ q, d ∈ l.queue := fun d hd => hq ▸ Multiset.mem_cons_of_mem hd
  have hcq : c ∈ l.queue := hq ▸ Multiset.mem_cons_self c q
  constructor
  · exact h.done_issued
  · exact h.done_nodup
  · exact fun d hd => h.queue_live d (sub d hd)
  · exact h.table_live
  · intro d hd
    obtain rfl := Option.some.inj hd
    exact h.queue_live _ hcq
  · exact h.reader_table
  · exact h.table_nodup
  · intro d hd
    rcases h.placed d hd with hm | hm | hm
    · rw [hq] at hm
      rcases Multiset.mem_cons.mp hm with rfl | hm
      · exact .inr (.inr rfl)
      · exact .inl hm
    · exact .inr (.inl hm)
    · rw [hh] at hm
      exact nomatch hm
  · intro d hd
    obtain ⟨h₁, h₂⟩ := h.solo_once d hd
    have hle : q.count d ≤ l.queue.count d := by
      rw [hq]
      exact Multiset.count_le_count_cons d c q
    refine ⟨hle.trans h₁, ?_⟩
    rintro (hm | hm) hmq
    · exact h₂ (.inl hm) (sub d hmq)
    · obtain rfl := Option.some.inj hm
      rw [hq, Multiset.count_cons_self] at h₁
      have : 0 < q.count c := Multiset.count_pos.mpr hmq
      omega

theorem putBack (h : l.Sound) (hh : l.hand = some c) (ht : l.solo c → c ∉ l.table) :
    Sound { l with queue := c ::ₘ l.queue, hand := none } := by
  constructor
  · exact h.done_issued
  · exact h.done_nodup
  · intro d hd
    rcases Multiset.mem_cons.mp hd with rfl | hd
    · exact h.hand_live d hh
    · exact h.queue_live d hd
  · exact h.table_live
  · exact fun d hd => nomatch hd
  · exact h.reader_table
  · exact h.table_nodup
  · intro d hd
    rcases h.placed d hd with hm | hm | hm
    · exact .inl (Multiset.mem_cons_of_mem hm)
    · exact .inr (.inl hm)
    · obtain rfl := Option.some.inj (hh.symm.trans hm)
      exact .inl (Multiset.mem_cons_self _ _)
  · intro d hd
    obtain ⟨h₁, h₂⟩ := h.solo_once d hd
    rcases eq_or_ne d c with rfl | hne
    · have h₃ := Multiset.count_eq_zero_of_notMem (h₂ (.inr hh))
      refine ⟨by simp [h₃], fun hm => absurd (hm.resolve_right (by simp)) (ht hd)⟩
    · refine ⟨by simpa [Multiset.count_cons_of_ne hne] using h₁, fun hm => ?_⟩
      simpa [hne] using h₂ (.inl (hm.resolve_right (by simp)))

theorem register (h : l.Sound) (hh : l.hand = some c) (ht : c ∉ l.table) :
    Sound { l with table := c ::ₘ l.table } := by
  constructor
  · exact h.done_issued
  · exact h.done_nodup
  · exact h.queue_live
  · intro d hd
    rcases Multiset.mem_cons.mp hd with rfl | hd
    · exact h.hand_live d hh
    · exact h.table_live d hd
  · exact h.hand_live
  · exact fun d hd => Multiset.mem_cons_of_mem (h.reader_table d hd)
  · exact Multiset.nodup_cons.mpr ⟨ht, h.table_nodup⟩
  · exact fun d hd => (h.placed d hd).imp_right (.imp_left (Multiset.mem_cons_of_mem ·))
  · intro d hd
    obtain ⟨h₁, h₂⟩ := h.solo_once d hd
    refine ⟨h₁, fun hm => ?_⟩
    rcases hm with hm | hm
    · rcases Multiset.mem_cons.mp hm with rfl | hm
      · exact h₂ (.inr hh)
      · exact h₂ (.inl hm)
    · exact h₂ (.inr hm)

theorem release (h : l.Sound) (hh : l.hand = some c) (hk : c ∈ l.queue ∨ c ∈ l.table) :
    Sound { l with hand := none } := by
  constructor
  · exact h.done_issued
  · exact h.done_nodup
  · exact h.queue_live
  · exact h.table_live
  · exact fun d hd => nomatch hd
  · exact h.reader_table
  · exact h.table_nodup
  · intro d hd
    rcases h.placed d hd with hm | hm | hm
    · exact .inl hm
    · exact .inr (.inl hm)
    · obtain rfl := Option.some.inj (hh.symm.trans hm)
      exact hk.imp_right .inl
  · intro d hd
    obtain ⟨h₁, h₂⟩ := h.solo_once d hd
    exact ⟨h₁, fun hm => h₂ (.inl (hm.resolve_right (by simp)))⟩

theorem read (h : l.Sound) {r : Option ι} (ht : ∀ c, r = some c → c ∈ l.table) :
    Sound { l with reader := r } where
  done_issued := h.done_issued
  done_nodup := h.done_nodup
  queue_live := h.queue_live
  table_live := h.table_live
  hand_live := h.hand_live
  reader_table := ht
  table_nodup := h.table_nodup
  placed := h.placed
  solo_once := h.solo_once

theorem again (h : l.Sound) (ht : c ∈ l.table) (hs : ¬l.solo c) :
    Sound { l with queue := c ::ₘ l.queue } := by
  constructor
  · exact h.done_issued
  · exact h.done_nodup
  · intro d hd
    rcases Multiset.mem_cons.mp hd with rfl | hd
    · exact h.table_live d ht
    · exact h.queue_live d hd
  · exact h.table_live
  · exact h.hand_live
  · exact h.reader_table
  · exact h.table_nodup
  · exact fun d hd => (h.placed d hd).imp_left (Multiset.mem_cons_of_mem ·)
  · intro d hd
    have hne : d ≠ c := fun he => hs (he ▸ hd)
    obtain ⟨h₁, h₂⟩ := h.solo_once d hd
    refine ⟨by simpa [Multiset.count_cons_of_ne hne] using h₁, fun hm => ?_⟩
    simpa [hne] using h₂ hm

theorem requeue (h : l.Sound) {t : Multiset ι} (ht : l.table = c ::ₘ t) (hr : l.reader ≠ some c)
    (hh : l.solo c → l.hand ≠ some c) : Sound { l with table := t, queue := c ::ₘ l.queue } := by
  have hct : c ∈ l.table := ht ▸ Multiset.mem_cons_self c t
  have sub : ∀ d ∈ t, d ∈ l.table := fun d hd => ht ▸ Multiset.mem_cons_of_mem hd
  have hnd := h.table_nodup
  rw [ht, Multiset.nodup_cons] at hnd
  constructor
  · exact h.done_issued
  · exact h.done_nodup
  · intro d hd
    rcases Multiset.mem_cons.mp hd with rfl | hd
    · exact h.table_live d hct
    · exact h.queue_live d hd
  · exact fun d hd => h.table_live d (sub d hd)
  · exact h.hand_live
  · intro d hd
    have hm := h.reader_table d hd
    rw [ht] at hm
    exact (Multiset.mem_cons.mp hm).resolve_left fun he => hr (he ▸ hd)
  · exact hnd.2
  · intro d hd
    rcases h.placed d hd with hm | hm | hm
    · exact .inl (Multiset.mem_cons_of_mem hm)
    · rw [ht] at hm
      rcases Multiset.mem_cons.mp hm with rfl | hm
      · exact .inl (Multiset.mem_cons_self _ _)
      · exact .inr (.inl hm)
    · exact .inr (.inr hm)
  · intro d hd
    obtain ⟨h₁, h₂⟩ := h.solo_once d hd
    rcases eq_or_ne d c with rfl | hne
    · have h₃ := Multiset.count_eq_zero_of_notMem (h₂ (.inl hct))
      refine ⟨by simp [h₃], ?_⟩
      rintro (hm | hm)
      · exact absurd hm hnd.1
      · exact absurd hm (hh hd)
    · refine ⟨by simpa [Multiset.count_cons_of_ne hne] using h₁, fun hm => ?_⟩
      simpa [hne] using h₂ (hm.imp_left (sub d))

theorem finish (h : l.Sound) (hc : l.Live c) (hq : l.queue.count c ≤ 1) (hh : l.hand ≠ some c)
    (hr : l.reader ≠ some c) : Sound { l with
      done := l.done ++ [c], queue := l.queue.erase c, table := l.table.erase c } := by
  have hcq : c ∉ l.queue.erase c := by
    rw [← Multiset.count_eq_zero, Multiset.count_erase_self]
    omega
  have hct : c ∉ l.table.erase c := h.table_nodup.notMem_erase
  have live : ∀ d, l.Live d → d ≠ c → d ∈ l.issued ∧ d ∉ l.done ++ [c] := by
    intro d hd hne
    refine ⟨hd.1, fun hm => ?_⟩
    rcases List.mem_append.mp hm with hm | hm
    · exact hd.2 hm
    · exact hne (List.mem_singleton.mp hm)
  constructor
  · intro d hd
    rcases List.mem_append.mp hd with hd | hd
    · exact h.done_issued d hd
    · rw [List.mem_singleton.mp hd]
      exact hc.1
  · exact List.nodup_append.mpr ⟨h.done_nodup, List.nodup_singleton c, fun d hd e he =>
      fun heq => hc.2 (List.mem_singleton.mp he ▸ heq ▸ hd)⟩
  · exact fun d hd => live d (h.queue_live d (Multiset.mem_of_mem_erase hd)) fun he => hcq (he ▸ hd)
  · exact fun d hd => live d (h.table_live d (Multiset.mem_of_mem_erase hd)) fun he => hct (he ▸ hd)
  · exact fun d hd => live d (h.hand_live d hd) fun he => hh (he ▸ hd)
  · intro d hd
    have hne : d ≠ c := fun he => hr (he ▸ hd)
    exact (Multiset.mem_erase_of_ne hne).mpr (h.reader_table d hd)
  · exact h.table_nodup.erase c
  · rintro d ⟨hi, hd⟩
    have hne : d ≠ c := fun he => hd (by simp [he])
    rcases h.placed d ⟨hi, fun hm => hd (List.mem_append_left _ hm)⟩ with hm | hm | hm
    · exact .inl ((Multiset.mem_erase_of_ne hne).mpr hm)
    · exact .inr (.inl ((Multiset.mem_erase_of_ne hne).mpr hm))
    · exact .inr (.inr hm)
  · intro d hd
    obtain ⟨h₁, h₂⟩ := h.solo_once d hd
    refine ⟨(Multiset.count_le_of_le d (Multiset.erase_le c _)).trans h₁, fun hm hmq => ?_⟩
    exact h₂ (hm.imp_left Multiset.mem_of_mem_erase) (Multiset.mem_of_mem_erase hmq)

/-- Every move keeps what the owners rely on. -/
theorem move (h : l.Sound) (hm : Move l l') : l'.Sound := by
  cases hm with
  | issue c solo' fresh solo => exact h.issue fresh solo
  | take c q queue hand => exact h.take queue hand
  | putBack c hand table => exact h.putBack hand table
  | register c hand table => exact h.register hand table
  | release c hand kept => exact h.release hand kept
  | read r table => exact h.read table
  | again c table solo => exact h.again table solo
  | requeue c t table reader hand => exact h.requeue table reader hand
  | finish c live queue hand reader => exact h.finish live queue hand reader

/-- So does any number of moves. -/
theorem moves (h : l.Sound) (hm : Moves l l') : l'.Sound := by
  induction hm with
  | refl => exact h
  | tail _ hm ih => exact ih.move hm

/-- A job that has been given back is nowhere. -/
theorem nowhere (h : l.Sound) (hc : c ∈ l.done) :
    c ∉ l.queue ∧ c ∉ l.table ∧ l.hand ≠ some c ∧ l.reader ≠ some c :=
  ⟨fun hm => (h.queue_live c hm).2 hc, fun hm => (h.table_live c hm).2 hc,
    fun hm => (h.hand_live c hm).2 hc, fun hm => (h.table_live c (h.reader_table c hm)).2 hc⟩

end Sound

end Ledger

end Ost.Util
