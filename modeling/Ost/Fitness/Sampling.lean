import Mathlib.Logic.Function.Iterate
import Ost.Prog.Run

/-!
# The sample loop

`main` of `fitness` draws the parameters of a sample with `rand`, and the workers that take the
sample call `rand` as well.  To keep the parameters predictable `main` starts over after each
sample: it seeds the generator again and draws, without running them, the parameters of all the
samples that are behind.

The generator is a parameter here.  `srand` determines its state, and `SAMPLE` is a function of
that state.  Between two steps of `main` in a sample the workers call `rand` as often as they
like.  This is the loop of a first phase, in which `fresh` is set and `filter` is not; the numbers
of the loop never exceed `skip` plus `samples` of the command line, so none of them overflows.
-/

namespace Ost.Fitness

open Ost.Prog

/-! ## The loop -/

/-- `srand`, `rand` and `SAMPLE`, for the parameters that are not fixed on the command line. -/
structure Generator (G T : Type) where
  srand : UInt32 → G
  rand : G → G
  draw : G → T × G

/-- Where `main` stands. -/
inductive Point where
  | /-- At the label `top`. -/
    top
  | /-- At the head of the loop over the samples. -/
    head
  | /-- At the head of the loop over the iterations of a sample. -/
    running (iter : Nat)
  | /-- After the loop. -/
    finished
deriving DecidableEq, Repr

/-- What is done, each with the parameters that are used. -/
inductive Entry (T : Type) where
  | sample (number : Nat) (tuple : T)
  | iter (number iter : Nat) (tuple : T)
deriving DecidableEq, Repr

/-- The number of the sample. -/
def Entry.number {T : Type} : Entry T → Nat
  | sample i _ => i
  | iter i _ _ => i

/-- The variables of the loop.  `log` and `steps` are ghosts: what has been done, oldest first,
and how many steps `main` has made. -/
structure Sampler (G T : Type) where
  samples : Nat
  skip : Nat
  skipped : Nat
  sample : Nat
  tuple : T
  gen : G
  point : Point
  log : List (Entry T)
  steps : Nat
deriving DecidableEq, Repr

section Loop

variable {G T : Type} (m : Generator G T) (seed : UInt32) (iters : Nat)

/-- At the first `top`, with the options `--samples` and `--skip`. -/
def Sampler.start (samples skip : Nat) (t : T) (g : G) : Sampler G T :=
  { samples := samples, skip := skip, skipped := 0, sample := 0, tuple := t, gen := g
    point := .top, log := [], steps := 0 }

namespace Sampler

variable (s : Sampler G T)

/-- `skipped = skip`, `srand(s.seed)` and the initialisation of the loop. -/
def restart : Sampler G T :=
  { s with skipped := s.skip, gen := m.srand seed, sample := 0, point := .head }

/-- A sample that is taken. -/
def take (t : T) : Sampler G T :=
  { s with point := .running 0, log := s.log ++ [.sample s.sample t] }

/-- A sample that is skipped over. -/
def pass : Sampler G T := { s with skip := s.skip - 1, sample := s.sample + 1 }

/-- `SAMPLE`. -/
def draw : Sampler G T := { s with tuple := (m.draw s.gen).1, gen := (m.draw s.gen).2 }

/-- The end of the loop over the samples. -/
def finish : Sampler G T := { s with point := .finished }

/-- An iteration of the sample. -/
def iterate (i : Nat) : Sampler G T :=
  { s with point := .running (i + 1), log := s.log ++ [.iter s.sample i s.tuple] }

/-- `skip = sample+1; samples--; goto top`. -/
def again : Sampler G T :=
  { s with skip := s.sample + 1, samples := s.samples - 1, point := .top }

/-- The next step of `main`. -/
def main : Sampler G T :=
  match s.point with
  | .top => s.restart m seed
  | .head =>
    if s.sample < s.samples + s.skipped then
      if s.samples = 0 then s.finish
      else if s.skip = 0 then (s.draw m).take (s.draw m).tuple
      else (s.draw m).pass
    else s.finish
  | .running i => if i < iters then s.iterate i else s.again
  | .finished => s

/-- A worker calls `rand`. -/
def disturb : Sampler G T := { s with gen := m.rand s.gen }

/-- Count a step of `main`. -/
def count : Sampler G T := { s with steps := s.steps + 1 }

end Sampler

/-- What can happen. -/
inductive SamplerEvent where
  | /-- `main` makes a step. -/
    main
  | /-- A worker calls `rand`. -/
    rand
deriving DecidableEq, Repr

/-- Workers run only while a sample is taken. -/
def Point.working : Point → Bool
  | running _ => true
  | _ => false

/-- One event. -/
def samplerNext : SamplerEvent → Prog Empty (Sampler G T) PUnit
  | .main => modify fun s => if s.point = .finished then s else (s.main m seed iters).count
  | .rand => modify fun s => if s.point.working then s.disturb m else s

/-! ## What is to be done -/

namespace Generator

/-- The state of the generator when `i` samples have been drawn since `srand`. -/
def state (i : Nat) : G := (fun g => (m.draw g).2)^[i] (m.srand seed)

/-- The parameters of sample `i`. -/
def tuple (i : Nat) : T := (m.draw (m.state seed i)).1

/-- What is done for sample `i` before its iteration `j`. -/
def begun (i j : Nat) : List (Entry T) :=
  .sample i (m.tuple seed i) :: (List.range j).map fun l => .iter i l (m.tuple seed i)

/-- What is done for the samples from `k` up to `n`. -/
def entries (k n : Nat) : List (Entry T) :=
  (List.range' k (n - k)).flatMap fun i => m.begun seed i iters

end Generator

end Loop

section Entries

variable {G T : Type} {m : Generator G T} {seed : UInt32} {iters : Nat}

theorem state_succ (i : Nat) : m.state seed (i + 1) = (m.draw (m.state seed i)).2 :=
  Function.iterate_succ_apply' _ _ _

theorem begun_zero (i : Nat) : m.begun seed i 0 = [.sample i (m.tuple seed i)] := rfl

theorem begun_succ (i j : Nat) :
    m.begun seed i (j + 1) = m.begun seed i j ++ [.iter i j (m.tuple seed i)] := by
  simp only [Generator.begun, List.range_succ, List.map_append, List.map_cons, List.map_nil,
    List.cons_append]

theorem entries_self (k : Nat) : m.entries seed iters k k = [] := by
  rw [Generator.entries, Nat.sub_self]
  rfl

/-- The samples up to `n` and those from `n` on. -/
theorem entries_append {k n l : Nat} (hk : k ≤ n) (hn : n ≤ l) :
    m.entries seed iters k n ++ m.entries seed iters n l = m.entries seed iters k l := by
  obtain ⟨a, rfl⟩ := Nat.exists_eq_add_of_le hk
  obtain ⟨b, rfl⟩ := Nat.exists_eq_add_of_le hn
  simp only [Generator.entries]
  rw [← List.flatMap_append, Nat.add_sub_cancel_left, Nat.add_sub_cancel_left,
    show k + a + b - k = a + b by omega, ← List.range'_append_1]

theorem entries_succ {k n : Nat} (hk : k ≤ n) :
    m.entries seed iters k (n + 1) = m.entries seed iters k n ++ m.begun seed n iters := by
  rw [← entries_append hk (Nat.le_succ n)]
  congr 1
  rw [Generator.entries, Nat.succ_eq_add_one, Nat.add_sub_cancel_left]
  exact List.append_nil _

theorem begun_number {i j : Nat} {e : Entry T} (he : e ∈ m.begun seed i j) : e.number = i := by
  rcases List.mem_cons.mp he with rfl | he
  · rfl
  · obtain ⟨l, -, rfl⟩ := List.mem_map.mp he
    rfl

/-- The entries are those of the samples with these numbers. -/
theorem entries_number {k n : Nat} {e : Entry T} (he : e ∈ m.entries seed iters k n) :
    k ≤ e.number ∧ e.number < k + (n - k) := by
  obtain ⟨i, hi, he⟩ := List.mem_flatMap.mp he
  rw [begun_number he]
  exact List.mem_range'_1.mp hi

/-- The entries from `k` on are a part of the entries of the whole run. -/
theorem entries_filter {k n : Nat} (hk : k ≤ n) :
    (m.entries seed iters 0 n).filter (fun e => k ≤ e.number) = m.entries seed iters k n := by
  rw [← entries_append (Nat.zero_le k) hk, List.filter_append]
  have hbefore : (m.entries seed iters 0 k).filter (fun e => k ≤ e.number) = [] := by
    refine List.filter_eq_nil_iff.mpr fun e he => ?_
    have hnum := (entries_number he).2
    simp only [decide_eq_true_eq]
    omega
  have hafter : (m.entries seed iters k n).filter (fun e => k ≤ e.number) =
      m.entries seed iters k n :=
    List.filter_eq_self.mpr fun e he => decide_eq_true (entries_number he).1
  rw [hbefore, hafter, List.nil_append]

end Entries

/-! ## The invariant -/

section Invariant

variable {G T : Type} (m : Generator G T) (seed : UInt32) (iters k n : Nat)

/-- The loop has run the samples from `k` on, of `n` samples.  In the loop the generator is in the
state that belongs to the number of the sample, until a sample is taken. -/
def Sampler.OnCourse (s : Sampler G T) : Prop :=
  match s.point with
  | .top => s.skip + s.samples = n ∧ k ≤ s.skip ∧ s.log = m.entries seed iters k s.skip
  | .head => s.skipped = s.skip + s.sample ∧ s.skipped + s.samples = n ∧ k ≤ s.skipped ∧
      s.gen = m.state seed s.sample ∧ s.log = m.entries seed iters k s.skipped
  | .running i => s.sample + s.samples = n ∧ 0 < s.samples ∧ k ≤ s.sample ∧ i ≤ iters ∧
      s.tuple = m.tuple seed s.sample ∧
      s.log = m.entries seed iters k s.sample ++ m.begun seed s.sample i
  | .finished => s.log = m.entries seed iters k n

variable {m seed iters k n} {s : Sampler G T}

/-- Workers do not matter: the state of the generator is used only after `srand`. -/
theorem Sampler.OnCourse.disturb (h : s.OnCourse m seed iters k n)
    (hwork : s.point.working = true) : (s.disturb m).OnCourse m seed iters k n := by
  unfold Sampler.OnCourse at *
  rw [show (s.disturb m).point = s.point from rfl]
  cases hp : s.point <;> simp only [hp, Point.working, Bool.false_eq_true] at h hwork ⊢
  exact h

theorem Sampler.OnCourse.restart (h : s.OnCourse m seed iters k n) (hp : s.point = .top) :
    (s.restart m seed).OnCourse m seed iters k n := by
  simp only [Sampler.OnCourse, hp] at h
  obtain ⟨hsum, hk, hlog⟩ := h
  exact ⟨rfl, hsum, hk, rfl, hlog⟩

/-- The sample that is taken has the number of those that were skipped. -/
theorem Sampler.OnCourse.take (h : s.OnCourse m seed iters k n) (hp : s.point = .head)
    (hsamples : s.samples ≠ 0) (hskip : s.skip = 0) :
    ((s.draw m).take (s.draw m).tuple).OnCourse m seed iters k n := by
  simp only [Sampler.OnCourse, hp] at h
  obtain ⟨hskipped, hsum, hk, hgen, hlog⟩ := h
  rw [hskip, Nat.zero_add] at hskipped
  have htuple : (m.draw s.gen).1 = m.tuple seed s.sample := by rw [hgen, Generator.tuple]
  rw [hskipped] at hsum hk hlog
  refine ⟨hsum, Nat.pos_of_ne_zero hsamples, hk, Nat.zero_le _, htuple, ?_⟩
  change s.log ++ [.sample s.sample (m.draw s.gen).1] =
    m.entries seed iters k s.sample ++ m.begun seed s.sample 0
  rw [begun_zero, htuple, hlog]

theorem Sampler.OnCourse.pass (h : s.OnCourse m seed iters k n) (hp : s.point = .head)
    (hskip : s.skip ≠ 0) : (s.draw m).pass.OnCourse m seed iters k n := by
  have hpoint : (s.draw m).pass.point = .head := hp
  simp only [Sampler.OnCourse, hp] at h
  obtain ⟨hskipped, hsum, hk, hgen, hlog⟩ := h
  simp only [Sampler.OnCourse, hpoint]
  refine ⟨?_, hsum, hk, ?_, hlog⟩
  · change s.skipped = s.skip - 1 + (s.sample + 1)
    omega
  · change (m.draw s.gen).2 = m.state seed (s.sample + 1)
    rw [hgen, state_succ]

/-- The loop ends only when all samples have been taken. -/
theorem Sampler.OnCourse.finish (h : s.OnCourse m seed iters k n) (hp : s.point = .head)
    (hend : s.samples + s.skipped ≤ s.sample ∨ s.samples = 0) :
    s.finish.OnCourse m seed iters k n := by
  simp only [Sampler.OnCourse, hp] at h
  obtain ⟨hskipped, hsum, hk, hgen, hlog⟩ := h
  have hall : s.skipped = n := by omega
  change s.log = m.entries seed iters k n
  rw [hlog, hall]

theorem Sampler.OnCourse.iterate {i : Nat} (h : s.OnCourse m seed iters k n)
    (hp : s.point = .running i) (hi : i < iters) : (s.iterate i).OnCourse m seed iters k n := by
  simp only [Sampler.OnCourse, hp] at h
  obtain ⟨hsum, hpos, hk, -, htuple, hlog⟩ := h
  refine ⟨hsum, hpos, hk, hi, htuple, ?_⟩
  change s.log ++ [.iter s.sample i s.tuple] = _
  rw [hlog, htuple, begun_succ, List.append_assoc]
  rfl

theorem Sampler.OnCourse.again {i : Nat} (h : s.OnCourse m seed iters k n)
    (hp : s.point = .running i) (hi : ¬i < iters) : s.again.OnCourse m seed iters k n := by
  simp only [Sampler.OnCourse, hp] at h
  obtain ⟨hsum, hpos, hk, hle, htuple, hlog⟩ := h
  obtain rfl : i = iters := by omega
  refine ⟨?_, Nat.le_succ_of_le hk, ?_⟩
  · change s.sample + 1 + (s.samples - 1) = n
    omega
  · change s.log = m.entries seed i k (s.sample + 1)
    rw [hlog, entries_succ hk]

/-- A step of `main`. -/
theorem Sampler.OnCourse.main (h : s.OnCourse m seed iters k n) :
    (s.main m seed iters).OnCourse m seed iters k n := by
  unfold Sampler.main
  split
  case h_1 hp => exact h.restart hp
  case h_2 hp =>
    split
    · split
      · exact h.finish hp (.inr ‹_›)
      · split
        · exact h.take hp ‹_› ‹_›
        · exact h.pass hp ‹_›
    · exact h.finish hp (.inl (by omega))
  case h_3 i hp =>
    split
    · exact h.iterate hp ‹_›
    · exact h.again hp ‹_›
  case h_4 => exact h

end Invariant

/-! ## Termination -/

section Rank

variable {G T : Type} (iters : Nat)

/-- The number of steps from `top`: a pass over the samples that are behind, a sample with its
iterations, and the rest. -/
def rounds : Nat → Nat → Nat
  | 0, _ => 2
  | samples + 1, skip => skip + iters + 3 + rounds samples (skip + 1)

/-- The number of steps that `main` has still to make. -/
def Sampler.rank (s : Sampler G T) : Nat :=
  match s.point with
  | .top => rounds iters s.samples s.skip
  | .head =>
    match s.samples with
    | 0 => 1
    | samples + 1 => s.skip + iters + 2 + rounds iters samples (s.skipped + 1)
  | .running i => iters - i + 1 + rounds iters (s.samples - 1) (s.sample + 1)
  | .finished => 0

variable {iters} {m : Generator G T} {seed : UInt32} {k n : Nat} {s : Sampler G T}

/-- Each step of `main` lowers the rank by one. -/
theorem Sampler.rank_main (h : s.OnCourse m seed iters k n) (hp : s.point ≠ .finished) :
    (s.main m seed iters).rank iters + 1 = s.rank iters := by
  unfold Sampler.main
  split
  case h_1 hp =>
    have hrestart : (s.restart m seed).point = .head := rfl
    simp only [Sampler.rank, hp, hrestart]
    change (match s.samples with
      | 0 => 1
      | samples + 1 => s.skip + iters + 2 + rounds iters samples (s.skip + 1)) + 1 = _
    cases s.samples with
    | zero => rfl
    | succ samples =>
      change s.skip + iters + 2 + rounds iters samples (s.skip + 1) + 1 =
        s.skip + iters + 3 + rounds iters samples (s.skip + 1)
      omega
  case h_2 hp =>
    simp only [Sampler.OnCourse, hp] at h
    obtain ⟨hskipped, hsum, -⟩ := h
    split
    · split
      · rename_i hzero
        simp only [Sampler.rank, hp, hzero]
        rfl
      · obtain ⟨samples, hsamples⟩ := Nat.exists_eq_succ_of_ne_zero ‹s.samples ≠ 0›
        split
        · rename_i hskip
          simp only [Sampler.rank, hp, hsamples]
          change iters - 0 + 1 + rounds iters (s.samples - 1) (s.sample + 1) + 1 = _
          rw [hsamples, hskip, hskipped, hskip, Nat.succ_sub_one]
          simp only [Nat.zero_add]
          omega
        · have hpoint : (s.draw m).pass.point = .head := hp
          have hrest : (s.draw m).pass.samples = samples.succ := hsamples
          simp only [Sampler.rank, hp, hpoint, hsamples, hrest]
          change s.skip - 1 + iters + 2 + rounds iters samples (s.skipped + 1) + 1 = _
          omega
    · obtain hzero : s.samples = 0 := by omega
      simp only [Sampler.rank, hp, hzero]
      rfl
  case h_3 i hp =>
    split
    · simp only [Sampler.rank, hp]
      change iters - (i + 1) + 1 + rounds iters (s.samples - 1) (s.sample + 1) + 1 = _
      omega
    · simp only [Sampler.rank, hp]
      change rounds iters (s.samples - 1) (s.sample + 1) + 1 = _
      omega
  case h_4 hend => exact absurd hend hp

end Rank

/-! ## Runs -/

section Runs

variable {G T : Type} (m : Generator G T) (seed : UInt32) (iters : Nat)

/-- The invariant, with the steps that `main` has made and has still to make. -/
def Sampler.Sound (k n bound : Nat) (s : Sampler G T) : Prop :=
  s.OnCourse m seed iters k n ∧ s.steps + s.rank iters = bound

/-- The states of a run. -/
def Sampler.Reached (s₀ : Sampler G T) : Sampler G T → Prop :=
  Reach (samplerNext m seed iters) (fun _ _ => True) s₀

variable {m seed iters} {k n : Nat} {s : Sampler G T}

/-- Only `count` counts. -/
theorem Sampler.main_steps : (s.main m seed iters).steps = s.steps := by
  unfold Sampler.main
  split
  · rfl
  · split
    · split
      · rfl
      · split <;> rfl
    · rfl
  · split <;> rfl
  · rfl

/-- One event. -/
theorem samplerNext_sound {bound : Nat} {e : SamplerEvent}
    (h : s.Sound m seed iters k n bound) :
    ensures (samplerNext m seed iters e)
      (fun _ s' => s'.Sound m seed iters k n bound) s := by
  obtain ⟨hcourse, hsteps⟩ := h
  cases e with
  | main =>
    change Sampler.Sound m seed iters k n bound (if _ then _ else _)
    split
    · exact ⟨hcourse, hsteps⟩
    · refine ⟨hcourse.main, ?_⟩
      have hrank := Sampler.rank_main hcourse ‹_›
      change (s.main m seed iters).steps + 1 + (s.main m seed iters).rank iters = bound
      rw [Sampler.main_steps]
      omega
  | rand =>
    change Sampler.Sound m seed iters k n bound (if _ then _ else _)
    split
    · exact ⟨hcourse.disturb ‹_›, hsteps⟩
    · exact ⟨hcourse, hsteps⟩

/-- A run that is started with these options. -/
theorem Sampler.Reached.sound {samples skip : Nat} {t : T} {g : G}
    (h : Sampler.Reached m seed iters (.start samples skip t g) s) :
    s.Sound m seed iters skip (skip + samples) (rounds iters samples skip) := by
  refine Reach.invariant (P := Sampler.Sound m seed iters skip (skip + samples)
    (rounds iters samples skip)) ?_ (fun s e hs _ => samplerNext_sound hs) h
  refine ⟨⟨rfl, Nat.le_refl _, (entries_self skip).symm⟩, ?_⟩
  exact Nat.zero_add _

/-- What a run that is over has done. -/
theorem Sampler.Reached.finished {samples skip : Nat} {t : T} {g : G}
    (h : Sampler.Reached m seed iters (.start samples skip t g) s) (hp : s.point = .finished) :
    s.log = m.entries seed iters skip (skip + samples) := by
  have hcourse := h.sound.1
  simp only [Sampler.OnCourse, hp] at hcourse
  exact hcourse

/-- However often the workers call `rand`, `main` makes a bounded number of steps, and it makes
the next one until the loop is over. -/
theorem Sampler.Reached.progress {samples skip : Nat} {t : T} {g : G}
    (h : Sampler.Reached m seed iters (.start samples skip t g) s) :
    s.steps ≤ rounds iters samples skip ∧
      (s.point = .finished ∨
        ∃ s', samplerNext m seed iters .main s = .ret ⟨⟩ s' ∧ s'.steps = s.steps + 1) := by
  refine ⟨?_, ?_⟩
  · have hsteps := h.sound.2
    omega
  · by_cases hp : s.point = .finished
    · exact .inl hp
    · refine .inr ⟨(s.main m seed iters).count, ?_, ?_⟩
      · change Outcome.ret PUnit.unit (if _ then _ else _) = _
        rw [if_neg hp]
      · change (s.main m seed iters).steps + 1 = s.steps + 1
        rw [Sampler.main_steps]

/-- A run with `--skip k` and `--samples` `n - k` does what the run with `--samples` `n` does from
sample `k` on, however often the workers call `rand` in either of them; and every run is over
after a bounded number of steps of `main`. -/
theorem Sampler.resumes (m : Generator G T) (seed : UInt32) (iters n k : Nat) (hk : k ≤ n)
    (t t' : T) (g g' : G) :
    (∀ full part, Sampler.Reached m seed iters (.start n 0 t g) full → full.point = .finished →
      Sampler.Reached m seed iters (.start (n - k) k t' g') part → part.point = .finished →
      full.log = m.entries seed iters 0 n ∧ part.log = m.entries seed iters k n ∧
        part.log = full.log.filter fun e => k ≤ e.number) ∧
    (∀ s, Sampler.Reached m seed iters (.start (n - k) k t' g') s →
      s.steps ≤ rounds iters (n - k) k ∧
        (s.point = .finished ∨
          ∃ s', samplerNext m seed iters .main s = .ret ⟨⟩ s' ∧ s'.steps = s.steps + 1)) := by
  refine ⟨fun full part hfull hfin hpart hfin' => ?_, fun s hs => hs.progress⟩
  have hall := hfull.finished hfin
  have hrest := hpart.finished hfin'
  rw [Nat.zero_add] at hall
  rw [Nat.add_sub_cancel' hk] at hrest
  exact ⟨hall, hrest, by rw [hall, hrest, entries_filter hk]⟩

/-- A generator for tests. -/
def smallGenerator : Generator Nat Nat where
  srand seed := seed.toNat
  rand g := 5 * g + 3
  draw g := (g % 7, 3 * g + 1)

/-- Three samples with two iterations, of which the first is skipped. -/
theorem Sampler.resumes_three :
    (∃ full, Sampler.Reached smallGenerator 4 2 (.start 3 0 0 0) full ∧
      full.point = .finished ∧ full.log.length = 9) ∧
    (∀ full part, Sampler.Reached smallGenerator 4 2 (.start 3 0 0 0) full →
      full.point = .finished →
      Sampler.Reached smallGenerator 4 2 (.start (3 - 1) 1 0 0) part → part.point = .finished →
      full.log = smallGenerator.entries 4 2 0 3 ∧ part.log = smallGenerator.entries 4 2 1 3 ∧
        part.log = full.log.filter fun e => 1 ≤ e.number) := by
  refine ⟨?_, (Sampler.resumes smallGenerator 4 2 3 1 (by decide) 0 0 0 0).1⟩
  have hrun : ∃ full, Reach (samplerNext smallGenerator 4 2) (fun _ _ => True)
      (.start 3 0 0 0) full ∧ full.point = .finished ∧ full.log.length = 9 :=
    exists_reach ([.main, .main, .rand] ++ List.replicate 23 .main) (by decide +kernel)
  exact hrun

end Runs

end Ost.Fitness
