import Ost.Fitness.Workload
import Ost.Prog.Returns

/-!
# Replaying a trace

With `--trace` a worker of `fitness` takes its requests from the lines of a file.  A record that
would pass the end of the device has its offset folded into it, a record that is too long or has an
operation that is not known is ignored, and the offsets of the workload move on as if they were
used.

Folding computes a remainder by the capacity of the device, which is known only with `--tid`, and a
folded offset may still lie too close to the end for the length of the request.  The worker then
exits.

What `sscanf` makes of a line is a record or nothing; the time of arrival is not used.  None of the
options that override the trace is given.
-/

namespace Ost.Fitness

open Ost.Prog

/-! ## The trace -/

/-- A line of a trace, as it is parsed. -/
structure Record where
  op : Char
  offset : UInt64
  len : UInt32
deriving DecidableEq, Repr

/-- The operation of a record, `true` for writes. -/
def Record.writing? (r : Record) : Option Bool :=
  if r.op = 'w' then some true else if r.op = 'r' then some false else none

/-- What a record asks for. -/
structure Access where
  writing : Bool
  offset : UInt64
  len : UInt32
deriving DecidableEq, Repr

/-- The workload, and the lines that have not been read. -/
structure Replay where
  work : Workload
  trace : List (Option Record)
deriving DecidableEq, Repr

/-- Why the process ends. -/
inductive ReplayStop where
  | /-- "error parsing line". -/
    badLine
  | worker (stop : WorkerStop)
deriving DecidableEq, Repr

/-- A replay begins. -/
def Replay.start (p : Params) (last : Option (UInt64 × UInt64)) (trace : List (Option Record)) :
    Replay := ⟨.start p last, trace⟩

/-- Run a program on the workload. -/
def inWork {α : Type} : Prog WorkerStop Workload α → Prog ReplayStop Replay α :=
  zoom Replay.work (fun s work => { s with work }) .worker

section Worker

variable (p : Params)

/-- `g_cap`. -/
def Params.gCap : UInt64 := p.tid.getD 0

/-- The check of offset and length. -/
def foldOffset (r : Record) : Prog ReplayStop Replay UInt64 :=
  if p.gCap < r.offset + r.len.toUInt64 then
    if p.gCap = 0 then halt (.worker .divisionByZero) else pure (r.offset % p.gCap)
  else pure r.offset

/-- Read lines up to a record that is not ignored, or to the end of the file. -/
def readRecord : List (Option Record) → Prog ReplayStop Replay (Option Access)
  | [] => do
    modify fun s => { s with trace := [] }
    return none
  | none :: _ => halt .badLine
  | some r :: trace =>
    if r.offset = 18446744073709551615 then readRecord trace
    else do
      let offset ← foldOffset p r
      if maxRequestSize <<< 10 < r.len then readRecord trace
      else match r.writing? with
        | none => readRecord trace
        | some writing => do
          modify fun s => { s with trace }
          return some ⟨writing, offset, r.len⟩

/-- `worker_proc_t` with what a record asks for. -/
def issueAccess (e : Turn) (a : Access) : Prog WorkerStop Workload PUnit := do
  let s ← get
  let next ← nextOffset p e a.writing (s.offset a.writing)
  modify (advance p a.writing next)
  if isPastDevice p a.offset a.len then halt .pastDevice
  else modify fun s => { s with
    requests := s.requests ++ [⟨e.worker, a.writing, a.offset, shorten p a.offset a.len⟩] }

/-- `worker_proc_t`, up to the issue of one request, when it replays a trace. -/
def replayTurn (e : Turn) : Prog ReplayStop Replay PUnit := do
  let s ← get
  match ← readRecord p s.trace with
  | none => return ⟨⟩
  | some a => inWork (issueAccess p e a)

/-! ## Staying on the device -/

/-- The records up to the first line that is none. -/
def parsed : List (Option Record) → List Record
  | [] => []
  | none :: _ => []
  | some r :: trace => r :: parsed trace

/-- A record that is not to be ignored. -/
def Record.Accepted (r : Record) : Prop :=
  r.offset ≠ 18446744073709551615 ∧ r.len ≤ maxRequestSize <<< 10 ∧ r.writing?.isSome

instance instDecidableRecordAccepted (r : Record) : Decidable r.Accepted :=
  inferInstanceAs (Decidable (_ ∧ _ ∧ _))

/-- The records that are to be replayed. -/
def accepted (trace : List (Option Record)) : List Record :=
  (parsed trace).filter fun r => r.Accepted

/-- The offset of a record, folded into the device if the record would pass its end. -/
def Params.place (r : Record) : UInt64 :=
  if p.gCap < r.offset + r.len.toUInt64 then r.offset % p.gCap else r.offset

/-- A request that replays a record. -/
def Params.Replays (q : Issued) (r : Record) : Prop :=
  r.writing? = some q.writing ∧ q.offset = p.place r ∧ q.len = shorten p (p.place r) r.len

/-- A request of the maximal size at most, that ends on the device. -/
def Params.OnDevice (q : Issued) : Prop :=
  q.len ≤ maxRequestSize <<< 10 ∧
    (p.gCap ≠ 0 → q.offset.toNat + q.len.toNat ≤ p.gCap.toNat)

/-- The records that are to be replayed are replayed one after the other, on the device, and nothing
but a line that is no record ends the process. -/
structure Params.Stays (s₀ : Replay) : Prop where
  onDevice : ∀ s, Reach (replayTurn p) (fun _ _ => True) s₀ s → ∀ q ∈ s.work.requests, p.OnDevice q
  inOrder : ∀ s, Reach (replayTurn p) (fun _ _ => True) s₀ s →
    ∃ done, accepted s₀.trace = done ++ accepted s.trace ∧
      List.Forall₂ p.Replays s.work.requests done
  goesOn : ∀ s, Reach (replayTurn p) (fun _ _ => True) s₀ s → accepted s.trace ≠ [] →
    ∀ e, ∃ s', replayTurn p e s = .ret ⟨⟩ s' ∧
      s'.work.requests.length = s.work.requests.length + 1
  stops : ∀ s, Reach (replayTurn p) (fun _ _ => True) s₀ s → ∀ e stop s',
    replayTurn p e s = .halt stop s' → stop = .badLine

/-! ## The condition -/

/-- With `--tid` the capacity is the product of a number of blocks and their length, and both are
numbers of 32 bits. -/
def Params.Reported : Prop :=
  ∀ gCap ∈ p.tid, ∃ maxLba blocklen : UInt32, gCap = (maxLba + 1).toUInt64 * blocklen.toUInt64

/-- There is a capacity to fold the offset with, or there is nothing to fold. -/
def Params.Foldable (r : Record) : Prop := p.gCap = 0 → r.offset + r.len.toUInt64 = 0

/-- There is something to draw a random offset from, or none is drawn. -/
def Params.Draws (w : Bool) : Prop :=
  p.rnd w = 0 ∨ p.size w ≠ 0 ∧ p.cap <<< 10 / (p.size w).toUInt64 ≠ 0

/-- On a device the record ends before the end where it is placed, and with a file it begins in the
file.  Otherwise what is left of the file is a number below zero, and its lower 32 bits may still
happen to be a length that is all right. -/
def Params.Lands (r : Record) : Prop :=
  p.gCap ≠ 0 → (p.place r).toNat + r.len.toNat ≤ p.gCap.toNat ∧
    (p.file = true → p.place r ≤ p.cap <<< 20 ∨
      ((p.cap <<< 20) - p.place r).toUInt32 ≤ maxRequestSize <<< 10 ∧
        (p.place r).toNat + ((p.cap <<< 20) - p.place r).toUInt32.toNat ≤ p.gCap.toNat)

/-- A record that can be replayed. -/
def Params.Fine (r : Record) : Prop :=
  r.offset ≠ 18446744073709551615 → p.Foldable r ∧
    ∀ w, r.writing? = some w → r.len ≤ maxRequestSize <<< 10 → p.Lands r ∧ p.Draws w

instance instDecidableFoldable (r : Record) : Decidable (p.Foldable r) :=
  inferInstanceAs (Decidable (_ → _))

instance instDecidableDraws (w : Bool) : Decidable (p.Draws w) :=
  inferInstanceAs (Decidable (_ ∨ _ ∧ _))

instance instDecidableLands (r : Record) : Decidable (p.Lands r) :=
  inferInstanceAs (Decidable (_ → _ ∧ (_ → _ ∨ _ ∧ _)))

instance instDecidableFine (r : Record) : Decidable (p.Fine r) :=
  inferInstanceAs (Decidable (_ → _ ∧ ∀ _ : Bool, _ → _ → _ ∧ _))

end Worker

/-! ## Where a record is placed -/

section Places

variable {p : Params} {r : Record} {w : Bool}

/-- A capacity leaves room for a length below the numbers of 64 bits. -/
theorem Params.Reported.gCap_lt (hp : p.Reported) :
    p.gCap.toNat + 262144 < 18446744073709551616 := by
  cases htid : p.tid with
  | none =>
    rw [Params.gCap, htid]
    decide
  | some gCap =>
    obtain ⟨maxLba, blocklen, heq⟩ := hp gCap htid
    have hprod : (maxLba + 1).toNat * blocklen.toNat ≤ 4294967295 * 4294967295 :=
      Nat.mul_le_mul (Nat.le_of_lt_succ (UInt32.toNat_lt _)) (Nat.le_of_lt_succ (UInt32.toNat_lt _))
    rw [Params.gCap, htid, Option.getD_some, heq, UInt64.toNat_mul, UInt32.toNat_toUInt64,
      UInt32.toNat_toUInt64]
    rw [Nat.mod_eq_of_lt (by omega)]
    omega

theorem toNat_end {o : UInt64} {len : UInt32} (h : o.toNat + len.toNat < 18446744073709551616) :
    (o + len.toUInt64).toNat = o.toNat + len.toNat := by
  rw [UInt64.toNat_add, UInt32.toNat_toUInt64]
  exact Nat.mod_eq_of_lt h

theorem isPastDevice_iff (h : p.gCap ≠ 0) (o : UInt64) (len : UInt32) :
    isPastDevice p o len ↔ p.gCap < o + len.toUInt64 := by
  cases htid : p.tid with
  | none =>
    rw [Params.gCap, htid] at h
    exact absurd rfl h
  | some gCap =>
    rw [isPastDevice, Params.gCap, htid]
    exact decide_eq_true_iff

/-- A request that ends on the device is the one of a record that ends on it. -/
theorem Params.lands_iff (hp : p.Reported) (hfold : p.Foldable r)
    (hlen : r.len ≤ maxRequestSize <<< 10) (worker : Nat) :
    ¬isPastDevice p (p.place r) r.len ∧
      p.OnDevice ⟨worker, w, p.place r, shorten p (p.place r) r.len⟩ ↔ p.Lands r := by
  have hlen' : r.len.toNat ≤ 262144 := UInt32.le_iff_toNat_le.mp hlen
  by_cases hzero : p.gCap = 0
  · have hsum := hfold hzero
    have hplace : p.place r = r.offset := by
      rw [Params.place, hsum, if_neg UInt64.not_lt_zero]
    have hpast : ¬isPastDevice p (p.place r) r.len := by
      rw [isPastDevice, hplace, hsum]
      intro hany
      obtain ⟨gCap, -, hlt⟩ := (Option.any_eq_true _ _).mp hany
      exact UInt64.not_lt_zero (of_decide_eq_true hlt)
    have hwhole : shorten p (p.place r) r.len = r.len := by
      rw [shorten, hplace, hsum, if_neg fun h => UInt64.not_lt_zero h.2]
    rw [hwhole]
    exact ⟨fun _ h => absurd hzero h, fun _ => ⟨hpast, hlen, fun h => absurd hzero h⟩⟩
  · have hcap := hp.gCap_lt
    rw [isPastDevice_iff hzero, UInt64.lt_iff_toNat_lt, Nat.not_lt]
    constructor
    · rintro ⟨hpast, hshort, hon⟩ -
      have hend := hon hzero
      dsimp only at hshort hend
      have hsum : (p.place r + r.len.toUInt64).toNat = (p.place r).toNat + r.len.toNat :=
        toNat_end (by omega)
      rw [hsum] at hpast
      refine ⟨hpast, fun hfile => ?_⟩
      by_cases hle : p.place r ≤ p.cap <<< 20
      · exact .inl hle
      · have hlt : p.cap <<< 20 < p.place r + r.len.toUInt64 := by
          rw [UInt64.le_iff_toNat_le] at hle
          rw [UInt64.lt_iff_toNat_lt, hsum]
          omega
        rw [shorten, if_pos ⟨hfile, hlt⟩] at hshort hend
        exact .inr ⟨hshort, hend⟩
    · intro hlands
      obtain ⟨hend, hfile⟩ := hlands hzero
      have hsum : (p.place r + r.len.toUInt64).toNat = (p.place r).toNat + r.len.toNat :=
        toNat_end (by omega)
      refine ⟨hsum ▸ hend, ?_⟩
      by_cases hshort : p.file = true ∧ p.cap <<< 20 < p.place r + r.len.toUInt64
      · rw [shorten, if_pos hshort]
        rcases hfile hshort.1 with hle | ⟨htail, htail'⟩
        · -- The request ends with the file.
          have hlt := UInt64.lt_iff_toNat_lt.mp hshort.2
          have hrest : ((p.cap <<< 20) - p.place r).toUInt32.toNat =
              (p.cap <<< 20).toNat - (p.place r).toNat := by
            rw [UInt64.toNat_toUInt32, UInt64.toNat_sub_of_le _ _ hle]
            exact Nat.mod_eq_of_lt (by omega)
          refine ⟨UInt32.le_iff_toNat_le.mpr ?_, fun _ => ?_⟩
          · change _ ≤ 262144
            dsimp only
            omega
          · dsimp only
            rw [UInt64.le_iff_toNat_le] at hle
            omega
        · exact ⟨htail, fun _ => htail'⟩
      · rw [shorten, if_neg hshort]
        exact ⟨hlen, fun _ => hend⟩

end Places

/-! ## What a worker reads -/

section Reading

variable {p : Params} {trace rest : List (Option Record)} {r : Record} {w : Bool} {s : Replay}

/-- The lines that are left hold nothing that is to be replayed, and nothing that goes wrong. -/
def Params.Idle (p : Params) (trace : List (Option Record)) : Prop :=
  accepted trace = [] ∧ ∀ r ∈ parsed trace, p.Fine r

/-- The first record that is to be replayed, with the lines behind it. -/
structure Params.Picks (p : Params) (trace : List (Option Record)) (r : Record) (w : Bool)
    (rest : List (Option Record)) : Prop where
  writing : r.writing? = some w
  offset : r.offset ≠ 18446744073709551615
  len : r.len ≤ maxRequestSize <<< 10
  foldable : p.Foldable r
  accepted : accepted trace = r :: accepted rest
  fine : (∀ r' ∈ parsed trace, p.Fine r') ↔ p.Fine r ∧ ∀ r' ∈ parsed rest, p.Fine r'
  shorter : rest.length < trace.length

theorem accepted_cons (r : Record) (trace : List (Option Record)) :
    accepted (some r :: trace) = if r.Accepted then r :: accepted trace else accepted trace := by
  rw [accepted, parsed, List.filter_cons]
  simp only [decide_eq_true_eq]
  rfl

theorem parsed_cons (r : Record) (trace : List (Option Record)) :
    (∀ r' ∈ parsed (some r :: trace), p.Fine r') ↔ p.Fine r ∧ ∀ r' ∈ parsed trace, p.Fine r' :=
  List.forall_mem_cons

/-- A record that is ignored. -/
theorem Params.Idle.skip (h : p.Idle trace) (hr : ¬r.Accepted) (hfine : p.Fine r) :
    p.Idle (some r :: trace) := by
  refine ⟨?_, (parsed_cons r trace).mpr ⟨hfine, h.2⟩⟩
  rw [accepted_cons, if_neg hr]
  exact h.1

theorem Params.Picks.skip {r' : Record} (h : p.Picks trace r' w rest) (hr : ¬r.Accepted)
    (hfine : p.Fine r) : p.Picks (some r :: trace) r' w rest where
  writing := h.writing
  offset := h.offset
  len := h.len
  foldable := h.foldable
  accepted := by
    rw [accepted_cons, if_neg hr]
    exact h.accepted
  fine := by rw [parsed_cons, h.fine, and_iff_right hfine]
  shorter := Nat.lt_succ_of_lt h.shorter

/-- What comes of reading lines. -/
def Params.Reads (p : Params) (trace : List (Option Record)) (s : Replay) (a : Option Access)
    (s' : Replay) : Prop :=
  (a = none ∧ p.Idle trace ∧ s' = { s with trace := [] }) ∨
    ∃ r w rest, a = some ⟨w, p.place r, r.len⟩ ∧ p.Picks trace r w rest ∧
      s' = { s with trace := rest }

/-- How reading lines ends the process. -/
def Params.Breaks (p : Params) (trace : List (Option Record)) (stop : ReplayStop) : Prop :=
  stop = .badLine ∧ p.Idle trace ∨ stop ≠ .badLine ∧ ¬∀ r ∈ parsed trace, p.Fine r

/-- The records that are ignored do not matter. -/
theorem wp_skip {x : Prog ReplayStop Replay (Option Access)}
    (h : wp x (p.Reads trace s) (fun stop _ => p.Breaks trace stop) s) (hr : ¬r.Accepted)
    (hfine : p.Fine r) :
    wp x (p.Reads (some r :: trace) s) (fun stop _ => p.Breaks (some r :: trace) stop) s := by
  refine wp_mono h (fun a s' hread => ?_) fun stop _ hbreak => ?_
  · rcases hread with ⟨ha, hidle, hs'⟩ | ⟨r', w, rest, ha, hpick, hs'⟩
    · exact .inl ⟨ha, hidle.skip hr hfine, hs'⟩
    · exact .inr ⟨r', w, rest, ha, hpick.skip hr hfine, hs'⟩
  · rcases hbreak with ⟨hstop, hidle⟩ | ⟨hstop, hnot⟩
    · exact .inl ⟨hstop, hidle.skip hr hfine⟩
    · exact .inr ⟨hstop, fun hall => hnot ((parsed_cons r trace).mp hall).2⟩

theorem wp_foldOffset (r : Record) : wp (foldOffset p r)
    (fun o s' => p.Foldable r ∧ o = p.place r ∧ s' = s)
    (fun stop _ => stop ≠ .badLine ∧ ¬p.Foldable r) s := by
  unfold foldOffset Params.Foldable Params.place
  refine (wp_ite _ _ _).mpr ⟨fun hlt => (wp_ite _ _ _).mpr ⟨fun hzero => ?_, fun hne => ?_⟩,
    fun hle => ?_⟩
  · refine ⟨ReplayStop.noConfusion, fun hfold => ?_⟩
    rw [hfold hzero] at hlt
    exact UInt64.not_lt_zero hlt
  · exact ⟨fun hzero => absurd hzero hne, (if_pos hlt).symm, rfl⟩
  · refine ⟨fun hzero => ?_, (if_neg hle).symm, rfl⟩
    rw [hzero] at hle
    exact UInt64.le_zero_iff.mp (UInt64.not_lt.mp hle)

theorem wp_readRecord (trace : List (Option Record)) (s : Replay) :
    wp (readRecord p trace) (p.Reads trace s) (fun stop _ => p.Breaks trace stop) s := by
  induction trace with
  | nil => exact .inl ⟨rfl, ⟨rfl, List.forall_mem_nil _⟩, rfl⟩
  | cons line trace ih =>
    cases line with
    | none => exact .inl ⟨rfl, rfl, List.forall_mem_nil _⟩
    | some r =>
      refine (wp_ite _ _ _).mpr ⟨fun hoffset => ?_, fun hoffset => ?_⟩
      · exact wp_skip ih (fun h => h.1 hoffset) fun h => absurd hoffset h
      refine (wp_bind _ _).mpr (wp_mono (wp_foldOffset r) ?_ fun stop _ hstop => ?_)
      · rintro o s' ⟨hfold, rfl, rfl⟩
        refine (wp_ite _ _ _).mpr ⟨fun hlong => ?_, fun hlen => ?_⟩
        · exact wp_skip ih (fun h => UInt32.not_le.mpr hlong h.2.1)
            fun _ => ⟨hfold, fun _ _ hle => absurd hle (UInt32.not_le.mpr hlong)⟩
        have hlen' := UInt32.not_lt.mp hlen
        cases hw : r.writing? with
        | none =>
          refine wp_skip ih (fun h => ?_) fun _ => ⟨hfold, fun w hsome => ?_⟩
          · have hsome := h.2.2
            rw [hw] at hsome
            exact absurd hsome Bool.false_ne_true
          · rw [hw] at hsome
            cases hsome
        | some w =>
          have hacc : r.Accepted := ⟨hoffset, hlen', by rw [hw]; rfl⟩
          refine .inr ⟨r, w, trace, rfl, ⟨hw, hoffset, hlen', hfold, ?_, parsed_cons r trace,
            Nat.lt_succ_self _⟩, rfl⟩
          rw [accepted_cons, if_pos hacc]
      · exact .inr ⟨hstop.1, fun hall => hstop.2 (((parsed_cons r trace).mp hall).1 hoffset).1⟩

end Reading

/-! ## What a worker does -/

section Turns

variable {p : Params} {r : Record} {w : Bool} {rest : List (Option Record)} {s : Replay} {e : Turn}

/-- There is something to draw from if the next offset is random. -/
def Params.CanDraw (p : Params) (e : Turn) (w : Bool) : Prop :=
  e.mode.val % 100 + 1 ≤ p.rnd w → p.size w ≠ 0 ∧ p.cap <<< 10 / (p.size w).toUInt64 ≠ 0

/-- A kind that can be drawn can be drawn in every turn. -/
theorem Params.draws_iff : p.Draws w ↔ ∀ e, p.CanDraw e w := by
  constructor
  · rintro (hzero | hsome) e hmode
    · rw [hzero] at hmode
      exact absurd hmode (Nat.not_succ_le_zero _)
    · exact hsome
  · intro hall
    rcases Nat.eq_zero_or_pos (p.rnd w) with hzero | hpos
    · exact .inl hzero
    · exact .inr (hall ⟨0, 0, 0, 0⟩ hpos)

theorem nextOffset_returns (e : Turn) (w : Bool) (o : UInt64) (t : Workload) :
    ReturnsIff (nextOffset p e w o) (p.CanDraw e w) (fun _ t' => t' = t) t := by
  refine (wp_ite _ _ _).mpr ⟨fun hmode => ?_, fun hmode => ?_⟩
  · refine (wp_ite _ _ _).mpr ⟨fun hzero hdraw => ?_, fun hne => ?_⟩
    · exact hzero.elim (hdraw hmode).1 (hdraw hmode).2
    · exact ⟨fun _ => not_or.mp hne, rfl⟩
  · exact ⟨fun h => absurd h hmode, rfl⟩

theorem issueAccess_returns (e : Turn) (a : Access) (t : Workload) :
    ReturnsIff (issueAccess p e a) (p.CanDraw e a.writing ∧ ¬isPastDevice p a.offset a.len)
      (fun _ t' => t'.requests =
        t.requests ++ [⟨e.worker, a.writing, a.offset, shorten p a.offset a.len⟩]) t := by
  refine (wp_bind _ _).mpr (wp_get.mpr ?_)
  refine ReturnsIff.bind (nextOffset_returns e a.writing _ t) fun next t' _ ht => ?_
  subst ht
  refine (wp_bind _ _).mpr
    ((wp_modify _).mpr ((wp_ite _ _ _).mpr ⟨fun hpast hnot => ?_, fun hin => ?_⟩))
  · exact hnot hpast
  · refine ⟨hin, ?_⟩
    dsimp only
    rw [advance_requests]

/-- A turn replays the next record, or finds none. -/
def Params.Replayed (p : Params) (e : Turn) (s s' : Replay) : Prop :=
  (p.Idle s.trace ∧ s' = { s with trace := [] }) ∨
    ∃ r w rest, p.Picks s.trace r w rest ∧
      (p.CanDraw e w ∧ ¬isPastDevice p (p.place r) r.len) ∧ s'.trace = rest ∧
      s'.work.requests = s.work.requests ++
        [⟨e.worker, w, p.place r, shorten p (p.place r) r.len⟩]

theorem wp_replayTurn (hp : p.Reported) (e : Turn) (s : Replay) :
    wp (replayTurn p e) (fun _ s' => p.Replayed e s s')
    (fun stop _ => p.Breaks s.trace stop) s := by
  refine (wp_bind _ _).mpr (wp_get.mpr ((wp_bind _ _).mpr (wp_mono (wp_readRecord s.trace s) ?_
    fun _ _ => id)))
  rintro a s' (⟨rfl, hidle, rfl⟩ | ⟨r, w, rest, rfl, hpick, rfl⟩)
  · exact .inl ⟨hidle, rfl⟩
  · refine wp_zoom.mpr (wp_mono (issueAccess_returns e _ s.work) ?_ ?_)
    · rintro _ work ⟨hok, hreq⟩
      exact .inr ⟨r, w, rest, hpick, hok, rfl, hreq⟩
    · intro stop _ hnot
      refine .inr ⟨ReplayStop.noConfusion, fun hall => hnot ?_⟩
      obtain ⟨hlands, hdraws⟩ :=
        ((hpick.fine.mp hall).1 hpick.offset).2 w hpick.writing hpick.len
      exact ⟨Params.draws_iff.mp hdraws e,
        ((Params.lands_iff (w := w) hp hpick.foldable hpick.len e.worker).mpr hlands).1⟩

end Turns

/-! ## Runs -/

section Runs

variable {p : Params} {s s₀ : Replay}

/-- The invariant. -/
structure Replay.Sound (p : Params) (s s₀ : Replay) : Prop where
  fine : ∀ r ∈ parsed s.trace, p.Fine r
  onDevice : ∀ q ∈ s.work.requests, p.OnDevice q
  inOrder : ∃ done, accepted s₀.trace = done ++ accepted s.trace ∧
    List.Forall₂ p.Replays s.work.requests done

/-- The request of the next record is on the device. -/
theorem Params.Picks.onDevice {trace rest : List (Option Record)} {r : Record} {w : Bool}
    (hp : p.Reported) (h : p.Picks trace r w rest) (hfine : p.Fine r) (worker : Nat) :
    p.OnDevice ⟨worker, w, p.place r, shorten p (p.place r) r.len⟩ :=
  ((Params.lands_iff hp h.foldable h.len worker).mpr
    ((hfine h.offset).2 w h.writing h.len).1).2

theorem Replay.Sound.replayed (hp : p.Reported) (h : s.Sound p s₀) {e : Turn} {s' : Replay}
    (hs' : p.Replayed e s s') : s'.Sound p s₀ := by
  rcases hs' with ⟨hidle, rfl⟩ | ⟨r, w, rest, hpick, -, rfl, hreq⟩
  · obtain ⟨done, hdone, hmatch⟩ := h.inOrder
    refine ⟨List.forall_mem_nil _, h.onDevice, done, ?_, hmatch⟩
    rw [hdone, hidle.1]
    rfl
  · obtain ⟨hr, hrest⟩ := hpick.fine.mp h.fine
    obtain ⟨done, hdone, hmatch⟩ := h.inOrder
    refine ⟨hrest, ?_, done ++ [r], ?_, ?_⟩
    · rw [hreq]
      exact List.forall_mem_append.mpr ⟨h.onDevice,
        List.forall_mem_singleton.mpr (hpick.onDevice hp hr e.worker)⟩
    · rw [hdone, hpick.accepted, List.append_assoc]
      rfl
    · rw [hreq]
      exact List.rel_append hmatch (.cons ⟨hpick.writing, rfl, rfl⟩ .nil)

/-- A trace whose records are fine is replayed on the device. -/
theorem Params.stays_of_fine (hp : p.Reported) (last : Option (UInt64 × UInt64))
    (trace : List (Option Record)) (hfine : ∀ r ∈ parsed trace, p.Fine r) :
    p.Stays (.start p last trace) := by
  have hreq : (Replay.start p last trace).work.requests = [] := by cases last <;> rfl
  have hstart : (Replay.start p last trace).Sound p (.start p last trace) := by
    refine ⟨hfine, ?_, [], rfl, ?_⟩
    · rw [hreq]
      exact List.forall_mem_nil _
    · rw [hreq]
      exact .nil
  have hsound : ∀ s, Reach (replayTurn p) (fun _ _ => True) (.start p last trace) s →
      s.Sound p (.start p last trace) := fun s hs =>
    hs.invariant (P := fun s => s.Sound p (.start p last trace)) hstart fun s e h _ =>
      wp_mono (wp_replayTurn hp e s) (fun _ _ hs' => h.replayed hp hs') fun _ _ _ => trivial
  refine ⟨fun s hs => (hsound s hs).onDevice, fun s hs => (hsound s hs).inOrder,
    fun s hs hne e => ?_, fun s hs e stop s' hhalt => ?_⟩
  · have hreturns : wp (replayTurn p e) (fun _ s' => p.Replayed e s s') (fun _ _ => False) s := by
      refine wp_mono (wp_replayTurn hp e s) (fun _ _ => id) ?_
      rintro stop _ (⟨-, hidle⟩ | ⟨-, hnot⟩)
      · exact hne hidle.1
      · exact hnot (hsound s hs).fine
    obtain ⟨_, s', hrun, hs'⟩ := hreturns.returns
    refine ⟨s', hrun, ?_⟩
    rcases hs' with ⟨hidle, -⟩ | ⟨r, w, rest, -, -, -, hreq⟩
    · exact absurd hidle.1 hne
    · rw [hreq, List.length_append]
      rfl
  · rcases (wp_replayTurn hp e s).of_halt hhalt with ⟨hstop, -⟩ | ⟨-, hnot⟩
    · exact hstop
    · exact absurd (hsound s hs).fine hnot

/-- A trace that is replayed on the device has records that are fine. -/
theorem Params.Stays.fine (hp : p.Reported) (h : p.Stays s₀)
    (hs : Reach (replayTurn p) (fun _ _ => True) s₀ s) : ∀ r ∈ parsed s.trace, p.Fine r := by
  induction hn : s.trace.length using Nat.strong_induction_on generalizing s with
  | _ n ih =>
    -- In this turn the next offset is random if that is possible at all.
    obtain ⟨e, he⟩ : ∃ e : Turn, e.mode.val % 100 + 1 = 1 := ⟨⟨0, 0, 0, 0⟩, rfl⟩
    have hturn := wp_replayTurn hp e s
    cases hrun : replayTurn p e s with
    | halt stop s' =>
      rcases hturn.of_halt hrun with ⟨-, hidle⟩ | ⟨hstop, -⟩
      · exact hidle.2
      · exact absurd (h.stops s hs e stop s' hrun) hstop
    | ret _ s' =>
      rcases hturn.of_ret hrun with ⟨hidle, -⟩ | ⟨r, w, rest, hpick, ⟨hdraw, hpast⟩, rfl, hreq⟩
      · exact hidle.2
      · have hreach := hs.tail trivial hrun
        have hon := h.onDevice s' hreach _ (by
          rw [hreq]
          exact List.mem_append_right _ List.mem_cons_self)
        have hlands := (Params.lands_iff hp hpick.foldable hpick.len e.worker).mp ⟨hpast, hon⟩
        refine hpick.fine.mpr ⟨fun _ => ⟨hpick.foldable, fun v hv _ => ⟨hlands, ?_⟩⟩,
          ih _ (hn ▸ hpick.shorter) hreach rfl⟩
        obtain rfl : w = v := Option.some.inj (hpick.writing.symm.trans hv)
        rcases Nat.eq_zero_or_pos (p.rnd w) with hzero | hpos
        · exact .inl hzero
        · exact .inr (hdraw (he.trans_le hpos))

/-- A trace is replayed on the device exactly when its records can be. -/
theorem replay_stays_iff (hp : p.Reported) (last : Option (UInt64 × UInt64))
    (trace : List (Option Record)) :
    p.Stays (.start p last trace) ↔ ∀ r ∈ parsed trace, p.Fine r :=
  ⟨fun h => h.fine hp .refl, p.stays_of_fine hp last trace⟩

/-- A disk of 1 MB. -/
def diskParams : Params :=
  { cap := 1, disp := 0, wr := 20, wrnd := 20, rrnd := 20, wrsz := 1, rdsz := 256
    wrStride := 0, rdStride := 0, str := 1, file := false, device := false, mount := false
    tid := some 1048576 }

/-- A file of 128 MB, when no disk is given. -/
def fileParams : Params :=
  { diskParams with cap := 128, file := true, tid := none }

theorem reported_diskParams : diskParams.Reported := by
  rintro gCap hgCap
  obtain rfl := Option.some.inj hgCap
  exact ⟨2047, 512, by decide⟩

/-- A record that fits, one that is folded, and one with an operation that is not known. -/
theorem replay_stays_iff_disk :
    diskParams.Stays (.start diskParams none
      [some ⟨'w', 1048064, 512⟩, some ⟨'r', 1052672, 4096⟩, some ⟨'x', 0, 512⟩]) :=
  (replay_stays_iff reported_diskParams none _).mpr (by decide +kernel)

/-- A record near the end of a disk is not moved far enough, and without a disk there is nothing to
fold an offset with. -/
theorem replay_leaves :
    ¬diskParams.Stays (.start diskParams none [some ⟨'r', 1048064, 1024⟩]) ∧
    ¬fileParams.Stays (.start fileParams none [some ⟨'r', 0, 512⟩]) := by
  constructor
  · intro h
    have hstop : ReplayStop.worker .pastDevice = .badLine :=
      h.stops _ .refl ⟨0, 0, 0, 0⟩ _ _ rfl
    exact ReplayStop.noConfusion hstop
  · intro h
    have hstop : ReplayStop.worker .divisionByZero = .badLine :=
      h.stops _ .refl ⟨0, 0, 0, 0⟩ _ _ rfl
    exact ReplayStop.noConfusion hstop

end Runs

end Ost.Fitness
