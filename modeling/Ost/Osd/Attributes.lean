import Ost.Osd.Effects

/-!
# The attribute lists

The set list is a sequence of entries, each with a header of ten bytes and a value; the loop of
`exec_upper` walks it and stores each value.  The get list is a sequence of pairs of a page and an
index, and the answers are stored one behind the other.
-/

namespace Ost.Osd

open Ost.Iscsi Ost.Util Ost.Prog

variable {w : World}

/-! ## The set list -/

/-- An entry of a set list. -/
structure Entry where
  page : UInt32
  index : UInt32
  value : Bytes
deriving DecidableEq, Repr

/-- The entry at an offset of the buffer. -/
def entryAt (buf : Option Bytes) (i : Nat) : Entry :=
  { page := be32 (slice buf i 10) 0
    index := be32 (slice buf i 10) 4
    value := slice buf (i + 10) (be16 (slice buf i 10) 8) }

/-- The walk over a set list from `i` on stays in the buffer and finds these entries. -/
inductive SetList (buf : Option Bytes) (listLen : Nat) : Nat → List Entry → Prop where
  | done {i : Nat} (h : listLen ≤ i) : SetList buf listLen i []
  | entry {i : Nat} {es : List Entry} (h : i < listLen) (head : InBuffer buf i 10)
    (value : InBuffer buf (i + 10) (be16 (slice buf i 10) 8))
    (rest : SetList buf listLen (i + 10 + be16 (slice buf i 10) 8) es) :
    SetList buf listLen i (entryAt buf i :: es)

variable (base : BaseDir) (o : Obj)

/-- The path of the attribute of an entry. -/
def Entry.path (e : Entry) : Text := fileName base o (.attr e.page e.index)

/-- The files after the values of some entries were stored.  A file is not truncated. -/
def stored : List Entry → (Text → Option Bytes) → Text → Option Bytes
  | [], f => f
  | e :: es, f => stored es fun q =>
    if q = e.path base o then some (overwrite ((f q).getD []) 0 e.value) else f q

/-- Only attributes of the object are stored. -/
theorem stored_of_ne (es : List Entry) (f : Text → Option Bytes) {q : Text}
    (hq : ∀ page index, q ≠ fileName base o (.attr page index)) : stored base o es f q = f q := by
  induction es generalizing f with
  | nil => rfl
  | cons e es ih =>
    rw [stored, ih]
    exact if_neg (hq _ _)

theorem setAttribute_returnsIff (page index : UInt32) (value : Bytes) :
    ReturnsIff (setAttribute base o page index value)
      (w.host.Openable (fileName base o (.attr page index)))
      (fun _ w' => (∀ q, w'.host.file q = stored base o [⟨page, index, value⟩] w.host.file q) ∧
        w'.host.dirs = w.host.dirs ∧ w'.acts = w.acts) w := by
  refine ((open_returnsIff _ _).bind fun _ w₁ _ h₁ =>
    (onHost_returnsIff _).mono fun _ w₂ _ h₂ => ?_).congr_left (by rw [and_true])
  obtain ⟨hfile, hothers, hdirs, hacts⟩ := h₁
  subst h₂
  refine ⟨fun q => ?_, hdirs, hacts⟩
  change (w₁.host.put _ _).file q = if q = fileName base o (.attr page index) then _ else _
  by_cases hq : q = fileName base o (.attr page index)
  · subst hq
    rw [file_put_self, if_pos rfl, hfile]
    rfl
  · rw [file_put_of_ne _ _ hq, if_neg hq, hothers q hq]

/-- Whether a path can be opened is not changed by storing an attribute that can be opened. -/
theorem openable_stored {w w' : World} {e : Entry} {p : Text}
    (hfile : ∀ q, w'.host.file q = stored base o [e] w.host.file q)
    (hdirs : w'.host.dirs = w.host.dirs) (he : w.host.Openable (e.path base o)) :
    w'.host.Openable p ↔ w.host.Openable p := by
  unfold Host.Openable
  rw [hdirs, hfile]
  change p ∉ _ ∧ ((if p = e.path base o then _ else _ : Option Bytes).isSome = true ∨ _) ↔ _
  by_cases hp : p = e.path base o
  · rw [hp, if_pos rfl]
    simpa using fun _ => he.2
  · rw [if_neg hp]

/-- A set list has one sequence of entries. -/
theorem SetList.unique {buf : Option Bytes} {listLen i : Nat} {es es' : List Entry}
    (h : SetList buf listLen i es) (h' : SetList buf listLen i es') : es = es' := by
  induction h generalizing es' with
  | done h =>
    cases h' with
    | done _ => rfl
    | entry h' _ _ _ => omega
  | entry h _ _ _ ih =>
    cases h' with
    | done h' => omega
    | entry _ _ _ rest => rw [ih rest]

/-- What a file holds after storing depends on what it held. -/
theorem stored_congr (es : List Entry) {f f' : Text → Option Bytes} {q : Text} (h : f q = f' q) :
    stored base o es f q = stored base o es f' q := by
  induction es generalizing f f' with
  | nil => exact h
  | cons e es ih => exact ih (by rw [h])

/-- The loop stores the entries that it finds. -/
theorem setAttributes_returnsIff (buf : Option Bytes) (listLen n i : Nat) (hn : listLen ≤ n + i) :
    ReturnsIff (setAttributes base o buf listLen n i)
      (∃ es, SetList buf listLen i es ∧ ∀ e ∈ es, w.host.Openable (e.path base o))
      (fun _ w' => (∃ es, SetList buf listLen i es ∧
          ∀ q, w'.host.file q = stored base o es w.host.file q) ∧
        w'.host.dirs = w.host.dirs ∧ w'.acts = w.acts) w := by
  induction n generalizing i w with
  | zero =>
    exact (ReturnsIff.pure ⟨⟨[], .done (by omega), fun _ => rfl⟩, rfl, rfl⟩).congr_left
      (iff_of_true trivial ⟨[], .done (by omega), by simp⟩)
  | succ n ih =>
    refine (ReturnsIff.ite
      (C := InBuffer buf i 10 ∧ InBuffer buf (i + 10) (be16 (slice buf i 10) 8) ∧
        w.host.Openable ((entryAt buf i).path base o) ∧
        ∃ es, SetList buf listLen (i + 10 + be16 (slice buf i 10) 8) es ∧
          ∀ e ∈ es, w.host.Openable (e.path base o)) (fun hi => ?_) fun hi =>
      ReturnsIff.pure ⟨⟨[], .done (by omega), fun _ => rfl⟩, rfl, rfl⟩).congr_left ?_
    · refine (load_returnsIff buf i 10).bind fun head w₁ hhead h₁ => ?_
      obtain ⟨rfl, rfl⟩ := h₁
      refine (load_returnsIff buf (i + 10) _).bind fun value w₂ hvalue h₂ => ?_
      obtain ⟨rfl, rfl⟩ := h₂
      refine (setAttribute_returnsIff base o _ _ _).bind fun _ w₃ hopen h₃ => ?_
      obtain ⟨hfile, hdirs, hacts⟩ := h₃
      refine (ih (i + 10 + be16 (slice buf i 10) 8) (by omega)).congr ?_ ?_
      · have hop (e : Entry) := openable_stored base o (p := e.path base o) hfile hdirs hopen
        simp only [hop]
      · rintro _ w₄ - ⟨⟨es, hes, hstored⟩, hdirs', hacts'⟩
        refine ⟨⟨_, .entry hi hhead hvalue hes, fun q => ?_⟩, hdirs'.trans hdirs,
          hacts'.trans hacts⟩
        rw [hstored, stored]
        exact congrFun (congrArg _ (funext hfile)) q
    · constructor
      · rintro ⟨hlt, hge⟩
        by_cases hi : i < listLen
        · obtain ⟨hhead, hvalue, hopen, es, hes, hall⟩ := hlt hi
          exact ⟨_, .entry hi hhead hvalue hes, List.forall_mem_cons.mpr ⟨hopen, hall⟩⟩
        · exact ⟨[], .done (by omega), by simp⟩
      · rintro ⟨es, hes, hall⟩
        refine ⟨fun hi => ?_, fun _ => trivial⟩
        cases hes with
        | done h => omega
        | entry _ hhead hvalue rest =>
          obtain ⟨hopen, hall⟩ := List.forall_mem_cons.mp hall
          exact ⟨hhead, hvalue, hopen, _, rest, hall⟩

/-! ## The get list -/

/-- The answer for an attribute: nothing for one that the target does not know. -/
def answer (r : Ran) (f : Text → Option Bytes) (page index : UInt32) : Option Bytes :=
  if page = pageGroup then
    if index = 1 then some (attrHead page index 4 ++ word32 r.groupID) else none
  else if page = pageIds then
    if index = 1 then some (attrHead page index 4 ++ word32 r.groupID)
    else if index = 2 then some (attrHead page index 8 ++ word64 r.userID)
    else none
  else if page = pageInode then
    if index = 1 then
      match f (fileName base r.obj (.attr page index)) with
      | some b =>
        if inodeLen ≤ b.length then some (attrHead page index inodeLen ++ b.take inodeLen) else none
      | none => none
    else none
  else none

/-- The answer for a whole page, where page zero stands for none. -/
def pageAnswer (r : Ran) (f : Text → Option Bytes) (page : UInt32) : Option Bytes :=
  if page = 0 then some [] else answer base r f page (if page = pageIds then 2 else 1)

/-- The walk over a get list from `i` on stays in the buffer and gives these answers. -/
inductive Answers (r : Ran) (f : Text → Option Bytes) (buf : Option Bytes) (off listLen : Nat) :
    Nat → Bytes → Prop where
  | done {i : Nat} (h : listLen ≤ i) : Answers r f buf off listLen i []
  | item {i : Nat} {b bs : Bytes} (h : i < listLen) (load : InBuffer buf (off + i) 8)
    (known : b ∈ answer base r f (be32 (slice buf (off + i) 8) 0) (be32 (slice buf (off + i) 8) 4))
    (rest : Answers r f buf off listLen (i + 8) bs) : Answers r f buf off listLen i (b ++ bs)

@[simp] theorem length_attrHead (page index : UInt32) (len : Nat) :
    (attrHead page index len).length = 10 := by
  simp [attrHead]

@[simp] theorem length_word32 (x : UInt32) : (word32 x).length = 4 := by
  simp [word32]

@[simp] theorem length_word64 (x : UInt64) : (word64 x).length = 8 := by
  simp [word64, put64]

section Get

variable {base} (r : Ran) (alloc : Nat)

/-- What a stage that answers returns: the answer behind what was there. -/
def AnswersWith (x : Exec Bytes) (ans : Option Bytes) (out : Bytes) (w : World) : Prop :=
  ReturnsIff x (∃ b ∈ ans, out.length + b.length ≤ alloc)
    (fun out' w' => (∃ b ∈ ans, out' = out ++ b) ∧ w = w') w

variable {alloc}

theorem emit_answers (out b : Bytes) : AnswersWith alloc (emit alloc out b) (some b) out w :=
  (emit_returnsIff alloc out b).congr (by simp) fun _ _ _ h => ⟨⟨b, rfl, h.1⟩, h.2⟩

theorem halt_answers (out : Bytes) : AnswersWith alloc (halt .exit) none out w :=
  (ReturnsIff.halt _).congr_left (by simp)

/-- A test on what is asked for. -/
theorem AnswersWith.ite {c : Prop} [Decidable c] {x y : Exec Bytes} {p q : Option Bytes}
    {out : Bytes} (hx : AnswersWith alloc x p out w) (hy : AnswersWith alloc y q out w) :
    AnswersWith alloc (if c then x else y) (if c then p else q) out w := by
  split
  · exact hx
  · exact hy

/-- The vendor specific attribute takes the first bytes of a file that is long enough. -/
theorem emitInode_answers (page index : UInt32) (out : Bytes) :
    AnswersWith alloc (emitInode base r.obj page index alloc out)
      (match w.host.file (fileName base r.obj (.attr page index)) with
      | some b =>
        if inodeLen ≤ b.length then some (attrHead page index inodeLen ++ b.take inodeLen) else none
      | none => none) out w := by
  have hhead := emit_returnsIff (w := w) alloc out (attrHead page index inodeLen)
  cases hb : w.host.file (fileName base r.obj (.attr page index)) with
  | none =>
    refine (hhead.bind fun out' w' _ h => ?_).congr_left (C := _ ∧ False) (by simp)
    obtain ⟨rfl, rfl⟩ := h
    refine (returnsIff_gets (Q := fun h w' => h = w.host ∧ w = w') ⟨rfl, rfl⟩).bind_of_true ?_
    rintro _ _ ⟨rfl, rfl⟩
    rw [hb]
    exact ReturnsIff.halt _
  | some b =>
    refine (hhead.bind
      (D := out.length + 10 + (b.take inodeLen).length ≤ alloc ∧ inodeLen ≤ b.length)
      (Q := fun out' w' => out' = out ++ (attrHead page index inodeLen ++ b.take inodeLen) ∧ w = w')
      fun out' w' _ h => ?_).congr ?_ ?_
    · obtain ⟨rfl, rfl⟩ := h
      refine (returnsIff_gets (Q := fun h w' => h = w.host ∧ w = w') ⟨rfl, rfl⟩).bind_of_true ?_
      rintro _ _ ⟨rfl, rfl⟩
      rw [hb]
      refine ((emit_returnsIff _ _ _).bind fun out'' w' _ h =>
        ReturnsIff.ite_halt (C := True) fun _ => ReturnsIff.pure ?_).congr_left ?_
      · obtain ⟨rfl, rfl⟩ := h
        exact ⟨List.append_assoc _ _ _, rfl⟩
      · simp
    · by_cases hlen : inodeLen ≤ b.length
      · simp [hlen]
        omega
      · simp [hlen]
    · rintro out' w' ⟨-, -, hlen⟩ ⟨rfl, rfl⟩
      exact ⟨⟨_, if_pos hlen, rfl⟩, rfl⟩

/-- One round of the loop for the get list. -/
theorem getAttribute_answers (page index : UInt32) (out : Bytes) :
    AnswersWith alloc (getAttribute base r page index alloc out)
      (answer base r w.host.file page index) out w :=
  .ite (.ite (emit_answers _ _) (halt_answers _)) <|
    .ite (.ite (emit_answers _ _) (.ite (emit_answers _ _) (halt_answers _))) <|
      .ite (.ite (emitInode_answers r page index out) (halt_answers _)) (halt_answers _)

/-- A whole page. -/
theorem getPage_answers (page : UInt32) {out : Bytes} (hout : out.length ≤ alloc) :
    AnswersWith alloc (getPage base r page alloc out)
    (pageAnswer base r w.host.file page) out w := by
  refine .ite ?_ ?_
  · exact (ReturnsIff.pure ⟨⟨[], rfl, (List.append_nil _).symm⟩, rfl⟩).congr_left
      (by simpa using hout)
  · by_cases hids : page = pageIds
    · subst hids
      exact emit_answers _ _
    · rw [if_neg hids, answer, if_neg hids, if_neg hids]
      exact .ite (emit_answers _ _) (.ite (emitInode_answers r page 1 out) (halt_answers _))

/-- The loop for the get list. -/
theorem getAttributeList_returnsIff (buf : Option Bytes) (off listLen n i : Nat) (out : Bytes)
    (hn : listLen ≤ n + i) (hout : out.length ≤ alloc) :
    ReturnsIff (getAttributeList base r buf off listLen alloc n i out)
      (∃ bs, Answers base r w.host.file buf off listLen i bs ∧ out.length + bs.length ≤ alloc)
      (fun out' w' => (∃ bs, Answers base r w.host.file buf off listLen i bs ∧ out' = out ++ bs) ∧
        w = w') w := by
  have hdone (h : listLen ≤ i) :
      ReturnsIff (pure out : Exec Bytes)
        (∃ bs, Answers base r w.host.file buf off listLen i bs ∧ out.length + bs.length ≤ alloc)
        (fun out' w' => (∃ bs, Answers base r w.host.file buf off listLen i bs ∧ out' = out ++ bs) ∧
          w = w') w :=
    (ReturnsIff.pure ⟨⟨[], .done h, (List.append_nil _).symm⟩, rfl⟩).congr_left
      (iff_of_true trivial ⟨[], .done h, hout⟩)
  induction n generalizing i out with
  | zero => exact hdone (by omega)
  | succ n ih =>
    rw [getAttributeList]
    by_cases hi : i < listLen
    · rw [if_pos hi]
      refine ((load_returnsIff buf (off + i) 8).bind
        (D := ∃ b ∈ answer base r w.host.file (be32 (slice buf (off + i) 8) 0)
            (be32 (slice buf (off + i) 8) 4), ∃ bs,
          Answers base r w.host.file buf off listLen (i + 8) bs ∧
            out.length + b.length + bs.length ≤ alloc)
        fun entry w₁ hload h₁ => ?_).congr_left ?_
      · obtain ⟨rfl, rfl⟩ := h₁
        refine ((getAttribute_answers r _ _ out).bind fun out' w₂ hfits h₂ => ?_).congr_left
          (and_iff_right_of_imp ?_)
        · obtain ⟨⟨b, hb, rfl⟩, rfl⟩ := h₂
          obtain ⟨b', hb', hfits⟩ := hfits
          obtain rfl := Option.mem_unique hb hb'
          refine (ih (i + 8) (out ++ b) (by omega) (by simpa using hfits) ?_).congr ?_ ?_
          · intro h
            exact (ReturnsIff.pure ⟨⟨[], .done h, (List.append_nil _).symm⟩, rfl⟩).congr_left
              (iff_of_true trivial ⟨[], .done h, by simpa using hfits⟩)
          · constructor
            · rintro ⟨bs, hbs, hlen⟩
              exact ⟨b, hb, bs, hbs, by simpa using hlen⟩
            · rintro ⟨b', hb', bs, hbs, hlen⟩
              obtain rfl := Option.mem_unique hb hb'
              exact ⟨bs, hbs, by simpa using hlen⟩
          · rintro out' w' - ⟨⟨bs, hbs, rfl⟩, hw⟩
            exact ⟨⟨b ++ bs, .item hi hload hb hbs, List.append_assoc _ _ _⟩, hw⟩
        · rintro ⟨b, hb, bs, -, hlen⟩
          exact ⟨b, hb, by omega⟩
      · constructor
        · rintro ⟨hload, b, hb, bs, hbs, hlen⟩
          refine ⟨b ++ bs, .item hi hload hb hbs, ?_⟩
          rw [List.length_append]
          omega
        · rintro ⟨bs, hbs, hlen⟩
          cases hbs with
          | done h => omega
          | item _ hload hb rest =>
            rw [List.length_append] at hlen
            exact ⟨hload, _, hb, _, rest, by omega⟩
    · rw [if_neg hi]
      exact hdone (by omega)

/-- A get list has one sequence of answers. -/
theorem Answers.unique {f : Text → Option Bytes} {buf : Option Bytes} {off listLen i : Nat}
    {bs bs' : Bytes} (h : Answers base r f buf off listLen i bs)
    (h' : Answers base r f buf off listLen i bs') : bs = bs' := by
  induction h generalizing bs' with
  | done h =>
    cases h' with
    | done _ => rfl
    | item h' _ _ _ => omega
  | item h _ hb _ ih =>
    cases h' with
    | done h' => omega
    | item _ _ hb' rest =>
      obtain rfl := Option.mem_unique hb hb'
      rw [ih rest]

/-- An answer has a header. -/
theorem answer_ne_nil (f : Text → Option Bytes) (page index : UInt32) :
    ∀ b ∈ answer base r f page index, b ≠ [] := by
  have hsome (page index : UInt32) (n : Nat) (v : Bytes) :
      ∀ b ∈ some (attrHead page index n ++ v), b ≠ [] := by
    rintro _ h rfl
    have := congrArg List.length (Option.mem_some_iff.mp h)
    simp at this
  have hnone : ∀ b ∈ (none : Option Bytes), b ≠ [] := nofun
  have hite {c : Prop} [Decidable c] {p q : Option Bytes} (hp : ∀ b ∈ p, b ≠ [])
      (hq : ∀ b ∈ q, b ≠ []) : ∀ b ∈ (if c then p else q), b ≠ [] := by
    split
    · exact hp
    · exact hq
  refine hite (hite (hsome _ _ _ _) hnone) (hite (hite (hsome _ _ _ _)
    (hite (hsome _ _ _ _) hnone)) (hite (hite ?_ hnone) hnone))
  cases f (fileName base r.obj (.attr page index)) with
  | none => exact hnone
  | some b => exact hite (hsome _ _ _ _) hnone

/-- There are answers just when something is asked for. -/
theorem answers_ne_nil_iff {f : Text → Option Bytes} {buf : Option Bytes} {off : Nat}
    {listLen page : UInt32} {bs p : Bytes} (hbs : Answers base r f buf off listLen.toNat 0 bs)
    (hp : p ∈ pageAnswer base r f page) : bs ++ p ≠ [] ↔ listLen ≠ 0 ∨ page ≠ 0 := by
  have hlist : bs ≠ [] ↔ listLen ≠ 0 := by
    cases hbs with
    | done h =>
      have h0 : listLen = 0 := UInt32.toNat_inj.mp (Nat.le_zero.mp h)
      simp [h0]
    | item h _ hb _ =>
      refine iff_of_true (by simp [answer_ne_nil r _ _ _ _ hb]) ?_
      rintro rfl
      exact absurd h (Nat.lt_irrefl 0)
  have hpage : p ≠ [] ↔ page ≠ 0 := by
    unfold pageAnswer at hp
    by_cases h0 : page = 0
    · rw [if_pos h0] at hp
      obtain rfl := Option.mem_some_iff.mp hp
      simp [h0]
    · rw [if_neg h0] at hp
      exact iff_of_true (answer_ne_nil r _ _ _ _ hp) h0
  rw [← hlist, ← hpage, ne_eq, List.append_eq_nil_iff, not_and_or]

section Nominal

variable {r} {r' : Ran} {f f' : Text → Option Bytes}

/-- Two answers of the same length, or none at all. -/
def SameLength (x y : Option Bytes) : Prop := ∀ b ∈ x, ∃ b' ∈ y, b'.length = b.length

/-- Which attributes are answered, and at what length, depends on the object and on its vendor
specific attribute only. -/
theorem answer_sameLength (ho : r.obj = r'.obj)
    (hf : f (fileName base r.obj (.attr pageInode 1)) =
      f' (fileName base r.obj (.attr pageInode 1)))
    (page index : UInt32) :
    SameLength (answer base r f page index) (answer base r' f' page index) := by
  have hsome {b b' : Bytes} (h : b'.length = b.length) : SameLength (some b) (some b') := by
    rintro _ h'
    obtain rfl := Option.mem_some_iff.mp h'
    exact ⟨b', rfl, h⟩
  have hnone {y : Option Bytes} : SameLength none y := nofun
  have hite {c : Prop} [Decidable c] {x x' y y' : Option Bytes} (h : c → SameLength x x')
      (h' : ¬c → SameLength y y') : SameLength (if c then x else y) (if c then x' else y') := by
    by_cases hc : c
    · rw [if_pos hc, if_pos hc]
      exact h hc
    · rw [if_neg hc, if_neg hc]
      exact h' hc
  refine hite (fun _ => hite (fun _ => hsome (by simp)) fun _ => hnone) fun _ =>
    hite (fun _ => hite (fun _ => hsome (by simp)) fun _ =>
      hite (fun _ => hsome (by simp)) fun _ => hnone) fun _ =>
    hite (fun hp => hite (fun hi => ?_) fun _ => hnone) fun _ => hnone
  subst hp hi
  rw [← ho, hf]
  exact fun b h => ⟨b, h, rfl⟩

/-- So does the length of the answers for a list. -/
theorem Answers.sameLength {buf : Option Bytes} {off listLen i : Nat} {bs : Bytes}
    (h : Answers base r f buf off listLen i bs)
    (ha : ∀ page index, SameLength (answer base r f page index) (answer base r' f' page index)) :
    ∃ bs', Answers base r' f' buf off listLen i bs' ∧ bs'.length = bs.length := by
  induction h with
  | done h => exact ⟨[], .done h, rfl⟩
  | item h load hb _ ih =>
    obtain ⟨b', hb', hlen⟩ := ha _ _ _ hb
    obtain ⟨bs', hbs', hlen'⟩ := ih
    exact ⟨b' ++ bs', .item h load hb' hbs', by simp [hlen, hlen']⟩

end Nominal

variable (base) in
/-- What the attributes to get need: the answers fill what was allocated for them. -/
def GetOk (r : Ran) (f : Text → Option Bytes) (a : OsdArgs) (buf : Option Bytes) : Prop :=
  ∃ bs, Answers base r f buf a.setAttributesListLength.toNat a.getAttributesListLength.toNat 0 bs ∧
    ∃ p ∈ pageAnswer base r f a.getAttributesPage, bs ++ p ≠ [] →
      (bs ++ p).length = a.getAttributesAllocationLength.toNat ∧
        a.getAttributesAllocationLength.toNat < 2147483648

/-- The attributes to get do not depend on the ids that are returned. -/
theorem GetOk.of_obj {r r' : Ran} {f f' : Text → Option Bytes} {a : OsdArgs} {buf : Option Bytes}
    (h : GetOk base r f a buf) (ho : r.obj = r'.obj)
    (hf : f (fileName base r.obj (.attr pageInode 1)) =
      f' (fileName base r.obj (.attr pageInode 1))) : GetOk base r' f' a buf := by
  have ha := answer_sameLength ho hf
  obtain ⟨bs, hbs, p, hp, hlen⟩ := h
  obtain ⟨bs', hbs', hl⟩ := hbs.sameLength ha
  have hpage : SameLength (pageAnswer base r f a.getAttributesPage)
      (pageAnswer base r' f' a.getAttributesPage) := by
    unfold pageAnswer
    split
    · exact fun b h => ⟨b, h, rfl⟩
    · exact ha _ _
  obtain ⟨p', hp', hl'⟩ := hpage p hp
  have happ : (bs' ++ p').length = (bs ++ p).length := by
    rw [List.length_append, List.length_append, hl, hl']
  refine ⟨bs', hbs', p', hp', fun hne => ?_⟩
  rw [happ]
  refine hlen fun hnil => hne ?_
  rw [hnil] at happ
  exact List.length_eq_zero_iff.mp happ

variable (base) in
/-- What is returned for the attributes to get: all that was allocated, if anything. -/
def Got (r : Ran) (f : Text → Option Bytes) (a : OsdArgs) (buf : Option Bytes)
    (attrs : Option Bytes) : Prop :=
  ∃ bs, Answers base r f buf a.setAttributesListLength.toNat a.getAttributesListLength.toNat 0 bs ∧
    ∃ p ∈ pageAnswer base r f a.getAttributesPage,
      attrs = (if bs ++ p = [] then none else some (bs ++ p)) ∧
        (bs ++ p ≠ [] → (bs ++ p).length = a.getAttributesAllocationLength.toNat)

theorem getAttributes_returnsIff (a : OsdArgs) (buf : Option Bytes) :
    ReturnsIff (getAttributes base r a buf) (GetOk base r w.host.file a buf)
      (fun attrs w' => Got base r w.host.file a buf attrs ∧ w = w') w := by
  refine (ReturnsIff.ite_halt fun _ =>
    (getAttributeList_returnsIff r buf _ _ _ 0 [] (Nat.le_refl _) (Nat.zero_le _)).bind
      (D := ∃ bs, Answers base r w.host.file buf a.setAttributesListLength.toNat
        a.getAttributesListLength.toNat 0 bs ∧ ∃ p ∈ pageAnswer base r w.host.file
        a.getAttributesPage, bs.length + p.length ≤ a.getAttributesAllocationLength.toNat ∧
          (bs ++ p ≠ [] → (bs ++ p).length = a.getAttributesAllocationLength.toNat))
      fun bs w₁ hfits h₁ => ?_).congr_left ?_
  · obtain ⟨⟨_, hbs, rfl⟩, rfl⟩ := h₁
    obtain ⟨bs', hbs', hfits⟩ := hfits
    rw [hbs'.unique r hbs] at hfits
    refine ((getPage_answers r _ (by simpa using hfits)).bind
      (D := ∃ p ∈ pageAnswer base r w.host.file a.getAttributesPage,
        bs ++ p ≠ [] → (bs ++ p).length = a.getAttributesAllocationLength.toNat)
      fun out w₂ hfits h₂ => ?_).congr_left ?_
    · obtain ⟨⟨p, hp, rfl⟩, rfl⟩ := h₂
      refine (ReturnsIff.ite (D := (bs ++ p).length = a.getAttributesAllocationLength.toNat)
        (fun h => ReturnsIff.pure ⟨⟨bs, hbs, p, hp, (if_pos h).symm, absurd h⟩, rfl⟩) fun h =>
        (ReturnsIff.ite_halt fun hlen => ReturnsIff.pure
          ⟨⟨bs, hbs, p, hp, (if_neg h).symm, fun _ => not_not.mp hlen⟩, rfl⟩).congr_left
          (by simp)).congr_left ?_
      constructor
      · rintro ⟨-, h⟩
        exact ⟨p, hp, h⟩
      · rintro ⟨p', hp', h⟩
        obtain rfl := Option.mem_unique hp hp'
        exact ⟨fun _ => trivial, h⟩
    · constructor
      · rintro ⟨⟨p, hp, hlen⟩, p', hp', h⟩
        obtain rfl := Option.mem_unique hp hp'
        exact ⟨bs, hbs, p, hp, by simpa using hlen, h⟩
      · rintro ⟨bs', hbs', p, hp, hlen, h⟩
        rw [hbs'.unique r hbs] at hlen h
        exact ⟨⟨p, hp, by simpa using hlen⟩, p, hp, h⟩
  · constructor
    · rintro ⟨hmalloc, -, bs, hbs, p, hp, hlen, h⟩
      refine ⟨bs, hbs, p, hp, fun hne => ⟨h hne, ?_⟩⟩
      have hasked := (answers_ne_nil_iff r hbs hp).mp hne
      simpa [hasked] using hmalloc
    · rintro ⟨bs, hbs, p, hp, h⟩
      have hlen : bs.length + p.length ≤ a.getAttributesAllocationLength.toNat := by
        by_cases hne : bs ++ p = []
        · obtain ⟨rfl, rfl⟩ := List.append_eq_nil_iff.mp hne
          exact Nat.zero_le _
        · rw [← List.length_append, (h hne).1]
      refine ⟨?_, ⟨bs, hbs, ?_⟩, bs, hbs, p, hp, hlen, fun hne => (h hne).1⟩
      · intro hmalloc
        rw [Bool.and_eq_true, decide_eq_true_iff] at hmalloc
        have hne := (answers_ne_nil_iff r hbs hp).mpr (by simpa using hmalloc.1)
        have := (h hne).2
        omega
      · simp
        omega

/-- The answer when only a page is asked for. -/
theorem Got.of_page {f : Text → Option Bytes} {a : OsdArgs} {buf attrs : Option Bytes}
    (h : Got base r f a buf attrs) (hlist : a.getAttributesListLength = 0)
    (hpage : a.getAttributesPage ≠ 0) :
    (∃ b ∈ attrs, b.length = a.getAttributesAllocationLength.toNat) ∧
      attrs = answer base r f a.getAttributesPage
        (if a.getAttributesPage = pageIds then 2 else 1) := by
  obtain ⟨bs, hbs, p, hp, rfl, hlen⟩ := h
  rw [pageAnswer, if_neg hpage] at hp
  rw [hlist] at hbs
  cases hbs with
  | item h => exact absurd h (Nat.not_lt_zero _)
  | done _ =>
    have hne := answer_ne_nil r _ _ _ _ hp
    rw [List.nil_append] at hlen ⊢
    rw [if_neg hne]
    exact ⟨⟨p, rfl, hlen hne⟩, hp.symm⟩

/-- The answer when only one attribute is asked for. -/
theorem Got.of_single {f : Text → Option Bytes} {a : OsdArgs} {buf attrs : Option Bytes}
    (h : Got base r f a buf attrs) (hlist : a.getAttributesListLength = 8)
    (hpage : a.getAttributesPage = 0) :
    (∃ b ∈ attrs, b.length = a.getAttributesAllocationLength.toNat) ∧
      attrs = answer base r f (be32 (slice buf a.setAttributesListLength.toNat 8) 0)
        (be32 (slice buf a.setAttributesListLength.toNat 8) 4) := by
  obtain ⟨bs, hbs, p, hp, rfl, hlen⟩ := h
  rw [pageAnswer, if_pos hpage] at hp
  obtain rfl := Option.some.inj hp
  rw [hlist] at hbs
  cases hbs with
  | done h => exact absurd h (by decide)
  | item _ _ hb rest =>
    cases rest with
    | item h => exact absurd h (by decide)
    | done _ =>
      have hne := answer_ne_nil r _ _ _ _ hb
      rw [List.append_nil, List.append_nil] at hlen ⊢
      rw [if_neg hne]
      exact ⟨⟨_, rfl, hlen hne⟩, hb.symm⟩

end Get

end Ost.Osd
