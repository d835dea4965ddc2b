import Ost.Osd.Execution
import Ost.Prog.Run

/-!
# Objects are kept apart

What an object should hold follows from what was done to it: for each byte, what the latest write
since its creation put there, and zero where there is none.  `content` says so for a record of what
was done.  In every run whose removals match no file of another object, and whose random ids are
free, a read returns just that, a removal deletes one object, and a creation changes none.

A printed id may begin another one, `0x1` begins `0x10`, and the pattern of `OSD_REMOVE` then
matches both.  `OSD_CREATE` opens a file that is there and truncates it.
-/

namespace Ost.Osd

open Ost.Iscsi Ost.Util Ost.Prog

/-- A byte of an object after what was done, the latest first. -/
def content (start : Obj → Nat → UInt8) : List Act → Obj → Nat → UInt8
  | [], o, i => start o i
  | .created o' :: past, o, i => if o = o' then 0 else content start past o i
  | .removed o' :: past, o, i => if o = o' then 0 else content start past o i
  | .wrote o' off b :: past, o, i =>
    if o = o' ∧ off ≤ i ∧ i < off + b.length then byte b (i - off) else content start past o i

variable (env : Env)

/-- A byte of the file of an object. -/
def World.byteOf (w : World) (o : Obj) (i : Nat) : UInt8 :=
  byte (w.contents (fileName env.baseDir o .data)) i

/-- The device when it starts. -/
def started (h : Host) (rand : List Nat) : World := ⟨h, rand, [], []⟩

/-- A file that belongs to an object. -/
def World.has (w : World) (o : Obj) (x : Item) : Prop :=
  (w.host.file (fileName env.baseDir o x)).isSome = true

/-- No other object that has a file is hit by the removal of `o`. -/
def Sole (w : World) (o : Obj) : Prop := ∀ o' x, w.has env o' x → Shadows o o' → o' = o

/-- A removal hits no other object, and the id drawn for a new object is free.  A removal that sets
attributes would leave them behind. -/
def Separate (w : World) (c : Command) : Prop :=
  ∀ ext ∈ c.extCdb, let a := osdDecapCdb c.cdb ext
    (a.serviceAction = osdRemove →
      a.setAttributesListLength = 0 ∧ Sole env w (a.obj c.lun)) ∧
    (a.serviceAction = osdCreate → a.userID = 0 →
      ∀ r ∈ w.rand.head?, ¬w.has env ⟨c.lun, a.groupID, UInt64.ofNat (randId r)⟩ .data)

/-- The command was executed with these arguments, and answered with good status. -/
def Completed (c : Command) (a : OsdArgs) (w w' : World) (d : Completion) : Prop :=
  (∃ ext ∈ c.extCdb, a = osdDecapCdb c.cdb ext) ∧ d.status = 0 ∧ w'.done = w.done ++ [d]

/-- What a command does to the objects, when they held `start` in the beginning. -/
structure Isolated (start : Obj → Nat → UInt8) (c : Command) (a : OsdArgs) (w w' : World)
    (d : Completion) : Prop where
  read : a.serviceAction = osdRead → ∃ b rest, d.gather = b :: rest ∧ b.length = a.length.toNat ∧
    ∀ k < b.length, byte b k = content start w.acts (a.obj c.lun) (a.offset.toNat + k)
  remove : a.serviceAction = osdRemove → (∀ x, ¬w'.has env (a.obj c.lun) x) ∧
    ∀ o ≠ a.obj c.lun, ∀ x, w'.host.file (fileName env.baseDir o x) =
      w.host.file (fileName env.baseDir o x)
  create : a.serviceAction = osdCreate → a.userID = 0 → ∃ user,
    w'.acts = .created ⟨c.lun, a.groupID, user⟩ :: w.acts ∧
    ¬w.has env ⟨c.lun, a.groupID, user⟩ .data ∧ w'.has env ⟨c.lun, a.groupID, user⟩ .data ∧
    (a.getAttributesListLength = 0 → a.getAttributesPage = pageIds →
      d.gather = [attrHead pageIds 2 8 ++ word64 user]) ∧
    ∀ o, w.has env o .data → ∀ x, w'.host.file (fileName env.baseDir o x) =
      w.host.file (fileName env.baseDir o x)

/-- The files hold what was written. -/
def Faithful (start : Obj → Nat → UInt8) (w : World) : Prop :=
  ∀ o i, w.byteOf env o i = content start w.acts o i

section Steps

variable {env} {start : Obj → Nat → UInt8} {lun : UInt64} {c : Command} {a : OsdArgs} {w w' : World}
  {r : Ran} {d : Completion}

/-- A removal that hits no other object leaves the files of every other one as they are. -/
theorem file_of_removed {o o' : Obj}
    (file : ∀ q, w'.host.file q =
      if globMatch (removePattern env.baseDir o) q then none else w.host.file q)
    (hsole : Sole env w o) (hne : o' ≠ o) (x : Item) :
    w'.host.file (fileName env.baseDir o' x) = w.host.file (fileName env.baseDir o' x) := by
  rw [file]
  split
  · rename_i hmatch
    by_contra hfile
    have hhas : w.has env o' x := Option.isSome_iff_ne_none.mpr (Ne.symm hfile)
    exact hne (hsole o' x hhas (shadows_of_matches hmatch))
  · rfl

theorem byteOf_congr {o : Obj} {i : Nat} (h : w'.host.file (fileName env.baseDir o .data) =
    w.host.file (fileName env.baseDir o .data)) : w'.byteOf env o i = w.byteOf env o i := by
  rw [World.byteOf, World.contents, h]
  rfl

theorem byteOf_of_some {o : Obj} {i : Nat} {b : Bytes}
    (h : w.host.file (fileName env.baseDir o .data) = some b) : w.byteOf env o i = byte b i := by
  rw [World.byteOf, World.contents, h]
  rfl

/-- A change of the data of one object. -/
theorem byteOf_of_others {o o' : Obj} {i : Nat}
    (others : AllBut (fileName env.baseDir o .data) w w') (hne : o' ≠ o) :
    w'.byteOf env o' i = w.byteOf env o' i :=
  byteOf_congr (others _ (fileName_ne hne))

/-- A service action keeps the files faithful. -/
theorem Acted.faithful (h : Acted env.baseDir c.lun a w r w')
    (hsole : a.serviceAction = osdRemove → Sole env w (a.obj c.lun))
    (hw : Faithful env start w) : Faithful env start w' := by
  intro o i
  have hw := hw o i
  cases h with
  | grouped _ _ _ _ _ files acts | ungrouped _ _ _ files acts =>
    rw [acts, ← hw]
    exact byteOf_congr (by rw [Host.file, files, ← Host.file])
  | created user _ _ _ _ file others acts =>
    rw [acts, content]
    by_cases ho : o = ⟨c.lun, a.groupID, user⟩
    · rw [if_pos ho, ho, byteOf_of_some file]
      rfl
    · rw [if_neg ho, ← hw, byteOf_of_others others ho]
  | removed _ action _ file acts =>
    rw [acts, content]
    by_cases ho : o = a.obj c.lun
    · rw [if_pos ho, ho, World.byteOf, World.contents, file, if_pos (removePattern_own _ _)]
      rfl
    · rw [if_neg ho, ← hw]
      exact byteOf_congr (file_of_removed file (hsole action) ho .data)
  | wrote b _ _ _ file others acts =>
    rw [acts, content]
    by_cases ho : o = a.obj c.lun
    · subst ho
      rw [byteOf_of_some file, byte_overwrite, ← hw]
      simp only [true_and]
      rfl
    · rw [if_neg (fun h => ho h.1), ← hw, byteOf_of_others others ho]
  | read b _ _ _ file _ _ others acts =>
    rw [acts, ← hw]
    by_cases ho : o = a.obj c.lun
    · subst ho
      rw [byteOf_of_some file]
      rfl
    · exact byteOf_of_others others ho
  | attributes => exact hw

/-- What `OSD_READ` did. -/
theorem Acted.of_read (h : Acted env.baseDir lun a w r w') (ha : a.serviceAction = osdRead) :
    ∃ b, r.read = some b ∧ b.length = a.length.toNat ∧
      ∀ k < b.length, byte b k = w.byteOf env (a.obj lun) (a.offset.toNat + k) := by
  cases h with
  | read b _ _ _ _ length bytes => exact ⟨b, rfl, length, bytes⟩
  | grouped _ _ action | ungrouped _ action | created _ _ action | removed _ action
  | wrote _ _ action => exact absurd (ha.symm.trans action) (by decide)
  | attributes action =>
    rcases action with action | action <;> exact absurd (ha.symm.trans action) (by decide)

/-- What `OSD_REMOVE` did. -/
theorem Acted.of_remove (h : Acted env.baseDir lun a w r w') (ha : a.serviceAction = osdRemove) :
    ∀ q, w'.host.file q =
      if globMatch (removePattern env.baseDir (a.obj lun)) q then none else w.host.file q := by
  cases h with
  | removed _ _ _ file => exact file
  | grouped _ _ action | ungrouped _ action | created _ _ action | wrote _ _ action
  | read _ _ action => exact absurd (ha.symm.trans action) (by decide)
  | attributes action =>
    rcases action with action | action <;> exact absurd (ha.symm.trans action) (by decide)

/-- What `OSD_CREATE` did. -/
theorem Acted.of_create (h : Acted env.baseDir lun a w r w') (ha : a.serviceAction = osdCreate) :
    Drawn a w.rand r.userID ∧ r.obj = ⟨lun, a.groupID, r.userID⟩ ∧ r.read = none ∧
      w'.host.file (fileName env.baseDir r.obj .data) = some [] ∧
      AllBut (fileName env.baseDir r.obj .data) w w' ∧ w'.acts = .created r.obj :: w.acts := by
  cases h with
  | created _ _ _ drawn _ file others acts => exact ⟨drawn, rfl, rfl, file, others, acts⟩
  | grouped _ _ action | ungrouped _ action | removed _ action | wrote _ _ action
  | read _ _ action => exact absurd (ha.symm.trans action) (by decide)
  | attributes action =>
    rcases action with action | action <;> exact absurd (ha.symm.trans action) (by decide)

/-- The answer when only the page with the ids is asked for. -/
theorem Got.of_ids {f : Text → Option Bytes} {buf attrs : Option Bytes}
    (h : Got env.baseDir r f a buf attrs) (hlist : a.getAttributesListLength = 0)
    (hpage : a.getAttributesPage = pageIds) :
    attrs = some (attrHead pageIds 2 8 ++ word64 r.userID) := by
  have hne : a.getAttributesPage ≠ 0 := hpage ▸ by decide
  rw [(h.of_page r hlist hne).2, hpage]
  rfl

/-- A command that was executed keeps the files faithful. -/
theorem Executed.faithful {buf : Option Bytes}
    (h : Executed env.baseDir c.lun a buf w w' r d)
    (hsole : a.serviceAction = osdRemove → Sole env w (a.obj c.lun))
    (hw : Faithful env start w) : Faithful env start w' := by
  obtain ⟨w₁, hacted, ⟨es, -, hfile⟩, -, hacts⟩ := h.acted
  intro o i
  rw [hacts, ← hacted.faithful hsole hw o i]
  refine byteOf_congr ?_
  rw [hfile, stored_of_ne]
  exact fun page index h => by cases (fileName_inj h).2

/-- A command that was executed keeps the objects apart. -/
theorem Executed.isolated {buf : Option Bytes} (h : Executed env.baseDir c.lun a buf w w' r d)
    (hremove : a.serviceAction = osdRemove →
      a.setAttributesListLength = 0 ∧ Sole env w (a.obj c.lun))
    (hcreate : a.serviceAction = osdCreate → a.userID = 0 →
      ∀ r ∈ w.rand.head?, ¬w.has env ⟨c.lun, a.groupID, UInt64.ofNat (randId r)⟩ .data)
    (hw : Faithful env start w) : Isolated env start c a w w' d := by
  obtain ⟨w₁, hacted, ⟨es, hes, hfile⟩, -, hacts⟩ := h.acted
  obtain ⟨attrs, hgot, hgather⟩ := h.got
  refine ⟨fun ha => ?_, fun ha => ?_, fun ha hzero => ?_⟩
  · obtain ⟨b, hread, hlen, hbytes⟩ := hacted.of_read ha
    rw [hread] at hgather
    refine ⟨b, attrs.toList, hgather, hlen, fun k hk => ?_⟩
    rw [hbytes k hk, hw]
  · obtain ⟨hset, hsole⟩ := hremove ha
    have hremoved := hacted.of_remove ha
    have hsame (q : Text) : w'.host.file q = w₁.host.file q := by
      rw [hset] at hes
      cases hes with
      | done _ => exact hfile q
      | entry h => exact absurd h (Nat.not_lt_zero _)
    refine ⟨fun x hhas => ?_, fun o ho x => ?_⟩
    · rw [World.has, hsame, hremoved, if_pos (removePattern_own _ _)] at hhas
      cases hhas
    · rw [hsame]
      exact file_of_removed hremoved hsole ho x
  · obtain ⟨hdrawn, hobj, hread, hnew, hothers, hcreated⟩ := hacted.of_create ha
    rw [Drawn, if_pos hzero] at hdrawn
    obtain ⟨n, hn, huser⟩ := hdrawn
    have hfree : ¬w.has env ⟨c.lun, a.groupID, r.userID⟩ .data := by
      rw [huser]
      exact hcreate ha hzero n hn
    rw [hread] at hgather
    rw [hobj] at hnew hothers hcreated hfile
    refine ⟨r.userID, hacts.trans hcreated, hfree, ?_, fun hlist hpage => ?_, fun o ho x => ?_⟩
    · rw [World.has, hfile, stored_of_ne, hnew]
      · rfl
      · exact fun page index h => by cases (fileName_inj h).2
    · rw [hgather, hgot.of_ids hlist hpage]
      rfl
    · have hne : o ≠ ⟨c.lun, a.groupID, r.userID⟩ := fun h => hfree (h ▸ ho)
      rw [hfile, stored_of_ne]
      · exact hothers _ (fileName_ne hne)
      · exact fun page index => fileName_ne hne

end Steps

/-- In every run of commands that hit no other object, objects are kept apart: a read returns the
latest writes, a removal deletes one object, and a creation with a random id changes none. -/
theorem objects_isolated (env : Env) (h : Host) (rand : List Nat) {w w' : World} {c : Command}
    {a : OsdArgs} {d : Completion}
    (hrun : Reach (deviceCommand env) (Separate env) (started h rand) w) (hc : Separate env w c)
    (hret : deviceCommand env c w = .ret ⟨⟩ w') (hd : Completed c a w w' d) :
    Isolated env (fun o i => (started h rand).byteOf env o i) c a w w' d := by
  have hfaithful := hrun.invariant (P := Faithful env fun o i => (started h rand).byteOf env o i)
    (fun o i => rfl) fun w c hw hc => by
      refine (deviceCommand_returnsIff env c).toEnsures.mono ?_
      rintro _ w' ⟨-, hserved⟩
      cases hserved with
      | refused _ _ _ host acts =>
        intro o i
        rw [acts, ← hw]
        exact byteOf_congr (by rw [host])
      | unanswered _ _ same => exact same ▸ hw
      | executed ext hext r d exec => exact exec.faithful (fun ha => ((hc ext hext).1 ha).2) hw
  obtain ⟨-, hserved⟩ := (deviceCommand_returnsIff env c).toEnsures.of_ret hret
  obtain ⟨⟨ext, hext, rfl⟩, hstatus, hdone⟩ := hd
  cases hserved with
  | refused _ d' status _ _ done =>
    have hsame : d = d' := by simpa using hdone.symm.trans done
    rw [hsame, status] at hstatus
    exact nomatch hstatus
  | unanswered _ hnone => exact nomatch hnone ▸ hext
  | executed ext' hext' r d' exec =>
    obtain rfl := Option.mem_unique hext hext'
    have hsame : d = d' := by simpa using hdone.symm.trans exec.done
    subst hsame
    exact exec.isolated (hc ext hext).1 (hc ext hext).2 hfaithful

section Runs

/-- A host with a group. -/
def oneGroup : Host := ⟨[groupName .dflt 0 0], []⟩

/-- One LUN. -/
def oneLun : Env := ⟨.dflt, 1⟩

/-- Two bytes for an object. -/
def twoBytes (user : UInt64) : OsdArgs :=
  { clearedArgs osdWrite 0 user with length := 2, offset := 1 }

/-- The device after they were written. -/
def written (user : UInt64) : World :=
  (deviceCommand oneLun (arrived 0 (twoBytes user) [7, 9] 0 rfl (by decide))
    (started oneGroup [])).state

theorem separate_arrived {env : Env} {w : World} {a : OsdArgs} {data : Bytes} {recvLen : Nat}
    (opcode : a.opcode = 0x7f) (short : data.length < 4294967296)
    (hremove : a.serviceAction ≠ osdRemove) (hcreate : a.serviceAction ≠ osdCreate) :
    Separate env w (arrived 0 a data recvLen opcode short) := by
  intro ext hext
  rw [arrived_args 0 a data recvLen opcode short ext hext]
  exact ⟨fun h => absurd h hremove, fun h => absurd h hcreate⟩

/-- Two bytes are written, and three are read. -/
theorem objects_isolated_small : ∃ w w' d,
    Reach (deviceCommand oneLun) (Separate oneLun) (started oneGroup []) w ∧
      d.gather = [[0, 7, 9]] ∧
      Isolated oneLun (fun o i => (started oneGroup []).byteOf oneLun o i)
        (arrived 0 { clearedArgs osdRead 0 5 with length := 3 } [] 3 rfl (by decide))
        { clearedArgs osdRead 0 5 with length := 3 } w w' d := by
  have hwrite : deviceCommand oneLun (arrived 0 (twoBytes 5) [7, 9] 0 rfl (by decide))
      (started oneGroup []) = .ret ⟨⟩ (written 5) := by
    decide +kernel
  have hrun : Reach (deviceCommand oneLun) (Separate oneLun) (started oneGroup []) (written 5) :=
    .tail .refl (separate_arrived rfl (by decide) (by decide) (by decide)) hwrite
  have hread : deviceCommand oneLun
      (arrived 0 { clearedArgs osdRead 0 5 with length := 3 } [] 3 rfl (by decide)) (written 5) =
      .ret ⟨⟩ { written 5 with done := (written 5).done ++ [⟨0, 0, true, [[0, 7, 9]]⟩] } := by
    decide +kernel
  refine ⟨written 5, _, ⟨0, 0, true, [[0, 7, 9]]⟩, hrun, rfl,
    objects_isolated oneLun oneGroup [] hrun
      (separate_arrived rfl (by decide) (by decide) (by decide)) hread ⟨⟨_, rfl, ?_⟩, rfl, rfl⟩⟩
  exact (arrived_args 0 _ [] _ rfl (by decide) _ rfl).symm

/-- The removal of object `0x1` removes object `0x10` as well. -/
theorem objects_not_isolated : ∃ w w' d,
    Reach (deviceCommand oneLun) (fun _ _ => True) (started oneGroup []) w ∧
      deviceCommand oneLun (arrived 0 (clearedArgs osdRemove 0 1) [] 0 rfl (by decide)) w =
        .ret ⟨⟩ w' ∧
      Completed (arrived 0 (clearedArgs osdRemove 0 1) [] 0 rfl (by decide))
        (clearedArgs osdRemove 0 1) w w' d ∧
      ¬Isolated oneLun (fun o i => (started oneGroup []).byteOf oneLun o i)
        (arrived 0 (clearedArgs osdRemove 0 1) [] 0 rfl (by decide)) (clearedArgs osdRemove 0 1)
        w w' d := by
  have hwrite : deviceCommand oneLun (arrived 0 (twoBytes 16) [7, 9] 0 rfl (by decide))
      (started oneGroup []) = .ret ⟨⟩ (written 16) := by
    decide +kernel
  refine ⟨written 16, (deviceCommand oneLun (arrived 0 (clearedArgs osdRemove 0 1) [] 0 rfl
    (by decide)) (written 16)).state, ⟨0, 0, false, []⟩, .tail .refl trivial hwrite,
    by decide +kernel, ⟨⟨_, rfl, ?_⟩, rfl, by decide +kernel⟩, fun h => ?_⟩
  · exact (arrived_args 0 _ [] _ rfl (by decide) _ rfl).symm
  · have hsame := (h.remove rfl).2 ⟨0, 0, 16⟩ (by decide) .data
    revert hsame
    decide +kernel

end Runs

end Ost.Osd
