import Ost.Osd.Attributes

/-!
# When a command is executed

The lemmas for the parts of `exec_upper` put together: the condition on a command and on the
host under which it gets to `command_done`, and what it has done then.
-/

namespace Ost.Osd

open Ost.Iscsi Ost.Util Ost.Prog

variable {w : World} (base : BaseDir) (lun : UInt64) (a : OsdArgs)

/-! ## Behind the service action -/

/-- The `UserID` of `osd_args` behind the service action. -/
def Addressed (rand : List Nat) (user : UInt64) : Prop :=
  if a.serviceAction = osdCreate then Drawn a rand user else user = a.userID

/-- The host behind the service action, as far as the attributes of the object are concerned. -/
def hostBehind (h : Host) : Host :=
  if a.serviceAction = osdCreateGroup then
    if a.groupID ≠ 0 ∧ ¬h.Taken (groupName base lun a.groupID) then
      { h with dirs := groupName base lun a.groupID :: h.dirs }
    else h
  else if a.serviceAction = osdRemoveGroup then
    { h with dirs := h.dirs.filter (· ≠ groupName base lun a.groupID) }
  else if a.serviceAction = osdRemove then h.remove (removePattern base (a.obj lun))
  else h

/-- The name of an attribute is not that of a group. -/
theorem attrName_ne_groupName (o : Obj) (x : Item) (lun : UInt64) (group : UInt32) :
    fileName base o x ≠ groupName base lun group := by
  intro h
  have hslash : Separator '/' := .inl rfl
  rw [fileName_eq] at h
  simp only [groupName, lunName, List.append_assoc, List.cons_append] at h
  have h := List.append_cancel_left (List.cons.inj (List.append_cancel_left h)).2
  obtain ⟨-, h⟩ := append_sep_inj (not_mem_dec _ hslash) (not_mem_dec _ hslash) h
  have hmem : '/' ∈ hex group.toNat := by
    rw [← h]
    simp
  exact not_mem_hex _ hslash hmem

/-- Whether a path can be opened depends on two directories and on the file. -/
theorem openable_congr {h h' : Host} {p : Text} (hp : p ∈ h.dirs ↔ p ∈ h'.dirs)
    (hd : dirname p ∈ h.dirs ↔ dirname p ∈ h'.dirs) (hf : h.file p = h'.file p) :
    h.Openable p ↔ h'.Openable p := by
  unfold Host.Openable
  rw [hp, hd, hf]

/-- What the service action leaves for the attributes of an object of the group. -/
structure Behind (h h' : Host) (o : Obj) : Prop where
  file (page index : UInt32) :
    h.file (fileName base o (.attr page index)) = h'.file (fileName base o (.attr page index))
  openable (page index : UInt32) :
    h.Openable (fileName base o (.attr page index)) ↔
      h'.Openable (fileName base o (.attr page index))

/-- Directories apart from the group and files apart from the attributes do not matter. -/
theorem Behind.of_dirs {h h' : Host} {o : Obj}
    (hfile : ∀ page index,
      h.file (fileName base o (.attr page index)) = h'.file (fileName base o (.attr page index)))
    (hattr : ∀ page index,
      fileName base o (.attr page index) ∈ h.dirs ↔ fileName base o (.attr page index) ∈ h'.dirs)
    (hgroup : groupName base o.lun o.group ∈ h.dirs ↔ groupName base o.lun o.group ∈ h'.dirs) :
    Behind base h h' o where
  file := hfile
  openable page index :=
    openable_congr (hattr page index) (by rw [dirname_fileName]; exact hgroup) (hfile page index)

theorem addressed_of_ne {rand : List Nat} (h : a.serviceAction ≠ osdCreate) :
    Addressed a rand (a.obj lun).user := by
  rw [Addressed, if_neg h]
  rfl

/-- The actions on the data of an object leave the directories and the attributes alone. -/
theorem hostBehind_eq {h : Host} (h₁ : a.serviceAction ≠ osdCreateGroup)
    (h₂ : a.serviceAction ≠ osdRemoveGroup) (h₃ : a.serviceAction ≠ osdRemove) :
    hostBehind base lun a h = h := by
  rw [hostBehind, if_neg h₁, if_neg h₂, if_neg h₃]

/-- So does a change of the data. -/
theorem Behind.of_data {w w' : World} {o o' : Obj} (dirs : w'.host.dirs = w.host.dirs)
    (others : AllBut (fileName base o .data) w w') : Behind base w'.host w.host o' :=
  .of_dirs base (fun _ _ => others _ fun h => nomatch (fileName_inj h).2)
    (fun _ _ => by rw [dirs]) (by rw [dirs])

/-- A service action leaves what `hostBehind` says. -/
theorem Acted.behind {r : Ran} {w' : World} (h : Acted base lun a w r w') :
    r.obj = ⟨lun, a.groupID, r.obj.user⟩ ∧ Addressed a w.rand r.obj.user ∧
      Behind base w'.host (hostBehind base lun a w.host) r.obj := by
  have hfile {h₁ h₂ : Host} (hfiles : h₁.files = h₂.files) (q : Text) : h₁.file q = h₂.file q := by
    rw [Host.file, hfiles, ← Host.file]
  cases h with
  | grouped g _ action asked dirs files acts =>
    refine ⟨rfl, addressed_of_ne lun a (by rw [action]; decide), ?_⟩
    rw [hostBehind, if_pos action]
    by_cases hzero : a.groupID = 0
    · -- the new group is another one
      rw [if_pos hzero] at asked
      rw [if_neg (fun h => h.1 hzero)]
      rcases dirs with ⟨-, dirs⟩ | ⟨hne, -⟩
      · refine .of_dirs base (fun _ _ => hfile files _) (fun _ _ => ?_) ?_
        · rw [dirs, List.mem_cons, or_iff_right (attrName_ne_groupName _ _ _ _ _)]
        · rw [dirs, List.mem_cons, or_iff_right]
          intro h
          refine asked (Eq.trans ?_ hzero)
          exact (groupName_inj h).2.symm
      · exact absurd hzero hne
    · rw [if_neg hzero] at asked
      subst asked
      rcases dirs with ⟨hfree, dirs⟩ | ⟨-, htaken, dirs⟩
      · rw [if_pos ⟨hzero, hfree⟩]
        exact .of_dirs base (fun _ _ => hfile files _) (fun _ _ => by rw [dirs]) (by rw [dirs])
      · rw [if_neg (fun h => h.2 htaken)]
        exact .of_dirs base (fun _ _ => hfile files _) (fun _ _ => by rw [dirs]) (by rw [dirs])
  | ungrouped _ action dirs files acts =>
    refine ⟨rfl, addressed_of_ne lun a (by rw [action]; decide), ?_⟩
    rw [hostBehind, if_neg (by rw [action]; decide), if_pos action]
    exact .of_dirs base (fun _ _ => hfile files _) (fun _ _ => by rw [dirs]) (by rw [dirs])
  | created user _ action drawn dirs file others acts =>
    refine ⟨rfl, ?_, ?_⟩
    · rw [Addressed, if_pos action]
      exact drawn
    · rw [hostBehind_eq] <;> try (rw [action]; decide)
      exact .of_data base dirs others
  | removed _ action dirs file acts =>
    refine ⟨rfl, addressed_of_ne lun a (by rw [action]; decide), ?_⟩
    rw [hostBehind, if_neg (by rw [action]; decide), if_neg (by rw [action]; decide), if_pos action]
    exact .of_dirs base (fun _ _ => by rw [file, file_remove]) (fun _ _ => by rw [dirs]; rfl)
      (by rw [dirs]; rfl)
  | wrote b _ action dirs file others acts =>
    refine ⟨rfl, addressed_of_ne lun a (by rw [action]; decide), ?_⟩
    rw [hostBehind_eq] <;> try (rw [action]; decide)
    exact .of_data base dirs others
  | read b _ action dirs file length bytes others acts =>
    refine ⟨rfl, addressed_of_ne lun a (by rw [action]; decide), ?_⟩
    rw [hostBehind_eq] <;> try (rw [action]; decide)
    exact .of_data base dirs others
  | attributes action =>
    refine ⟨rfl, addressed_of_ne lun a ?_, ?_⟩
    · rcases action with h | h <;> rw [h] <;> decide
    · rw [hostBehind_eq]
      · exact .of_dirs base (fun _ _ => rfl) (fun _ _ => Iff.rfl) Iff.rfl
      all_goals rcases action with h | h <;> rw [h] <;> decide

/-! ## Completions -/

section Keeps

/-- A call on the host does not complete the command. -/
instance keeps_attempt (f : Host → Except Errno Host) : Within (Keeps World.done) (attempt f) where
  run w := (wp_attempt f).mpr (by cases f w.host <;> rfl)

instance keeps_orExit (f : Host → Except Errno Host) : Within (Keeps World.done) (orExit f) :=
  .bind inferInstance fun r => by cases r <;> infer_instance

instance keeps_onHost (f : Host → Host) : Within (Keeps World.done) (onHost f) :=
  within_modify fun _ => rfl

instance keeps_record (a : Act) : Within (Keeps World.done) (record a) :=
  within_modify fun _ => rfl

instance keeps_nextRand : Within (Keeps World.done) nextRand where
  run w := by
    refine nextRand_returnsIff.toEnsures.mono ?_
    rintro r _ ⟨-, rs, -, rfl⟩
    rfl

instance keeps_load (buf : Option Bytes) (off len : Nat) :
    Within (Keeps World.done) (load buf off len) := by
  unfold load
  cases buf <;> infer_instance

instance keeps_drawGroup (asked : UInt32) : Within (Keeps World.done) (drawGroup asked) := by
  unfold drawGroup
  rw [← bind_pure_comp]
  infer_instance

instance keeps_drawUser (asked : UInt64) : Within (Keeps World.done) (drawUser asked) := by
  unfold drawUser
  rw [← bind_pure_comp]
  infer_instance

instance keeps_createGroupAgain (asked : UInt32) (n : Nat) (group : UInt32) :
    Within (Keeps World.done) (createGroupAgain base lun asked n group) := by
  induction n generalizing group with
  | zero => exact within_halt _
  | succ n ih =>
    refine .bind inferInstance fun r => ?_
    rcases r with (_ | _ | _ | _ | _) | _
    · exact within_ite _ _ _
    all_goals infer_instance

instance keeps_createAgain (group : UInt32) (asked : UInt64) (n : Nat) :
    Within (Keeps World.done) (createAgain base lun group asked n) := by
  induction n with
  | zero => exact within_halt _
  | succ n ih =>
    refine .bind inferInstance fun user => .bind inferInstance fun r => ?_
    rcases r with (_ | _ | _ | _ | _) | _ <;> infer_instance

instance keeps_writeObject (o : Obj) (offset length : UInt64) (buf : Option Bytes) (off : Nat) :
    Within (Keeps World.done) (writeObject base o offset length buf off) := by
  unfold writeObject loadData
  dsimp only
  infer_instance

instance keeps_readObject (o : Obj) (offset length : UInt64) :
    Within (Keeps World.done) (readObject base o offset length) := by
  unfold readObject
  dsimp only
  infer_instance

instance keeps_serviceAction (buf : Option Bytes) :
    Within (Keeps World.done) (serviceAction base lun a buf) := by
  unfold serviceAction createGroup create removeObject
  dsimp only
  infer_instance

instance keeps_setAttributes (o : Obj) (buf : Option Bytes) (listLen n i : Nat) :
    Within (Keeps World.done) (setAttributes base o buf listLen n i) := by
  induction n generalizing i with
  | zero => exact within_pure _
  | succ n ih =>
    unfold setAttributes setAttribute
    dsimp only
    infer_instance

end Keeps

/-! ## `exec_upper` -/

/-- Nothing is known of the ids when the attributes to get are only counted. -/
def nominal (o : Obj) : Ran := ⟨0, 0, o, none⟩

/-- What the attribute lists need. -/
def ListsOk (buf : Option Bytes) (w : World) : Prop :=
  ∃ user, Addressed a w.rand user ∧ ∃ es, SetList buf a.setAttributesListLength.toNat 0 es ∧
    (∀ e ∈ es, (hostBehind base lun a w.host).Openable (e.path base ⟨lun, a.groupID, user⟩)) ∧
    GetOk base (nominal ⟨lun, a.groupID, user⟩)
      (stored base ⟨lun, a.groupID, user⟩ es (hostBehind base lun a w.host).file) a buf

/-- What `exec_upper` needs of the arguments, the incoming data and the host. -/
structure UpperOk (buf : Option Bytes) (w : World) : Prop where
  action : ActionOk base lun a buf w
  lists : ListsOk base lun a buf w

/-- What a command has done when it gets to `command_done`. -/
structure Executed (buf : Option Bytes) (w : World) (w' : World) (r : Ran)
    (d : Completion) : Prop where
  acted : ∃ w₁, Acted base lun a w r w₁ ∧
    (∃ es, SetList buf a.setAttributesListLength.toNat 0 es ∧
      ∀ q, w'.host.file q = stored base r.obj es w₁.host.file q) ∧
    w'.host.dirs = w₁.host.dirs ∧ w'.acts = w₁.acts
  got : ∃ attrs, Got base r w'.host.file a buf attrs ∧ d.gather = r.read.toList ++ attrs.toList
  status : d.status = 0
  done : w'.done = w.done ++ [d]

theorem commandDone_returnsIff (c : Command) (d : Completion) :
    ReturnsIff (commandDone c d) True
      (fun ok w' => ok = c.answered ∧ w' = { w with done := w.done ++ [d] }) w := by
  have hop : byte c.cdb 0 ≠ 0x26 := by
    rw [c.extended]
    decide
  refine (returnsIff_modify (Q := fun _ w' => w' = { w with done := w.done ++ [d] })
    rfl).bind_of_true fun _ w' h => ?_
  cases ha : c.answered with
  | false => exact ReturnsIff.pure ⟨rfl, h⟩
  | true =>
    change ReturnsIff (if byte c.cdb 0 = 0x26 then _ else _) True _ w'
    rw [if_neg hop]
    exact ReturnsIff.pure ⟨rfl, h⟩

/-- A command addresses one object. -/
theorem Addressed.unique {rand : List Nat} {u u' : UInt64} (h : Addressed a rand u)
    (h' : Addressed a rand u') : u = u' := by
  unfold Addressed Drawn at h h'
  split_ifs at h h'
  · obtain ⟨r, hr, rfl⟩ := h
    obtain ⟨r', hr', rfl⟩ := h'
    rw [Option.mem_unique hr hr']
  all_goals rw [h, h']

/-- The part of `exec_upper` behind the service action. -/
theorem behind_returnsIff {r : Ran} {w₁ : World} (buf : Option Bytes)
    (h : Acted base lun a w r w₁) :
    ReturnsIff (setAttributes base r.obj buf a.setAttributesListLength.toNat
          a.setAttributesListLength.toNat 0 >>= fun _ => getAttributes base r a buf)
      (ListsOk base lun a buf w)
      (fun attrs w' => (∃ es, SetList buf a.setAttributesListLength.toNat 0 es ∧
          ∀ q, w'.host.file q = stored base r.obj es w₁.host.file q) ∧
        w'.host.dirs = w₁.host.dirs ∧ w'.acts = w₁.acts ∧ w'.done = w₁.done ∧
        Got base r w'.host.file a buf attrs) w₁ := by
  obtain ⟨hobj, haddr, hbehind⟩ := h.behind
  have hset := (setAttributes_returnsIff (w := w₁) base r.obj buf a.setAttributesListLength.toNat
    a.setAttributesListLength.toNat 0 (Nat.le_refl _)).within
    (keeps_setAttributes base r.obj buf _ _ _)
  refine (hset.bind (D := ∃ es, SetList buf a.setAttributesListLength.toNat 0 es ∧
    GetOk base (nominal r.obj)
      (stored base r.obj es (hostBehind base lun a w.host).file) a buf)
    fun _ w₂ _ h₂ => (getAttributes_returnsIff r a buf).congr ?_ ?_).congr_left ?_
  · obtain ⟨⟨⟨es, hes, hfile⟩, -, -⟩, -⟩ := h₂
    have hinode : w₂.host.file (fileName base r.obj (.attr pageInode 1)) =
        stored base r.obj es (hostBehind base lun a w.host).file
          (fileName base r.obj (.attr pageInode 1)) := by
      rw [hfile]
      exact stored_congr _ _ _ (hbehind.file _ _)
    constructor
    · intro hget
      exact ⟨es, hes, hget.of_obj rfl hinode⟩
    · rintro ⟨es', hes', hget⟩
      obtain rfl := hes.unique hes'
      exact hget.of_obj rfl hinode.symm
  · rintro attrs w₃ - ⟨hgot, rfl⟩
    obtain ⟨⟨hfile, hdirs, hacts⟩, hdone⟩ := h₂
    exact ⟨hfile, hdirs, hacts, hdone, hgot⟩
  · constructor
    · rintro ⟨⟨es, hes, hall⟩, es', hes', hget⟩
      obtain rfl := hes.unique hes'
      rw [hobj] at hget hall hbehind
      exact ⟨_, haddr, es, hes, fun e he => (hbehind.openable _ _).mp (hall e he), hget⟩
    · rintro ⟨user, huser, es, hes, hall, hget⟩
      obtain rfl := haddr.unique _ huser
      rw [← hobj] at hall hget
      exact ⟨⟨es, hes, fun e he => (hbehind.openable _ _).mpr (hall e he)⟩, es, hes, hget⟩

/-- `exec_upper`. -/
theorem execUpper_returnsIff (env : Env) (c : Command) (buf : Option Bytes) :
    ReturnsIff (execUpper env c buf)
      (∀ ext ∈ c.extCdb, UpperOk env.baseDir c.lun (osdDecapCdb c.cdb ext) buf w)
      (fun ok w' => (c.extCdb = none ∧ ok = false ∧ w' = w) ∨
        ∃ ext ∈ c.extCdb, ok = c.answered ∧ ∃ r d,
          Executed env.baseDir c.lun (osdDecapCdb c.cdb ext) buf w w' r d) w := by
  unfold execUpper
  cases hext : c.extCdb with
  | none => exact (ReturnsIff.pure (.inl ⟨rfl, rfl, rfl⟩)).congr_left (by simp)
  | some ext =>
    dsimp only
    generalize ha : osdDecapCdb c.cdb ext = a
    refine (((serviceAction_returnsIff env.baseDir c.lun a buf).within
      (keeps_serviceAction _ _ _ _)).bind (D := ListsOk env.baseDir c.lun a buf w)
      fun r w₁ _ h₁ => ?_).congr_left ?_
    · obtain ⟨hacted, hdone₁⟩ := h₁
      rw [← bind_assoc]
      refine ((behind_returnsIff _ _ _ buf hacted).bind fun attrs w₂ _ h₂ =>
        (commandDone_returnsIff c _).mono fun ok w₃ _ h₃ => ?_).congr_left (by rw [and_true])
      obtain ⟨hes, hdirs, hacts, hdone₂, hgot⟩ := h₂
      obtain ⟨hok, rfl⟩ := h₃
      refine .inr ⟨ext, rfl, hok, r, ⟨0, c.length, c.fromdev || r.read.isSome || attrs.isSome,
        r.read.toList ++ attrs.toList⟩, ?_⟩
      rw [ha]
      refine ⟨⟨w₁, hacted, hes, hdirs, hacts⟩, ⟨attrs, hgot, rfl⟩, rfl, ?_⟩
      change w₂.done ++ _ = _
      rw [hdone₂, hdone₁]
    · simp only [Option.mem_some_iff, forall_eq', ha]
      exact ⟨fun h => ⟨h.1, h.2⟩, fun h => ⟨h.1, h.2⟩⟩

/-! ## `device_command` -/

/-- The buffer of the incoming data. -/
def Command.buffer (c : Command) : Option Bytes := if c.todev then some c.data else none

/-- The command is answered without being executed: there is no such LUN, the buffer cannot be
allocated, or the rest of the data cannot be requested. -/
def Command.Refused (env : Env) (c : Command) : Prop :=
  env.numLuns ≤ c.lun.toUInt8.toNat ∨
    c.todev = true ∧ (2147483648 ≤ c.transLen.toNat ∨ c.length < c.transLen ∧ c.granted = false)

instance (env : Env) (c : Command) : Decidable (c.Refused env) :=
  inferInstanceAs (Decidable (_ ∨ _ ∧ (_ ∨ _ ∧ _)))

/-- The rest of the data is transferred before the command is executed. -/
def Command.Waits (c : Command) : Prop := c.todev = true ∧ c.length < c.transLen

instance (c : Command) : Decidable c.Waits := inferInstanceAs (Decidable (_ ∧ _))

/-- The immediate data fit into the buffer. -/
def Command.Fits (c : Command) : Prop := c.todev = true → c.length ≤ c.transLen

/-- How a command ends. -/
inductive Served (env : Env) (c : Command) (w w' : World) : Prop where
  | /-- It was refused. -/
    refused (why : c.Refused env) (d : Completion) (status : d.status = 2)
      (host : w'.host = w.host) (acts : w'.acts = w.acts) (done : w'.done = w.done ++ [d])
  | /-- There was no extended CDB, and no answer. -/
    unanswered (taken : ¬c.Refused env) (ext : c.extCdb = none) (same : w' = w)
  | /-- It was executed. -/
    executed (ext : Bytes) (hext : ext ∈ c.extCdb) (r : Ran) (d : Completion)
      (exec : Executed env.baseDir c.lun (osdDecapCdb c.cdb ext) c.buffer w w' r d)

/-- The direct path of `exec_lower`, where a failure of `exec_upper` ends the process. -/
theorem direct_returnsIff (env : Env) (c : Command) :
    ReturnsIff (do
        if ← execUpper env c c.buffer then return Lower.executed
        else halt .exit)
      ((∀ ext ∈ c.extCdb, UpperOk env.baseDir c.lun (osdDecapCdb c.cdb ext) c.buffer w) ∧
        c.extCdb ≠ none ∧ c.answered = true)
      (fun l w' => l = .executed ∧ Served env c w w') w := by
  refine (execUpper_returnsIff env c c.buffer).bind fun ok w' _ h => ?_
  rcases h with ⟨hnone, rfl, -⟩ | ⟨ext, hext, rfl, r, d, hexec⟩
  · exact (ReturnsIff.halt _).congr_left (by simp [hnone])
  · have hsome : c.extCdb ≠ none := fun h => nomatch h ▸ hext
    cases ha : c.answered with
    | false => exact (ReturnsIff.halt _).congr_left (by simp)
    | true =>
      exact (ReturnsIff.pure ⟨rfl, .executed ext hext r d hexec⟩).congr_left (by simp [hsome])

/-- `exec_lower`, when the command is not refused. -/
theorem execLower_returnsIff (env : Env) (c : Command) (hlun : ¬env.numLuns ≤ c.lun.toUInt8.toNat) :
    ReturnsIff (execLower env c)
      (c.Refused env ∨ c.Fits ∧ (c.Waits ∨
        (∀ ext ∈ c.extCdb, UpperOk env.baseDir c.lun (osdDecapCdb c.cdb ext) c.buffer w) ∧
        c.extCdb ≠ none ∧ c.answered = true))
      (fun l w' => l = .failed ∧ c.Refused env ∧ w = w' ∨
        l = .requested ∧ ¬c.Refused env ∧ c.Fits ∧ c.Waits ∧ w = w' ∨
        l = .executed ∧ ¬c.Refused env ∧ ¬c.Waits ∧ Served env c w w') w := by
  have hdirect := direct_returnsIff (w := w) env c
  unfold execLower Command.Refused Command.Fits Command.Waits
  unfold Command.buffer at hdirect ⊢
  cases htodev : c.todev with
  | false =>
    simp only [htodev, Bool.false_eq_true, if_false, false_and, or_false, hlun, false_or,
      false_implies, true_and] at hdirect ⊢
    exact hdirect.mono fun l w' _ h => .inr (.inr ⟨h.1, not_false, not_false, h.2⟩)
  | true =>
    simp only [htodev, if_true, true_and, hlun, false_or, true_implies] at hdirect ⊢
    by_cases hbig : 2147483648 ≤ c.transLen.toNat
    · rw [if_pos hbig]
      exact (ReturnsIff.pure (.inl ⟨rfl, .inl hbig, rfl⟩)).congr_left
        (iff_of_true trivial (.inl (.inl hbig)))
    rw [if_neg hbig]
    by_cases hover : c.transLen < c.length
    · rw [if_pos hover]
      refine (ReturnsIff.halt _).congr_left (iff_of_false not_false ?_)
      rintro ((h | h) | h)
      · exact hbig h
      · exact UInt32.lt_asymm hover h.1
      · exact UInt32.not_le.mpr hover h.1
    rw [if_neg hover]
    have hfits : c.length ≤ c.transLen := UInt32.not_lt.mp hover
    by_cases heq : c.transLen = c.length
    · have hwait : ¬c.length < c.transLen := heq ▸ UInt32.lt_irrefl _
      rw [if_neg (not_not_intro heq)]
      refine hdirect.congr ?_ fun l w' _ h => .inr (.inr ⟨h.1, ?_, hwait, h.2⟩)
      · simp [hbig, hwait, hfits]
      · simp [hbig, hwait]
    · have hwait : c.length < c.transLen := UInt32.lt_of_le_of_ne hfits (Ne.symm heq)
      rw [if_pos heq]
      cases hg : c.granted with
      | false =>
        exact (ReturnsIff.pure (.inl ⟨rfl, .inr ⟨hwait, rfl⟩, rfl⟩)).congr_left
          (iff_of_true trivial (.inl (.inr ⟨hwait, rfl⟩)))
      | true =>
        refine (ReturnsIff.pure (.inr (.inl ⟨rfl, ?_, hfits, hwait, rfl⟩))).congr_left
          (iff_of_true trivial (.inr ⟨hfits, .inl hwait⟩))
        simp [hbig]

/-- When a command with an extended CDB does not take the process down, and how it ends then. -/
theorem deviceCommand_returnsIff (env : Env) (c : Command) :
    ReturnsIff (deviceCommand env c)
      (c.Refused env ∨ c.Fits ∧
        (∀ ext ∈ c.extCdb, UpperOk env.baseDir c.lun (osdDecapCdb c.cdb ext) c.buffer w) ∧
        (c.Waits ∨ c.extCdb ≠ none ∧ c.answered = true))
      (fun _ w' => Served env c w w') w := by
  have hrefuse (why : c.Refused env) (d : Completion) (hd : d.status = 2) :
      ReturnsIff (commandDone c d >>= fun _ => (pure ⟨⟩ : Exec PUnit)) True
        (fun _ w' => Served env c w w') w := by
    refine (commandDone_returnsIff c d).bind_of_true fun ok w' h => ReturnsIff.pure ?_
    obtain ⟨-, rfl⟩ := h
    exact .refused why d hd rfl rfl rfl
  unfold deviceCommand
  by_cases hlun : env.numLuns ≤ c.lun.toUInt8.toNat
  · rw [if_pos hlun]
    exact (hrefuse (.inl hlun) _ rfl).congr_left (iff_of_true trivial (.inl (.inl hlun)))
  rw [if_neg hlun]
  refine ((execLower_returnsIff env c hlun).bind
    (D := c.Refused env ∨ ¬c.Waits ∨
      ∀ ext ∈ c.extCdb, UpperOk env.baseDir c.lun (osdDecapCdb c.cdb ext) c.buffer w)
    fun l w' _ h => ?_).congr_left ?_
  · rcases h with ⟨rfl, hr, rfl⟩ | ⟨rfl, hr, hfits, hwaits, rfl⟩ | ⟨rfl, hr, hw, hserved⟩
    · exact (hrefuse hr _ rfl).congr_left (iff_of_true trivial (.inl hr))
    · have hbuf : some c.data = c.buffer := (if_pos hwaits.1).symm
      dsimp only
      rw [hbuf]
      refine ((execUpper_returnsIff env c c.buffer).bind fun ok w' _ h =>
        ReturnsIff.pure ?_).congr_left (by simp [hr, hwaits])
      rcases h with ⟨hnone, -, hsame⟩ | ⟨ext, hext, -, r, d, hexec⟩
      · exact .unanswered hr hnone hsame
      · exact .executed ext hext r d hexec
    · refine ReturnsIff.congr_left (C := True) (ReturnsIff.pure ?_)
        (iff_of_true trivial (.inr (.inl hw)))
      exact hserved
  · by_cases hr : c.Refused env
    · simp [hr]
    · by_cases hw : c.Waits
      · simp [hr, hw]
      · simp [hr, hw]

end Ost.Osd
