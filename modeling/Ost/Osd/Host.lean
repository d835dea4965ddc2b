import Ost.Iscsi.Bytes
import Ost.Util.Text
import Mathlib.Data.UInt

/-!
# The host file system of an OSD

The OSD target keeps an object in a file and each attribute of it in another.  `Host` is the
file system it runs on, as far as it uses it: the directories, and the contents of the files by
path name.  The calls fail as on a POSIX system.

`fileName` prints the path of a file from the ids.  A path determines the ids, but the pattern
that `OSD_REMOVE` hands to the shell matches the files of every object whose printed id begins
with the printed id of the removed one.
-/

namespace Ost.Osd

open Ost.Iscsi Ost.Util

/-! ## The file system -/

/-- The codes in `errno` that the target may meet. -/
inductive Errno where
  | eexist
  | enoent
  | eisdir
  | enotempty
  | einval
deriving DecidableEq, Repr

/-- The directories and the files of the host. -/
structure Host where
  dirs : List Text
  files : List (Text × Bytes)
deriving DecidableEq, Repr

namespace Host

/-- The contents of a file. -/
def file (h : Host) (p : Text) : Option Bytes := h.files.lookup p

/-- Replace the contents of a file, or add the file. -/
def put (h : Host) (p : Text) (b : Bytes) : Host :=
  { h with files := (p, b) :: h.files.filter (·.1 ≠ p) }

/-- `mkdir`. -/
def mkdir (h : Host) (p : Text) : Except Errno Host :=
  if p ∈ h.dirs || (h.file p).isSome then .error .eexist
  else if dirname p ∉ h.dirs then .error .enoent
  else .ok { h with dirs := p :: h.dirs }

/-- Whether a directory has no entries. -/
def emptyDir (h : Host) (p : Text) : Bool :=
  h.dirs.all (dirname · ≠ p) && h.files.all (dirname ·.1 ≠ p)

/-- `rmdir`. -/
def rmdir (h : Host) (p : Text) : Except Errno Host :=
  if p ∉ h.dirs then .error .enoent
  else if !h.emptyDir p then .error .enotempty
  else .ok { h with dirs := h.dirs.filter (· ≠ p) }

/-- `open` with `O_CREAT`, with or without `O_TRUNC`.  Without `O_EXCL` it takes a file that
is there. -/
def openCreat (h : Host) (p : Text) (trunc : Bool) : Except Errno Host :=
  if p ∈ h.dirs then .error .eisdir
  else
    match h.file p with
    | some _ => .ok (if trunc then h.put p [] else h)
    | none => if dirname p ∈ h.dirs then .ok (h.put p []) else .error .enoent

/-- `rm -f` with a pattern.  It succeeds when nothing matches. -/
def remove (h : Host) (pattern : Text) : Host :=
  { h with files := h.files.filter fun e => !globMatch pattern e.1 }

end Host

/-- The contents of a file after a write at an offset.  A gap behind the old end is zero. -/
def overwrite (old : Bytes) (off : Nat) (b : Bytes) : Bytes :=
  if b = [] then old
  else (old ++ List.replicate (off - old.length) 0).take off ++ b ++ old.drop (off + b.length)

section Files

variable {h h' : Host} {p q : Text} {b : Bytes}

theorem lookup_filter (l : List (Text × Bytes)) (f : Text → Bool) (q : Text) :
    (l.filter fun e => f e.1).lookup q = if f q then l.lookup q else none := by
  induction l with
  | nil => simp
  | cons e l ih =>
    obtain ⟨p, b⟩ := e
    by_cases hqp : q = p
    · subst hqp
      cases hf : f q
      · rw [List.filter_cons_of_neg (by simp [hf]), ih]
        simp [hf]
      · rw [List.filter_cons_of_pos (by simpa using hf)]
        simp
    · have hne : (q == p) = false := by simpa using hqp
      cases hf : f p
      · rw [List.filter_cons_of_neg (by simp [hf]), ih, List.lookup_cons, hne]
      · rw [List.filter_cons_of_pos (by simpa using hf), List.lookup_cons, List.lookup_cons, hne]
        exact ih

/-- The contents after a file was replaced. -/
theorem file_put (h : Host) (p : Text) (b : Bytes) (q : Text) :
    (h.put p b).file q = if q = p then some b else h.file q := by
  change List.lookup q ((p, b) :: _) = _
  rw [List.lookup_cons]
  split_ifs with hqp
  · simp [hqp]
  · have hne : (q == p) = false := by simpa using hqp
    rw [hne]
    refine (lookup_filter h.files (fun r => r ≠ p) q).trans ?_
    rw [if_pos (by simpa using hqp)]
    rfl

@[simp] theorem file_put_self (h : Host) (p : Text) (b : Bytes) : (h.put p b).file p = some b := by
  rw [file_put, if_pos rfl]

theorem file_put_of_ne (h : Host) (b : Bytes) (hqp : q ≠ p) : (h.put p b).file q = h.file q := by
  rw [file_put, if_neg hqp]

/-- The contents after a removal. -/
theorem file_remove (h : Host) (pattern q : Text) :
    (h.remove pattern).file q = if globMatch pattern q then none else h.file q := by
  refine (lookup_filter h.files (fun r => !globMatch pattern r) q).trans ?_
  cases globMatch pattern q <;> rfl

/-- What an `open` that succeeds does to the files. -/
theorem file_openCreat {trunc : Bool} (e : h.openCreat p trunc = .ok h') :
    h'.file p = some (if trunc then [] else (h.file p).getD []) ∧
      (∀ q, q ≠ p → h'.file q = h.file q) ∧ h'.dirs = h.dirs := by
  unfold Host.openCreat at e
  by_cases hdir : p ∈ h.dirs
  · rw [if_pos hdir] at e
    exact nomatch e
  rw [if_neg hdir] at e
  cases hp : h.file p with
  | some b =>
    rw [hp] at e
    obtain rfl := Except.ok.inj e
    cases trunc
    · exact ⟨hp, fun _ _ => rfl, rfl⟩
    · exact ⟨file_put_self _ _ _, fun q hq => file_put_of_ne _ _ hq, rfl⟩
  | none =>
    rw [hp] at e
    dsimp only at e
    by_cases hparent : dirname p ∈ h.dirs
    · rw [if_pos hparent] at e
      obtain rfl := Except.ok.inj e
      refine ⟨?_, fun q hq => file_put_of_ne _ _ hq, rfl⟩
      rw [file_put_self]
      cases trunc <;> rfl
    · rw [if_neg hparent] at e
      exact nomatch e

/-- What an `rmdir` that succeeds does. -/
theorem rmdir_eq (e : h.rmdir p = .ok h') : h' = { h with dirs := h.dirs.filter (· ≠ p) } := by
  unfold Host.rmdir at e
  split_ifs at e
  exact (Except.ok.inj e).symm

end Files

/-! ## Contents -/

/-- A byte of a file that was written. -/
theorem byte_overwrite (old : Bytes) (off : Nat) (b : Bytes) (i : Nat) :
    byte (overwrite old off b) i =
      if off ≤ i ∧ i < off + b.length then byte b (i - off) else byte old i := by
  unfold overwrite
  split_ifs with hb hi hi
  · subst hb
    simp at hi
    omega
  · rfl
  all_goals
    have hfront :
        ((old ++ List.replicate (off - old.length) (0 : UInt8)).take off).length = off := by
      simp
      omega
    simp only [byte, List.append_assoc, List.getD_eq_getElem?_getD]
  · rw [List.getElem?_append_right (by omega), hfront, List.getElem?_append_left (by omega)]
  · by_cases hlt : i < off
    · rw [List.getElem?_append_left (by omega), List.getElem?_take_of_lt hlt]
      by_cases hold : i < old.length
      · rw [List.getElem?_append_left hold]
      · rw [List.getElem?_append_right (by omega), List.getElem?_replicate,
          List.getElem?_eq_none (by omega : old.length ≤ i)]
        split <;> rfl
    · rw [List.getElem?_append_right (by omega), List.getElem?_append_right (by omega), hfront,
        List.getElem?_drop]
      congr 2
      omega

/-! ## Names -/

/-- `base_dir`.  The shell takes it as it stands. -/
structure BaseDir where
  text : Text
  plain : ∀ c ∈ text, c.isAlphanum = true ∨ c = '/' ∨ c = '_' ∨ c = '-' ∨ c = '.'

/-- `CONFIG_OSD_BASEDIR_DFLT`. -/
def BaseDir.dflt : BaseDir where
  text := "/tmp/iscsi_osd".toList
  plain := by simp

/-- An object: the LUN, `GroupID` and `UserID`. -/
structure Obj where
  lun : UInt64
  group : UInt32
  user : UInt64
deriving DecidableEq, Repr

/-- What the target keeps in files of their own. -/
inductive Item where
  | /-- The data of an object. -/
    data
  | /-- An attribute: its page and its index. -/
    attr (page index : UInt32)
deriving DecidableEq, Repr

variable (base : BaseDir)

/-- `sprintf(FileName, "%s/lun_%i", ..)`. -/
def lunName (lun : UInt64) : Text := base.text ++ '/' :: ("lun_".toList ++ dec lun.toNat)

/-- `sprintf(FileName, "%s/lun_%"PRIu64"/0x%x", ..)`. -/
def groupName (lun : UInt64) (group : UInt32) : Text := lunName base lun ++ '/' :: hex group.toNat

/-- `sprintf(FileName, "%s/lun_%"PRIu64"/0x%x/0x%"PRIx64"", ..)`, with `".0x%x.%u"` behind it for an
attribute. -/
def fileName (o : Obj) : Item → Text
  | .data => groupName base o.lun o.group ++ '/' :: hex o.user.toNat
  | .attr page index =>
    groupName base o.lun o.group ++
      '/' :: (hex o.user.toNat ++ '.' :: (hex page.toNat ++ '.' :: dec index.toNat))

/-- The pattern of `OSD_REMOVE`: `"%s/lun_%"PRIu64"/0x%x/0x%"PRIx64"*"`. -/
def removePattern (o : Obj) : Text := fileName base o .data ++ ['*']

section Names

variable {base} {o o' : Obj} {x x' : Item}

/-- What stands behind the last slash. -/
def Item.entry (user : UInt64) : Item → Text
  | .data => hex user.toNat
  | .attr page index => hex user.toNat ++ '.' :: (hex page.toNat ++ '.' :: dec index.toNat)

theorem fileName_eq (o : Obj) (x : Item) :
    fileName base o x = groupName base o.lun o.group ++ '/' :: x.entry o.user := by
  cases x <;> rfl

theorem slash_not_mem_entry (user : UInt64) (x : Item) : '/' ∉ x.entry user := by
  have hslash : Separator '/' := .inl rfl
  cases x with
  | data => exact not_mem_hex _ hslash
  | attr page index =>
    simp [Item.entry, not_mem_hex _ hslash, not_mem_dec _ hslash]

/-- The directory of a file is that of its group. -/
theorem dirname_fileName (o : Obj) (x : Item) :
    dirname (fileName base o x) = groupName base o.lun o.group := by
  rw [fileName_eq]
  exact dirname_append _ (slash_not_mem_entry _ _)

theorem dirname_groupName (lun : UInt64) (group : UInt32) :
    dirname (groupName base lun group) = lunName base lun :=
  dirname_append _ (not_mem_hex _ (.inl rfl))

/-- The last part of a path determines the object and the item. -/
theorem entry_inj {u u' : UInt64} (h : x.entry u = x'.entry u') : u = u' ∧ x = x' := by
  have hdot : Separator '.' := .inr (.inl rfl)
  have hne (v w : UInt64) (page index : UInt32) :
      Item.data.entry v ≠ (Item.attr page index).entry w := by
    intro h
    have hmem : '.' ∈ (Item.attr page index).entry w := by simp [Item.entry]
    rw [← h] at hmem
    exact not_mem_hex _ hdot hmem
  cases x with
  | data =>
    cases x' with
    | data => exact ⟨UInt64.toNat_inj.mp (hex_inj h), rfl⟩
    | attr page index => exact absurd h (hne _ _ _ _)
  | attr page index =>
    cases x' with
    | data => exact absurd h.symm (hne _ _ _ _)
    | attr page' index' =>
      obtain ⟨hu, hrest⟩ := append_sep_inj (not_mem_hex _ hdot) (not_mem_hex _ hdot) h
      obtain ⟨hpage, hindex⟩ := append_sep_inj (not_mem_hex _ hdot) (not_mem_hex _ hdot) hrest
      obtain rfl := UInt64.toNat_inj.mp (hex_inj hu)
      obtain rfl := UInt32.toNat_inj.mp (hex_inj hpage)
      obtain rfl := UInt32.toNat_inj.mp (dec_inj hindex)
      exact ⟨rfl, rfl⟩

/-- The name of a group determines the LUN and the group. -/
theorem groupName_append_inj {lun lun' : UInt64} {g g' : UInt32} {r r' : Text}
    (h : groupName base lun g ++ '/' :: r = groupName base lun' g' ++ '/' :: r') :
    lun = lun' ∧ g = g' ∧ r = r' := by
  have hslash : Separator '/' := .inl rfl
  simp only [groupName, lunName, List.append_assoc, List.cons_append] at h
  have h := List.append_cancel_left (List.cons.inj (List.append_cancel_left h)).2
  obtain ⟨hl, h⟩ := append_sep_inj (not_mem_dec _ hslash) (not_mem_dec _ hslash) h
  obtain ⟨hg, h⟩ := append_sep_inj (not_mem_hex _ hslash) (not_mem_hex _ hslash) h
  exact ⟨UInt64.toNat_inj.mp (dec_inj hl), UInt32.toNat_inj.mp (hex_inj hg), h⟩

theorem groupName_inj {lun lun' : UInt64} {g g' : UInt32}
    (h : groupName base lun g = groupName base lun' g') : lun = lun' ∧ g = g' := by
  have happ := congrArg (· ++ '/' :: []) h
  obtain ⟨hl, hg, -⟩ := groupName_append_inj happ
  exact ⟨hl, hg⟩

/-- A path determines the object and the item. -/
theorem fileName_inj (h : fileName base o x = fileName base o' x') : o = o' ∧ x = x' := by
  rw [fileName_eq, fileName_eq] at h
  obtain ⟨hl, hg, h⟩ := groupName_append_inj h
  obtain ⟨hu, hx⟩ := entry_inj h
  cases o
  cases o'
  exact ⟨by simp_all, hx⟩

theorem fileName_ne (h : o ≠ o') : fileName base o x ≠ fileName base o' x' :=
  fun e => h (fileName_inj e).1

/-- The shell reads no wildcard in the name of an object. -/
theorem star_not_mem_fileName (o : Obj) : '*' ∉ fileName base o .data := by
  have hstar : Separator '*' := .inr (.inr rfl)
  have hbase : '*' ∉ base.text := by
    intro h
    have := base.plain _ h
    revert this
    decide
  simp [fileName, groupName, lunName, hbase, not_mem_hex _ hstar, not_mem_dec _ hstar]

/-- What `OSD_REMOVE` removes: the files in the directory of the group whose name begins with the
printed id. -/
theorem removePattern_matches (o : Obj) (q : Text) :
    globMatch (removePattern base o) q = true ↔
      ∃ t, q = fileName base o .data ++ t ∧ '/' ∉ t :=
  globMatch_append_star (star_not_mem_fileName o) q

/-- Every file of the object is removed. -/
theorem removePattern_own (o : Obj) (x : Item) :
    globMatch (removePattern base o) (fileName base o x) = true := by
  rw [removePattern_matches]
  cases x with
  | data => exact ⟨[], by simp, by simp⟩
  | attr page index =>
    refine ⟨'.' :: (hex page.toNat ++ '.' :: dec index.toNat), ?_, ?_⟩
    · simp [fileName]
    · have hslash : Separator '/' := .inl rfl
      simp [not_mem_hex _ hslash, not_mem_dec _ hslash]

/-- The printed id of one object begins the printed id of another one in its group. -/
def Shadows (o o' : Obj) : Prop :=
  o.lun = o'.lun ∧ o.group = o'.group ∧ hex o.user.toNat <+: hex o'.user.toNat

instance : Decidable (Shadows o o') := inferInstanceAs (Decidable (_ ∧ _ ∧ _))

/-- A file that is removed belongs to an object whose printed id begins with that of the removed
one. -/
theorem shadows_of_matches (h : globMatch (removePattern base o) (fileName base o' x) = true) :
    Shadows o o' := by
  have hdot : Separator '.' := .inr (.inl rfl)
  obtain ⟨t, e, -⟩ := (removePattern_matches o _).mp h
  rw [fileName_eq, fileName_eq, List.append_assoc, List.cons_append] at e
  obtain ⟨hl, hg, e⟩ := groupName_append_inj e
  refine ⟨hl.symm, hg.symm, ?_⟩
  cases x with
  | data => exact ⟨t, e.symm⟩
  | attr page index => exact prefix_of_prefix_append_sep (not_mem_hex _ hdot) ⟨t, e.symm⟩

end Names

end Ost.Osd
