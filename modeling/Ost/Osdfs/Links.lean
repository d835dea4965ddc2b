import Ost.Osdfs.Entries

/-!
# Names and link counts

`osdfs_mknod`, `osdfs_mkdir`, `osdfs_symlink`, `osdfs_link`, `osdfs_unlink` (which is also `rmdir`)
and `osdfs_rename` of `osdfs.c`.  They keep the entries of the directories and the `i_nlink` of the
inodes, and remove the object of an inode when its count becomes zero.

What the functions get is decided by the kernel: it looks a name up before it calls them, in its
cache of dentries or with `osdfs_lookup`.  `d_instantiate` puts a new inode into that cache before
`osdfs_mknod` has added the entry.  When a call succeeds the kernel drops or moves the dentry, and
it does not use a directory any more that has been removed.

The commands of the device, `iget` and the pages of the directories can fail, and with them the
calls.  A function that gets no page or no inode uses the pointer all the same.
-/

namespace Ost.Osdfs

open Ost.Prog

/-! ## Inodes -/

/-- The type of a file, as in `i_mode`. -/
inductive Kind where
  | regular
  | directory
  | symlink
  | other
deriving DecidableEq, Repr

/-- The values of an `nlink_t`. -/
def nlinkModulus : Nat := 65536

/-- One more link. -/
def incCount (k : Nat) : Nat := if k + 1 = nlinkModulus then 0 else k + 1

/-- One link less. -/
def decCount (k : Nat) : Nat := if k = 0 then nlinkModulus - 1 else k - 1

/-- The values of an `ino_t`. -/
def inoModulus : Nat := 4294967296

/-- `g_root_uid`. -/
def rootUid : Nat := 2

/-- An inode.  `dir` is its size and its pages, if it is a directory. -/
structure Inode where
  ino : Nat
  kind : Kind
  nlink : Nat
  dir : DirInode

namespace Inode

/-- `i_nlink--`. -/
def decNlink (n : Inode) : Inode := { n with nlink := decCount n.nlink }

/-- `i_nlink++`. -/
def incNlink (n : Inode) : Inode := { n with nlink := incCount n.nlink }

/-- What `entry_add` does to the inode of a directory. -/
def addEntry (n : Inode) (name : Name) (ino : Nat) (kind : Kind) : Inode :=
  { n with
    nlink := if kind = .directory then incCount n.nlink else n.nlink
    dir := n.dir.entryAdd name ino }

/-- What `entry_del` does to the inode of a directory. -/
def delEntry (n : Inode) (name : Name) (kind : Kind) : Inode :=
  { n with
    nlink := if kind = .directory then decCount n.nlink else n.nlink
    dir := (n.dir.entryDel name).2 }

/-- The entries of a directory, with its number. -/
def links (n : Inode) : List (Nat × DirEntry) :=
  if n.kind = .directory then n.dir.entries.map fun e => (n.ino, e) else []

end Inode

/-! ## The file system -/

/-- A name in the cache that has an inode. -/
structure Dentry where
  dir : Nat
  name : Name
  inode : Nat
deriving DecidableEq, Repr

/-- The file system: the inodes in memory, the dentries that have one, `g_next_uid`, the objects
that `osd_remove` has removed, the directories that the kernel has marked as dead, and the result of
the last call. -/
structure Fs where
  sync : Bool
  inodes : List Inode
  dentries : List Dentry
  nextUid : Nat
  removed : List Nat
  dead : List Nat
  rc : Int

/-- The ways in which a call goes wrong. -/
inductive Fault where
  | /-- The inode of a name that does not exist. -/
    noInode
  | /-- A page that could not be read. -/
    badPage
deriving DecidableEq, Repr

/-- How the steps of a call turn out: whether `iget` returns an inode, what the device gives as the
number of a new object, whether it removes an object, whether `block_symlink` succeeds, and whether
the pages can be read that `entry_add`, `entry_del` (and the first one of `osdfs_rename`) and
`entry_num` need.  `attr` are the attributes that the device has for an object. -/
structure Outcomes where
  iget : Bool
  create : Option Nat
  remove : Bool
  symlink : Bool
  addPage : Bool
  delPages : Bool
  oldPages : Bool
  numPages : Bool
  attr : Inode

namespace Fs

variable (s : Fs)

/-- An inode in memory. -/
def inode (ino : Nat) : Inode :=
  (s.inodes.find? fun n => n.ino = ino).getD ⟨ino, .other, 0, ⟨0, fun _ => []⟩⟩

/-- Change an inode. -/
def update (ino : Nat) (f : Inode → Inode) : Fs :=
  { s with inodes := s.inodes.map fun n => if n.ino = ino then f n else n }

/-- All entries of all directories. -/
def links : List (Nat × DirEntry) := s.inodes.flatMap Inode.links

/-- The number of entries that name an inode. -/
def names (ino : Nat) : Nat := s.links.countP fun x => x.2.ino = ino

/-- The number of subdirectories of a directory. -/
def subdirs (dir : Nat) : Nat :=
  s.links.countP fun x => x.1 = dir ∧ (s.inode x.2.ino).kind = .directory

/-- The inode that the kernel finds for a name. -/
def resolve (dir : Nat) (name : Name) : Option Nat :=
  match s.dentries.find? fun x => x.dir = dir ∧ x.name = name with
  | some x => some x.inode
  | none => (s.inode dir).dir.lookup name

/-- A directory that the kernel uses. -/
def IsDir (dir : Nat) : Prop :=
  (∃ n ∈ s.inodes, n.ino = dir ∧ n.kind = .directory) ∧ dir ∉ s.dead

instance (dir : Nat) : Decidable (s.IsDir dir) := inferInstanceAs (Decidable (_ ∧ _))

/-- Forget a dentry. -/
def drop (dir : Nat) (name : Name) : Fs :=
  { s with dentries := s.dentries.filter fun x => ¬(x.dir = dir ∧ x.name = name) }

/-- Give a name an inode. -/
def instantiate (dir : Nat) (name : Name) (ino : Nat) : Fs :=
  { s.drop dir name with dentries := ⟨dir, name, ino⟩ :: (s.drop dir name).dentries }

end Fs

/-! ## The functions -/

/-- `-EPERM`. -/
def ePerm : Int := -1

/-- `-ENOSPC`. -/
def eNoSpc : Int := -28

/-- `-ENOTEMPTY`. -/
def eNotEmpty : Int := -39

/-- `entry_add`. -/
def entryAdd (ok : Bool) (dir ino : Nat) (name : Name) (kind : Kind) : Prog Fault Fs Int :=
  if ok then do
    modify fun s => s.update dir fun n => n.addEntry name ino kind
    return 0
  else halt .badPage

/-- `entry_del`. -/
def entryDel (ok : Bool) (dir : Nat) (name : Name) (kind : Kind) : Prog Fault Fs Int :=
  if ok then do
    let rc ← gets fun s => ((s.inode dir).dir.entryDel name).1
    if rc = 0 then do
      modify fun s => s.update dir fun n => n.delEntry name kind
      return 0
    else return -1
  else halt .badPage

/-- `iget`, with `osdfs_read_inode` for an inode that is not in memory: a new object gets the
attributes in `create_attr`, any other one those that the device has. -/
def iget (out : Outcomes) (ino : Nat) (createAttr : Inode) : Prog Fault Fs PUnit :=
  modify fun s =>
    if s.inodes.any fun n => n.ino = ino then s
    else
      let attr := if ino = s.nextUid then createAttr else out.attr
      { s with inodes := s.inodes ++ [{ attr with ino := ino }] }

/-- `osd_create_and_set`, if the directory is synchronous: the device gives the number. -/
def createObject (out : Outcomes) : Prog Fault Fs Bool := do
  let s ← get
  if s.sync then
    match out.create with
    | none => return false
    | some uid => do
      modify fun s => { s with nextUid := uid }
      return true
  else return true

/-- The rest of `osdfs_mknod`, when there is an object. -/
def addNode (out : Outcomes) (dir ino : Nat) (name : Name) : Prog Fault Fs Int := do
  let inode ← gets fun s => s.inode ino
  let rc ← if ino ≠ 1 then entryAdd out.addPage dir ino name inode.kind else pure 0
  if rc ≠ 0 then return -1
  else do
    modify fun s => { s with nextUid := (s.nextUid + 1) % 18446744073709551616 }
    return 0

/-- `osdfs_mknod`. -/
def osdfsMknod (out : Outcomes) (dir : Nat) (name : Name) (kind : Kind) : Prog Fault Fs Int := do
  let ino ← gets fun s => s.nextUid % inoModulus
  if out.iget then do
    iget out ino ⟨ino, kind, if kind = .directory then 2 else 1, ⟨0, out.attr.dir.pages⟩⟩
    modify fun s => s.instantiate dir name ino
    let created ← createObject out
    if created then addNode out dir ino name else return -1
  else return eNoSpc

/-- `osdfs_mkdir`. -/
def osdfsMkdir (out : Outcomes) (dir : Nat) (name : Name) : Prog Fault Fs Int := do
  let _ ← osdfsMknod out dir name .directory
  return 0

/-- `osdfs_symlink`. -/
def osdfsSymlink (out : Outcomes) (dir : Nat) (name : Name) : Prog Fault Fs Int := do
  let rc ← osdfsMknod out dir name .symlink
  if rc ≠ 0 then return -1
  else if out.symlink then return 0
  else return -1

/-- `osdfs_link`: the new name goes with the type that *its own* inode has. -/
def osdfsLink (out : Outcomes) (ino dir : Nat) (name : Name) (dInode : Option Nat) :
    Prog Fault Fs Int := do
  let inode ← gets fun s => s.inode ino
  if inode.kind = .directory then return ePerm
  else
    match dInode with
    | none => halt .noInode
    | some target => do
      let kind ← gets fun s => (s.inode target).kind
      let rc ← entryAdd out.addPage dir ino name kind
      if rc ≠ 0 then return -1
      else do
        modify fun s => (s.update ino Inode.incNlink).instantiate dir name ino
        return 0

/-- The rest of `osdfs_unlink`, for an inode that is no directory or an empty one. -/
def dropName (out : Outcomes) (dir : Nat) (name : Name) (ino : Nat) (kind : Kind) :
    Prog Fault Fs Int := do
  let rc ← entryDel out.delPages dir name kind
  if rc ≠ 0 then return -1
  else do
    modify fun s => s.update ino Inode.decNlink
    let inode ← gets fun s => s.inode ino
    if inode.nlink ≠ 0 then return 0
    else if out.remove then do
      modify fun s => { s with removed := ino :: s.removed }
      return 0
    else return -1

/-- `osdfs_unlink`. -/
def osdfsUnlink (out : Outcomes) (dir : Nat) (name : Name) (ino : Nat) : Prog Fault Fs Int := do
  let inode ← gets fun s => s.inode ino
  if inode.kind = .directory then
    if out.numPages then
      if inode.dir.entryNum ≠ 0 then return eNotEmpty
      else do
        modify fun s => s.update ino Inode.decNlink
        dropName out dir name ino .directory
    else halt .badPage
  else dropName out dir name ino inode.kind

/-- The unlinking of the new name in `osdfs_rename`. -/
def unlinkNew (out : Outcomes) (dir : Nat) (name : Name) : Option Nat → Prog Fault Fs Int
  | some ino => osdfsUnlink out dir name ino
  | none => pure 0

/-- `osdfs_rename`. -/
def osdfsRename (out : Outcomes) (oldDir : Nat) (oldName : Name) (old newDir : Nat)
    (newName : Name) (dInode : Option Nat) : Prog Fault Fs Int := do
  let kind ← gets fun s => (s.inode old).kind
  let rc ← entryDel out.oldPages oldDir oldName kind
  if rc ≠ 0 then return -1
  else do
    let rc ← unlinkNew out newDir newName dInode
    if rc ≠ 0 then return -1
    else do
      let rc ← entryAdd out.addPage newDir old newName kind
      if rc ≠ 0 then return -1
      else return 0

/-! ## What the kernel does -/

/-- What is called. -/
inductive Call where
  | mknod (dir : Nat) (name : Name) (kind : Kind)
  | mkdir (dir : Nat) (name : Name)
  | symlink (dir : Nat) (name : Name)
  | link (oldDir : Nat) (oldName : Name) (dir : Nat) (name : Name)
  | unlink (dir : Nat) (name : Name)
  | rename (oldDir : Nat) (oldName : Name) (newDir : Nat) (newName : Name)
  | /-- A dentry goes, because memory is needed. -/
    forget (dir : Nat) (name : Name)

/-- A call, and how its steps turn out. -/
structure LinkEvent where
  call : Call
  out : Outcomes

/-- Look a name up, and keep its dentry. -/
def dget (dir : Nat) (name : Name) : Prog Fault Fs (Option Nat) := do
  let found ← gets fun s => s.resolve dir name
  match found with
  | some ino => do
    modify fun s => s.instantiate dir name ino
    return some ino
  | none => return none

/-- Directories that have been removed are dead. -/
def Fs.bury (s : Fs) (ino : Nat) : Fs :=
  { s with dead := if (s.inode ino).kind = .directory then ino :: s.dead else s.dead }

/-- The directory that a new name had. -/
def Fs.buryTarget (s : Fs) : Option Nat → Fs
  | some ino => s.bury ino
  | none => s

/-- The kernel, after `osdfs_unlink`. -/
def afterUnlink (dir : Nat) (name : Name) (ino : Nat) (rc : Int) : Prog Fault Fs PUnit :=
  modify fun s => if rc = 0 then { (s.bury ino).drop dir name with rc := rc }
  else { s with rc := rc }

/-- The kernel, after `osdfs_rename`. -/
def afterRename (oldDir : Nat) (oldName : Name) (old newDir : Nat) (newName : Name)
    (dInode : Option Nat) (rc : Int) : Prog Fault Fs PUnit :=
  modify fun s =>
    if rc = 0 then
      { ((s.buryTarget dInode).drop oldDir oldName).instantiate newDir newName old with rc := rc }
    else { s with rc := rc }

/-- A system call. -/
def linkNext (e : LinkEvent) : Prog Fault Fs PUnit :=
  match e.call with
  | .mknod dir name kind => do
    let rc ← osdfsMknod e.out dir name kind
    modify fun s => { s with rc := rc }
  | .mkdir dir name => do
    let rc ← osdfsMkdir e.out dir name
    modify fun s => { s with rc := rc }
  | .symlink dir name => do
    let rc ← osdfsSymlink e.out dir name
    modify fun s => { s with rc := rc }
  | .link oldDir oldName dir name => do
    let old ← dget oldDir oldName
    let new ← dget dir name
    match old with
    | some ino => do
      let rc ← osdfsLink e.out ino dir name new
      modify fun s => { s with rc := rc }
    | none => pure ⟨⟩
  | .unlink dir name => do
    let found ← dget dir name
    match found with
    | some ino => do
      let rc ← osdfsUnlink e.out dir name ino
      afterUnlink dir name ino rc
    | none => pure ⟨⟩
  | .rename oldDir oldName newDir newName => do
    let old ← dget oldDir oldName
    let new ← dget newDir newName
    match old with
    | some ino => do
      let rc ← osdfsRename e.out oldDir oldName ino newDir newName new
      afterRename oldDir oldName ino newDir newName new rc
    | none => pure ⟨⟩
  | .forget dir name => modify fun s => s.drop dir name

/-- A file system that has just been made, whatever the cache holds. -/
def Fs.init (sync : Bool) (pages : Nat → List UInt8) : Fs :=
  { sync := sync, inodes := [⟨rootUid, .directory, 2, ⟨0, pages⟩⟩], dentries := []
    nextUid := 0xabc123, removed := [], dead := [], rc := 0 }

/-- A file name. -/
def NameOk (name : Name) : Prop := name ≠ [] ∧ ∀ b ∈ name, b ≠ 0

instance (name : Name) : Decidable (NameOk name) := inferInstanceAs (Decidable (_ ∧ _))

/-- A name that can be made. -/
def Fs.Free (s : Fs) (dir : Nat) (name : Name) : Prop :=
  s.IsDir dir ∧ NameOk name ∧ s.resolve dir name = none

instance (s : Fs) (dir : Nat) (name : Name) : Decidable (s.Free dir name) :=
  inferInstanceAs (Decidable (_ ∧ _))

/-- What the kernel keeps to: the directories exist, new names are free, old names are not, and a
name is not renamed to another name of its own inode. -/
def Permitted (s : Fs) (e : LinkEvent) : Prop :=
  match e.call with
  | .mknod dir name _ | .mkdir dir name | .symlink dir name => s.Free dir name
  | .link oldDir oldName dir name =>
    s.IsDir oldDir ∧ s.resolve oldDir oldName ≠ none ∧ s.Free dir name
  | .unlink dir name => s.IsDir dir ∧ s.resolve dir name ≠ none
  | .rename oldDir oldName newDir newName =>
    s.IsDir oldDir ∧ s.IsDir newDir ∧ NameOk newName ∧ s.resolve oldDir oldName ≠ none ∧
      s.resolve newDir newName ≠ s.resolve oldDir oldName
  | .forget _ _ => True

instance decidablePermitted (s : Fs) : ∀ e, Decidable (Permitted s e)
  | ⟨.mknod dir name _, _⟩ => inferInstanceAs (Decidable (s.Free dir name))
  | ⟨.mkdir dir name, _⟩ => inferInstanceAs (Decidable (s.Free dir name))
  | ⟨.symlink dir name, _⟩ => inferInstanceAs (Decidable (s.Free dir name))
  | ⟨.link oldDir oldName dir name, _⟩ =>
    inferInstanceAs (Decidable (s.IsDir oldDir ∧ s.resolve oldDir oldName ≠ none ∧ s.Free dir name))
  | ⟨.unlink dir name, _⟩ =>
    inferInstanceAs (Decidable (s.IsDir dir ∧ s.resolve dir name ≠ none))
  | ⟨.rename oldDir oldName newDir newName, _⟩ =>
    inferInstanceAs (Decidable (s.IsDir oldDir ∧ s.IsDir newDir ∧ NameOk newName ∧
      s.resolve oldDir oldName ≠ none ∧
      s.resolve newDir newName ≠ s.resolve oldDir oldName))
  | ⟨.forget _ _, _⟩ => inferInstanceAs (Decidable True)

end Ost.Osdfs
