import Ost.Osdfs.LinkCounts

/-!
# Calls that keep the link counts

What has to go well for a call to keep the counts, and what the functions do then.  A file cannot be
linked at all, and neither a failed creation nor a failed removal is undone.
-/

namespace Ost.Osdfs

open Ost.Prog

/-! ## What does not go wrong -/

/-- A directory can take a name. -/
def Takes (out : Outcomes) (name : Name) : Prop :=
  out.addPage = true ∧ recLen name < pageCacheSize

/-- There can be a new inode of this type in a directory, and the device gives its object the number
that it is asked for. -/
def Fs.Creates (s : Fs) (out : Outcomes) (dir : Nat) (name : Name) (kind : Kind) : Prop :=
  Takes out name ∧ (kind = .directory → (s.inode dir).nlink + 1 < nlinkModulus) ∧
    s.nextUid < inoModulus ∧ (s.sync = true → out.create = some s.nextUid)

/-- An inode that is no directory or an empty one. -/
def Fs.Empty (s : Fs) (ino : Nat) : Prop :=
  (s.inode ino).kind = .directory → (s.inode ino).dir.entryNum = 0

/-- An entry can be deleted, and the device removes the object. -/
def Fs.Unlinks (s : Fs) (out : Outcomes) (dir : Nat) (name : Name) (ino : Nat) : Prop :=
  ((s.inode ino).kind = .directory → out.numPages = true) ∧
    (s.Empty ino → out.delPages = true ∧ ¬(s.inode dir).dir.LeavesGap name ∧ out.remove = true)

/-- The file system without an entry. -/
def Fs.without (s : Fs) (dir : Nat) (name : Name) (ino : Nat) : Fs :=
  s.update dir fun n => n.delEntry name (s.inode ino).kind

/-- An entry can be renamed to a name that has this inode, or none. -/
def Fs.Renames (s : Fs) (out : Outcomes) (oldDir : Nat) (oldName : Name) (newDir : Nat)
    (newName : Name) (old : Nat) (target : Option Nat) : Prop :=
  let s' := s.without oldDir oldName old
  out.oldPages = true ∧ ¬(s.inode oldDir).dir.LeavesGap oldName ∧ Takes out newName ∧
    (∀ ino ∈ target, s'.Unlinks out newDir newName ino ∧ s'.Empty ino) ∧
    ((s.inode old).kind = .directory →
      (∃ ino ∈ target, (s.inode ino).kind = .directory) ∨
      (s'.inode newDir).nlink + 1 < nlinkModulus)

/-- The calls that do not go wrong. -/
def LinkSafe (s : Fs) (e : LinkEvent) : Prop :=
  match e.call with
  | .mknod dir name kind => e.out.iget = true → s.Creates e.out dir name kind
  | .mkdir dir name => e.out.iget = true ∧ s.Creates e.out dir name .directory
  | .symlink dir name => e.out.iget = true → s.Creates e.out dir name .symlink
  | .link oldDir oldName _ _ => ∀ ino ∈ s.resolve oldDir oldName, (s.inode ino).kind = .directory
  | .unlink dir name => ∀ ino ∈ s.resolve dir name, s.Unlinks e.out dir name ino
  | .rename oldDir oldName newDir newName =>
    ∀ ino ∈ s.resolve oldDir oldName,
      s.Renames e.out oldDir oldName newDir newName ino (s.resolve newDir newName)
  | .forget _ _ => True

instance decidableUnlinks (s : Fs) (out : Outcomes) (dir : Nat) (name : Name) (ino : Nat) :
    Decidable (s.Unlinks out dir name ino) :=
  inferInstanceAs (Decidable (((s.inode ino).kind = .directory → out.numPages = true) ∧
    (((s.inode ino).kind = .directory → (s.inode ino).dir.entryNum = 0) →
      out.delPages = true ∧ ¬(s.inode dir).dir.LeavesGap name ∧ out.remove = true)))

instance decidableCreates (s : Fs) (out : Outcomes) (dir : Nat) (name : Name) (kind : Kind) :
    Decidable (s.Creates out dir name kind) :=
  inferInstanceAs (Decidable ((_ ∧ _) ∧ (_ → _) ∧ _ ∧ (_ → _)))

instance decidableRenames (s : Fs) (out : Outcomes) (oldDir : Nat) (oldName : Name) (newDir : Nat)
    (newName : Name) (old : Nat) (target : Option Nat) :
    Decidable (s.Renames out oldDir oldName newDir newName old target) :=
  inferInstanceAs (Decidable (out.oldPages = true ∧ ¬(s.inode oldDir).dir.LeavesGap oldName ∧
    (out.addPage = true ∧ recLen newName < pageCacheSize) ∧
    (∀ ino ∈ target, (s.without oldDir oldName old).Unlinks out newDir newName ino ∧
      (((s.without oldDir oldName old).inode ino).kind = .directory →
        ((s.without oldDir oldName old).inode ino).dir.entryNum = 0)) ∧
    ((s.inode old).kind = .directory →
      (∃ ino ∈ target, (s.inode ino).kind = .directory) ∨
      ((s.without oldDir oldName old).inode newDir).nlink + 1 < nlinkModulus)))

instance decidableLinkSafe (s : Fs) : ∀ e, Decidable (LinkSafe s e)
  | ⟨.mknod dir name kind, out⟩ =>
    inferInstanceAs (Decidable (out.iget = true → s.Creates out dir name kind))
  | ⟨.mkdir dir name, out⟩ =>
    inferInstanceAs (Decidable (out.iget = true ∧ s.Creates out dir name .directory))
  | ⟨.symlink dir name, out⟩ =>
    inferInstanceAs (Decidable (out.iget = true → s.Creates out dir name .symlink))
  | ⟨.link oldDir oldName _ _, _⟩ =>
    inferInstanceAs (Decidable (∀ ino ∈ s.resolve oldDir oldName, (s.inode ino).kind = .directory))
  | ⟨.unlink dir name, out⟩ =>
    inferInstanceAs (Decidable (∀ ino ∈ s.resolve dir name, s.Unlinks out dir name ino))
  | ⟨.rename oldDir oldName newDir newName, out⟩ =>
    inferInstanceAs (Decidable (∀ ino ∈ s.resolve oldDir oldName,
      s.Renames out oldDir oldName newDir newName ino (s.resolve newDir newName)))
  | ⟨.forget _ _, _⟩ => inferInstanceAs (Decidable True)

/-! ## What does not change -/

/-- The inodes stay, and what the functions leave to the kernel. -/
structure Fs.Frame (s s' : Fs) : Prop where
  inos : s'.inodes.map Inode.ino = s.inodes.map Inode.ino
  kinds : ∀ j, (s'.inode j).kind = (s.inode j).kind
  dentries : s'.dentries = s.dentries
  nextUid : s'.nextUid = s.nextUid
  dead : s'.dead = s.dead

namespace Fs

variable {s s' s'' : Fs} {owed : List Nat} {n : Inode} {e : DirEntry} {out : Outcomes}

theorem Frame.refl (s : Fs) : s.Frame s := ⟨rfl, fun _ => rfl, rfl, rfl, rfl⟩

theorem Frame.trans (h : s.Frame s') (h' : s'.Frame s'') : s.Frame s'' :=
  ⟨h'.inos.trans h.inos, fun j => (h'.kinds j).trans (h.kinds j), h'.dentries.trans h.dentries,
    h'.nextUid.trans h.nextUid, h'.dead.trans h.dead⟩

theorem frame_update {f : Inode → Inode} (h : (s.inodes.map Inode.ino).Nodup) (hn : n ∈ s.inodes)
    (hf : ∀ m, (f m).ino = m.ino) (hkind : ∀ m, (f m).kind = m.kind) :
    s.Frame (s.update n.ino f) :=
  ⟨update_map_ino hf, kind_update hf hkind hn h, rfl, rfl, rfl⟩

/-- An inode is still there. -/
theorem Frame.exists_inode (h : s.Frame s') (hs : (s.inodes.map Inode.ino).Nodup)
    (hn : n ∈ s.inodes) : ∃ n' ∈ s'.inodes, n'.ino = n.ino ∧ n'.kind = n.kind := by
  have hmem : n.ino ∈ s'.inodes.map Inode.ino := by
    rw [h.inos]
    exact List.mem_map_of_mem hn
  obtain ⟨n', hn', hino⟩ := List.mem_map.mp hmem
  refine ⟨n', hn', hino, ?_⟩
  have hs' : (s'.inodes.map Inode.ino).Nodup := by rwa [h.inos]
  have hkind := h.kinds n.ino
  rwa [inode_of_mem hs hn, ← hino, inode_of_mem hs' hn'] at hkind

/-! ## The functions -/

/-- `entry_del` returns 0. -/
theorem entryDel_run {dir : Nat} {name : Name} {kind : Kind}
    (h : ((s.inode dir).dir.entryDel name).1 = 0) :
    entryDel true dir name kind s = .ret 0 (s.update dir fun n => n.delEntry name kind) := by
  rw [Osdfs.entryDel, if_pos rfl, gets_bind, if_pos h]
  rfl

/-- The names that an inode loses. -/
theorem dropName_eq {dir ino : Nat} {name : Name} {kind : Kind} (hpages : out.delPages = true)
    (h : ((s.inode dir).dir.entryDel name).1 = 0)
    (hs' : s' = (s.update dir fun n => n.delEntry name kind).update ino Inode.decNlink) :
    dropName out dir name ino kind s =
      if (s'.inode ino).nlink ≠ 0 then .ret 0 s'
      else if out.remove then .ret 0 { s' with removed := ino :: s'.removed }
        else .ret (-1) s' := by
  subst hs'
  rw [dropName, hpages, bind_ret (entryDel_run h), if_neg (by decide), modify_bind, gets_bind]
  split
  · rfl
  · cases out.remove <;> rfl

/-- `osdfs_unlink`, by the type of the inode. -/
theorem osdfsUnlink_eq (out : Outcomes) (dir : Nat) (name : Name) (ino : Nat) (s : Fs) :
    osdfsUnlink out dir name ino s =
      if (s.inode ino).kind = .directory then
        if out.numPages then
          if (s.inode ino).dir.entryNum ≠ 0 then .ret eNotEmpty s
          else dropName out dir name ino .directory (s.update ino Inode.decNlink)
        else .halt .badPage s
      else dropName out dir name ino (s.inode ino).kind s := by
  rw [osdfsUnlink, gets_bind]
  by_cases hkind : (s.inode ino).kind = .directory
  · rw [if_pos hkind, if_pos hkind]
    cases out.numPages
    · rfl
    · by_cases hnum : (s.inode ino).dir.entryNum = 0
      · rw [if_pos rfl, if_pos rfl, if_neg (not_not.mpr hnum), if_neg (not_not.mpr hnum)]
        rfl
      · rw [if_pos rfl, if_pos rfl, if_pos hnum, if_pos hnum]
        rfl
  · rw [if_neg hkind, if_neg hkind]

/-- The last name of an inode goes. -/
theorem dropName_run {dir ino : Nat} {name : Name} {kind : Kind}
    (hpages : out.delPages = true) (hremove : out.remove = true)
    (h : ((s.inode dir).dir.entryDel name).1 = 0)
    (hs' : s' = (s.update dir fun n => n.delEntry name kind).update ino Inode.decNlink)
    (hlast : (s'.inode ino).nlink = 0) :
    dropName out dir name ino kind s = .ret 0 { s' with removed := ino :: s'.removed } := by
  rw [dropName_eq hpages h hs', if_neg (not_not.mpr hlast), if_pos hremove]

/-- What is left when an entry and its inode have gone. -/
structure Unlinked (s : Fs) (owed : List Nat) (n : Inode) (e : DirEntry) (s' : Fs) : Prop where
  balanced : s'.Balanced owed
  frame : s.Frame s'
  links : s.links.Perm ((n.ino, e) :: s'.links)
  removed : s'.removed = e.ino :: s.removed
  ne : n.ino ≠ e.ino
  dir : (s'.inode n.ino).dir = (n.dir.entryDel e.name).2

variable {m : Inode} {name : Name}

/-- The counts when an entry is on its way: it is the only name of its inode. -/
theorem Balanced.nlink_of_owed {ino : Nat} (h : s.Balanced (ino :: owed)) (hm : m ∈ s.inodes)
    (hino : m.ino = ino) (hempty : m.kind = .directory → m.dir.entries = []) :
    m.nlink = if m.kind = .directory then 2 else 1 := by
  subst hino
  have hheld : s.held (m.ino :: owed) m.ino = 1 := by
    have hle := h.single m.ino
    rw [held, List.count_cons_self] at hle ⊢
    omega
  split
  · rename_i hdir
    have hroot : m.ino ≠ rootUid := fun heq => by
      have hzero := h.root
      rw [← heq, hheld] at hzero
      exact absurd hzero Nat.one_ne_zero
    have hlive : m.ino ∉ s.removed := fun hmem => by
      have hzero := (h.removed m hm hroot).mp hmem
      rw [hheld] at hzero
      exact absurd hzero Nat.one_ne_zero
    rw [h.dirs m hm hdir hlive, subdirs_eq_zero h.inos hm (hempty hdir)]
  · rw [h.files m hm ‹_›, hheld]

theorem frame_without (h : (s.inodes.map Inode.ino).Nodup) (hn : n ∈ s.inodes) (ino : Nat) :
    s.Frame (s.without n.ino name ino) :=
  frame_update (f := fun m => m.delEntry name (s.inode ino).kind) h hn (fun _ => rfl) fun _ => rfl

theorem inode_without (h : (s.inodes.map Inode.ino).Nodup) (hn : n ∈ s.inodes) (ino j : Nat) :
    (s.without n.ino name ino).inode j =
      if j = n.ino then n.delEntry name (s.inode ino).kind else s.inode j :=
  inode_update (f := fun m => m.delEntry name (s.inode ino).kind) (fun _ => rfl) hn h j

/-- An entry is deleted, and the count of its inode goes down to zero. -/
theorem Balanced.unlinked {f : Inode → Inode} (h : s.Balanced owed) (hn : n ∈ s.inodes)
    (hdir : n.kind = .directory) (hlive : n.ino ∉ s.removed)
    (he : ⟨name, m.ino⟩ ∈ n.dir.entries) (hgap : ¬n.dir.LeavesGap name) (hm : m ∈ s.inodes)
    (hne : n.ino ≠ m.ino) (hf : ∀ m, (f m).ino = m.ino ∧ (f m).kind = m.kind ∧ (f m).dir = m.dir)
    (hempty : m.kind = .directory → m.dir.entries = [])
    (hnlink : m.nlink = (if m.kind = .directory then 2 else 1) → (f m).nlink = 0) :
    Unlinked s owed n ⟨name, m.ino⟩ { (s.without n.ino name m.ino).update m.ino f with
      removed := m.ino :: s.removed } ∧
      (((s.without n.ino name m.ino).update m.ino f).inode m.ino).nlink = 0 := by
  obtain ⟨hbal, hperm⟩ := h.delEntry hn hdir hlive he hgap
  have hm₁ : m ∈ (s.without n.ino name m.ino).inodes := mem_update.mpr (.inr ⟨hm, hne.symm⟩)
  have hzero := hnlink (hbal.nlink_of_owed hm₁ rfl hempty)
  have hinode := inode_update (fun m => (hf m).1) hm₁ hbal.inos
  have hlinks := links_update (s.without n.ino name m.ino) m.ino hf
  have hframe : s.Frame ((s.without n.ino name m.ino).update m.ino f) :=
    (frame_without h.inos hn m.ino).trans
      (frame_update hbal.inos hm₁ (fun m => (hf m).1) fun m => (hf m).2.1)
  refine ⟨⟨hbal.settle hm₁ hf hzero, ?_, ?_, rfl, hne, ?_⟩, ?_⟩
  · exact ⟨hframe.inos, hframe.kinds, hframe.dentries, hframe.nextUid, hframe.dead⟩
  · change s.links.Perm (_ :: ((s.without n.ino name m.ino).update m.ino f).links)
    rw [hlinks]
    exact hperm
  · change (((s.without n.ino name m.ino).update m.ino f).inode n.ino).dir = _
    rw [hinode, if_neg hne, inode_without h.inos hn, if_pos rfl]
    rfl
  · rw [hinode, if_pos rfl]
    exact hzero

theorem update_update {f g : Inode → Inode} {ino : Nat} (hf : ∀ m, (f m).ino = m.ino) :
    (s.update ino f).update ino g = s.update ino fun m => g (f m) := by
  rw [update, update, update]
  simp only [List.map_map]
  congr 1
  refine List.map_congr_left fun m _ => ?_
  simp only [Function.comp_apply]
  by_cases hi : m.ino = ino
  · rw [if_pos hi, if_pos ((hf m).trans hi), if_pos hi]
  · rw [if_neg hi, if_neg hi, if_neg hi]

/-- `osdfs_unlink`. -/
theorem Balanced.unlink_spec (h : s.Balanced owed) (hn : n ∈ s.inodes) (hdir : n.kind = .directory)
    (hlive : n.ino ∉ s.removed) (he : e ∈ n.dir.entries)
    (hcond : s.Unlinks out n.ino e.name e.ino) :
    (s.Empty e.ino ∧ ∃ s', osdfsUnlink out n.ino e.name e.ino s = .ret 0 s' ∧
      Unlinked s owed n e s') ∨
    (¬s.Empty e.ino ∧ osdfsUnlink out n.ino e.name e.ino s = .ret eNotEmpty s) := by
  obtain ⟨m, hm, hino⟩ := h.known (n.ino, e) (mem_links_iff.mpr ⟨n, hn, hdir, rfl, he⟩)
  obtain ⟨name, ino⟩ := e
  change m.ino = ino at hino
  subst hino
  obtain ⟨hnum, hsafe⟩ := hcond
  have hgetm := inode_of_mem h.inos hm
  have hgetn := inode_of_mem h.inos hn
  simp only [hgetm, hgetn] at hnum hsafe
  have hfound := (h.wellFormed n hn hdir).readable.entryDel_found he
  by_cases hkind : m.kind = .directory
  · rw [osdfsUnlink_eq, hgetm, if_pos hkind, if_pos (hnum hkind)]
    by_cases hentries : m.dir.entryNum = 0
    · left
      have hempty : s.Empty m.ino := fun _ => by rwa [hgetm]
      have hnone : m.dir.entries = [] := by
        rw [(h.wellFormed m hm hkind).readable.entryNum] at hentries
        exact List.length_eq_zero_iff.mp hentries
      have hne : n.ino ≠ m.ino := fun heq => by
        rw [List.inj_on_of_nodup_map h.inos hn hm heq, hnone] at he
        exact absurd he List.not_mem_nil
      obtain ⟨hpages, hgap, hremove⟩ := hsafe hempty
      obtain ⟨hunlinked, hzero⟩ := h.unlinked (f := fun k => k.decNlink.decNlink) hn hdir hlive he
        hgap hm hne (fun _ => ⟨rfl, rfl, rfl⟩) (fun _ => hnone) fun hcount => by
          rw [if_pos hkind] at hcount
          change decCount (decCount m.nlink) = 0
          rw [hcount]
          rfl
      have hswap : ((s.update m.ino Inode.decNlink).update n.ino fun k =>
          k.delEntry name .directory).update m.ino Inode.decNlink =
            (s.without n.ino name m.ino).update m.ino fun k => k.decNlink.decNlink := by
        have hcomm := update_comm (s := s) (f := Inode.decNlink)
          (g := fun k => k.delEntry name .directory) hne.symm (fun _ => rfl) fun _ => rfl
        rw [without, hgetm, hkind, hcomm]
        exact update_update fun _ => rfl
      have hdel : (((s.update m.ino Inode.decNlink).inode n.ino).dir.entryDel name).1 = 0 := by
        rw [inode_update (f := Inode.decNlink) (fun _ => rfl) hm h.inos, if_neg hne, hgetn]
        exact hfound
      rw [if_neg (not_not.mpr hentries)]
      exact ⟨hempty, _, dropName_run hpages hremove hdel hswap.symm hzero, hunlinked⟩
    · right
      rw [if_pos hentries]
      refine ⟨fun hempty => hentries ?_, rfl⟩
      rw [Empty, hgetm] at hempty
      exact hempty hkind
  · left
    have hempty : s.Empty m.ino := fun hdir' => absurd (by rwa [hgetm] at hdir') hkind
    have hne : n.ino ≠ m.ino := fun heq => by
      rw [List.inj_on_of_nodup_map h.inos hn hm heq] at hdir
      exact hkind hdir
    obtain ⟨hpages, hgap, hremove⟩ := hsafe hempty
    obtain ⟨hunlinked, hzero⟩ := h.unlinked (f := Inode.decNlink) hn hdir hlive he hgap hm hne
      (fun _ => ⟨rfl, rfl, rfl⟩) (fun hdir' => absurd hdir' hkind) fun hcount => by
        rw [if_neg hkind] at hcount
        change decCount m.nlink = 0
        rw [hcount]
        rfl
    rw [osdfsUnlink_eq, hgetm, if_neg hkind]
    refine ⟨hempty, _, dropName_run hpages hremove ?_ ?_ hzero, hunlinked⟩
    · rw [hgetn]
      exact hfound
    · rw [without, hgetm]

/-! ## Between the calls -/

/-- The invariant between the calls: the dentries are those of entries, and the next number is
new. -/
structure Sound (s : Fs) : Prop where
  balanced : s.Balanced []
  cached : ∀ x ∈ s.dentries, (x.dir, ⟨x.name, x.inode⟩) ∈ s.links
  fresh : ∀ n ∈ s.inodes, n.ino < s.nextUid
  late : rootUid < s.nextUid
  dead : ∀ n ∈ s.inodes, n.kind = .directory → n.ino ∈ s.removed → n.ino ∈ s.dead

/-- The invariant within a call is about inodes and objects. -/
theorem Balanced.congr (h : s.Balanced owed) (hinodes : s'.inodes = s.inodes)
    (hremoved : s'.removed = s.removed) : s'.Balanced owed := by
  obtain ⟨sync, inodes, dentries, nextUid, removed, dead, rc⟩ := s
  obtain ⟨sync', inodes', dentries', nextUid', removed', dead', rc'⟩ := s'
  obtain rfl : inodes' = inodes := hinodes
  obtain rfl : removed' = removed := hremoved
  exact ⟨h.inos, h.wellFormed, h.known, h.gone, h.single, h.root, h.small, h.files, h.dirs,
    h.removed⟩

section Names

variable {dir ino : Nat}

/-- A directory that the kernel uses is there, and has not been removed. -/
theorem Sound.exists_dir (h : s.Sound) (hd : s.IsDir dir) :
    ∃ n ∈ s.inodes, n.ino = dir ∧ n.kind = .directory ∧ dir ∉ s.removed := by
  obtain ⟨⟨n, hn, rfl, hkind⟩, hlive⟩ := hd
  exact ⟨n, hn, rfl, hkind, fun hmem => hlive (h.dead n hn hkind hmem)⟩

/-- A name that is found is the name of an entry. -/
theorem Sound.resolve_some (h : s.Sound) (hn : n ∈ s.inodes) (hdir : n.kind = .directory)
    (hresolve : s.resolve n.ino name = some ino) : ⟨name, ino⟩ ∈ n.dir.entries := by
  rw [resolve] at hresolve
  split at hresolve
  · rename_i x hx
    obtain rfl := Option.some.inj hresolve
    have hname : x.dir = n.ino ∧ x.name = name := by simpa using List.find?_some hx
    have hlink := h.cached x (List.mem_of_find?_eq_some hx)
    obtain ⟨k, hk, -, hino, he⟩ := mem_links_iff.mp hlink
    have hkn : k = n := List.inj_on_of_nodup_map h.balanced.inos hk hn (hino.trans hname.1)
    rwa [hkn, hname.2] at he
  · rw [inode_of_mem h.balanced.inos hn,
      (h.balanced.wellFormed n hn hdir).readable.lookup] at hresolve
    obtain ⟨e, he, rfl⟩ := Option.map_eq_some_iff.mp hresolve
    have hname : e.name = name := by simpa using List.find?_some he
    rw [← hname]
    exact List.mem_of_find?_eq_some he

/-- A name that is not found is not there. -/
theorem Sound.resolve_none (h : s.Sound) (hn : n ∈ s.inodes) (hdir : n.kind = .directory)
    (hresolve : s.resolve n.ino name = none) : ∀ e ∈ n.dir.entries, e.name ≠ name := by
  rw [resolve] at hresolve
  split at hresolve
  · exact absurd hresolve (Option.some_ne_none _)
  · rw [inode_of_mem h.balanced.inos hn] at hresolve
    exact (h.balanced.wellFormed n hn hdir).readable.lookup_eq_none.mp hresolve

/-- The kernel finds what `osdfs_lookup` finds. -/
theorem Sound.resolve_eq (h : s.Sound) (hn : n ∈ s.inodes) (hdir : n.kind = .directory)
    (name : Name) : s.resolve n.ino name = n.dir.lookup name := by
  have hwell := h.balanced.wellFormed n hn hdir
  cases hresolve : s.resolve n.ino name with
  | none => exact (hwell.readable.lookup_eq_none.mpr (h.resolve_none hn hdir hresolve)).symm
  | some ino => exact (hwell.readable.lookup_of_mem (h.resolve_some hn hdir hresolve)).symm

/-- A dentry of an entry can be kept. -/
theorem Sound.instantiate (h : s.Sound) (hlink : (dir, ⟨name, ino⟩) ∈ s.links) :
    (s.instantiate dir name ino).Sound where
  balanced := h.balanced.congr rfl rfl
  cached x hx := by
    rcases List.mem_cons.mp hx with rfl | hx
    · exact hlink
    · exact h.cached x (List.mem_of_mem_filter hx)
  fresh := h.fresh
  late := h.late
  dead := h.dead

theorem Sound.drop (h : s.Sound) (dir : Nat) (name : Name) : (s.drop dir name).Sound where
  balanced := h.balanced.congr rfl rfl
  cached x hx := h.cached x (List.mem_of_mem_filter hx)
  fresh := h.fresh
  late := h.late
  dead := h.dead

theorem Sound.setRc (h : s.Sound) (rc : Int) : Sound { s with rc := rc } :=
  ⟨h.balanced.congr rfl rfl, h.cached, h.fresh, h.late, h.dead⟩

/-- Looking a name up changes the dentries only. -/
theorem Sound.dget_run (h : s.Sound) (hn : n ∈ s.inodes) (hdir : n.kind = .directory)
    (name : Name) : ∃ ds, dget n.ino name s = .ret (n.dir.lookup name) { s with dentries := ds } ∧
      Sound { s with dentries := ds } := by
  have heq := h.resolve_eq hn hdir name
  rw [dget, gets_bind, ← heq]
  cases hresolve : s.resolve n.ino name with
  | none => exact ⟨s.dentries, rfl, h⟩
  | some ino =>
    have hlink : (n.ino, (⟨name, ino⟩ : DirEntry)) ∈ s.links :=
      mem_links_iff.mpr ⟨n, hn, hdir, rfl, h.resolve_some hn hdir hresolve⟩
    exact ⟨_, rfl, h.instantiate hlink⟩

/-- The invariant after a call that has removed objects. -/
theorem Sound.after {t : Fs} (h : s.Sound) (hframe : s.Frame t) (hbal : t.Balanced [])
    (hinodes : s'.inodes = t.inodes) (hremoved : s'.removed = t.removed)
    (hnext : s'.nextUid = t.nextUid)
    (hcached : ∀ x ∈ s'.dentries, (x.dir, ⟨x.name, x.inode⟩) ∈ t.links)
    (hdead : ∀ i ∈ t.removed, (t.inode i).kind = .directory → i ∉ s.removed → i ∈ s'.dead)
    (hkept : ∀ i ∈ s.dead, i ∈ s'.dead) : s'.Sound where
  balanced := hbal.congr hinodes hremoved
  cached x hx := by
    rw [links, hinodes]
    exact hcached x hx
  fresh n hn := by
    rw [hinodes] at hn
    rw [hnext, hframe.nextUid]
    have hmem : n.ino ∈ s.inodes.map Inode.ino := by
      rw [← hframe.inos]
      exact List.mem_map_of_mem hn
    obtain ⟨m, hm, hino⟩ := List.mem_map.mp hmem
    rw [← hino]
    exact h.fresh m hm
  late := by
    rw [hnext, hframe.nextUid]
    exact h.late
  dead n hn hkind hgone := by
    rw [hinodes] at hn
    rw [hremoved] at hgone
    have hget := inode_of_mem hbal.inos hn
    by_cases hold : n.ino ∈ s.removed
    · obtain ⟨m, hm, hino⟩ := h.balanced.gone _ hold
      have hkind' : m.kind = .directory := by
        rw [← inode_of_mem h.balanced.inos hm, hino, ← hframe.kinds, hget]
        exact hkind
      rw [← hino] at hold ⊢
      exact hkept _ (h.dead m hm hkind' hold)
    · exact hdead _ hgone (by rwa [hget]) hold

end Names

/-! ## Making an inode -/

section Mknod

variable {dir : Nat} {kind : Kind}

/-- The device gives a synchronous directory the number it asks for. -/
theorem createObject_run (h : s.sync = true → out.create = some s.nextUid) :
    createObject out s = .ret true s := by
  rw [createObject, bind_apply]
  change (if s.sync = true then _ else _ : Prog Fault Fs Bool) s = _
  split
  · rw [h ‹_›]
    rfl
  · rfl

/-- The new inode gets its name. -/
theorem addNode_run {ino : Nat} (hone : ino ≠ 1) (hpage : out.addPage = true)
    (hkind : (s.inode ino).kind = kind) (hlt : s.nextUid < inoModulus) :
    addNode out dir ino name s = .ret 0
      { s.update dir fun k => k.addEntry name ino kind with nextUid := s.nextUid + 1 } := by
  have hwrap : (s.nextUid + 1) % 18446744073709551616 = s.nextUid + 1 := by
    have hsize : inoModulus = 4294967296 := rfl
    exact Nat.mod_eq_of_lt (by omega)
  rw [addNode, bind_apply]
  change (if ino ≠ 1 then _ else _ : Prog Fault Fs Int) s = _
  rw [if_pos hone, hpage, ← hkind, ← hwrap]
  rfl

/-- `osdfs_mknod`, when there is no inode with the next number. -/
theorem osdfsMknod_run (higet : out.iget = true) (hpage : out.addPage = true)
    (hfresh : ∀ n ∈ s.inodes, n.ino < s.nextUid) (hlate : rootUid < s.nextUid)
    (hino : s.nextUid < inoModulus) (hcreate : s.sync = true → out.create = some s.nextUid)
    {new : Inode} (hnew : new = ⟨s.nextUid, kind, if kind = .directory then 2 else 1,
      ⟨0, out.attr.dir.pages⟩⟩) (hkind : ((s.withNew new).inode s.nextUid).kind = kind) :
    osdfsMknod out dir name kind s = .ret 0
      { (s.withNew new).update dir fun k => k.addEntry name s.nextUid kind with
        dentries := (s.instantiate dir name s.nextUid).dentries, nextUid := s.nextUid + 1 } := by
  have hmod : s.nextUid % inoModulus = s.nextUid := Nat.mod_eq_of_lt hino
  have hnone : (s.inodes.any fun n => n.ino = s.nextUid) = false := by
    refine List.any_eq_false.mpr fun n hn => ?_
    simpa using Nat.ne_of_lt (hfresh n hn)
  have hget : iget out s.nextUid ⟨s.nextUid, kind, if kind = .directory then 2 else 1,
      ⟨0, out.attr.dir.pages⟩⟩ s = .ret ⟨⟩ (s.withNew new) := by
    change Outcome.ret PUnit.unit
      (if (s.inodes.any fun n => n.ino = s.nextUid) = true then s else _) = _
    rw [hnone, if_neg Bool.false_ne_true, hnew]
    rw [if_pos rfl]
    rfl
  rw [osdfsMknod, bind_apply]
  change (if out.iget = true then _ else _ : Prog Fault Fs Int) s = _
  simp only [hmod]
  rw [if_pos higet, bind_apply, hget]
  have hobject : createObject out ((s.withNew new).instantiate dir name s.nextUid) =
      .ret true ((s.withNew new).instantiate dir name s.nextUid) := createObject_run hcreate
  have hone : s.nextUid ≠ 1 := by
    have htwo : rootUid = 2 := rfl
    omega
  have hadd : addNode out dir s.nextUid name ((s.withNew new).instantiate dir name s.nextUid) = _ :=
    addNode_run hone hpage hkind hino
  change (createObject out >>= _ : Prog Fault Fs Int)
    ((s.withNew new).instantiate dir name s.nextUid) = _
  rw [bind_apply, hobject]
  exact hadd

/-- `osdfs_mknod`. -/
theorem mknod_spec (h : s.Sound) (hn : n ∈ s.inodes) (hdir : n.kind = .directory)
    (hlive : n.ino ∉ s.removed) (hname : NameOk name) (hnone : s.resolve n.ino name = none)
    (higet : out.iget = true) (hcond : s.Creates out n.ino name kind) :
    ∃ s', osdfsMknod out n.ino name kind s = .ret 0 s' ∧ s'.Sound ∧
      (n.ino, ⟨name, s.nextUid⟩) ∈ s'.links := by
  obtain ⟨⟨hpage, hfits⟩, hroom, hino, hcreate⟩ := hcond
  have hbal := h.balanced
  rw [inode_of_mem hbal.inos hn] at hroom
  obtain ⟨new, hnew⟩ : ∃ new : Inode, new = ⟨s.nextUid, kind, if kind = .directory then 2 else 1,
    ⟨0, out.attr.dir.pages⟩⟩ := ⟨_, rfl⟩
  have hnewino : new.ino = s.nextUid := by rw [hnew]
  have hnewkind : new.kind = kind := by rw [hnew]
  have hbal₁ : (s.withNew new).Balanced [s.nextUid] := by
    rw [← hnewino]
    refine hbal.newInode ?_ ?_ List.not_mem_nil ?_ ?_
    · intro m hm
      rw [hnewino]
      exact Nat.ne_of_lt (h.fresh m hm)
    · rw [hnewino]
      exact Nat.ne_of_gt h.late
    · rw [hnew]
      exact DirInode.WellFormed.empty _
    · rw [hnew]
  have hmem : new ∈ (s.withNew new).inodes := List.mem_append_right _ (List.mem_singleton_self new)
  have hkind : ((s.withNew new).inode s.nextUid).kind = kind := by
    rw [← hnewino, inode_of_mem hbal₁.inos hmem, hnewkind]
  have hn₁ : n ∈ (s.withNew new).inodes := List.mem_append_left _ hn
  obtain ⟨hbal₂, hperm⟩ := hbal₁.addEntry name hn₁ hdir hlive ⟨new, hmem, hnewino⟩
    (h.resolve_none hn hdir hnone)
    ⟨hname.1, hname.2, hino⟩ hfits (fun hk => hroom (by rwa [hkind] at hk))
  have hempty : new.dir.WellFormed ∧ new.dir.entries = [] := by
    rw [hnew]
    exact DirInode.WellFormed.empty _
  have hlinks := links_withNew s hempty.2
  rw [hkind] at hbal₂ hperm
  refine ⟨_, osdfsMknod_run higet hpage h.fresh h.late hino hcreate hnew hkind,
    ⟨?_, ?_, ?_, ?_, ?_⟩, ?_⟩
  · exact hbal₂.congr rfl rfl
  · intro x hx
    refine hperm.mem_iff.mpr ?_
    rcases List.mem_cons.mp hx with rfl | hx
    · exact List.mem_cons_self
    · rw [hlinks]
      exact List.mem_cons_of_mem _ (h.cached x (List.mem_of_mem_filter hx))
  · intro m hm
    rcases eq_or_of_mem_update hbal₁.inos hn₁ hm with rfl | ⟨hm, -⟩
    · exact Nat.lt_succ_of_lt (h.fresh n hn)
    · rcases List.mem_append.mp hm with hm | hm
      · exact Nat.lt_succ_of_lt (h.fresh m hm)
      · rw [List.mem_singleton.mp hm, hnewino]
        exact Nat.lt_succ_self _
  · exact Nat.lt_succ_of_lt h.late
  · intro m hm hm' hgone
    rcases eq_or_of_mem_update hbal₁.inos hn₁ hm with rfl | ⟨hm, -⟩
    · exact absurd hgone hlive
    · rcases List.mem_append.mp hm with hm | hm
      · exact h.dead m hm hm' hgone
      · rw [List.mem_singleton.mp hm, hnewino] at hgone
        obtain ⟨k, hk, hk'⟩ := hbal.gone _ hgone
        exact absurd hk' (Nat.ne_of_lt (h.fresh k hk))
  · exact hperm.mem_iff.mpr List.mem_cons_self

end Mknod

/-! ## Renaming -/

section Rename

variable {old : Nat} {target : Option Nat}

/-- The new name is free. -/
structure Cleared (s : Fs) (owed : List Nat) (n : Inode) (name : Name) (target : Option Nat)
    (t : Fs) : Prop where
  balanced : t.Balanced owed
  frame : s.Frame t
  links : ∀ x ∈ s.links, ¬(x.1 = n.ino ∧ x.2.name = name) → x ∈ t.links
  removed : t.removed = target.toList ++ s.removed
  alive : n.ino ∉ t.removed
  free : ∀ m ∈ t.inodes, m.ino = n.ino → ∀ e ∈ m.dir.entries, e.name ≠ name
  room : n.nlink + 1 < nlinkModulus ∨ (∃ ino ∈ target, (s.inode ino).kind = .directory) →
    ∀ m ∈ t.inodes, m.ino = n.ino → m.nlink + 1 < nlinkModulus

/-- The new name is unlinked, if there is one. -/
theorem Balanced.unlinkNew_spec (h : s.Balanced owed) (hn : n ∈ s.inodes)
    (hdir : n.kind = .directory) (hlive : n.ino ∉ s.removed)
    (hsome : ∀ ino ∈ target, ⟨name, ino⟩ ∈ n.dir.entries)
    (hnone : target = none → ∀ e ∈ n.dir.entries, e.name ≠ name)
    (hcond : ∀ ino ∈ target, s.Unlinks out n.ino name ino ∧ s.Empty ino) :
    ∃ t, unlinkNew out n.ino name target s = .ret 0 t ∧ Cleared s owed n name target t := by
  cases target with
  | none =>
    refine ⟨s, rfl, h, .refl s, fun x hx _ => hx, rfl, hlive, fun m hm hino => ?_, ?_⟩
    · rw [List.inj_on_of_nodup_map h.inos hm hn hino]
      exact hnone rfl
    · rintro (hroom | ⟨ino, hino, -⟩) m hm heq
      · rwa [List.inj_on_of_nodup_map h.inos hm hn heq]
      · exact absurd hino (Option.not_mem_none ino)
  | some ino =>
    have he := hsome ino rfl
    obtain ⟨hunlinks, hempty⟩ := hcond ino rfl
    rcases h.unlink_spec hn hdir hlive he hunlinks with ⟨-, t, hrun, ht⟩ | ⟨hfull, -⟩
    · refine ⟨t, hrun, ht.balanced, ht.frame, fun x hx hne => ?_, ht.removed, ?_,
        fun m hm hino => ?_, fun hroom m hm hino => ?_⟩
      · rcases List.mem_cons.mp (ht.links.mem_iff.mp hx) with rfl | hx
        · exact absurd ⟨rfl, rfl⟩ hne
        · exact hx
      · rw [ht.removed]
        exact List.not_mem_cons_of_ne_of_not_mem ht.ne hlive
      · have hgap : ¬n.dir.LeavesGap name := by
          have hgap := (hunlinks.2 hempty).2.1
          rwa [inode_of_mem h.inos hn] at hgap
        obtain ⟨-, -, hentries⟩ := (h.wellFormed n hn hdir).entryDel he hgap
        have hpages := ht.dir
        rw [← hino, inode_of_mem ht.balanced.inos hm] at hpages
        rw [hpages, hentries]
        intro e he'
        simpa using (List.mem_filter.mp he').2
      · have hkind : m.kind = .directory := by
          rw [← inode_of_mem ht.balanced.inos hm, ht.frame.kinds, hino, inode_of_mem h.inos hn]
          exact hdir
        have hm' : m.ino ∉ t.removed := by
          rw [ht.removed, hino]
          exact List.not_mem_cons_of_ne_of_not_mem ht.ne hlive
        have hcount := h.dirs n hn hdir hlive
        have hcount' := ht.balanced.dirs m hm hkind hm'
        have hsub := subdirs_of_perm ht.links (fun j => (ht.frame.kinds j).symm) n.ino
        have hsmall := h.small n hn
        simp only [true_and] at hsub
        rw [hino] at hcount'
        rcases hroom with hroom | ⟨i, hi, hdir'⟩
        · omega
        · obtain rfl := Option.some.inj hi
          rw [if_pos ((ht.frame.kinds _).trans hdir')] at hsub
          omega
    · exact absurd hempty hfull

/-- `osdfs_rename`. -/
theorem Balanced.rename_spec (h : s.Balanced []) (hn : n ∈ s.inodes) (hdir : n.kind = .directory)
    (hlive : n.ino ∉ s.removed) (he : e ∈ n.dir.entries) {m : Inode} (hm : m ∈ s.inodes)
    (hdir' : m.kind = .directory) (hlive' : m.ino ∉ s.removed) (hname : NameOk name)
    (hsome : ∀ ino ∈ target, ⟨name, ino⟩ ∈ m.dir.entries)
    (hnone : target = none → ∀ e ∈ m.dir.entries, e.name ≠ name) (hne : target ≠ some e.ino)
    (hcond : s.Renames out n.ino e.name m.ino name e.ino target) :
    ∃ t, osdfsRename out n.ino e.name e.ino m.ino name target s = .ret 0 t ∧
      t.Balanced [] ∧ s.Frame t ∧ t.removed = target.toList ++ s.removed ∧
      (m.ino, ⟨name, e.ino⟩) ∈ t.links ∧
      ∀ x ∈ s.links, ¬(x.1 = n.ino ∧ x.2.name = e.name) → ¬(x.1 = m.ino ∧ x.2.name = name) →
        x ∈ t.links := by
  obtain ⟨hold, hgap, ⟨hpage, hfits⟩, hclear, hroom⟩ := hcond
  rw [inode_of_mem h.inos hn] at hgap
  obtain ⟨hbal₁, hperm₁⟩ := h.delEntry hn hdir hlive he hgap
  change (s.without n.ino e.name e.ino).Balanced [e.ino] at hbal₁
  change s.links.Perm ((n.ino, e) :: (s.without n.ino e.name e.ino).links) at hperm₁
  have hframe₁ : s.Frame (s.without n.ino e.name e.ino) := frame_without h.inos hn e.ino
  obtain ⟨m₁, hm₁, hino₁, hkind₁⟩ := hframe₁.exists_inode h.inos hm
  rw [← hino₁] at hclear hroom
  have hback : ∀ x ∈ m₁.dir.entries, x ∈ m.dir.entries := by
    intro x hx
    have hlink : (m.ino, x) ∈ (s.without n.ino e.name e.ino).links :=
      mem_links_iff.mpr ⟨m₁, hm₁, hkind₁.trans hdir', hino₁, hx⟩
    obtain ⟨k, hk, -, hino, hx'⟩ :=
      mem_links_iff.mp (hperm₁.mem_iff.mpr (List.mem_cons_of_mem _ hlink))
    rwa [List.inj_on_of_nodup_map h.inos hk hm hino] at hx'
  have hsome₁ : ∀ ino ∈ target, ⟨name, ino⟩ ∈ m₁.dir.entries := by
    intro ino hino
    have hlink : (m.ino, (⟨name, ino⟩ : DirEntry)) ∈ s.links :=
      mem_links_iff.mpr ⟨m, hm, hdir', rfl, hsome ino hino⟩
    rcases List.mem_cons.mp (hperm₁.mem_iff.mp hlink) with heq | hlink
    · have hsame : (⟨name, ino⟩ : DirEntry) = e := congrArg Prod.snd heq
      rw [← hsame] at hne
      exact absurd hino hne
    · obtain ⟨k, hk, -, hino', hx'⟩ := mem_links_iff.mp hlink
      rwa [List.inj_on_of_nodup_map hbal₁.inos hk hm₁ (hino'.trans hino₁.symm)] at hx'
  obtain ⟨t, hrun, ht⟩ := hbal₁.unlinkNew_spec hm₁ (hkind₁.trans hdir') (by rwa [hino₁]) hsome₁
    (fun hnil x hx => hnone hnil x (hback x hx)) hclear
  obtain ⟨m₂, hm₂, hino₂, hkind₂⟩ := ht.frame.exists_inode hbal₁.inos hm₁
  have hkinds : (t.inode e.ino).kind = (s.inode e.ino).kind :=
    (ht.frame.kinds _).trans (hframe₁.kinds _)
  obtain ⟨k, hk, hkino⟩ := h.known (n.ino, e) (mem_links_iff.mpr ⟨n, hn, hdir, rfl, he⟩)
  obtain ⟨k', hk', hkino', -⟩ := (hframe₁.trans ht.frame).exists_inode h.inos hk
  have hfinal := ht.balanced.addEntry name hm₂ (hkind₂.trans (hkind₁.trans hdir'))
    (by rw [hino₂]; exact ht.alive) ⟨k', hk', hkino'.trans hkino⟩ (ht.free m₂ hm₂ hino₂)
    ⟨hname.1, hname.2, ((h.wellFormed n hn hdir).storable he).ino⟩ hfits fun hkind => by
      rw [hkinds] at hkind
      refine ht.room ?_ m₂ hm₂ hino₂
      rcases hroom hkind with ⟨ino, hino, htarget⟩ | hsmall
      · exact .inr ⟨ino, hino, (hframe₁.kinds ino).trans htarget⟩
      · rw [inode_of_mem hbal₁.inos hm₁] at hsmall
        exact .inl hsmall
  rw [hkinds, hino₂, hino₁] at hfinal
  obtain ⟨hbal, hperm⟩ := hfinal
  have hfound : ((s.inode n.ino).dir.entryDel e.name).1 = 0 := by
    rw [inode_of_mem h.inos hn]
    exact (h.wellFormed n hn hdir).readable.entryDel_found he
  refine ⟨_, ?_, hbal, ?_, ht.removed, hperm.mem_iff.mpr List.mem_cons_self,
    fun x hx hne₁ hne₂ => ?_⟩
  · have hdel : entryDel out.oldPages n.ino e.name (s.inode e.ino).kind s =
        .ret 0 (s.without n.ino e.name e.ino) := by
      rw [hold]
      exact entryDel_run hfound
    rw [hino₁] at hrun
    rw [osdfsRename, gets_bind, bind_ret hdel, if_neg (by decide), bind_ret hrun,
      if_neg (by decide), hpage]
    rfl
  · have hlast := frame_update (f := fun k => k.addEntry name e.ino (s.inode e.ino).kind)
      ht.balanced.inos hm₂ (fun _ => rfl) fun _ => rfl
    rw [hino₂, hino₁] at hlast
    exact (hframe₁.trans ht.frame).trans hlast
  · refine hperm.mem_iff.mpr (List.mem_cons_of_mem _ (ht.links x ?_ (by rwa [hino₁])))
    rcases List.mem_cons.mp (hperm₁.mem_iff.mp hx) with rfl | hx
    · exact absurd ⟨rfl, rfl⟩ hne₁
    · exact hx

end Rename

end Fs

end Ost.Osdfs
