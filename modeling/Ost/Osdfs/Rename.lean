import Ost.Osdfs.Gaps
import Ost.Osdfs.LinkRuns

/-!
# What is left of a rename that fails

`osdfs_rename` deletes the old name, unlinks the inode that has the new name, and adds the new name.
Nothing is undone: when the second or the third step fails the old name has gone.  `Completes` says
when all three succeed and the directories can be read afterwards as before.

The directories may have any gap that additions and deletions leave, and the counts may be wrong.  A
new name can go behind a gap, where it is not found, and a deletion can leave a gap that hides what
was listed.  A directory may be removed that has become empty only because its last entry is the one
that is renamed.
-/

namespace Ost.Osdfs

open Ost.Prog

/-! ## Atomicity -/

/-- A file system whose inodes have different numbers and whose directories can be read. -/
structure Fs.Legible (s : Fs) : Prop where
  inos : (s.inodes.map Inode.ino).Nodup
  dirs : ∀ n ∈ s.inodes, n.kind = .directory → n.dir.Legible

/-- No entry and no count has changed. -/
structure Fs.Untouched (s t : Fs) : Prop where
  links : t.links.Perm s.links
  nlinks : ∀ i, (t.inode i).nlink = (s.inode i).nlink

/-- The entry `e` of the directory `n` is now the entry `name` of the directory `m`, in place of
that of the inode `target`. -/
structure Fs.Renamed (s : Fs) (n m : Nat) (e : DirEntry) (name : Name) (target : Option Nat)
    (t : Fs) : Prop where
  links : ∃ rest, s.links.Perm ((n, e) :: (target.toList.map fun i => (m, ⟨name, i⟩)) ++ rest) ∧
    t.links.Perm ((m, ⟨name, e.ino⟩) :: rest)
  /-- `osdfs_readdir` comes past the new entry, and past what it came past before. -/
  listed : ∀ k, ∀ x ∈ (t.inode k).dir.entries,
    x ∈ (s.inode k).dir.listing ∨ k = m ∧ x = ⟨name, e.ino⟩ → x ∈ (t.inode k).dir.listing
  /-- Nothing was written past the end of a page. -/
  contained : ∀ k, k = n ∨ k = m → ∀ i < (t.inode k).dir.dirPages,
    ((t.inode k).dir.pages i).length ≤ pageCacheSize
  new : (t.inode m).dir.lookup name = some e.ino
  old : (t.inode n).dir.lookup e.name = none
  lost : ∀ i ∈ target, t.names i + 1 = s.names i ∧
    ((s.inode i).kind ≠ .directory → (t.inode i).nlink + 1 = (s.inode i).nlink)

/-- `osdfs_rename` returns, and has renamed the entry or changed nothing. -/
def Fs.RenameAtomic (s : Fs) (out : Outcomes) (n m : Nat) (e : DirEntry) (name : Name)
    (target : Option Nat) : Prop :=
  wp (osdfsRename out n e.name e.ino m name target)
    (fun rc t => (rc = 0 → s.Renamed n m e name target t) ∧ (rc ≠ 0 → s.Untouched t))
    (fun _ _ => False) s

/-- The count of an inode that loses its last name.  A directory has one for its own `.`, and may
have one for the entry `e` of the directory `n`. -/
def Fs.lastCount (s : Fs) (n : Nat) (e : DirEntry) (i : Nat) : Nat :=
  if (s.inode i).kind ≠ .directory then 1
  else if i = n ∧ (s.inode e.ino).kind = .directory then 3
  else 2

/-- The inode that has the new name can be unlinked when the entry `e` of the directory `n` is gone:
it is no directory or has no other entry, and its object is removed if this was its last name. -/
def Fs.Clears (s : Fs) (out : Outcomes) (n : Nat) (e : DirEntry) (target : Option Nat) : Prop :=
  ∀ i ∈ target,
    ((s.inode i).kind = .directory →
      out.numPages = true ∧ ∀ x ∈ (s.inode i).dir.entries, i = n ∧ x = e) ∧
    out.delPages = true ∧ ((s.inode i).nlink = s.lastCount n e i → out.remove = true)

/-- The entries of the directory `m` that `osdfs_rename` deletes before it adds one. -/
def deletedEntries (n m : Nat) (e : DirEntry) (name : Name) (target : Option Nat) :
    List DirEntry :=
  (if n = m then [e] else []) ++ target.toList.map fun i => ⟨name, i⟩

/-- The three steps succeed: the pages can be read, the new name fits in a page and does not go
behind a gap, the old one does not leave a gap in a directory to which nothing is added, and a file
that is replaced has a link to lose. -/
def Fs.Completes (s : Fs) (out : Outcomes) (n m : Inode) (e : DirEntry) (name : Name)
    (target : Option Nat) : Prop :=
  out.oldPages = true ∧ s.Clears out n.ino e target ∧ out.addPage = true ∧
    recLen name < pageCacheSize ∧
    m.dir.HasRoom (deletedEntries n.ino m.ino e name target) (recLen name) ∧
    (n.ino = m.ino ∨ n.dir.Gap ∨ ¬n.dir.LeavesGap e.name) ∧
    ∀ i ∈ target, (s.inode i).kind ≠ .directory → (s.inode i).nlink ≠ 0

theorem decCount_eq_iff {k c : Nat} (hc : c + 1 < nlinkModulus) : decCount k = c ↔ k = c + 1 := by
  rw [decCount]
  split <;> omega

theorem decCount_succ_iff {k : Nat} : decCount k + 1 = k ↔ k ≠ 0 := by
  rw [decCount, nlinkModulus]
  split <;> omega

namespace Fs

variable {s t u : Fs} {n m k : Inode} {e : DirEntry} {name : Name} {out : Outcomes}
  {target : Option Nat}

/-- Between the calls that keep the counts the file system is like this. -/
theorem Sound.legible (h : s.Sound) : s.Legible where
  inos := h.balanced.inos
  dirs n hn hkind := (h.balanced.wellFormed n hn hkind).legible

/-- An entry of a directory. -/
theorem mem_entries_of_mem_links (hinos : (s.inodes.map Inode.ino).Nodup) {x : Nat × DirEntry}
    (hx : x ∈ s.links) : x.2 ∈ (s.inode x.1).dir.entries := by
  obtain ⟨k, hk, -, hino, hmem⟩ := mem_links_iff.mp hx
  rwa [← hino, inode_of_mem hinos hk]

/-! ## Unlinking -/

/-- What `osdfs_unlink` does to the count of an inode. -/
def dropLinks (k : Inode) (j : Inode) : Inode :=
  if k.kind = .directory then j.decNlink.decNlink else j.decNlink

@[simp] theorem dropLinks_ino (j : Inode) : (dropLinks k j).ino = j.ino := by
  unfold dropLinks
  split <;> rfl

@[simp] theorem dropLinks_kind (j : Inode) : (dropLinks k j).kind = j.kind := by
  unfold dropLinks
  split <;> rfl

@[simp] theorem dropLinks_dir (j : Inode) : (dropLinks k j).dir = j.dir := by
  unfold dropLinks
  split <;> rfl

/-- The entry `name` of the directory `m` has gone, and the inode `k` has lost a link. -/
structure Gone (m : Inode) (name : Name) (k : Inode) (s t : Fs) : Prop where
  inos : t.inodes.map Inode.ino = s.inodes.map Inode.ino
  kinds : ∀ j, (t.inode j).kind = (s.inode j).kind
  links : s.links.Perm ((m.ino, ⟨name, k.ino⟩) :: t.links)
  dir : (t.inode m.ino).dir = (m.dir.entryDel name).2
  dirs : ∀ j, j ≠ m.ino → (t.inode j).dir = (s.inode j).dir
  nlink : (t.inode k.ino).nlink = (dropLinks k k).nlink

/-- The file system after the entry has been deleted and the count been changed. -/
def cleared (s : Fs) (m : Nat) (name : Name) (k : Inode) : Fs :=
  (s.update m fun j => j.delEntry name k.kind).update k.ino (dropLinks k)

section Unlink

variable (hinos : (s.inodes.map Inode.ino).Nodup) (hm : m ∈ s.inodes) (hdir : m.kind = .directory)
  (hk : k ∈ s.inodes) (hne : m.ino ≠ k.ino)

include hinos hm hk hne in
theorem inode_cleared (j : Nat) : (s.cleared m.ino name k).inode j =
    if j = k.ino then dropLinks k k
    else if j = m.ino then m.delEntry name k.kind else s.inode j := by
  have hdel : ∀ j, (s.update m.ino fun j => j.delEntry name k.kind).inode j =
      if j = m.ino then m.delEntry name k.kind else s.inode j :=
    inode_update (f := fun j => j.delEntry name k.kind) (fun _ => rfl) hm hinos
  have hk₁ : k ∈ (s.update m.ino fun j => j.delEntry name k.kind).inodes :=
    mem_update.mpr (.inr ⟨hk, hne.symm⟩)
  have hinos₁ : ((s.update m.ino fun j => j.delEntry name k.kind).inodes.map Inode.ino).Nodup := by
    rwa [update_map_ino (f := fun j => j.delEntry name k.kind) fun _ => rfl]
  rw [cleared, inode_update dropLinks_ino hk₁ hinos₁, hdel]

include hinos hm hdir hk hne in
/-- What is left. -/
theorem gone_cleared (hlegible : m.dir.Legible) (he : ⟨name, k.ino⟩ ∈ m.dir.entries) :
    Gone m name k s (s.cleared m.ino name k) := by
  have hinode := fun j => @inode_cleared s m k name hinos hm hk hne j
  have hentries := (hlegible.entryDel he).2.entries
  have hgetm := inode_of_mem hinos hm
  have hgetk := inode_of_mem hinos hk
  refine ⟨?_, fun j => ?_, ?_, ?_, fun j hj => ?_, ?_⟩
  · rw [cleared, update_map_ino dropLinks_ino,
      update_map_ino (f := fun j => j.delEntry name k.kind) fun _ => rfl]
  · rw [hinode]
    split
    · rename_i hj
      rw [dropLinks_kind, hj, hgetk]
    · split
      · rename_i hj
        rw [hj, hgetm]
        rfl
      · rfl
  · rw [cleared, links_update _ _ fun j => ⟨dropLinks_ino j, dropLinks_kind j, dropLinks_dir j⟩]
    exact links_delEntry hinos hm hdir k.kind hlegible.distinct he hentries
  · rw [hinode, if_neg hne, if_pos rfl]
    rfl
  · rw [hinode, if_neg hj]
    split
    · rename_i hj
      rw [dropLinks_dir, hj, hgetk]
    · rfl
  · rw [hinode, if_pos rfl]

include hinos hm hk hne in
/-- `osdfs_unlink` of an inode that is no directory or an empty one. -/
theorem osdfsUnlink_cleared (hlegible : m.dir.Legible) (he : ⟨name, k.ino⟩ ∈ m.dir.entries)
    (hempty : k.kind = .directory → out.numPages = true ∧ k.dir.entryNum = 0)
    (hpages : out.delPages = true) :
    osdfsUnlink out m.ino name k.ino s =
      if (dropLinks k k).nlink ≠ 0 then .ret 0 (s.cleared m.ino name k)
      else if out.remove then
        .ret 0 { s.cleared m.ino name k with removed := k.ino :: (s.cleared m.ino name k).removed }
      else .ret (-1) (s.cleared m.ino name k) := by
  have hfound : (m.dir.entryDel name).1 = 0 := (hlegible.entryDel he).1
  have hzero : ((s.cleared m.ino name k).inode k.ino).nlink = (dropLinks k k).nlink := by
    rw [inode_cleared hinos hm hk hne, if_pos rfl]
  rw [osdfsUnlink_eq, inode_of_mem hinos hk, ← hzero]
  by_cases hkind : k.kind = .directory
  · obtain ⟨hnum, hnone⟩ := hempty hkind
    rw [if_pos hkind, if_pos hnum, if_neg (not_not.mpr hnone)]
    refine dropName_eq hpages ?_ ?_
    · rw [inode_update (f := Inode.decNlink) (fun _ => rfl) hk hinos, if_neg hne,
        inode_of_mem hinos hm]
      exact hfound
    · have hcomm := update_comm (s := s) (f := Inode.decNlink)
        (g := fun j => j.delEntry name .directory) hne.symm (fun _ => rfl) fun _ => rfl
      have htwice : (fun j : Inode => j.decNlink.decNlink) = dropLinks k := by
        funext j
        rw [dropLinks, if_pos hkind]
      rw [hcomm, update_update (f := Inode.decNlink) fun _ => rfl, cleared, hkind, ← htwice]
  · rw [if_neg hkind]
    refine dropName_eq hpages ?_ ?_
    · rw [inode_of_mem hinos hm]
      exact hfound
    · have honce : Inode.decNlink = dropLinks k := by
        funext j
        rw [dropLinks, if_neg hkind]
      rw [cleared, honce]

end Unlink

/-- An inode can be unlinked, and its object is removed if need be. -/
def Drops (out : Outcomes) (k : Inode) : Prop :=
  (k.kind = .directory → out.numPages = true ∧ k.dir.entries = []) ∧ out.delPages = true ∧
    ((dropLinks k k).nlink = 0 → out.remove = true)

/-- A page that cannot be read ends `osdfs_unlink`. -/
theorem dropName_halts {dir ino : Nat} {kind : Kind} (h : out.delPages = false) :
    dropName out dir name ino kind s = .halt .badPage s := by
  rw [dropName, h]
  rfl

/-- `osdfs_unlink` deletes the entry, or fails and adds none. -/
theorem unlink_cases (hinos : (s.inodes.map Inode.ino).Nodup) (hm : m ∈ s.inodes)
    (hdir : m.kind = .directory) (hk : k ∈ s.inodes) (hlegible : m.dir.Legible)
    (hlegiblek : k.kind = .directory → k.dir.Legible) (he : ⟨name, k.ino⟩ ∈ m.dir.entries) :
    Drops out k ∧ (∃ t, osdfsUnlink out m.ino name k.ino s = .ret 0 t ∧ Gone m name k s t) ∨
    ¬Drops out k ∧ wp (osdfsUnlink out m.ino name k.ino) (fun rc t => rc ≠ 0 ∧ t.links ⊆ s.links)
      (fun _ _ => True) s := by
  by_cases hempty : k.kind = .directory → out.numPages = true ∧ k.dir.entries = []
  · have hne : m.ino ≠ k.ino := by
      intro heq
      obtain rfl := List.inj_on_of_nodup_map hinos hm hk heq
      rw [(hempty hdir).2] at he
      exact List.not_mem_nil he
    have hnum : k.kind = .directory → out.numPages = true ∧ k.dir.entryNum = 0 := fun hkind => by
      obtain ⟨hpages, hnone⟩ := hempty hkind
      exact ⟨hpages, by rw [(hlegiblek hkind).readable.entryNum, hnone, List.length_nil]⟩
    by_cases hdel : out.delPages = true
    · have hrun := osdfsUnlink_cleared hinos hm hk hne hlegible he hnum hdel
      have hgone := gone_cleared hinos hm hdir hk hne hlegible he
      by_cases hlast : (dropLinks k k).nlink = 0
      · rw [if_neg (not_not.mpr hlast)] at hrun
        by_cases hremove : out.remove = true
        · rw [if_pos hremove] at hrun
          exact .inl ⟨⟨hempty, hdel, fun _ => hremove⟩, _, hrun,
            hgone.inos, hgone.kinds, hgone.links, hgone.dir, hgone.dirs, hgone.nlink⟩
        · rw [if_neg hremove] at hrun
          refine .inr ⟨fun hdrops => hremove (hdrops.2.2 hlast), ?_⟩
          rw [wp, hrun]
          exact ⟨by decide, fun x hx => hgone.links.mem_iff.mpr (List.mem_cons_of_mem _ hx)⟩
      · rw [if_pos hlast] at hrun
        exact .inl ⟨⟨hempty, hdel, fun hzero => absurd hzero hlast⟩, _, hrun, hgone⟩
    · have hbad := Bool.eq_false_iff.mpr hdel
      refine .inr ⟨fun hdrops => hdel hdrops.2.1, ?_⟩
      rw [wp, osdfsUnlink_eq, inode_of_mem hinos hk]
      by_cases hkind : k.kind = .directory
      · rw [if_pos hkind, if_pos (hnum hkind).1, if_neg (not_not.mpr (hnum hkind).2),
          dropName_halts hbad]
        trivial
      · rw [if_neg hkind, dropName_halts hbad]
        trivial
  · refine .inr ⟨fun hdrops => hempty hdrops.1, ?_⟩
    obtain ⟨hkind, hnot⟩ := Classical.not_imp.mp hempty
    rw [wp, osdfsUnlink_eq, inode_of_mem hinos hk, if_pos hkind]
    by_cases hpages : out.numPages = true
    · have hfull : k.dir.entryNum ≠ 0 := by
        rw [(hlegiblek hkind).readable.entryNum]
        exact fun hnone => hnot ⟨hpages, List.length_eq_zero_iff.mp hnone⟩
      rw [if_pos hpages, if_pos hfull]
      exact ⟨by decide, fun x hx => hx⟩
    · rw [if_neg hpages]
      trivial

/-! ## The old entry is gone -/

section Without

variable (h : s.Legible) (hn : n ∈ s.inodes) (hdir : n.kind = .directory) (he : e ∈ n.dir.entries)

include h hn hdir he in
theorem links_without : s.links.Perm ((n.ino, e) :: (s.without n.ino e.name e.ino).links) := by
  have hlegible := h.dirs n hn hdir
  exact links_delEntry h.inos hn hdir _ hlegible.distinct he (hlegible.entryDel he).2.entries

include h in
theorem inos_without : ((s.without n.ino e.name e.ino).inodes.map Inode.ino).Nodup := by
  rw [without, update_map_ino (f := fun k => k.delEntry e.name (s.inode e.ino).kind) fun _ => rfl]
  exact h.inos

/-- An inode of the file system, after the old entry has gone. -/
def after (s : Fs) (n : Inode) (e : DirEntry) (k : Inode) : Inode :=
  if k.ino = n.ino then n.delEntry e.name (s.inode e.ino).kind else k

include h hn in
theorem after_spec (hk : k ∈ s.inodes) :
    s.after n e k ∈ (s.without n.ino e.name e.ino).inodes ∧ (s.after n e k).ino = k.ino ∧
      (s.after n e k).kind = k.kind := by
  unfold after
  split
  · rename_i heq
    obtain rfl := List.inj_on_of_nodup_map h.inos hk hn heq
    exact ⟨mem_update.mpr (.inl ⟨k, hk, rfl, rfl⟩), rfl, rfl⟩
  · exact ⟨mem_update.mpr (.inr ⟨hk, ‹_›⟩), rfl, rfl⟩

include h hn in
theorem inode_after (hk : k ∈ s.inodes) :
    (s.without n.ino e.name e.ino).inode k.ino = s.after n e k := by
  obtain ⟨hmem, hino, -⟩ := after_spec (e := e) h hn hk
  rw [← hino, inode_of_mem (inos_without h) hmem]

include h hn hdir he in
/-- Its entries. -/
theorem after_entries (hk : k ∈ s.inodes) (hkind : k.kind = .directory) :
    (s.after n e k).dir.Legible ∧ (s.after n e k).dir.entries =
      k.dir.entries.filter fun x => ¬(k.ino = n.ino ∧ x.name = e.name) := by
  unfold after
  split
  · rename_i heq
    obtain rfl := List.inj_on_of_nodup_map h.inos hk hn heq
    have hdeleted := ((h.dirs k hk hkind).entryDel he).2
    refine ⟨hdeleted.legible, hdeleted.entries.trans (List.filter_congr fun x _ => ?_)⟩
    simp
  · rename_i hne
    refine ⟨h.dirs k hk hkind, (List.filter_eq_self.mpr fun x _ => ?_).symm⟩
    simp [hne]

include h hn hdir he in
/-- Whether there is room for a record. -/
theorem after_room (hm : m ∈ s.inodes) {goes : List DirEntry} {r : Nat}
    (hgoes : m.ino = n.ino → ∀ g ∈ goes, g.name ≠ e.name) (hused : used goes ≤ r) :
    (s.after n e m).dir.HasRoom goes r ↔
      m.dir.HasRoom ((if n.ino = m.ino then [e] else []) ++ goes) r := by
  unfold after
  split
  · rename_i heq
    obtain rfl := List.inj_on_of_nodup_map h.inos hm hn heq
    rw [if_pos rfl]
    exact ((h.dirs m hm hdir).entryDel he).2.room (hgoes rfl) hused
  · rename_i hne
    rw [if_neg (Ne.symm hne), List.nil_append]

include h hn hdir in
/-- Its count, when it loses a link. -/
theorem dropLinks_after (hk : k ∈ s.inodes) :
    (dropLinks (s.after n e k) (s.after n e k)).nlink = 0 ↔
    k.nlink = s.lastCount n.ino e k.ino := by
  have hkind := (after_spec (e := e) h hn hk).2.2
  have hone : ∀ {c}, decCount c = 0 ↔ c = 1 := decCount_eq_iff (by decide)
  have htwo : ∀ {c}, decCount c = 1 ↔ c = 2 := decCount_eq_iff (by decide)
  have hthree : ∀ {c}, decCount c = 2 ↔ c = 3 := decCount_eq_iff (by decide)
  rw [dropLinks, hkind, lastCount, inode_of_mem h.inos hk]
  by_cases hd : k.kind = .directory
  · rw [if_pos hd, if_neg (not_not.mpr hd)]
    change decCount (decCount (s.after n e k).nlink) = 0 ↔ _
    rw [hone, htwo, after]
    by_cases heq : k.ino = n.ino
    · obtain rfl := List.inj_on_of_nodup_map h.inos hk hn heq
      rw [if_pos rfl]
      by_cases hsub : (s.inode e.ino).kind = .directory
      · rw [if_pos ⟨rfl, hsub⟩, hsub]
        exact hthree
      · rw [if_neg fun hcon => hsub hcon.2]
        change (if _ then _ else _) = 2 ↔ _
        rw [if_neg hsub]
    · rw [if_neg heq, if_neg fun hcon => heq hcon.1]
  · have hne : k.ino ≠ n.ino := fun heq =>
      hd (List.inj_on_of_nodup_map h.inos hk hn heq ▸ hdir)
    rw [if_neg hd, if_pos hd, after, if_neg hne]
    exact hone

include h hn hdir he in
/-- The condition, before the old entry has gone. -/
theorem drops_after_iff (hk : k ∈ s.inodes) :
    Drops out (s.after n e k) ↔ s.Clears out n.ino e (some k.ino) := by
  have hkind := (after_spec (e := e) h hn hk).2.2
  rw [Drops, hkind, dropLinks_after h hn hdir hk, Clears]
  simp only [Option.mem_some_iff, forall_eq', inode_of_mem h.inos hk]
  refine and_congr_left' (forall_congr' fun hd => and_congr_right' ?_)
  obtain ⟨-, hentries⟩ := after_entries h hn hdir he hk hd
  rw [hentries, List.filter_eq_nil_iff]
  refine forall₂_congr fun x hx => ?_
  rw [decide_eq_true_eq, not_not]
  refine and_congr_right fun heq => ⟨fun hname => ?_, fun hxe => hxe ▸ rfl⟩
  obtain rfl := List.inj_on_of_nodup_map h.inos hk hn heq
  exact List.inj_on_of_nodup_map (h.dirs k hk hdir).distinct hx he hname

/-- The new name is free, and there is room for it when there was room without the entries that have
gone. -/
structure Opened (m : Nat) (name : Name) (target : Option Nat) (s t : Fs) : Prop where
  inos : t.inodes.map Inode.ino = s.inodes.map Inode.ino
  kinds : ∀ j, (t.inode j).kind = (s.inode j).kind
  links : s.links.Perm ((target.toList.map fun i => (m, ⟨name, i⟩)) ++ t.links)
  legible : (t.inode m).dir.Legible
  room : (t.inode m).dir.HasRoom [] (recLen name) ↔
    (s.inode m).dir.HasRoom (target.toList.map fun i => ⟨name, i⟩) (recLen name)
  free : ∀ x ∈ (t.inode m).dir.entries, x.name ≠ name
  dirs : ∀ j, j ≠ m → (t.inode j).dir = (s.inode j).dir
  nlink : ∀ i ∈ target, (t.inode i).nlink = (dropLinks (s.inode i) (s.inode i)).nlink

variable (hm : m ∈ s.inodes) (hdir' : m.kind = .directory) (htarget : m.dir.lookup name = target)
  (hknown : ∀ i ∈ target, ∃ k ∈ s.inodes, k.ino = i) (hne : target ≠ some e.ino)

include h hn hdir he hm htarget hne in
/-- In one directory the two names are different. -/
theorem name_ne (hsame : m.ino = n.ino) : name ≠ e.name := by
  rintro rfl
  obtain rfl := List.inj_on_of_nodup_map h.inos hm hn hsame
  exact hne (htarget.symm.trans ((h.dirs m hm hdir).readable.lookup_of_mem he))

include h hn hdir he hm hdir' htarget hknown hne in
/-- The second step: the new name becomes free, or the call fails. -/
theorem unlinkNew_cases :
    s.Clears out n.ino e target ∧ (∃ t, unlinkNew out m.ino name target
        (s.without n.ino e.name e.ino) = .ret 0 t ∧
      Opened m.ino name target (s.without n.ino e.name e.ino) t) ∨
    ¬s.Clears out n.ino e target ∧ wp (unlinkNew out m.ino name target)
      (fun rc t => rc ≠ 0 ∧ t.links ⊆ (s.without n.ino e.name e.ino).links) (fun _ _ => True)
      (s.without n.ino e.name e.ino) := by
  have hinos := inos_without (n := n) (e := e) h
  obtain ⟨hm₁, hino₁, hkind₁⟩ := after_spec (e := e) h hn hm
  obtain ⟨hlegible, hentries⟩ := after_entries h hn hdir he hm hdir'
  have hget := inode_after (e := e) h hn hm
  rcases target with _ | i
  · refine .inl ⟨fun i hi => absurd hi (Option.not_mem_none i), _, rfl, rfl, fun _ => rfl, .refl _,
      ?_, Iff.rfl, ?_, fun _ _ => rfl, fun i hi => absurd hi (Option.not_mem_none i)⟩
    · rw [hget]
      exact hlegible
    · rw [hget, hentries]
      exact fun x hx => (h.dirs m hm hdir').readable.lookup_eq_none.mp htarget x
        (List.mem_of_mem_filter hx)
  · obtain ⟨k, hk, rfl⟩ := hknown i rfl
    have hmem := (h.dirs m hm hdir').readable.mem_of_lookup htarget
    obtain ⟨hk₁, hinok, hkindk⟩ := after_spec (e := e) h hn hk
    have hmem₁ : ⟨name, k.ino⟩ ∈ (s.after n e m).dir.entries := by
      rw [hentries]
      refine List.mem_filter.mpr ⟨hmem, decide_eq_true fun hcon => ?_⟩
      exact name_ne h hn hdir he hm htarget hne hcon.1 hcon.2
    have hcases := @unlink_cases (s.without n.ino e.name e.ino) (s.after n e m) (s.after n e k) name
      out hinos hm₁ (hkind₁.trans hdir') hk₁ hlegible
      (fun hkind => (after_entries h hn hdir he hk (hkindk ▸ hkind)).1) (by rwa [hinok])
    rw [hino₁, hinok, drops_after_iff h hn hdir he hk] at hcases
    refine hcases.imp_left ?_
    rintro ⟨hdrops, t, hrun, hgone⟩
    have hdeleted := (hlegible.entryDel hmem₁).2
    have hdirm := hgone.dir
    have hlinks := hgone.links
    have hdirs := hgone.dirs
    have hnlink := hgone.nlink
    rw [hino₁] at hdirm hdirs hlinks
    rw [hinok] at hlinks hnlink
    refine ⟨hdrops, t, hrun, hgone.inos, hgone.kinds, hlinks, ?_, ?_, ?_, hdirs, fun i hi => ?_⟩
    · rw [hdirm]
      exact hdeleted.legible
    · rw [hdirm, hget]
      exact hdeleted.room (fun g hg => absurd hg List.not_mem_nil) (Nat.zero_le _)
    · rw [hdirm, hdeleted.entries]
      intro x hx
      simpa using (List.mem_filter.mp hx).2
    · obtain rfl := Option.some.inj hi
      rw [inode_after h hn hk]
      exact hnlink

/-! ## The new name is added -/

/-- The third step. -/
def withEntry (u : Fs) (m : Nat) (name : Name) (ino : Nat) (kind : Kind) : Fs :=
  u.update m fun j => j.addEntry name ino kind

section Added

variable (kind : Kind) (hopen : Opened m.ino name target (s.without n.ino e.name e.ino) u)

include h hn hm hopen in
/-- The directory that gets the new name, and all inodes afterwards. -/
theorem opened_spec : (u.inodes.map Inode.ino).Nodup ∧ u.inode m.ino ∈ u.inodes ∧
    (u.inode m.ino).ino = m.ino ∧ (u.inode m.ino).kind = m.kind := by
  obtain ⟨hm₁, hino₁, hkind₁⟩ := after_spec (e := e) h hn hm
  have hinos : (u.inodes.map Inode.ino).Nodup := by
    rw [hopen.inos]
    exact inos_without h
  obtain ⟨k, hk, hino⟩ : ∃ k ∈ u.inodes, k.ino = m.ino := by
    rw [← List.mem_map, hopen.inos, ← hino₁]
    exact List.mem_map_of_mem hm₁
  rw [hopen.kinds, inode_after h hn hm, ← hino, inode_of_mem hinos hk]
  exact ⟨hinos, hk, rfl, hkind₁⟩

include h hn hm hopen in
theorem inode_withEntry (j : Nat) : (u.withEntry m.ino name e.ino kind).inode j =
    if j = m.ino then (u.inode m.ino).addEntry name e.ino kind else u.inode j := by
  obtain ⟨hinos, hmem, hino, -⟩ := opened_spec h hn hm hopen
  have hget := inode_update (f := fun j => j.addEntry name e.ino kind) (fun _ => rfl) hmem hinos j
  rwa [hino] at hget

include h hn hm hopen in
/-- The directory with the new name. -/
theorem dir_withEntry : ((u.withEntry m.ino name e.ino kind).inode m.ino).dir =
    (u.inode m.ino).dir.entryAdd name e.ino := by
  rw [inode_withEntry h hn hm kind hopen, if_pos rfl]
  rfl

include h hn hm hopen in
/-- The other directories. -/
theorem dir_withEntry_ne {j : Nat} (hj : j ≠ m.ino) :
    ((u.withEntry m.ino name e.ino kind).inode j).dir =
      ((s.without n.ino e.name e.ino).inode j).dir := by
  rw [inode_withEntry h hn hm kind hopen, if_neg hj, hopen.dirs j hj]

include h hn hm hopen in
/-- The old directory, if it is another one. -/
theorem dir_withEntry_old (hnm : n.ino ≠ m.ino) :
    ((u.withEntry m.ino name e.ino kind).inode n.ino).dir = (n.dir.entryDel e.name).2 := by
  rw [dir_withEntry_ne h hn hm kind hopen hnm, inode_after h hn hn, after, if_pos rfl]
  rfl

include h hn hm hopen in
/-- The new entry is there. -/
theorem mem_withEntry (hrenamed : s.Renamed n.ino m.ino e name target
      (u.withEntry m.ino name e.ino kind)) :
    ⟨name, e.ino⟩ ∈ ((u.withEntry m.ino name e.ino kind).inode m.ino).dir.entries := by
  obtain ⟨hinos, -⟩ := opened_spec h hn hm hopen
  obtain ⟨rest, -, hlinks⟩ := hrenamed.links
  have hinos' : ((u.withEntry m.ino name e.ino kind).inodes.map Inode.ino).Nodup := by
    rwa [withEntry, update_map_ino (f := fun j => j.addEntry name e.ino kind) fun _ => rfl]
  exact mem_entries_of_mem_links hinos' (hlinks.mem_iff.mpr List.mem_cons_self)

include h hn hm hdir hdir' hknown hopen in
/-- The count of a file that has been replaced. -/
theorem nlink_withEntry {i : Nat} (hi : i ∈ target) (hkind : (s.inode i).kind ≠ .directory) :
    ((u.withEntry m.ino name e.ino kind).inode i).nlink = decCount (s.inode i).nlink := by
  obtain ⟨k, hk, rfl⟩ := hknown i hi
  have hnlink := hopen.nlink _ hi
  rw [inode_of_mem h.inos hk] at hkind ⊢
  have hkn : k.ino ≠ n.ino := fun heq => hkind (List.inj_on_of_nodup_map h.inos hk hn heq ▸ hdir)
  have hkm : k.ino ≠ m.ino := fun heq => hkind (List.inj_on_of_nodup_map h.inos hk hm heq ▸ hdir')
  rw [inode_after h hn hk, after, if_neg hkn, dropLinks, if_neg hkind] at hnlink
  rw [inode_withEntry h hn hm kind hopen, if_neg hkm, hnlink]
  rfl

include h hn hdir he hm htarget hne hopen in
/-- There is room for the new name if there was room without the entries that have gone. -/
theorem opened_room : (u.inode m.ino).dir.HasRoom [] (recLen name) ↔
    m.dir.HasRoom (deletedEntries n.ino m.ino e name target) (recLen name) := by
  rw [hopen.room, inode_after h hn hm]
  refine after_room h hn hdir he hm (fun hsame g hg => ?_) ?_
  · obtain ⟨i, -, rfl⟩ := List.mem_map.mp hg
    exact name_ne h hn hdir he hm htarget hne hsame
  · cases target with
    | none => exact Nat.zero_le _
    | some i =>
      refine Nat.le_of_eq ?_
      rw [Option.toList_some, List.map_singleton, used_cons, used_nil, Nat.add_zero]

/-! ## When the name is too long, or goes behind a gap -/

section Failing

variable (hrenamed : s.Renamed n.ino m.ino e name target (u.withEntry m.ino name e.ino kind))

include h hn hm hopen hrenamed in
theorem fits_of_renamed : recLen name < pageCacheSize := by
  refine Nat.lt_of_not_le fun hlong => ?_
  have hmem := mem_withEntry h hn hm kind hopen hrenamed
  have hlisted := hrenamed.listed m.ino _ hmem (.inr ⟨rfl, rfl⟩)
  have hcontained := hrenamed.contained m.ino (.inr rfl)
  rw [dir_withEntry h hn hm kind hopen] at hlisted hcontained
  rcases hopen.legible.entryAdd_long e.ino hopen.free hlong with ⟨i, hi, hpage⟩ | hnone
  · exact Nat.not_le.mpr hpage (hcontained i hi)
  · exact hnone _ hlisted rfl

include h hn hm hopen hrenamed in
theorem room_of_renamed : (u.inode m.ino).dir.HasRoom [] (recLen name) := by
  by_contra hroom
  have hmem := mem_withEntry h hn hm kind hopen hrenamed
  rw [dir_withEntry h hn hm kind hopen,
    (hopen.legible.entryAdd_behind e.ino hroom).2] at hmem
  exact hopen.free _ hmem rfl

include h hn hdir he hm hopen hrenamed in
theorem gap_of_renamed : n.ino = m.ino ∨ n.dir.Gap ∨ ¬n.dir.LeavesGap e.name := by
  by_contra hnot
  obtain ⟨hnm, hgap⟩ := not_or.mp hnot
  obtain ⟨hnone, hleaves⟩ := not_or.mp hgap
  obtain ⟨x, hx, hbefore, hafter⟩ :=
    ((h.dirs n hn hdir).entryDel he).2.hidden hnone (not_not.mp hleaves)
  have hlisted := hrenamed.listed n.ino x
  rw [dir_withEntry_old h hn hm kind hopen hnm, inode_of_mem h.inos hn] at hlisted
  exact hafter (hlisted hx (.inl hbefore))

end Failing

/-! ## When there is room for the name -/

section Fitting

variable (hname : NameOk name) (hfits : recLen name < pageCacheSize)
  (hroom : (u.inode m.ino).dir.HasRoom [] (recLen name))

include h hn hdir he hm hopen hname hfits hroom in
/-- The directory with the new name. -/
theorem withEntry_entries : ((u.withEntry m.ino name e.ino kind).inode m.ino).dir.Legible ∧
    ((u.withEntry m.ino name e.ino kind).inode m.ino).dir.entries =
      (u.inode m.ino).dir.entries ++ [⟨name, e.ino⟩] ∧
    ((u.withEntry m.ino name e.ino kind).inode m.ino).dir.listing =
      ((u.withEntry m.ino name e.ino kind).inode m.ino).dir.entries := by
  have hstorable : (DirEntry.mk name e.ino).Storable :=
    ⟨hname.1, hname.2, ((h.dirs n hn hdir).storable he).ino⟩
  rw [dir_withEntry h hn hm kind hopen]
  exact hopen.legible.entryAdd hopen.free hstorable hfits hroom

include h hn hdir he hm hdir' hopen hname hfits hroom in
/-- The old entry and that of the replaced inode have gone, and the new one has come. -/
theorem withEntry_links : s.links.Perm
      ((n.ino, e) :: (target.toList.map fun i => (m.ino, ⟨name, i⟩)) ++ u.links) ∧
    (u.withEntry m.ino name e.ino kind).links.Perm ((m.ino, ⟨name, e.ino⟩) :: u.links) := by
  obtain ⟨hinos, hmem, hino, hkind⟩ := opened_spec h hn hm hopen
  obtain ⟨-, hentries, -⟩ := withEntry_entries h hn hdir he hm kind hopen hname hfits hroom
  rw [dir_withEntry h hn hm kind hopen] at hentries
  refine ⟨(links_without h hn hdir he).trans (hopen.links.cons _), ?_⟩
  have hlinks := links_addEntry hinos hmem (hkind.trans hdir') kind hentries
  rwa [hino] at hlinks

include h hn hdir he hm hdir' htarget hne hopen hname hfits hroom in
/-- The old name has gone. -/
theorem lookup_old :
    ((u.withEntry m.ino name e.ino kind).inode n.ino).dir.lookup e.name = none := by
  by_cases hnm : n.ino = m.ino
  · obtain rfl := List.inj_on_of_nodup_map h.inos hn hm hnm
    obtain ⟨hlegible, hentries, -⟩ := withEntry_entries h hn hdir he hm kind hopen hname hfits hroom
    have hleft := (after_entries h hn hdir he hn hdir).2
    have hget := inode_after (e := e) h hn hn
    obtain ⟨hinos, hmem, hino, hkind⟩ := opened_spec h hn hm hopen
    rw [hlegible.readable.lookup_eq_none, hentries]
    refine List.forall_mem_append.mpr ⟨fun x hx hxname => ?_, ?_⟩
    · have hlink : (n.ino, x) ∈ u.links :=
        mem_links_iff.mpr ⟨_, hmem, hkind.trans hdir, hino, hx⟩
      have hbefore := mem_entries_of_mem_links (inos_without h)
        (hopen.links.mem_iff.mpr (List.mem_append_right _ hlink))
      rw [hget, hleft] at hbefore
      exact of_decide_eq_true (List.mem_filter.mp hbefore).2 ⟨rfl, hxname⟩
    · exact List.forall_mem_singleton.mpr (name_ne h hn hdir he hn htarget hne rfl)
  · have hdeleted := ((h.dirs n hn hdir).entryDel he).2
    rw [dir_withEntry_old h hn hm kind hopen hnm, hdeleted.legible.readable.lookup_eq_none,
      hdeleted.entries]
    intro x hx
    simpa using (List.mem_filter.mp hx).2

include h hn hdir he hm hopen hname hfits hroom in
/-- What was listed is still listed. -/
theorem listed_withEntry (hgap : n.ino = m.ino ∨ n.dir.Gap ∨ ¬n.dir.LeavesGap e.name) {k : Nat}
    {x : DirEntry} (hx : x ∈ ((u.withEntry m.ino name e.ino kind).inode k).dir.entries)
    (hbefore : x ∈ (s.inode k).dir.listing ∨ k = m.ino ∧ x = ⟨name, e.ino⟩) :
    x ∈ ((u.withEntry m.ino name e.ino kind).inode k).dir.listing := by
  by_cases hkm : k = m.ino
  · subst hkm
    rwa [(withEntry_entries h hn hdir he hm kind hopen hname hfits hroom).2.2]
  · have hlisted := hbefore.resolve_right fun hcon => hkm hcon.1
    by_cases hkn : k = n.ino
    · subst hkn
      have hdeleted := ((h.dirs n hn hdir).entryDel he).2
      rw [dir_withEntry_old h hn hm kind hopen hkm] at hx ⊢
      rw [inode_of_mem h.inos hn] at hlisted
      refine hdeleted.listed (hgap.resolve_left hkm) x hlisted ?_
      rintro rfl
      rw [hdeleted.entries] at hx
      simpa using (List.mem_filter.mp hx).2
    · rw [dir_withEntry_ne h hn hm kind hopen hkm, inode_without h.inos hn, if_neg hkn]
      exact hlisted

include h hn hdir he hm hopen hname hfits hroom in
/-- Both directories can be read. -/
theorem legible_withEntry {k : Nat} (hk : k = n.ino ∨ k = m.ino) :
    ((u.withEntry m.ino name e.ino kind).inode k).dir.Legible := by
  by_cases hkm : k = m.ino
  · rw [hkm]
    exact (withEntry_entries h hn hdir he hm kind hopen hname hfits hroom).1
  · obtain rfl := hk.resolve_right hkm
    rw [dir_withEntry_old h hn hm kind hopen hkm]
    exact ((h.dirs n hn hdir).entryDel he).2.legible

end Fitting

include h hn hdir he hm hdir' htarget hknown hne hopen in
/-- The third step: when the entry is renamed. -/
theorem renamed_iff (hname : NameOk name) :
    s.Renamed n.ino m.ino e name target (u.withEntry m.ino name e.ino kind) ↔
      recLen name < pageCacheSize ∧
      m.dir.HasRoom (deletedEntries n.ino m.ino e name target) (recLen name) ∧
      (n.ino = m.ino ∨ n.dir.Gap ∨ ¬n.dir.LeavesGap e.name) ∧
      ∀ i ∈ target, (s.inode i).kind ≠ .directory → (s.inode i).nlink ≠ 0 := by
  rw [← opened_room h hn hdir he hm htarget hne hopen]
  constructor
  · intro hrenamed
    refine ⟨fits_of_renamed h hn hm kind hopen hrenamed,
      room_of_renamed h hn hm kind hopen hrenamed,
      gap_of_renamed h hn hdir he hm kind hopen hrenamed, fun i hi hkind => ?_⟩
    have hlost := (hrenamed.lost i hi).2 hkind
    rwa [nlink_withEntry h hn hdir hm hdir' hknown kind hopen hi hkind, decCount_succ_iff] at hlost
  · rintro ⟨hfits, hroom, hgap, hcounts⟩
    obtain ⟨hlegible, hentries, -⟩ := withEntry_entries h hn hdir he hm kind hopen hname hfits hroom
    obtain ⟨hbefore, hafter⟩ :=
      withEntry_links h hn hdir he hm hdir' kind hopen hname hfits hroom
    refine ⟨⟨u.links, hbefore, hafter⟩, fun k x hx hor =>
        listed_withEntry h hn hdir he hm kind hopen hname hfits hroom hgap hx hor,
      fun k hk i hi => Nat.le_of_eq
        ((legible_withEntry h hn hdir he hm kind hopen hname hfits hroom hk).length_page hi), ?_,
      lookup_old h hn hdir he hm hdir' htarget hne kind hopen hname hfits hroom,
      fun i hi => ⟨?_, fun hkind => ?_⟩⟩
    · refine hlegible.readable.lookup_of_mem (e := ⟨name, e.ino⟩) ?_
      rw [hentries]
      exact List.mem_append_right _ List.mem_cons_self
    · obtain rfl : target = some i := hi
      have hs := hbefore.countP_eq fun x => decide (x.2.ino = i)
      have ht := hafter.countP_eq fun x => decide (x.2.ino = i)
      rw [names, names, hs, ht]
      simp only [Option.toList_some, List.map_singleton, List.cons_append, List.nil_append,
        List.countP_cons, decide_true, if_true]
      omega
    · rw [nlink_withEntry h hn hdir hm hdir' hknown kind hopen hi hkind, decCount_succ_iff]
      exact hcounts i hi hkind

end Added

include h hn hdir he in
/-- When the old entry has gone, what was there before is changed. -/
theorem not_untouched (hlinks : t.links ⊆ (s.without n.ino e.name e.ino).links) :
    ¬s.Untouched t := by
  intro huntouched
  have hlink : (n.ino, e) ∈ s.links := mem_links_iff.mpr ⟨n, hn, hdir, rfl, he⟩
  have hmem := mem_entries_of_mem_links (inos_without h)
    (hlinks (huntouched.links.mem_iff.mpr hlink))
  rw [inode_after h hn hn, (after_entries h hn hdir he hn hdir).2] at hmem
  exact of_decide_eq_true (List.mem_filter.mp hmem).2 ⟨rfl, rfl⟩

end Without

end Fs

/-- A rename is atomic if and only if its three steps succeed. -/
theorem renameAtomic_iff {s : Fs} {n m : Inode} {e : DirEntry} {name : Name} {out : Outcomes}
    {target : Option Nat} (h : s.Legible) (hn : n ∈ s.inodes) (hdir : n.kind = .directory)
    (he : e ∈ n.dir.entries) (hm : m ∈ s.inodes) (hdir' : m.kind = .directory)
    (hname : NameOk name) (htarget : m.dir.lookup name = target)
    (hknown : ∀ i ∈ target, ∃ k ∈ s.inodes, k.ino = i) (hne : target ≠ some e.ino) :
    s.RenameAtomic out n.ino m.ino e name target ↔ s.Completes out n m e name target := by
  rw [Fs.RenameAtomic, osdfsRename, wp, gets_bind]
  by_cases hold : out.oldPages = true
  · have hdel : entryDel out.oldPages n.ino e.name (s.inode e.ino).kind s =
        .ret 0 (s.without n.ino e.name e.ino) := by
      rw [hold]
      refine Fs.entryDel_run ?_
      rw [inode_of_mem h.inos hn]
      exact (h.dirs n hn hdir).readable.entryDel_found he
    rw [bind_ret hdel, if_neg (by decide)]
    have hcases := @Fs.unlinkNew_cases s n m e name out target h hn hdir he hm hdir' htarget hknown
      hne
    rcases hcases with ⟨hclears, u, hrun, hopen⟩ | ⟨hnot, hfails⟩
    · rw [bind_ret hrun, if_neg (by decide)]
      by_cases hadd : out.addPage = true
      · rw [hadd]
        refine Iff.trans ?_ ((Fs.renamed_iff h hn hdir he hm hdir' htarget hknown hne
          (s.inode e.ino).kind hopen hname).trans ?_)
        · exact ⟨fun hpost => hpost.1 rfl,
            fun hpost => ⟨fun _ => hpost, fun hcon => absurd rfl hcon⟩⟩
        · exact ⟨fun hor => ⟨hold, hclears, hadd, hor⟩, fun hall => hall.2.2.2⟩
      · rw [Bool.eq_false_iff.mpr hadd]
        exact iff_of_false id fun hall => hadd hall.2.2.1
    · refine iff_of_false (fun hpost => ?_) fun hall => hnot hall.2.1
      cases hrun : unlinkNew out m.ino name target (s.without n.ino e.name e.ino) with
      | ret rc u =>
        obtain ⟨hrc, hlinks⟩ := hfails.of_ret hrun
        rw [bind_ret hrun, if_pos hrc] at hpost
        exact Fs.not_untouched h hn hdir he hlinks (hpost.2 (by decide))
      | halt f u =>
        rw [bind_halt hrun] at hpost
        exact hpost
  · rw [Bool.eq_false_iff.mpr hold]
    exact iff_of_false id fun hall => hold hall.1

instance decidableClears (s : Fs) (out : Outcomes) (n : Nat) (e : DirEntry) (target : Option Nat) :
    Decidable (s.Clears out n e target) :=
  inferInstanceAs (Decidable (∀ i ∈ target,
    ((s.inode i).kind = .directory →
      out.numPages = true ∧ ∀ x ∈ (s.inode i).dir.entries, i = n ∧ x = e) ∧
    out.delPages = true ∧ ((s.inode i).nlink = s.lastCount n e i → out.remove = true)))

instance decidableCompletes (s : Fs) (out : Outcomes) (n m : Inode) (e : DirEntry) (name : Name)
    (target : Option Nat) : Decidable (s.Completes out n m e name target) :=
  inferInstanceAs (Decidable (out.oldPages = true ∧ s.Clears out n.ino e target ∧
    out.addPage = true ∧ recLen name < pageCacheSize ∧
    m.dir.HasRoom (deletedEntries n.ino m.ino e name target) (recLen name) ∧
    (n.ino = m.ino ∨ n.dir.Gap ∨ ¬n.dir.LeavesGap e.name) ∧
    ∀ i ∈ target, (s.inode i).kind ≠ .directory → (s.inode i).nlink ≠ 0))

/-- A directory `a` is renamed to `b`, which is an empty directory. -/
theorem renameAtomic_empty : ∃ s : Fs, (s.inode rootUid).dir.lookup [98] = some 0xabc124 ∧
    s.RenameAtomic (goodOutcomes 0) rootUid rootUid ⟨[97], 0xabc123⟩ [98] (some 0xabc124) := by
  obtain ⟨s, hs, n, hn, hino, hdir, he, htarget, hknown, hcompletes⟩ :
      ∃ s, Reach linkNext (fun s e => Permitted s e ∧ LinkSafe s e) (.init true fun _ => []) s ∧
        ∃ n ∈ s.inodes, n.ino = rootUid ∧ n.kind = .directory ∧
          ⟨[97], 0xabc123⟩ ∈ n.dir.entries ∧ n.dir.lookup [98] = some 0xabc124 ∧
          (∃ k ∈ s.inodes, k.ino = 0xabc124) ∧
          s.Completes (goodOutcomes 0) n n ⟨[97], 0xabc123⟩ [98] (some 0xabc124) :=
    exists_reach [⟨.mkdir rootUid [97], goodOutcomes 0xabc123⟩,
      ⟨.mkdir rootUid [98], goodOutcomes 0xabc124⟩] (by decide +kernel)
  have hlegible := (linkSound_of_reach hs).legible
  rw [← hino]
  refine ⟨s, ?_, (renameAtomic_iff hlegible hn hdir he hn hdir (by simp [NameOk]) htarget
    (fun i hi => Option.some.inj hi ▸ hknown) (by decide)).mpr hcompletes⟩
  rw [inode_of_mem hlegible.inos hn]
  exact htarget

/-- A directory `a` is renamed to `b`, which is not empty: that fails, and `a` has gone. -/
theorem rename_loses : ∃ s, Reach linkNext (fun s e => Permitted s e ∧ LinkSafe s e)
    (.init true fun _ => []) s ∧
    (s.inode rootUid).dir.lookup [97] = some 0xabc123 ∧
    (s.inode rootUid).dir.lookup [98] = some 0xabc124 ∧
    (∃ t, osdfsRename (goodOutcomes 0) rootUid [97] 0xabc123 rootUid [98] (some 0xabc124) s =
      .ret (-1) t ∧ (t.inode rootUid).dir.lookup [97] = none) ∧
    ¬s.RenameAtomic (goodOutcomes 0) rootUid rootUid ⟨[97], 0xabc123⟩ [98] (some 0xabc124) := by
  obtain ⟨s, hs, ha, hb, hlink, t, hrun, hgone, hlost⟩ :
      ∃ s, Reach linkNext (fun s e => Permitted s e ∧ LinkSafe s e) (.init true fun _ => []) s ∧
        (s.inode rootUid).dir.lookup [97] = some 0xabc123 ∧
        (s.inode rootUid).dir.lookup [98] = some 0xabc124 ∧
        (rootUid, ⟨[97], 0xabc123⟩) ∈ s.links ∧
        ∃ t, osdfsRename (goodOutcomes 0) rootUid [97] 0xabc123 rootUid [98] (some 0xabc124) s =
          .ret (-1) t ∧ (t.inode rootUid).dir.lookup [97] = none ∧
            (rootUid, ⟨[97], 0xabc123⟩) ∉ t.links :=
    exists_reach [⟨.mkdir rootUid [97], goodOutcomes 0xabc123⟩,
      ⟨.mkdir rootUid [98], goodOutcomes 0xabc124⟩,
      ⟨.mknod 0xabc124 [99] .regular, goodOutcomes 0xabc125⟩] (by decide +kernel)
  refine ⟨s, hs, ha, hb, ⟨t, hrun, hgone⟩, fun hatomic => hlost ?_⟩
  have hpost := hatomic.of_ret hrun
  exact (hpost.2 (by decide)).links.mem_iff.mpr hlink

end Ost.Osdfs
