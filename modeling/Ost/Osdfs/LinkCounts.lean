import Mathlib.Data.List.Count
import Mathlib.Data.List.Perm.Basic
import Ost.Osdfs.Links

/-!
# Link counts

The count of a file is the number of entries that name it, and that of a directory is two more than
the number of its subdirectories.  Within a call an entry can be on its way from one directory to
another, or to its end; `Balanced owed` is the invariant with the inodes in `owed` counted as named
once more.
-/

namespace Ost.Osdfs

open Ost.Prog

/-! ## Lookups and updates -/

section Inodes

variable {s : Fs} {n : Inode} {f : Inode → Inode} {ino : Nat}

theorem links_of_mem {x : Nat × DirEntry} (hx : x ∈ n.links) :
    n.kind = .directory ∧ x.1 = n.ino ∧ x.2 ∈ n.dir.entries := by
  rw [Inode.links] at hx
  split at hx
  · obtain ⟨e, he, rfl⟩ := List.mem_map.mp hx
    exact ⟨‹_›, rfl, he⟩
  · exact absurd hx List.not_mem_nil

theorem mem_links_iff {x : Nat × DirEntry} : x ∈ s.links ↔
    ∃ n ∈ s.inodes, n.kind = .directory ∧ n.ino = x.1 ∧ x.2 ∈ n.dir.entries := by
  constructor
  · intro hx
    obtain ⟨n, hn, hx⟩ := List.mem_flatMap.mp hx
    obtain ⟨hkind, hino, he⟩ := links_of_mem hx
    exact ⟨n, hn, hkind, hino.symm, he⟩
  · rintro ⟨n, hn, hkind, hino, he⟩
    refine List.mem_flatMap.mpr ⟨n, hn, ?_⟩
    rw [Inode.links, if_pos hkind]
    exact List.mem_map.mpr ⟨x.2, he, by rw [hino]⟩

/-- The numbers of the inodes are different, so a number finds its inode. -/
theorem inode_of_mem (h : (s.inodes.map Inode.ino).Nodup) (hn : n ∈ s.inodes) :
    s.inode n.ino = n := by
  have hfind : s.inodes.find? (fun m => m.ino = n.ino) = some n := by
    have hsome : (s.inodes.find? fun m => m.ino = n.ino).isSome = true :=
      List.find?_isSome.mpr ⟨n, hn, decide_eq_true rfl⟩
    obtain ⟨m, hm⟩ := Option.isSome_iff_exists.mp hsome
    have hino : m.ino = n.ino := by simpa using List.find?_some hm
    rw [hm, List.inj_on_of_nodup_map h (List.mem_of_find?_eq_some hm) hn hino]
  rw [Fs.inode, hfind]
  rfl

/-- Changing one inode leaves the others. -/
theorem update_split (h : (s.inodes.map Inode.ino).Nodup) (hn : n ∈ s.inodes) :
    ∃ A B, s.inodes = A ++ n :: B ∧ ∀ f, (s.update n.ino f).inodes = A ++ f n :: B := by
  obtain ⟨A, B, hsplit⟩ := List.append_of_mem hn
  refine ⟨A, B, hsplit, fun f => ?_⟩
  rw [hsplit, List.map_append, List.map_cons] at h
  have hnot := (List.nodup_cons.mp (List.nodup_middle.mp h)).1
  rw [← List.map_append] at hnot
  have hother : ∀ m ∈ A ++ B, (if m.ino = n.ino then f m else m) = m := by
    intro m hm
    refine if_neg fun heq => hnot ?_
    rw [← heq]
    exact List.mem_map_of_mem hm
  rw [Fs.update, hsplit]
  simp only [List.map_append, List.map_cons, if_true]
  rw [List.map_congr_left fun m hm => hother m (List.mem_append_left _ hm),
    List.map_congr_left fun m hm => hother m (List.mem_append_right _ hm),
    List.map_id', List.map_id']

theorem update_map_ino (hf : ∀ m, (f m).ino = m.ino) :
    (s.update ino f).inodes.map Inode.ino = s.inodes.map Inode.ino := by
  rw [Fs.update, List.map_map]
  refine List.map_congr_left fun m _ => ?_
  rw [Function.comp_apply]
  split
  · exact hf m
  · rfl

theorem mem_update {m : Inode} : m ∈ (s.update ino f).inodes ↔
    (∃ n ∈ s.inodes, n.ino = ino ∧ m = f n) ∨ (m ∈ s.inodes ∧ m.ino ≠ ino) := by
  constructor
  · intro hm
    obtain ⟨n, hn, rfl⟩ := List.mem_map.mp hm
    split
    · exact .inl ⟨n, hn, ‹_›, rfl⟩
    · exact .inr ⟨hn, ‹_›⟩
  · rintro (⟨n, hn, hino, rfl⟩ | ⟨hm, hne⟩)
    · exact List.mem_map.mpr ⟨n, hn, if_pos hino⟩
    · exact List.mem_map.mpr ⟨m, hm, if_neg hne⟩

theorem eq_or_of_mem_update (h : (s.inodes.map Inode.ino).Nodup) (hn : n ∈ s.inodes) {m : Inode}
    (hm : m ∈ (s.update n.ino f).inodes) : m = f n ∨ (m ∈ s.inodes ∧ m.ino ≠ n.ino) := by
  rcases mem_update.mp hm with ⟨m', hm', heq, rfl⟩ | hm
  · rw [List.inj_on_of_nodup_map h hm' hn heq]
    exact .inl rfl
  · exact .inr hm

/-- The inode after a change. -/
theorem inode_update (hf : ∀ m, (f m).ino = m.ino) (hn : n ∈ s.inodes)
    (h : (s.inodes.map Inode.ino).Nodup) (j : Nat) :
    (s.update n.ino f).inode j = if j = n.ino then f n else s.inode j := by
  have hnodup : ((s.update n.ino f).inodes.map Inode.ino).Nodup := by rwa [update_map_ino hf]
  split
  · rename_i hj
    subst hj
    have hmem : f n ∈ (s.update n.ino f).inodes := mem_update.mpr (.inl ⟨n, hn, rfl, rfl⟩)
    have hget := inode_of_mem hnodup hmem
    rwa [hf] at hget
  · rename_i hj
    rw [Fs.inode, Fs.inode]
    congr 1
    change List.find? _ (s.inodes.map _) = _
    rw [List.find?_map]
    have hsame : ∀ m : Inode, (if m.ino = n.ino then f m else m).ino = m.ino := fun m => by
      split
      · exact hf m
      · rfl
    have hcomp : ((fun m : Inode => decide (m.ino = j)) ∘
        fun m => if m.ino = n.ino then f m else m) = fun m => decide (m.ino = j) := by
      funext m
      rw [Function.comp_apply, hsame]
    rw [hcomp]
    cases hfind : s.inodes.find? (fun m => m.ino = j) with
    | none => rfl
    | some m =>
      have hm : m.ino = j := by simpa using List.find?_some hfind
      exact congrArg some (if_neg (by rw [hm]; exact hj))

/-- The type of an inode does not change. -/
theorem kind_update (hf : ∀ m, (f m).ino = m.ino) (hkind : ∀ m, (f m).kind = m.kind)
    (hn : n ∈ s.inodes) (h : (s.inodes.map Inode.ino).Nodup) (j : Nat) :
    ((s.update n.ino f).inode j).kind = (s.inode j).kind := by
  rw [inode_update hf hn h]
  split
  · rename_i hj
    rw [hkind, hj, inode_of_mem h hn]
  · rfl

/-- Two inodes can be changed in either order. -/
theorem update_comm {g : Inode → Inode} {i j : Nat} (hij : i ≠ j) (hf : ∀ m, (f m).ino = m.ino)
    (hg : ∀ m, (g m).ino = m.ino) : (s.update i f).update j g = (s.update j g).update i f := by
  rw [Fs.update, Fs.update, Fs.update, Fs.update]
  simp only [List.map_map]
  congr 1
  refine List.map_congr_left fun m _ => ?_
  simp only [Function.comp_apply]
  by_cases hi : m.ino = i
  · have hmj : m.ino ≠ j := by rwa [hi]
    have hfj : (f m).ino ≠ j := by rwa [hf]
    rw [if_pos hi, if_neg hmj, if_neg hfj, if_pos hi]
  · by_cases hj : m.ino = j
    · have hgi : (g m).ino ≠ i := by rwa [hg]
      rw [if_neg hi, if_pos hj, if_neg hgi]
    · rw [if_neg hi, if_neg hj, if_neg hi]

end Inodes

/-! ## The entries -/

/-- A file system with one more inode. -/
def Fs.withNew (s : Fs) (new : Inode) : Fs := { s with inodes := s.inodes ++ [new] }

section Links

variable {s s' : Fs} {n : Inode} {f : Inode → Inode} {ino : Nat} {name : Name} {e : DirEntry}

theorem incCount_of_lt {k : Nat} (h : k + 1 < nlinkModulus) : incCount k = k + 1 :=
  if_neg (Nat.ne_of_lt h)

theorem decCount_of_pos {k : Nat} (h : 0 < k) : decCount k = k - 1 :=
  if_neg (Nat.ne_of_gt h)

@[simp] theorem addEntry_ino (kind : Kind) : (n.addEntry name ino kind).ino = n.ino := rfl

@[simp] theorem addEntry_kind (kind : Kind) : (n.addEntry name ino kind).kind = n.kind := rfl

@[simp] theorem delEntry_ino (kind : Kind) : (n.delEntry name kind).ino = n.ino := rfl

@[simp] theorem delEntry_kind (kind : Kind) : (n.delEntry name kind).kind = n.kind := rfl

/-- A change that leaves the directories leaves the entries. -/
theorem links_update (s : Fs) (ino : Nat)
    (hf : ∀ m, (f m).ino = m.ino ∧ (f m).kind = m.kind ∧ (f m).dir = m.dir) :
    (s.update ino f).links = s.links := by
  rw [Fs.links, Fs.links, Fs.update, List.flatMap_map]
  refine List.flatMap_congr fun m _ => ?_
  split
  · obtain ⟨hino, hkind, hdir⟩ := hf m
    rw [Inode.links, Inode.links, hino, hkind, hdir]
  · rfl

/-- An entry comes to a directory. -/
theorem links_addEntry (h : (s.inodes.map Inode.ino).Nodup) (hn : n ∈ s.inodes)
    (hkind : n.kind = .directory) (kind : Kind)
    (hentries : (n.dir.entryAdd name ino).entries = n.dir.entries ++ [⟨name, ino⟩]) :
    (s.update n.ino fun m => m.addEntry name ino kind).links.Perm
      ((n.ino, ⟨name, ino⟩) :: s.links) := by
  obtain ⟨A, B, hsplit, hupdate⟩ := update_split h hn
  have hlinks : (n.addEntry name ino kind).links = n.links ++ [(n.ino, ⟨name, ino⟩)] := by
    rw [Inode.links, Inode.links, addEntry_kind, addEntry_ino, if_pos hkind, if_pos hkind]
    change ((n.dir.entryAdd name ino).entries.map _) = _
    rw [hentries, List.map_append]
    rfl
  rw [Fs.links, Fs.links, hupdate, hsplit, List.flatMap_append, List.flatMap_cons, hlinks,
    List.flatMap_append, List.flatMap_cons, ← List.append_assoc, ← List.append_assoc,
    ← List.append_assoc]
  exact ((List.perm_append_singleton _ _).append_right _)

/-- What is left without an entry. -/
theorem perm_cons_filter {l : List DirEntry} (hnodup : (l.map DirEntry.name).Nodup) (he : e ∈ l) :
    l.Perm (e :: l.filter fun x => x.name ≠ e.name) := by
  obtain ⟨a, b, rfl⟩ := List.append_of_mem he
  rw [List.map_append, List.map_cons] at hnodup
  have hnot := (List.nodup_cons.mp (List.nodup_middle.mp hnodup)).1
  rw [← List.map_append] at hnot
  have hkeep : ∀ x ∈ a ++ b, decide (x.name ≠ e.name) = true := by
    intro x hx
    refine decide_eq_true fun heq => hnot ?_
    rw [← heq]
    exact List.mem_map_of_mem hx
  rw [List.filter_append, List.filter_cons_of_neg (by simp), ← List.filter_append,
    List.filter_eq_self.mpr hkeep]
  exact List.perm_middle

/-- An entry leaves a directory. -/
theorem links_delEntry (h : (s.inodes.map Inode.ino).Nodup) (hn : n ∈ s.inodes)
    (hkind : n.kind = .directory) (kind : Kind)
    (hdistinct : (n.dir.entries.map DirEntry.name).Nodup)
    (he : e ∈ n.dir.entries)
    (hentries : (n.dir.entryDel e.name).2.entries = n.dir.entries.filter fun x => x.name ≠ e.name) :
    s.links.Perm ((n.ino, e) :: (s.update n.ino fun m => m.delEntry e.name kind).links) := by
  obtain ⟨A, B, hsplit, hupdate⟩ := update_split h hn
  have hlinks : n.links.Perm ((n.ino, e) :: (n.delEntry e.name kind).links) := by
    rw [Inode.links, Inode.links, delEntry_kind, delEntry_ino, if_pos hkind, if_pos hkind]
    change (n.dir.entries.map _).Perm (_ :: (n.dir.entryDel e.name).2.entries.map _)
    rw [hentries]
    exact (perm_cons_filter hdistinct he).map _
  rw [Fs.links, Fs.links, hupdate, hsplit, List.flatMap_append, List.flatMap_cons,
    List.flatMap_append, List.flatMap_cons]
  refine (((hlinks.append_right _).append_left _).trans ?_)
  exact List.perm_middle

/-- A new inode has no entries. -/
theorem links_withNew (s : Fs) {new : Inode} (hempty : new.dir.entries = []) :
    (s.withNew new).links = s.links := by
  have hnone : new.links = [] := by
    rw [Inode.links, hempty]
    split <;> rfl
  rw [Fs.links, Fs.links, Fs.withNew, List.flatMap_append, List.flatMap_cons, hnone]
  exact List.append_nil _

/-- The entries that name an inode, when one more entry has come. -/
theorem names_of_perm {x : Nat × DirEntry} (h : s'.links.Perm (x :: s.links)) (i : Nat) :
    s'.names i = s.names i + if x.2.ino = i then 1 else 0 := by
  rw [Fs.names, h.countP_eq, List.countP_cons, Fs.names]
  simp only [decide_eq_true_eq]

/-- The subdirectories, when one more entry has come. -/
theorem subdirs_of_perm {x : Nat × DirEntry} (h : s'.links.Perm (x :: s.links))
    (hkind : ∀ j, (s'.inode j).kind = (s.inode j).kind) (d : Nat) :
    s'.subdirs d = s.subdirs d +
      if x.1 = d ∧ (s.inode x.2.ino).kind = .directory then 1 else 0 := by
  rw [Fs.subdirs, h.countP_eq, List.countP_cons, Fs.subdirs]
  simp only [hkind, decide_eq_true_eq]

/-- An empty directory has no subdirectories. -/
theorem subdirs_eq_zero (h : (s.inodes.map Inode.ino).Nodup) (hn : n ∈ s.inodes)
    (hempty : n.dir.entries = []) : s.subdirs n.ino = 0 := by
  refine List.countP_eq_zero.mpr fun x hx => ?_
  obtain ⟨k, hk, -, hino, hmem⟩ := mem_links_iff.mp hx
  by_cases hxn : x.1 = n.ino
  · have hkn : k = n := List.inj_on_of_nodup_map h hk hn (hino.trans hxn)
    rw [hkn, hempty] at hmem
    exact absurd hmem List.not_mem_nil
  · simp only [hxn, false_and, decide_false, Bool.false_eq_true, not_false_iff]

end Links

/-! ## The invariant -/

/-- What is said about the counts: the count of a file is the number of entries that name it, that
of a directory is two more than the number of its subdirectories, and an object has been removed if
nothing names it any more. -/
structure Fs.Linked (s : Fs) : Prop where
  files : ∀ n ∈ s.inodes, n.kind ≠ .directory → n.nlink = s.names n.ino
  dirs : ∀ n ∈ s.inodes, n.kind = .directory → n.ino ∉ s.removed → n.nlink = 2 + s.subdirs n.ino
  removed : ∀ n ∈ s.inodes, n.ino ≠ rootUid → (n.ino ∈ s.removed ↔ s.names n.ino = 0)

/-- The names of an inode, with those that are on their way. -/
def Fs.held (s : Fs) (owed : List Nat) (ino : Nat) : Nat := s.names ino + owed.count ino

/-- The invariant within a call. -/
structure Fs.Balanced (s : Fs) (owed : List Nat) : Prop where
  inos : (s.inodes.map Inode.ino).Nodup
  wellFormed : ∀ n ∈ s.inodes, n.kind = .directory → n.dir.WellFormed
  known : ∀ x ∈ s.links, ∃ n ∈ s.inodes, n.ino = x.2.ino
  gone : ∀ i ∈ s.removed, ∃ n ∈ s.inodes, n.ino = i
  single : ∀ i, s.held owed i ≤ 1
  root : s.held owed rootUid = 0
  small : ∀ n ∈ s.inodes, n.nlink < nlinkModulus
  files : ∀ n ∈ s.inodes, n.kind ≠ .directory → n.nlink = s.held owed n.ino
  dirs : ∀ n ∈ s.inodes, n.kind = .directory → n.ino ∉ s.removed → n.nlink = 2 + s.subdirs n.ino
  removed : ∀ n ∈ s.inodes, n.ino ≠ rootUid → (n.ino ∈ s.removed ↔ s.held owed n.ino = 0)

namespace Fs.Balanced

variable {s : Fs} {owed : List Nat} {n : Inode} {ino : Nat} {name : Name}

/-- A directory changes. -/
theorem change {owed' : List Nat} {f : Inode → Inode} (h : s.Balanced owed) (hn : n ∈ s.inodes)
    (hdir : n.kind = .directory) (hf : ∀ m, (f m).ino = m.ino) (hkind : ∀ m, (f m).kind = m.kind)
    (hwell : (f n).dir.WellFormed) (hsmall : (f n).nlink < nlinkModulus)
    (hnlink : (f n).nlink = 2 + (s.update n.ino f).subdirs n.ino)
    (hknown : ∀ x ∈ (s.update n.ino f).links, ∃ m ∈ s.inodes, m.ino = x.2.ino)
    (hheld : ∀ i, (s.update n.ino f).held owed' i = s.held owed i)
    (hsub : ∀ d, d ≠ n.ino → (s.update n.ino f).subdirs d = s.subdirs d) :
    (s.update n.ino f).Balanced owed' := by
  have hmem := fun m (hm : m ∈ (s.update n.ino f).inodes) => eq_or_of_mem_update h.inos hn hm
  have hstay : ∀ i, (∃ m ∈ s.inodes, m.ino = i) → ∃ m ∈ (s.update n.ino f).inodes, m.ino = i := by
    rintro i hi
    have hi' : i ∈ (s.update n.ino f).inodes.map Inode.ino := by
      rw [update_map_ino hf]
      exact List.mem_map.mpr hi
    exact List.mem_map.mp hi'
  refine ⟨?_, ?_, ?_, ?_, ?_, ?_, ?_, ?_, ?_, ?_⟩
  · rw [update_map_ino hf]
    exact h.inos
  · intro m hm hm'
    rcases hmem m hm with rfl | ⟨hm, -⟩
    · exact hwell
    · exact h.wellFormed m hm hm'
  · exact fun x hx => hstay _ (hknown x hx)
  · exact fun i hi => hstay i (h.gone i hi)
  · exact fun i => (hheld i).trans_le (h.single i)
  · exact (hheld rootUid).trans h.root
  · intro m hm
    rcases hmem m hm with rfl | ⟨hm, -⟩
    · exact hsmall
    · exact h.small m hm
  · intro m hm hm'
    rw [hheld]
    rcases hmem m hm with rfl | ⟨hm, -⟩
    · exact absurd ((hkind n).trans hdir) hm'
    · exact h.files m hm hm'
  · intro m hm hm' hlive
    rcases hmem m hm with rfl | ⟨hm, hne⟩
    · rw [hf]
      exact hnlink
    · rw [hsub _ hne]
      exact h.dirs m hm hm' hlive
  · intro m hm hm'
    rw [hheld]
    rcases hmem m hm with rfl | ⟨hm, -⟩
    · rw [hf] at hm' ⊢
      exact h.removed n hn hm'
    · exact h.removed m hm hm'

/-- An entry that is on its way comes to a directory. -/
theorem addEntry (h : s.Balanced (ino :: owed)) (name : Name) (hn : n ∈ s.inodes)
    (hdir : n.kind = .directory)
    (hlive : n.ino ∉ s.removed) (hino : ∃ m ∈ s.inodes, m.ino = ino)
    (hnew : ∀ e ∈ n.dir.entries, e.name ≠ name)
    (hstorable : (DirEntry.mk name ino).Storable) (hfits : recLen name < pageCacheSize)
    (hroom : (s.inode ino).kind = .directory → n.nlink + 1 < nlinkModulus) :
    let s' := s.update n.ino fun m => m.addEntry name ino (s.inode ino).kind
    s'.Balanced owed ∧ s'.links.Perm ((n.ino, ⟨name, ino⟩) :: s.links) := by
  obtain ⟨hwell, hentries⟩ := (h.wellFormed n hn hdir).entryAdd hnew hstorable hfits
  generalize hkind : (s.inode ino).kind = kind at hroom
  have hperm := links_addEntry h.inos hn hdir kind hentries
  have hsub := subdirs_of_perm hperm (kind_update (f := fun m => m.addEntry name ino kind)
    (fun _ => rfl) (fun _ => rfl) hn h.inos)
  have hnlink := h.dirs n hn hdir hlive
  have hcount : (n.addEntry name ino kind).nlink =
      n.nlink + if kind = .directory then 1 else 0 := by
    change (if kind = .directory then incCount n.nlink else n.nlink) = _
    split
    · exact incCount_of_lt (hroom ‹_›)
    · rfl
  refine ⟨h.change hn hdir (fun _ => rfl) (fun _ => rfl) hwell ?_ ?_ ?_ ?_ ?_, hperm⟩
  · rw [hcount]
    split
    · exact hroom ‹_›
    · exact h.small n hn
  · rw [hcount, hsub, hnlink, hkind, Nat.add_assoc]
    simp only [true_and]
  · intro x hx
    rcases List.mem_cons.mp (hperm.mem_iff.mp hx) with rfl | hx
    · exact hino
    · exact h.known x hx
  · intro i
    rw [Fs.held, Fs.held, names_of_perm hperm, List.count_cons, Nat.add_assoc,
      Nat.add_comm (ite ..)]
    simp only [beq_iff_eq]
  · intro d hd
    rw [hsub, if_neg fun hx => hd hx.1.symm, Nat.add_zero]

/-- An entry leaves a directory, and is on its way. -/
theorem delEntry (h : s.Balanced owed) (hn : n ∈ s.inodes) (hdir : n.kind = .directory)
    (hlive : n.ino ∉ s.removed) {e : DirEntry} (he : e ∈ n.dir.entries)
    (hgap : ¬n.dir.LeavesGap e.name) :
    let s' := s.update n.ino fun m => m.delEntry e.name (s.inode e.ino).kind
    s'.Balanced (e.ino :: owed) ∧ s.links.Perm ((n.ino, e) :: s'.links) := by
  obtain ⟨-, hwell, hentries⟩ := (h.wellFormed n hn hdir).entryDel he hgap
  generalize hkind : (s.inode e.ino).kind = kind
  have hperm := links_delEntry h.inos hn hdir kind (h.wellFormed n hn hdir).distinct he hentries
  have hkinds := kind_update (f := fun m => m.delEntry e.name kind) (fun _ => rfl) (fun _ => rfl)
    hn h.inos
  have hsub := subdirs_of_perm hperm fun j => (hkinds j).symm
  simp only [hkinds, hkind] at hsub
  have hnlink := h.dirs n hn hdir hlive
  have hself := hsub n.ino
  simp only [true_and] at hself
  have hcount : (n.delEntry e.name kind).nlink +
    (if kind = .directory then 1 else 0) = n.nlink := by
    change (if kind = .directory then decCount n.nlink else n.nlink) + _ = _
    split
    · rw [decCount_of_pos (by omega)]
      omega
    · rfl
  refine ⟨h.change hn hdir (fun _ => rfl) (fun _ => rfl) hwell ?_ ?_ ?_ ?_ ?_, hperm⟩
  · exact Nat.lt_of_le_of_lt (Nat.le.intro hcount) (h.small n hn)
  · omega
  · intro x hx
    exact h.known x (hperm.mem_iff.mpr (List.mem_cons_of_mem _ hx))
  · intro i
    have hnames := names_of_perm hperm i
    rw [Fs.held, Fs.held, hnames, List.count_cons, Nat.add_assoc, Nat.add_comm (ite ..)]
    simp only [beq_iff_eq]
  · intro d hd
    rw [hsub, if_neg fun hx => hd hx.1.symm, Nat.add_zero]

/-- The last name of an inode has gone, and its object has been removed. -/
theorem settle {f : Inode → Inode} (h : s.Balanced (n.ino :: owed)) (hn : n ∈ s.inodes)
    (hf : ∀ m, (f m).ino = m.ino ∧ (f m).kind = m.kind ∧ (f m).dir = m.dir)
    (hnlink : (f n).nlink = 0) :
    Fs.Balanced { s.update n.ino f with removed := n.ino :: s.removed } owed := by
  have hmem := fun m (hm : m ∈ (s.update n.ino f).inodes) => eq_or_of_mem_update h.inos hn hm
  have hlinks := links_update s n.ino hf
  have hkinds := kind_update (fun m => (hf m).1) (fun m => (hf m).2.1) hn h.inos
  have hnames : ∀ i, (s.update n.ino f).names i = s.names i := fun i => by
    rw [Fs.names, hlinks, Fs.names]
  have hsub : ∀ d, (s.update n.ino f).subdirs d = s.subdirs d := fun d => by
    rw [Fs.subdirs, hlinks, Fs.subdirs]
    simp only [hkinds]
  have hother : ∀ i, i ≠ n.ino → s.held (n.ino :: owed) i = s.held owed i := fun i hi => by
    rw [Fs.held, Fs.held, List.count_cons_of_ne (Ne.symm hi)]
  have hself : s.held owed n.ino = 0 := by
    have hone := h.single n.ino
    rw [Fs.held, List.count_cons_self] at hone
    rw [Fs.held]
    omega
  have hheld : ∀ i, Fs.held { s.update n.ino f with removed := n.ino :: s.removed } owed i =
      s.held owed i := fun i => congrArg (· + _) (hnames i)
  have hstay : ∀ i, (∃ m ∈ s.inodes, m.ino = i) → ∃ m ∈ (s.update n.ino f).inodes, m.ino = i := by
    rintro i hi
    have hi' : i ∈ (s.update n.ino f).inodes.map Inode.ino := by
      rw [update_map_ino fun m => (hf m).1]
      exact List.mem_map.mpr hi
    exact List.mem_map.mp hi'
  refine ⟨?_, ?_, ?_, ?_, ?_, ?_, ?_, ?_, ?_, ?_⟩
  · change ((s.update n.ino f).inodes.map Inode.ino).Nodup
    rw [update_map_ino fun m => (hf m).1]
    exact h.inos
  · intro m hm hdir
    rcases hmem m hm with rfl | ⟨hm, -⟩
    · rw [(hf n).2.2]
      exact h.wellFormed n hn ((hf n).2.1.symm.trans hdir)
    · exact h.wellFormed m hm hdir
  · intro x hx
    rw [show Fs.links { s.update n.ino f with removed := n.ino :: s.removed } = s.links from hlinks]
      at hx
    exact hstay _ (h.known x hx)
  · intro i hi
    rcases List.mem_cons.mp hi with rfl | hi
    · exact hstay _ ⟨n, hn, rfl⟩
    · exact hstay _ (h.gone i hi)
  · intro i
    rw [hheld]
    by_cases hi : i = n.ino
    · rw [hi, hself]
      exact Nat.zero_le 1
    · rw [← hother i hi]
      exact h.single i
  · rw [hheld]
    by_cases hi : rootUid = n.ino
    · rw [hi, hself]
    · rw [← hother _ hi]
      exact h.root
  · intro m hm
    rcases hmem m hm with rfl | ⟨hm, -⟩
    · rw [hnlink]
      exact Nat.zero_lt_of_lt (h.small n hn)
    · exact h.small m hm
  · intro m hm hdir
    rw [hheld]
    rcases hmem m hm with rfl | ⟨hm, hne⟩
    · rw [(hf n).1, hself, hnlink]
    · rw [← hother _ hne]
      exact h.files m hm hdir
  · intro m hm hdir hlive
    rcases hmem m hm with rfl | ⟨hm, hne⟩
    · exact absurd (List.mem_cons.mpr (.inl (hf n).1)) hlive
    · have hlive' : m.ino ∉ s.removed := fun hmem => hlive (List.mem_cons_of_mem _ hmem)
      rw [h.dirs m hm hdir hlive', ← hsub]
      rfl
  · intro m hm hroot
    rw [hheld]
    rcases hmem m hm with rfl | ⟨hm, hne⟩
    · rw [(hf n).1, hself]
      exact iff_of_true List.mem_cons_self rfl
    · rw [← hother _ hne, ← h.removed m hm hroot, List.mem_cons]
      exact or_iff_right hne

/-- The inodes that are there are found as before when one is added. -/
theorem withNew_inode {m new : Inode} (hm : m ∈ s.inodes) :
    (s.withNew new).inode m.ino = s.inode m.ino := by
  rw [Fs.inode, Fs.inode, Fs.withNew, List.find?_append]
  have hsome : (s.inodes.find? fun k => k.ino = m.ino).isSome = true :=
    List.find?_isSome.mpr ⟨m, hm, decide_eq_true rfl⟩
  obtain ⟨k, hk⟩ := Option.isSome_iff_exists.mp hsome
  rw [hk, Option.some_or]

/-- An empty new inode is no subdirectory, -/
theorem withNew_subdirs {new : Inode} (h : s.Balanced owed) (hempty : new.dir.entries = [])
    (d : Nat) : (s.withNew new).subdirs d = s.subdirs d := by
  rw [Fs.subdirs, Fs.subdirs, links_withNew s hempty]
  refine List.countP_congr fun x hx => ?_
  obtain ⟨m, hm, hino⟩ := h.known x hx
  rw [← hino, withNew_inode hm]

/-- and is held once more, for the name that it waits for. -/
theorem withNew_held {new : Inode} (hempty : new.dir.entries = []) (i : Nat) :
    (s.withNew new).held (new.ino :: owed) i = s.held owed i + if new.ino = i then 1 else 0 := by
  rw [Fs.held, Fs.held, Fs.names, links_withNew s hempty, List.count_cons, Nat.add_assoc]
  simp only [beq_iff_eq]
  rfl

/-- Nothing holds an inode that is not there, -/
theorem held_fresh {i : Nat} (h : s.Balanced owed) (hfresh : ∀ m ∈ s.inodes, m.ino ≠ i)
    (howed : i ∉ owed) : s.held owed i = 0 := by
  rw [Fs.held, Fs.names, List.countP_eq_zero.mpr, List.count_eq_zero_of_not_mem howed]
  intro x hx
  obtain ⟨m, hm, hino⟩ := h.known x hx
  have hne : x.2.ino ≠ i := hino ▸ hfresh m hm
  simpa using hne

/-- and it has no subdirectory. -/
theorem subdirs_fresh {i : Nat} (hfresh : ∀ m ∈ s.inodes, m.ino ≠ i) : s.subdirs i = 0 := by
  refine List.countP_eq_zero.mpr fun x hx => ?_
  obtain ⟨k, hk, -, hino, -⟩ := mem_links_iff.mp hx
  have hne : x.1 ≠ i := hino ▸ hfresh k hk
  simp only [hne, false_and, decide_false, Bool.false_eq_true, not_false_iff]

/-- A new inode waits for its name. -/
theorem newInode {new : Inode} (h : s.Balanced owed) (hfresh : ∀ m ∈ s.inodes, m.ino ≠ new.ino)
    (hroot : new.ino ≠ rootUid) (howed : new.ino ∉ owed)
    (hempty : new.dir.WellFormed ∧ new.dir.entries = [])
    (hnlink : new.nlink = if new.kind = .directory then 2 else 1) :
    (s.withNew new).Balanced (new.ino :: owed) := by
  have hlinks := links_withNew s hempty.2
  have hheld := @withNew_held s owed new hempty.2
  have hzero := h.held_fresh hfresh howed
  refine ⟨?_, ?_, ?_, ?_, ?_, ?_, ?_, ?_, ?_, ?_⟩
  · rw [Fs.withNew, List.map_append, List.nodup_append]
    refine ⟨h.inos, List.nodup_singleton _, fun a ha b hb => ?_⟩
    obtain ⟨m, hm, rfl⟩ := List.mem_map.mp ha
    obtain rfl := List.mem_singleton.mp hb
    exact hfresh m hm
  · intro m hm hdir
    rcases List.mem_append.mp hm with hm | hm
    · exact h.wellFormed m hm hdir
    · rw [List.mem_singleton.mp hm]
      exact hempty.1
  · intro x hx
    rw [hlinks] at hx
    obtain ⟨m, hm, hino⟩ := h.known x hx
    exact ⟨m, List.mem_append_left _ hm, hino⟩
  · intro i hi
    obtain ⟨m, hm, hino⟩ := h.gone i hi
    exact ⟨m, List.mem_append_left _ hm, hino⟩
  · intro i
    rw [hheld]
    split
    · rename_i hi
      rw [← hi, hzero]
    · exact h.single i
  · rw [hheld, if_neg hroot, h.root]
  · intro m hm
    rcases List.mem_append.mp hm with hm | hm
    · exact h.small m hm
    · rw [List.mem_singleton.mp hm, hnlink]
      split <;> decide
  · intro m hm hdir
    rw [hheld]
    rcases List.mem_append.mp hm with hm | hm
    · rw [if_neg fun heq => hfresh m hm heq.symm]
      exact h.files m hm hdir
    · obtain rfl := List.mem_singleton.mp hm
      rw [hnlink, if_neg hdir, hzero, if_pos rfl]
  · intro m hm hdir hlive
    rw [h.withNew_subdirs hempty.2]
    rcases List.mem_append.mp hm with hm | hm
    · exact h.dirs m hm hdir hlive
    · obtain rfl := List.mem_singleton.mp hm
      rw [hnlink, if_pos hdir, subdirs_fresh hfresh]
  · intro m hm hm'
    rw [hheld]
    rcases List.mem_append.mp hm with hm | hm
    · rw [if_neg fun heq => hfresh m hm heq.symm]
      exact h.removed m hm hm'
    · obtain rfl := List.mem_singleton.mp hm
      rw [if_pos rfl]
      refine iff_of_false (fun hmem => ?_) (Nat.succ_ne_zero _)
      obtain ⟨k, hk, hino⟩ := h.gone _ hmem
      exact hfresh k hk hino

end Fs.Balanced

end Ost.Osdfs
