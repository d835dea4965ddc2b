import Ost.Osdfs.Directory

/-!
# The entries of a directory

What the functions of a directory do to its list of entries, without the pages.  A directory is
`WellFormed` if its pages hold entries with different names.  Adding an entry and deleting one keep
this, except that a deletion can leave a gap at the end of the directory.
-/

namespace Ost.Osdfs

open Ost.Prog

/-- The entries of a directory. -/
def DirInode.entries (d : DirInode) : List DirEntry :=
  (List.range d.dirPages).flatMap fun i =>
    (entriesOf pageCacheSize (d.pages i)).map Prod.snd

/-- Deleting this name empties the last page, and there are entries on the page before it. -/
def DirInode.LeavesGap (d : DirInode) (name : Name) : Prop :=
  1 < d.dirPages ∧
  (entriesOf pageCacheSize (d.pages (d.dirPages - 1))).map (fun x => x.2.name) = [name] ∧
  entriesOf pageCacheSize (d.pages (d.dirPages - 2)) ≠ []

instance (d : DirInode) (name : Name) : Decidable (d.LeavesGap name) :=
  inferInstanceAs (Decidable (_ ∧ _ ∧ _))

/-- The pages of a directory hold entries, and no name twice. -/
structure DirInode.WellFormed (d : DirInode) : Prop where
  holds : ∃ ps, d.Holds ps
  distinct : (d.entries.map DirEntry.name).Nodup

section Entries

variable {d : DirInode} {ps : List (List DirEntry)} {name : Name} {ino : Nat} {e : DirEntry}

/-- The entries of all pages. -/
theorem DirInode.Shows.entries (h : d.Shows ps) : d.entries = ps.flatten := by
  rw [DirInode.entries, List.flatMap_def, h.count]
  refine congrArg List.flatten ((range_map_eq fun i es hi => ?_).trans (List.map_id _))
  rw [h.entriesOf hi, placed_map_snd]
  rfl

theorem DirInode.Holds.entries (h : d.Holds ps) : d.entries = ps.flatten := h.stores.shows.entries

/-- What is left without a name. -/
theorem filter_name {A B : List (List DirEntry)} {a b : List DirEntry}
    (hnodup : ((A ++ (a ++ e :: b) :: B).flatten.map DirEntry.name).Nodup) :
    (A ++ (a ++ e :: b) :: B).flatten.filter (fun x => x.name ≠ e.name) =
      A.flatten ++ (a ++ b) ++ B.flatten := by
  have hflat : (A ++ (a ++ e :: b) :: B).flatten = (A.flatten ++ a) ++ e :: (b ++ B.flatten) := by
    simp
  rw [hflat] at hnodup ⊢
  rw [List.map_append, List.map_cons] at hnodup
  have hmid := (List.nodup_middle.mp hnodup)
  have hnot := (List.nodup_cons.mp hmid).1
  rw [← List.map_append] at hnot
  have hkeep : ∀ x ∈ (A.flatten ++ a) ++ (b ++ B.flatten), x.name ≠ e.name := fun x hx heq =>
    hnot (heq ▸ List.mem_map_of_mem hx)
  rw [List.filter_append, List.filter_cons_of_neg (by simp),
    List.filter_eq_self.mpr fun x hx => decide_eq_true (hkeep x (List.mem_append_left _ hx)),
    List.filter_eq_self.mpr fun x hx => decide_eq_true (hkeep x (List.mem_append_right _ hx))]
  simp

/-- `LeavesGap`, on the pages. -/
theorem DirInode.Shows.leavesGap_iff {A : List (List DirEntry)} {prev last : List DirEntry}
    (h : d.Shows (A ++ [prev] ++ [last])) :
    d.LeavesGap name ↔ last.map DirEntry.name = [name] ∧ prev ≠ [] := by
  have hcount := h.count
  rw [List.length_append, List.length_append, List.length_singleton,
    List.length_singleton] at hcount
  have hlast : (A ++ [prev] ++ [last])[A.length + 1]? = some last := by
    rw [← List.length_singleton (a := prev), ← List.length_append]
    exact getElem?_split_self
  have hprev : (A ++ [prev] ++ [last])[A.length]? = some prev := by
    rw [List.append_assoc]
    exact getElem?_split_self
  have hnames : (placed 0 last).map (fun x => x.2.name) = last.map DirEntry.name := by
    rw [← placed_map_snd 0 last, List.map_map, placed_map_snd]
    rfl
  have hnil : placed 0 prev = [] ↔ prev = [] := by
    rw [← List.length_eq_zero_iff, length_placed, List.length_eq_zero_iff]
  rw [DirInode.LeavesGap, hcount, Nat.add_sub_cancel, show A.length + 1 + 1 - 2 = A.length by omega,
    h.entriesOf hlast, h.entriesOf hprev, hnames, Ne, hnil]
  exact and_iff_right (by omega)

/-- Without a gap an empty last page leaves nothing behind. -/
theorem not_leavesGap {A : List (List DirEntry)} (h : d.Shows (A ++ [[e]]))
    (hgap : ¬d.LeavesGap e.name) : A = [] ∨ ∃ A', A = A' ++ [[]] := by
  rcases List.eq_nil_or_concat A with hnil | ⟨A', last, hconcat⟩
  · exact .inl hnil
  · rw [List.concat_eq_append] at hconcat
    subst hconcat
    refine .inr ⟨A', ?_⟩
    by_cases hlast : last = []
    · rw [hlast]
    · exact absurd (h.leavesGap_iff.mpr ⟨rfl, hlast⟩) hgap

end Entries

/-- The loops come past entries with different names, and `entry_num`, `osdfs_lookup` and
`entry_del` see the same ones. -/
structure DirInode.Readable (d : DirInode) : Prop where
  shows : ∃ ps, d.Shows ps
  distinct : (d.entries.map DirEntry.name).Nodup

namespace DirInode.Readable

variable {d : DirInode} {name : Name} {ino : Nat} {e : DirEntry}

/-- `entry_num` counts the entries. -/
theorem entryNum (h : d.Readable) : d.entryNum = d.entries.length := by
  obtain ⟨ps, hshows⟩ := h.shows
  rw [hshows.entryNum, hshows.entries]

/-- `osdfs_lookup` finds the names that are there. -/
theorem lookup (h : d.Readable) (name : Name) :
    d.lookup name = (d.entries.find? fun e => e.name = name).map DirEntry.ino := by
  obtain ⟨ps, hshows⟩ := h.shows
  have hdistinct := h.distinct
  rw [hshows.entries] at hdistinct ⊢
  exact hshows.lookup hdistinct name

theorem lookup_of_mem (h : d.Readable) (he : e ∈ d.entries) : d.lookup e.name = some e.ino := by
  have hsome : (d.entries.find? fun x => x.name = e.name).isSome = true :=
    List.find?_isSome.mpr ⟨e, he, decide_eq_true rfl⟩
  obtain ⟨x, hx⟩ := Option.isSome_iff_exists.mp hsome
  have hname : x.name = e.name := by simpa using List.find?_some hx
  rw [h.lookup, hx, List.inj_on_of_nodup_map h.distinct (List.mem_of_find?_eq_some hx) he hname]
  rfl

theorem mem_of_lookup (h : d.Readable) (hfound : d.lookup name = some ino) :
    ⟨name, ino⟩ ∈ d.entries := by
  rw [h.lookup, Option.map_eq_some_iff] at hfound
  obtain ⟨x, hx, rfl⟩ := hfound
  obtain rfl : x.name = name := by simpa using List.find?_some hx
  exact List.mem_of_find?_eq_some hx

theorem lookup_eq_none (h : d.Readable) :
    d.lookup name = none ↔ ∀ x ∈ d.entries, x.name ≠ name := by
  rw [h.lookup, Option.map_eq_none_iff, List.find?_eq_none]
  simp

/-- `entry_del` does not find a name that is not there. -/
theorem entryDel_none (h : d.Readable) (hname : ∀ e ∈ d.entries, e.name ≠ name) :
    d.entryDel name = (-1, d) := by
  obtain ⟨ps, hshows⟩ := h.shows
  rw [hshows.entries] at hname
  rw [DirInode.entryDel, hshows.findEntry_none hname]

/-- `entry_del` finds a name that is there. -/
theorem entryDel_found (h : d.Readable) (he : e ∈ d.entries) : (d.entryDel e.name).1 = 0 := by
  obtain ⟨ps, hshows⟩ := h.shows
  rw [hshows.entries] at he
  obtain ⟨A, a, b, B, e', -, -, hfind⟩ := hshows.findEntry_some he
  rw [DirInode.entryDel, hfind]

end DirInode.Readable

namespace DirInode.WellFormed

variable {d : DirInode} {name : Name} {ino : Nat} {e : DirEntry}

/-- An empty directory, whatever the cache holds. -/
theorem empty (pages : Nat → List UInt8) :
    DirInode.WellFormed ⟨0, pages⟩ ∧ DirInode.entries ⟨0, pages⟩ = [] := by
  have hholds : DirInode.Holds ⟨0, pages⟩ [] := ⟨List.forall_mem_nil _, List.forall_mem_nil _,
    fun i es hi => absurd hi (by simp), rfl⟩
  have hentries : DirInode.entries ⟨0, pages⟩ = [] := hholds.entries
  refine ⟨⟨⟨[], hholds⟩, ?_⟩, hentries⟩
  rw [hentries]
  exact List.nodup_nil

theorem readable (h : d.WellFormed) : d.Readable := by
  obtain ⟨ps, hholds⟩ := h.holds
  exact ⟨⟨ps, hholds.stores.shows⟩, h.distinct⟩

/-- The entries can be stored. -/
theorem storable (h : d.WellFormed) (he : e ∈ d.entries) : e.Storable := by
  obtain ⟨ps, hholds⟩ := h.holds
  rw [hholds.entries] at he
  obtain ⟨es, hes, he⟩ := List.mem_flatten.mp he
  exact hholds.storable es hes e he

/-- What `osdfs_readdir` comes past. -/
theorem listing (h : d.WellFormed) : d.listing = d.entries := by
  obtain ⟨ps, hholds⟩ := h.holds
  rw [hholds.listing, hholds.entries]

/-- `entry_add` adds an entry at the end. -/
theorem entryAdd (h : d.WellFormed) (hnew : ∀ e ∈ d.entries, e.name ≠ name)
    (hstorable : (DirEntry.mk name ino).Storable) (hfits : recLen name < pageCacheSize) :
    (d.entryAdd name ino).WellFormed ∧
      (d.entryAdd name ino).entries = d.entries ++ [⟨name, ino⟩] := by
  obtain ⟨ps, hholds⟩ := h.holds
  obtain ⟨ps', hholds', hflat⟩ := hholds.entryAdd hstorable hfits
  have hentries : (d.entryAdd name ino).entries = d.entries ++ [⟨name, ino⟩] := by
    rw [hholds'.entries, hflat, hholds.entries]
  refine ⟨⟨⟨ps', hholds'⟩, ?_⟩, hentries⟩
  rw [hentries, List.map_append, List.nodup_append]
  refine ⟨h.distinct, List.nodup_singleton _, fun a ha b hb => ?_⟩
  obtain ⟨e, he, rfl⟩ := List.mem_map.mp ha
  obtain rfl := List.mem_singleton.mp hb
  exact hnew e he

/-- `entry_del` deletes a name that is there. -/
theorem entryDel (h : d.WellFormed) (he : e ∈ d.entries) (hgap : ¬d.LeavesGap e.name) :
    (d.entryDel e.name).1 = 0 ∧ (d.entryDel e.name).2.WellFormed ∧
      (d.entryDel e.name).2.entries = d.entries.filter fun x => x.name ≠ e.name := by
  refine ⟨h.readable.entryDel_found he, ?_⟩
  obtain ⟨ps, hholds⟩ := h.holds
  have hdistinct := h.distinct
  have hentries := hholds.entries
  rw [hentries] at he hdistinct
  obtain ⟨A, a, b, B, e', rfl, hname, hfind⟩ := hholds.stores.shows.findEntry_some he
  rw [← hname] at hfind hgap ⊢
  have hlast : B = [] → a ++ b = [] → A = [] ∨ ∃ A', A = A' ++ [[]] := by
    rintro rfl hempty
    obtain ⟨rfl, rfl⟩ := List.append_eq_nil_iff.mp hempty
    exact not_leavesGap hholds.stores.shows hgap
  obtain ⟨ps', hholds', hflat⟩ := hholds.removeEntry hlast
  have hleft : (d.removeEntry e'.name A.length (used a)).entries =
      d.entries.filter fun x => x.name ≠ e'.name := by
    rw [hholds'.entries, hflat, hentries, filter_name hdistinct]
  rw [DirInode.entryDel, hfind]
  refine ⟨⟨⟨ps', hholds'⟩, ?_⟩, hleft⟩
  rw [hleft]
  exact h.distinct.sublist (List.filter_sublist.map _)

end DirInode.WellFormed

end Ost.Osdfs
