import Ost.Osdfs.Contents

/-!
# Directories with a gap

The last page of a directory need not end behind its entries.  When a deletion empties the last
page, the size says that the page before it is full, and `osdfs_readdir` does not come past its
entries; what is deleted from this page later is taken from that size.  An entry that is added then
goes to a new page, and the gap is closed, or its record is written behind the gap, where no loop
comes past it.

`Legible` is what all additions and deletions keep, whatever gaps they leave.  `HasRoom` says when a
record will be found that is added to a directory from which entries are deleted first.
-/

namespace Ost.Osdfs

open Ost.Prog

/-! ## The last page -/

namespace DirInode

variable (d : DirInode)

/-- Where the size says that the last page ends. -/
def lastEnd : Nat := (d.size - 1) % pageCacheSize + 1

/-- The entries of the last page. -/
def lastEntries : List DirEntry :=
  (Osdfs.entriesOf pageCacheSize (d.pages (d.dirPages - 1))).map Prod.snd

/-- The last page does not end behind its entries. -/
def Gap : Prop := d.size ≠ 0 ∧ used d.lastEntries < d.lastEnd

instance : Decidable d.Gap := inferInstanceAs (Decidable (_ ∧ _))

/-- A record of `r` bytes is put behind the entries of the last page, or on a new page, when the
entries `goes` have been deleted. -/
def HasRoom (goes : List DirEntry) (r : Nat) : Prop :=
  d.Gap → pageCacheSize + used (goes.filter (· ∈ d.lastEntries)) ≤ d.lastEnd + r

instance (goes : List DirEntry) (r : Nat) : Decidable (d.HasRoom goes r) :=
  inferInstanceAs (Decidable (_ → _))

/-- These entries are on the pages, and behind the end of the last page there are zeros. -/
structure Kept (ps : List (List DirEntry)) : Prop where
  shown : ∀ {i es}, ps[i]? = some es → Shown (d.pages i) es
  count : d.dirPages = ps.length
  last : ∀ {A es}, ps = A ++ [es] → used es ≤ d.lastEnd ∧ Blank (d.pages A.length) d.lastEnd

end DirInode

theorem recLen_pos (name : Name) : 0 < recLen name := by
  rw [recLen]
  omega

section Pages

variable {d d' : DirInode} {ps A B : List (List DirEntry)} {a b es : List DirEntry} {e : DirEntry}
  {name : Name} {ino n r : Nat}

namespace DirInode

theorem lastEnd_pos : 0 < d.lastEnd := Nat.succ_pos _

/-- The end of the last page, when its place is known. -/
theorem lastEnd_eq (hsize : d.size = A.length * pageCacheSize + n) (hpos : 0 < n)
    (hn : n ≤ pageCacheSize) : d.lastEnd = n := by
  have hp : pageCacheSize = 4096 := rfl
  rw [lastEnd, hsize, hp]
  rw [hp] at hn
  omega

/-- `osdfs_readdir` reads the last page up to the end of the directory. -/
theorem listing_of_pages (hcount : d.dirPages = A.length + 1) (hpages : ∀ i es, A[i]? = some es →
      (Osdfs.entriesOf pageCacheSize (d.pages i)).map Prod.snd = es) :
    d.listing = A.flatten ++
      (Osdfs.entriesOf (d.size % pageCacheSize) (d.pages A.length)).map Prod.snd := by
  have hmin : min (d.size % pageCacheSize) pageCacheSize = d.size % pageCacheSize :=
    min_eq_left (Nat.le_of_lt (Nat.mod_lt _ (by decide)))
  have hlast : d.readLimit A.length = d.size % pageCacheSize := by
    rw [readLimit, hcount, Nat.add_sub_cancel, if_pos rfl, hmin]
  have hmap := range_map_eq (l := A) (f := id)
    (g := fun i => (Osdfs.entriesOf (d.readLimit i) (d.pages i)).map Prod.snd) fun i es hi => by
      have hlt := (List.getElem?_eq_some_iff.mp hi).1
      rw [readLimit, hcount, Nat.add_sub_cancel, if_neg (Nat.ne_of_lt hlt)]
      exact hpages i es hi
  rw [DirInode.listing, hcount, List.flatMap_def, List.range_succ, List.map_append,
    hmap, List.map_id, List.flatten_append, List.map_singleton, List.flatten_singleton, hlast]

namespace Kept

theorem shows (h : d.Kept ps) : d.Shows ps where
  entriesOf hi := (h.shown hi).entriesOf (Nat.le_of_lt (h.shown hi).fits) (Nat.le_refl _)
  count := h.count

theorem size_eq (h : d.Kept (A ++ [es])) :
    d.size = A.length * pageCacheSize + d.lastEnd ∧ d.lastEnd ≤ pageCacheSize := by
  have hcount := h.count
  have hp : pageCacheSize = 4096 := rfl
  rw [dirPages, List.length_append, List.length_singleton, hp] at hcount
  rw [lastEnd, hp]
  omega

theorem size_nil (h : d.Kept []) : d.size = 0 := by
  have hcount := h.count
  have hp : pageCacheSize = 4096 := rfl
  rw [dirPages, List.length_nil, hp] at hcount
  omega

theorem size_le (h : d.Kept ps) : d.size ≤ ps.length * pageCacheSize := by
  rcases List.eq_nil_or_concat ps with rfl | ⟨A, es, rfl⟩
  · rw [h.size_nil]
    exact Nat.zero_le _
  · rw [List.concat_eq_append] at h ⊢
    obtain ⟨hsize, hend⟩ := h.size_eq
    rw [hsize, List.length_append, List.length_singleton, Nat.add_mul]
    omega

theorem size_mod (h : d.Kept (A ++ [es])) : d.size % pageCacheSize = d.lastEnd % pageCacheSize := by
  rw [h.size_eq.1, Nat.mul_comm, Nat.mul_add_mod]

theorem lastEntries_eq (h : d.Kept (A ++ [es])) : d.lastEntries = es := by
  have hget : (A ++ [es])[d.dirPages - 1]? = some es := by
    rw [h.count, List.length_append, List.length_singleton, Nat.add_sub_cancel]
    exact getElem?_split_self
  rw [lastEntries, h.shows.entriesOf hget, placed_map_snd]

theorem gap_iff (h : d.Kept (A ++ [es])) : d.Gap ↔ used es < d.lastEnd := by
  have hpos := d.lastEnd_pos
  rw [Gap, h.lastEntries_eq, and_iff_right]
  rw [h.size_eq.1]
  omega

/-- A list of pages with a last one. -/
theorem concat (hA : ∀ {i fs}, A[i]? = some fs → Shown (d.pages i) fs)
    (hes : Shown (d.pages A.length) es) (hsize : d.size = A.length * pageCacheSize + n)
    (hpos : 0 < n)
    (hn : n ≤ pageCacheSize) (hused : used es ≤ n) (hblank : Blank (d.pages A.length) n) :
    d.Kept (A ++ [es]) := by
  have hend := lastEnd_eq hsize hpos hn
  have hp : pageCacheSize = 4096 := rfl
  refine ⟨fun {i fs} hi => ?_, ?_, fun {A' es'} heq => ?_⟩
  · by_cases hlast : i = A.length
    · rw [hlast, getElem?_split_self] at hi
      obtain rfl := Option.some.inj hi
      exact hlast ▸ hes
    · have hlt := (List.getElem?_eq_some_iff.mp hi).1
      rw [List.length_append, List.length_singleton] at hlt
      rw [List.getElem?_append_left (by omega)] at hi
      exact hA hi
  · rw [dirPages, hsize, List.length_append, List.length_singleton, hp]
    rw [hp] at hn
    omega
  · obtain ⟨rfl, hes'⟩ := List.append_inj' heq rfl
    obtain rfl := List.singleton_inj.mp hes'
    rw [hend]
    exact ⟨hused, hblank⟩

/-- The last page has become empty and does not count any more. -/
theorem dropLast (hA : ∀ {i fs}, A[i]? = some fs → Shown (d.pages i) fs)
    (hsize : d.size = A.length * pageCacheSize) : d.Kept A := by
  have hp : pageCacheSize = 4096 := rfl
  rcases List.eq_nil_or_concat A with rfl | ⟨A', es, rfl⟩
  · refine ⟨hA, ?_, fun heq => absurd heq (by simp)⟩
    rw [dirPages, hsize, List.length_nil, hp]
  · rw [List.concat_eq_append] at *
    have hes := hA getElem?_split_self
    refine concat (n := pageCacheSize) (fun {i fs} hi => hA ?_) hes ?_ (by decide) (Nat.le_refl _)
      (Nat.le_of_lt hes.fits) fun i hi => ?_
    · rw [List.getElem?_append_left (List.getElem?_eq_some_iff.mp hi).1]
      exact hi
    · rw [hsize, List.length_append, List.length_singleton, Nat.add_mul, Nat.one_mul]
    · rw [List.getD_eq_getElem?_getD, List.getElem?_eq_none (by rw [hes.length]; exact hi)]
      rfl

/-- What `osdfs_readdir` comes past. -/
theorem listing_concat (h : d.Kept (A ++ [es])) :
    d.listing = A.flatten ++ if d.lastEnd = pageCacheSize then [] else es := by
  obtain ⟨hused, -⟩ := h.last rfl
  have hend := h.size_eq.2
  have hcount := h.count
  rw [List.length_append, List.length_singleton] at hcount
  rw [listing_of_pages hcount fun i fs hi => ?_, h.size_mod]
  · by_cases hfull : d.lastEnd = pageCacheSize
    · rw [if_pos hfull, hfull, Nat.mod_self]
      rfl
    · rw [if_neg hfull, Nat.mod_eq_of_lt (Nat.lt_of_le_of_ne hend hfull),
        (h.shown getElem?_split_self).entriesOf hused hend, placed_map_snd]
  · have hget : (A ++ [es])[i]? = some fs := by
      rw [List.getElem?_append_left (List.getElem?_eq_some_iff.mp hi).1]
      exact hi
    rw [h.shows.entriesOf hget, placed_map_snd]

end Kept

/-- Pages without a gap, or with an empty last page. -/
theorem Holds.kept (h : d.Holds ps) : d.Kept ps := by
  refine ⟨h.stores.shown, h.dirPages, fun {A es} heq => ?_⟩
  subst heq
  have hpage : d.pages A.length = pageOf es := h.pages _ _ getElem?_split_self
  have hfits := h.fits es (by simp)
  rw [hpage]
  by_cases hnil : es = []
  · subst hnil
    exact ⟨Nat.zero_le _, fun i _ => blank_pageOf [] i (Nat.zero_le i)⟩
  · rw [lastEnd_eq (h.size.trans (sizeOf_concat hnil)) (used_pos hnil) (Nat.le_of_lt hfits)]
    exact ⟨Nat.le_refl _, blank_pageOf es⟩

end DirInode

end Pages

/-! ## Deleting an entry -/

/-- How the pages change when the entry `e` is deleted. -/
inductive Cut (d : DirInode) (e : DirEntry) (d' : DirInode) :
    List (List DirEntry) → List (List DirEntry) → Prop where
  | inner {A B : List (List DirEntry)} {a b es : List DirEntry} (hsize : d'.size = d.size) :
    Cut d e d' (A ++ (a ++ e :: b) :: B ++ [es]) (A ++ (a ++ b) :: B ++ [es])
  | last {A : List (List DirEntry)} {a b : List DirEntry}
    (hend : d'.lastEnd + recLen e.name = d.lastEnd) :
    Cut d e d' (A ++ [a ++ e :: b]) (A ++ [a ++ b])
  | emptied {A : List (List DirEntry)} (hend : d.lastEnd = recLen e.name)
    (hsize : d'.size = A.length * pageCacheSize) : Cut d e d' (A ++ [[e]]) A

section Delete

variable {d d' : DirInode} {ps ps' A B : List (List DirEntry)} {a b es : List DirEntry}
  {e : DirEntry} {name : Name} {ino n r : Nat}

namespace DirInode

/-- Deleting an entry of the last page. -/
theorem Kept.removeEntry_last (h : d.Kept (A ++ [a ++ e :: b])) :
    d.removeEntry e.name A.length (used a) = ⟨d.size - recLen e.name,
      (d.setPage A.length (cutRecord (d.pages A.length) (used a) (recLen e.name))).pages⟩ := by
  have hplace : A.length = d.dirPages - 1 := by
    rw [h.count, List.length_append, List.length_singleton, Nat.add_sub_cancel]
  obtain ⟨hsize, hend⟩ := h.size_eq
  obtain ⟨hused, -⟩ := h.last rfl
  have hlen := recLen_pos e.name
  rw [used_middle] at hused
  have hmod : A.length * pageCacheSize + (d.size - recLen e.name) % pageCacheSize =
      d.size - recLen e.name := by
    rw [hsize, Nat.add_sub_assoc (by omega), Nat.mul_comm, Nat.mul_add_mod,
      Nat.mod_eq_of_lt (by omega)]
  rw [removeEntry, if_pos hplace, commitWrite, hmod, max_self]

/-- Deleting an entry of a page before the last one. -/
theorem Kept.removeEntry_inner (h : d.Kept (A ++ (a ++ e :: b) :: B ++ [es])) :
    d.removeEntry e.name A.length (used a) =
      d.setPage A.length (cutRecord (d.pages A.length) (used a) (recLen e.name)) := by
  have hplace : A.length ≠ d.dirPages - 1 := by
    rw [h.count, List.length_append, List.length_singleton, List.length_append, List.length_cons]
    omega
  have hsize := h.size_eq.1
  rw [List.length_append, List.length_cons, Nat.add_mul, Nat.succ_mul] at hsize
  rw [removeEntry, if_neg hplace, commitWrite]
  refine congrArg (fun n => DirInode.mk n _) (max_eq_left ?_)
  change A.length * pageCacheSize + pageCacheSize ≤ d.size
  omega

/-- Deleting an entry. -/
theorem Kept.removeEntry (h : d.Kept (A ++ (a ++ e :: b) :: B)) :
    ∃ ps', (d.removeEntry e.name A.length (used a)).Kept ps' ∧
      Cut d e (d.removeEntry e.name A.length (used a)) (A ++ (a ++ e :: b) :: B) ps' ∧
      ps'.flatten = A.flatten ++ (a ++ b) ++ B.flatten := by
  have hpage := h.shown (getElem?_split_self (a := A) (x := a ++ e :: b) (b := B))
  have hcut := hpage.cut
  have hlen := recLen_pos e.name
  have hfits := hpage.fits
  rw [used_middle] at hfits
  rcases List.eq_nil_or_concat B with rfl | ⟨B', fs, rfl⟩
  · obtain ⟨hsize, hend⟩ := h.size_eq
    obtain ⟨hused, hblank⟩ := h.last rfl
    rw [used_middle] at hused
    have hle : used a ≤ used (a ++ b) := by
      rw [used_append]
      exact Nat.le_add_right _ _
    rw [h.removeEntry_last]
    have hA {i : Nat} {fs : List DirEntry} (hi : A[i]? = some fs) :
        Shown ((d.setPage A.length
          (cutRecord (d.pages A.length) (used a) (recLen e.name))).pages i) fs := by
      have hlt := (List.getElem?_eq_some_iff.mp hi).1
      have hother : (d.setPage A.length (cutRecord (d.pages A.length) (used a)
          (recLen e.name))).pages i = d.pages i := if_neg (Nat.ne_of_lt hlt)
      rw [hother]
      refine h.shown ?_
      rw [List.getElem?_append_left hlt]
      exact hi
    have hself : (d.setPage A.length (cutRecord (d.pages A.length) (used a)
        (recLen e.name))).pages A.length = cutRecord (d.pages A.length) (used a) (recLen e.name) :=
      if_pos rfl
    by_cases hlast : d.lastEnd = recLen e.name
    · -- the last page becomes empty
      have hempty : a ++ b = [] := by
        by_contra hne
        have hpos := used_pos hne
        omega
      obtain ⟨rfl, rfl⟩ := List.append_eq_nil_iff.mp hempty
      have hleft : d.size - recLen e.name = A.length * pageCacheSize := by omega
      exact ⟨A, .dropLast hA hleft, .emptied hlast hleft, by simp⟩
    · have hleft : d.size - recLen e.name = A.length * pageCacheSize +
        (d.lastEnd - recLen e.name) := by
        omega
      refine ⟨A ++ [a ++ b], .concat hA ?_ hleft (by omega) (by omega) (by omega) ?_, .last ?_,
        by simp⟩
      · dsimp only
        rw [hself]
        exact hcut
      · dsimp only
        rw [hself]
        refine hblank.cut ?_ (by omega)
        rw [hpage.length]
        omega
      · rw [lastEnd_eq hleft (by omega) (by omega)]
        omega
  · rw [List.concat_eq_append, ← List.cons_append, ← List.append_assoc] at *
    obtain ⟨hsize, hend⟩ := h.size_eq
    obtain ⟨hused, hblank⟩ := h.last rfl
    have hsame : (A ++ (a ++ b) :: B').length = (A ++ (a ++ e :: b) :: B').length := by simp
    have hne : (A ++ (a ++ b) :: B').length ≠ A.length := by simp
    have hself : (d.setPage A.length (cutRecord (d.pages A.length) (used a)
        (recLen e.name))).pages A.length = cutRecord (d.pages A.length) (used a) (recLen e.name) :=
      if_pos rfl
    have hother {i : Nat} (hi : i ≠ A.length) : (d.setPage A.length (cutRecord (d.pages A.length)
        (used a) (recLen e.name))).pages i = d.pages i := if_neg hi
    rw [h.removeEntry_inner]
    refine ⟨A ++ (a ++ b) :: B' ++ [fs], .concat (n := d.lastEnd) (fun {i gs} hi => ?_) ?_
      (by rw [hsame]; exact hsize) d.lastEnd_pos hend hused ?_, .inner rfl, by simp⟩
    · by_cases hiA : i = A.length
      · rw [hiA, getElem?_split_self] at hi
        obtain rfl := Option.some.inj hi
        rw [hiA, hself]
        exact hcut
      · rw [hother hiA]
        refine h.shown ?_
        rw [List.getElem?_append_left (hsame ▸ (List.getElem?_eq_some_iff.mp hi).1)]
        exact (getElem?_split_ne hiA).trans hi
    · rw [hother hne, hsame]
      exact h.shown getElem?_split_self
    · rw [hother hne, hsame]
      exact hblank

end DirInode

namespace Cut

/-- A directory whose size fills its last page has room for a record. -/
theorem hasRoom_of_size {goes : List DirEntry} (h : d.Kept A)
    (hsize : d.size = A.length * pageCacheSize) (hused : used goes ≤ r) : d.HasRoom goes r := by
  intro hgap
  rcases List.eq_nil_or_concat A with rfl | ⟨A', es, rfl⟩
  · exact absurd h.size_nil hgap.1
  · rw [List.concat_eq_append] at h hsize
    have hend := h.size_eq.1
    rw [List.length_append, List.length_singleton, Nat.add_mul] at hsize
    have hfilter := used_filter_le goes fun g => decide (g ∈ d.lastEntries)
    omega

/-- A deletion does not change whether there is room for a record that is not shorter. -/
theorem hasRoom_iff {goes : List DirEntry} (hcut : Cut d e d' ps ps')
    (hdistinct : (ps.flatten.map DirEntry.name).Nodup) (h : d.Kept ps) (h' : d'.Kept ps')
    (hgoes : ∀ g ∈ goes, g.name ≠ e.name) (hused : used goes ≤ r) :
    d'.HasRoom goes r ↔ d.HasRoom (e :: goes) r := by
  cases hcut with
  | @inner A B a b es hsize =>
    have hend : d'.lastEnd = d.lastEnd := by rw [DirInode.lastEnd, hsize, DirInode.lastEnd]
    have hnot : e ∉ es := by
      have hnodup := hdistinct.of_map
      rw [List.flatten_append, List.flatten_singleton, List.nodup_append] at hnodup
      exact fun he => hnodup.2.2 e (by simp) e he rfl
    rw [DirInode.HasRoom, DirInode.HasRoom, h.gap_iff, h'.gap_iff, hend, h.lastEntries_eq,
      h'.lastEntries_eq, List.filter_cons_of_neg (by simpa using hnot)]
  | @last A a b hend =>
    have hmid := used_middle (a := a) (e := e) (b := b)
    have hsame : goes.filter (· ∈ a ++ e :: b) = goes.filter (· ∈ a ++ b) :=
      List.filter_congr fun g hg => by
        have hne : g ≠ e := fun heq => hgoes g hg (congrArg DirEntry.name heq)
        simp [hne]
    rw [DirInode.HasRoom, DirInode.HasRoom, h.gap_iff, h'.gap_iff, h.lastEntries_eq,
      h'.lastEntries_eq, List.filter_cons_of_pos (by simp), hsame, used_cons]
    omega
  | emptied hend hsize =>
    refine iff_of_true (hasRoom_of_size h' hsize hused) fun hgap => ?_
    rw [h.gap_iff, used_cons, used_nil] at hgap
    omega

/-- What `osdfs_readdir` came past is still listed if nothing is hidden by a new gap. -/
theorem listed {x : DirEntry} (hcut : Cut d e d' ps ps') (h : d.Kept ps) (h' : d'.Kept ps')
    (hgap : d.Gap ∨ ¬d.LeavesGap e.name) (hx : x ∈ d.listing) (hne : x ≠ e) : x ∈ d'.listing := by
  cases hcut with
  | @inner A B a b es hsize =>
    have hend : d'.lastEnd = d.lastEnd := by rw [DirInode.lastEnd, hsize, DirInode.lastEnd]
    rw [h.listing_concat] at hx
    rw [h'.listing_concat, hend]
    simpa [hne] using hx
  | @last A a b hend =>
    have hlen := recLen_pos e.name
    have hle := h.size_eq.2
    rw [h.listing_concat] at hx
    rw [h'.listing_concat, if_neg (by omega)]
    rcases List.mem_append.mp hx with hA | hlast
    · exact List.mem_append_left _ hA
    · split at hlast
      · exact absurd hlast List.not_mem_nil
      · refine List.mem_append_right _ ?_
        simpa [hne] using hlast
  | emptied hend hsize =>
    have hnone : ¬d.Gap := by
      rw [h.gap_iff, used_cons, used_nil]
      omega
    rw [h.listing_concat] at hx
    have hA : x ∈ ps'.flatten := by
      rcases List.mem_append.mp hx with hA | hlast
      · exact hA
      · split at hlast
        · exact absurd hlast List.not_mem_nil
        · exact absurd (List.mem_singleton.mp hlast) hne
    rcases not_leavesGap h.shows (hgap.resolve_left hnone) with rfl | ⟨A', rfl⟩
    · exact absurd hA List.not_mem_nil
    · rw [h'.listing_concat]
      rw [List.flatten_append] at hA
      exact List.mem_append_left _ (by simpa using hA)

/-- A new gap hides an entry. -/
theorem hidden (hcut : Cut d e d' ps ps') (hdistinct : (ps.flatten.map DirEntry.name).Nodup)
    (h : d.Kept ps) (h' : d'.Kept ps') (hnone : ¬d.Gap) (hgap : d.LeavesGap e.name) :
    ∃ x ∈ ps'.flatten, x ∈ d.listing ∧ x ∉ d'.listing := by
  have hnodup := hdistinct.of_map
  have hlast {A : List (List DirEntry)} {es : List DirEntry} (h : d.Kept (A ++ [es])) :
      es.map DirEntry.name = [e.name] ∧ ∃ A' prev, A = A' ++ [prev] ∧ prev ≠ [] := by
    rcases List.eq_nil_or_concat A with rfl | ⟨A', prev, rfl⟩
    · have hcount := h.count ▸ hgap.1
      exact absurd hcount (Nat.lt_irrefl 1)
    · rw [List.concat_eq_append] at h ⊢
      obtain ⟨hnames, hprev⟩ := h.shows.leavesGap_iff.mp hgap
      exact ⟨hnames, A', prev, rfl, hprev⟩
  cases hcut with
  | @inner A B a b es hsize =>
    have hmem : e.name ∈ es.map DirEntry.name := by
      rw [(hlast h).1]
      exact List.mem_cons_self
    rw [List.flatten_append, List.flatten_singleton, List.map_append,
      List.nodup_append] at hdistinct
    refine absurd rfl (hdistinct.2.2 e.name ?_ e.name hmem)
    exact List.mem_map_of_mem (by simp)
  | @last A a b hend =>
    have hone := congrArg List.length (hlast h).1
    rw [List.length_map, List.length_append, List.length_cons, List.length_singleton] at hone
    obtain rfl : a = [] := List.length_eq_zero_iff.mp (by omega)
    obtain rfl : b = [] := List.length_eq_zero_iff.mp (by omega)
    rw [h.gap_iff, List.nil_append, used_cons, used_nil] at hnone
    have hpos := d'.lastEnd_pos
    omega
  | emptied hend hsize =>
    obtain ⟨-, A', prev, rfl, hprev⟩ := hlast h
    obtain ⟨x, hx⟩ := List.exists_mem_of_ne_nil prev hprev
    have hfull : d'.lastEnd = pageCacheSize := by
      have hsize' := h'.size_eq.1
      rw [List.length_append, List.length_singleton, Nat.add_mul] at hsize
      omega
    rw [h.listing_concat, h'.listing_concat, if_pos hfull, List.append_nil]
    have hmem : x ∈ (A' ++ [prev]).flatten := by simp [hx]
    refine ⟨x, hmem, List.mem_append_left _ hmem, fun hA => ?_⟩
    rw [List.flatten_append, List.flatten_append, List.flatten_singleton, List.append_assoc,
      List.nodup_append] at hnodup
    exact hnodup.2.2 x hA x (List.mem_append_left _ hx) rfl

end Cut

end Delete

/-! ## Adding an entry -/

section Add

variable {d : DirInode} {ps A : List (List DirEntry)} {es : List DirEntry} {name : Name} {ino : Nat}

namespace DirInode

/-- Whether there is room says where the last page ends. -/
theorem Kept.hasRoom_iff {r : Nat} (h : d.Kept (A ++ [es])) :
    d.HasRoom [] r ↔ (used es < d.lastEnd → pageCacheSize ≤ d.lastEnd + r) := by
  rw [HasRoom, h.gap_iff, List.filter_nil, used_nil, Nat.add_zero]

/-- An entry that goes to a new page. -/
theorem Kept.entryAdd_new (h : d.Kept ps) (he : (DirEntry.mk name ino).Storable)
    (hlen : recLen name < pageCacheSize)
    (hfull : d.size % pageCacheSize + recLen name ≥ pageCacheSize ∨ d.size % pageCacheSize = 0) :
    (d.entryAdd name ino).Kept (ps ++ [[⟨name, ino⟩]]) ∧
      (d.entryAdd name ino).size = ps.length * pageCacheSize + recLen name := by
  have hpos := recLen_pos name
  have hone : used [DirEntry.mk name ino] = recLen name := by rw [used_cons, used_nil, Nat.add_zero]
  rw [entryAdd_of_full hfull, putRecord_empty (e := ⟨name, ino⟩) (Nat.le_of_lt hlen), h.count]
  have hsize : ((d.setPage ps.length (pageOf [⟨name, ino⟩])).commitWrite ps.length
      (recLen name)).size = ps.length * pageCacheSize + recLen name :=
    max_eq_right (Nat.le_add_right_of_le h.size_le)
  have hself : ((d.setPage ps.length (pageOf [⟨name, ino⟩])).commitWrite ps.length
      (recLen name)).pages ps.length = pageOf [⟨name, ino⟩] := if_pos rfl
  refine ⟨.concat (n := recLen name) (fun {i fs} hi => ?_) ?_ hsize hpos (Nat.le_of_lt hlen)
    (Nat.le_of_eq hone) ?_, hsize⟩
  · have hother : ((d.setPage ps.length (pageOf [⟨name, ino⟩])).commitWrite ps.length
        (recLen name)).pages i = d.pages i :=
      if_neg (Nat.ne_of_lt (List.getElem?_eq_some_iff.mp hi).1)
    rw [hother]
    exact h.shown hi
  · rw [hself]
    exact shown_pageOf (List.forall_mem_singleton.mpr he) (by rwa [hone])
  · rw [hself]
    exact hone ▸ blank_pageOf _

/-- An entry that goes to the last page. -/
theorem Kept.entryAdd_last (h : d.Kept (A ++ [es])) (hend : d.lastEnd + recLen name < pageCacheSize)
    {es' : List DirEntry} (hused : used es' ≤ d.lastEnd + recLen name)
    (hput : Shown (putRecord (d.pages A.length) d.lastEnd (DirEntry.record ⟨name, ino⟩)) es') :
    (d.entryAdd name ino).Kept (A ++ [es']) ∧
      (d.entryAdd name ino).size = A.length * pageCacheSize + (d.lastEnd + recLen name) := by
  have hlen := recLen_pos name
  have hpos := d.lastEnd_pos
  have hsize := h.size_eq.1
  obtain ⟨-, hblank⟩ := h.last rfl
  have hmod : d.size % pageCacheSize = d.lastEnd := by
    rw [h.size_mod, Nat.mod_eq_of_lt (by omega)]
  have hplace : d.dirPages - 1 = A.length := by
    rw [h.count, List.length_append, List.length_singleton, Nat.add_sub_cancel]
  have hresult : d.entryAdd name ino = _ := entryAdd_of_room (by omega) (by omega)
  rw [hmod, hplace] at hresult
  rw [hresult]
  have hsize' : ((d.setPage A.length (putRecord (d.pages A.length) d.lastEnd
      (DirEntry.record ⟨name, ino⟩))).commitWrite A.length (d.lastEnd + recLen name)).size =
        A.length * pageCacheSize + (d.lastEnd + recLen name) := by
    refine max_eq_right ?_
    change d.size ≤ _
    omega
  have hself : ((d.setPage A.length (putRecord (d.pages A.length) d.lastEnd
      (DirEntry.record ⟨name, ino⟩))).commitWrite A.length (d.lastEnd + recLen name)).pages
        A.length = putRecord (d.pages A.length) d.lastEnd (DirEntry.record ⟨name, ino⟩) :=
    if_pos rfl
  have hpage := (h.shown getElem?_split_self).length
  refine ⟨.concat (n := d.lastEnd + recLen name) (fun {i fs} hi => ?_) ?_ hsize' (by omega)
    (Nat.le_of_lt hend) hused ?_, hsize'⟩
  · have hlt := (List.getElem?_eq_some_iff.mp hi).1
    have hother : ((d.setPage A.length (putRecord (d.pages A.length) d.lastEnd
        (DirEntry.record ⟨name, ino⟩))).commitWrite A.length (d.lastEnd + recLen name)).pages i =
          d.pages i := if_neg (Nat.ne_of_lt hlt)
    rw [hother]
    refine h.shown ?_
    rwa [List.getElem?_append_left hlt]
  · rw [hself]
    exact hput
  · rw [hself]
    have hput := hblank.put (r := DirEntry.record ⟨name, ino⟩) (by omega)
    rwa [length_record] at hput

/-- Adding an entry for which there is room. -/
theorem Kept.entryAdd (h : d.Kept ps) (he : (DirEntry.mk name ino).Storable)
    (hlen : recLen name < pageCacheSize) (hroom : d.HasRoom [] (recLen name)) :
    ∃ ps', (d.entryAdd name ino).Kept ps' ∧ ps'.flatten = ps.flatten ++ [⟨name, ino⟩] ∧
      (d.entryAdd name ino).size % pageCacheSize ≠ 0 := by
  have hpos := recLen_pos name
  by_cases hfull : d.size % pageCacheSize + recLen name ≥ pageCacheSize ∨ d.size % pageCacheSize = 0
  · obtain ⟨hkept, hsize⟩ := h.entryAdd_new he hlen hfull
    refine ⟨_, hkept, by simp, ?_⟩
    rw [hsize, Nat.mul_comm, Nat.mul_add_mod, Nat.mod_eq_of_lt hlen]
    omega
  · obtain ⟨hfit, hne⟩ := not_or.mp hfull
    rcases List.eq_nil_or_concat ps with rfl | ⟨A, es, rfl⟩
    · rw [h.size_nil] at hne
      exact absurd rfl hne
    rw [List.concat_eq_append] at *
    have hend := h.size_eq.2
    obtain ⟨hused, hblank⟩ := h.last rfl
    have hmod := h.size_mod
    have hlt : d.lastEnd < pageCacheSize := by
      refine Nat.lt_of_le_of_ne hend fun heq => hne ?_
      rw [hmod, heq, Nat.mod_self]
    rw [Nat.mod_eq_of_lt hlt] at hmod
    -- the last page ends behind its entries
    have hsame : used es = d.lastEnd := by
      by_contra hgap
      have hroom' := h.hasRoom_iff.mp hroom
      omega
    have hput := (h.shown getElem?_split_self).put (hsame ▸ hblank) he (by dsimp only; omega)
    rw [hsame] at hput
    obtain ⟨hkept, hsize⟩ := h.entryAdd_last (by omega)
      (by rw [used_append, used_cons, used_nil]; dsimp only; omega) hput
    refine ⟨_, hkept, by simp, ?_⟩
    rw [hsize, Nat.mul_comm, Nat.mul_add_mod, Nat.mod_eq_of_lt (by omega)]
    omega

/-- Adding an entry for which there is no room. -/
theorem Kept.entryAdd_behind (h : d.Kept ps) (hroom : ¬d.HasRoom [] (recLen name)) :
    (d.entryAdd name ino).Kept ps := by
  rcases List.eq_nil_or_concat ps with rfl | ⟨A, es, rfl⟩
  · exact absurd (fun hgap => absurd h.size_nil hgap.1) hroom
  rw [List.concat_eq_append] at *
  rw [h.hasRoom_iff, Classical.not_imp] at hroom
  have hlen := length_record (e := ⟨name, ino⟩)
  dsimp only at hlen
  refine (h.entryAdd_last (by omega) (by omega) ?_).1
  exact (h.shown getElem?_split_self).put_behind hroom.1 (by omega)

/-- A record longer than a page is written past its end, and one that fills a page is not listed. -/
theorem Kept.entryAdd_long (h : d.Kept ps) (hnew : ∀ x ∈ ps.flatten, x.name ≠ name)
    (hlong : pageCacheSize ≤ recLen name) :
    (∃ i < (d.entryAdd name ino).dirPages,
      pageCacheSize < ((d.entryAdd name ino).pages i).length) ∨
    ∀ x ∈ (d.entryAdd name ino).listing, x.name ≠ name := by
  have hp : pageCacheSize = 4096 := rfl
  have hpage : putRecord (List.replicate pageCacheSize 0) 0 (DirEntry.record ⟨name, ino⟩) =
      DirEntry.record ⟨name, ino⟩ := by
    rw [putRecord, List.take_zero, List.nil_append, Nat.zero_add, length_record,
      List.drop_eq_nil_of_le (by rw [List.length_replicate]; exact hlong), List.append_nil]
  have hsize : max d.size (ps.length * pageCacheSize + recLen name) =
      ps.length * pageCacheSize + recLen name := max_eq_right (Nat.le_add_right_of_le h.size_le)
  have hresult : d.entryAdd name ino =
      { size := ps.length * pageCacheSize + recLen name
        pages := (d.setPage ps.length (DirEntry.record ⟨name, ino⟩)).pages } := by
    rw [entryAdd_of_full (.inl (Nat.le_add_left_of_le hlong)), hpage, h.count, commitWrite]
    exact congrArg (fun n => DirInode.mk n _) hsize
  rw [hresult]
  rcases Nat.lt_or_eq_of_le hlong with hlt | heq
  · refine .inl ⟨ps.length, ?_, ?_⟩
    · rw [DirInode.dirPages, hp] at *
      dsimp only
      omega
    · have hget : (d.setPage ps.length (DirEntry.record ⟨name, ino⟩)).pages ps.length =
          DirEntry.record ⟨name, ino⟩ := if_pos rfl
      rw [hget, length_record]
      exact hlt
  · refine .inr fun x hx => hnew x ?_
    rw [listing_of_pages (A := ps) ?_ fun i es hi => ?_] at hx
    · have hzero : (ps.length * pageCacheSize + recLen name) % pageCacheSize = 0 := by
        rw [← heq, ← Nat.succ_mul, Nat.mul_mod_left]
      rw [hzero] at hx
      rcases List.mem_append.mp hx with hx | hx
      · exact hx
      · exact absurd hx List.not_mem_nil
    · rw [DirInode.dirPages, ← heq, hp]
      dsimp only
      omega
    · have hlt := (List.getElem?_eq_some_iff.mp hi).1
      have hother : (d.setPage ps.length (DirEntry.record ⟨name, ino⟩)).pages i = d.pages i :=
        if_neg (Nat.ne_of_lt hlt)
      rw [hother, h.shows.entriesOf hi, placed_map_snd]

end DirInode

end Add

/-! ## The entries -/

/-- The loops come past the entries, and no name is there twice. -/
structure DirInode.Legible (d : DirInode) : Prop where
  kept : ∃ ps, d.Kept ps
  distinct : (d.entries.map DirEntry.name).Nodup

namespace DirInode

variable {d d' : DirInode} {e : DirEntry} {name : Name} {ino : Nat}

theorem WellFormed.legible (h : d.WellFormed) : d.Legible := by
  obtain ⟨ps, hholds⟩ := h.holds
  exact ⟨⟨ps, hholds.kept⟩, h.distinct⟩

/-- What a deletion does, wherever the last page ends. -/
structure Deleted (d : DirInode) (e : DirEntry) (d' : DirInode) : Prop where
  legible : d'.Legible
  entries : d'.entries = d.entries.filter fun x => x.name ≠ e.name
  room : ∀ {goes : List DirEntry} {r : Nat}, (∀ g ∈ goes, g.name ≠ e.name) → used goes ≤ r →
    (d'.HasRoom goes r ↔ d.HasRoom (e :: goes) r)
  listed : d.Gap ∨ ¬d.LeavesGap e.name → ∀ x ∈ d.listing, x ≠ e → x ∈ d'.listing
  hidden : ¬d.Gap → d.LeavesGap e.name → ∃ x ∈ d'.entries, x ∈ d.listing ∧ x ∉ d'.listing

namespace Legible

theorem readable (h : d.Legible) : d.Readable := by
  obtain ⟨ps, hkept⟩ := h.kept
  exact ⟨⟨ps, hkept.shows⟩, h.distinct⟩

/-- The entries can be stored. -/
theorem storable (h : d.Legible) (he : e ∈ d.entries) : e.Storable := by
  obtain ⟨ps, hkept⟩ := h.kept
  rw [hkept.shows.entries] at he
  obtain ⟨es, hes, he⟩ := List.mem_flatten.mp he
  obtain ⟨i, hi⟩ := List.getElem?_of_mem hes
  exact (hkept.shown hi).storable e he

/-- Nothing was written past the end of a page. -/
theorem length_page (h : d.Legible) {i : Nat} (hi : i < d.dirPages) :
    (d.pages i).length = pageCacheSize := by
  obtain ⟨ps, hkept⟩ := h.kept
  rw [hkept.count] at hi
  exact (hkept.shown (List.getElem?_eq_getElem hi)).length

/-- `entry_del` deletes a name that is there. -/
theorem entryDel (h : d.Legible) (he : e ∈ d.entries) :
    (d.entryDel e.name).1 = 0 ∧ d.Deleted e (d.entryDel e.name).2 := by
  obtain ⟨ps, hkept⟩ := h.kept
  have hdistinct := h.distinct
  have hentries := hkept.shows.entries
  rw [hentries] at he hdistinct
  obtain ⟨A, a, b, B, e', rfl, hname, hfind⟩ := hkept.shows.findEntry_some he
  obtain rfl : e' = e := List.inj_on_of_nodup_map hdistinct (by simp) he hname
  obtain ⟨ps', hkept', hcut, hflat⟩ := hkept.removeEntry
  rw [DirInode.entryDel, hfind]
  have hentries' := hkept'.shows.entries
  have hleft := hentries'.trans (hflat.trans (filter_name hdistinct).symm)
  rw [← hentries] at hleft
  refine ⟨rfl, ⟨⟨ps', hkept'⟩, ?_⟩, hleft, hcut.hasRoom_iff hdistinct hkept hkept',
    fun hgap x hx hne => hcut.listed hkept hkept' hgap hx hne, ?_⟩
  · rw [hleft]
    exact h.distinct.sublist (List.filter_sublist.map _)
  · rw [hentries']
    exact hcut.hidden hdistinct hkept hkept'

/-- A new entry has a new name. -/
theorem distinct_concat (h : d.Legible) (hnew : ∀ x ∈ d.entries, x.name ≠ name) :
    ((d.entries ++ [DirEntry.mk name ino]).map DirEntry.name).Nodup := by
  rw [List.map_append, List.nodup_append]
  refine ⟨h.distinct, List.nodup_singleton _, fun a ha b hb => ?_⟩
  obtain ⟨x, hx, rfl⟩ := List.mem_map.mp ha
  obtain rfl := List.mem_singleton.mp hb
  exact hnew x hx

/-- `entry_add` adds an entry for which there is room, and closes a gap. -/
theorem entryAdd (h : d.Legible) (hnew : ∀ x ∈ d.entries, x.name ≠ name)
    (hstorable : (DirEntry.mk name ino).Storable) (hfits : recLen name < pageCacheSize)
    (hroom : d.HasRoom [] (recLen name)) : (d.entryAdd name ino).Legible ∧
      (d.entryAdd name ino).entries = d.entries ++ [⟨name, ino⟩] ∧
      (d.entryAdd name ino).listing = (d.entryAdd name ino).entries := by
  obtain ⟨ps, hkept⟩ := h.kept
  obtain ⟨ps', hkept', hflat, hmod⟩ := hkept.entryAdd hstorable hfits hroom
  have hentries : (d.entryAdd name ino).entries = d.entries ++ [⟨name, ino⟩] := by
    rw [hkept'.shows.entries, hflat, hkept.shows.entries]
  refine ⟨⟨⟨ps', hkept'⟩, hentries ▸ h.distinct_concat hnew⟩, hentries, ?_⟩
  rw [hkept'.shows.entries]
  rcases List.eq_nil_or_concat ps' with rfl | ⟨A, es, rfl⟩
  · exact absurd (by rw [hkept'.size_nil]; rfl) hmod
  · rw [List.concat_eq_append] at hkept' ⊢
    rw [hkept'.size_mod] at hmod
    rw [hkept'.listing_concat, if_neg fun heq => hmod (by rw [heq, Nat.mod_self]),
      List.flatten_append, List.flatten_singleton]

variable (ino) in
/-- `entry_add` writes a record behind a gap, and no loop comes past it. -/
theorem entryAdd_behind (h : d.Legible) (hroom : ¬d.HasRoom [] (recLen name)) :
    (d.entryAdd name ino).Legible ∧ (d.entryAdd name ino).entries = d.entries := by
  obtain ⟨ps, hkept⟩ := h.kept
  have hkept' : (d.entryAdd name ino).Kept ps := hkept.entryAdd_behind hroom
  have hentries : (d.entryAdd name ino).entries = d.entries := by
    rw [hkept'.shows.entries, hkept.shows.entries]
  exact ⟨⟨⟨ps, hkept'⟩, hentries ▸ h.distinct⟩, hentries⟩

variable (ino) in
/-- A name that is too long leaves the page, or is not listed. -/
theorem entryAdd_long (h : d.Legible) (hnew : ∀ x ∈ d.entries, x.name ≠ name)
    (hlong : pageCacheSize ≤ recLen name) : (∃ i < (d.entryAdd name ino).dirPages,
      pageCacheSize < ((d.entryAdd name ino).pages i).length) ∨
    ∀ x ∈ (d.entryAdd name ino).listing, x.name ≠ name := by
  obtain ⟨ps, hkept⟩ := h.kept
  rw [hkept.shows.entries] at hnew
  exact hkept.entryAdd_long hnew hlong

end Legible

end DirInode

/-! ## Runs -/

/-- Additions and deletions keep a directory legible, and leave no entry that was not added or that
was deleted. -/
theorem legible_of_reach (pages : Nat → List UInt8) {s : Session}
    (hs : Reach dirNext (fun s e => Valid s e ∧ ∀ name ino, e = .add name ino →
      recLen name < pageCacheSize) (.init pages) s) :
    s.dir.Legible ∧ s.dir.entries ⊆ s.live := by
  have hinit : (Session.init pages).dir.Legible ∧ (Session.init pages).dir.entries ⊆ [] := by
    obtain ⟨hwell, hentries⟩ := DirInode.WellFormed.empty pages
    exact ⟨hwell.legible, hentries ▸ List.Subset.refl _⟩
  refine hs.invariant (P := fun s => s.dir.Legible ∧ s.dir.entries ⊆ s.live) hinit ?_
  rintro s e ⟨hlegible, hsub⟩ ⟨hvalid, hfits⟩
  cases e with
  | add name ino =>
    obtain ⟨hnew, hino, hname, hplain, -⟩ := hvalid
    have hnew' : ∀ x ∈ s.dir.entries, x.name ≠ name := fun x hx => hnew x (hsub hx)
    have hstorable : (DirEntry.mk name ino).Storable := ⟨hname, hplain, lt_of_acceptsIno hino⟩
    by_cases hroom : s.dir.HasRoom [] (recLen name)
    · obtain ⟨hlegible', hentries, -⟩ :=
        hlegible.entryAdd hnew' hstorable (hfits name ino rfl) hroom
      refine ⟨hlegible', ?_⟩
      change (s.dir.entryAdd name ino).entries ⊆ s.live ++ [⟨name, ino⟩]
      rw [hentries]
      exact List.append_subset.mpr
        ⟨List.subset_append_of_subset_left _ hsub, List.subset_append_right _ _⟩
    · obtain ⟨hlegible', hentries⟩ := hlegible.entryAdd_behind ino hroom
      refine ⟨hlegible', ?_⟩
      change (s.dir.entryAdd name ino).entries ⊆ s.live ++ [⟨name, ino⟩]
      rw [hentries]
      exact List.subset_append_of_subset_left _ hsub
  | del name =>
    by_cases hmem : ∃ e ∈ s.dir.entries, e.name = name
    · obtain ⟨e, he, rfl⟩ := hmem
      obtain ⟨-, hdeleted⟩ := hlegible.entryDel he
      refine ⟨hdeleted.legible, ?_⟩
      change (s.dir.entryDel e.name).2.entries ⊆ s.live.filter fun x => x.name ≠ e.name
      rw [hdeleted.entries]
      exact List.filter_subset _ hsub
    · rw [dirNext]
      have hnone : ∀ e ∈ s.dir.entries, e.name ≠ name := fun e he hn => hmem ⟨e, he, hn⟩
      have hsame := hlegible.readable.entryDel_none hnone
      refine ⟨?_, ?_⟩
      · change (s.dir.entryDel name).2.Legible
        rw [hsame]
        exact hlegible
      · change (s.dir.entryDel name).2.entries ⊆ s.live.filter fun x => x.name ≠ name
        rw [hsame]
        exact fun x hx => List.mem_filter.mpr ⟨hsub hx, decide_eq_true (hnone x hx)⟩
  | «open» => exact ⟨hlegible, hsub⟩
  | readdir accept => exact ⟨hlegible, hsub⟩

end Ost.Osdfs
