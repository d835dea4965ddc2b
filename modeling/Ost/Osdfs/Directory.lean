import Mathlib.Data.List.Flatten
import Mathlib.Data.List.Nodup
import Ost.Osdfs.Page
import Ost.Prog.Run

/-!
# Directories

`entry_add`, `entry_del`, `entry_num`, `osdfs_lookup` and `osdfs_readdir` of `osdfs.c`, on the pages
of a directory and its `i_size`.  An entry is added behind the last one, on a new page when it does
not fit.  When an entry is deleted the rest of its page moves up, and `i_size` shrinks if it was the
last page.

`generic_commit_write` raises `i_size` to the end of what was written, and the `memcpy` of
`entry_del` moves bytes.  Pages can always be read, and the lock is always obtained.

The size tells the functions how many pages there are, and `osdfs_readdir` how far the last page
reaches.  This goes wrong when the last page becomes empty: the size is then a multiple of the page
size, although there is a gap at the end of the page that is now the last one.
-/

namespace Ost.Osdfs

open Ost.Prog

/-! ## The functions -/

/-- The inode of a directory: `i_size`, and the pages in the cache. -/
structure DirInode where
  size : Nat
  pages : Nat → List UInt8

namespace DirInode

variable (d : DirInode)

/-- `dir_pages`. -/
def dirPages : Nat := (d.size + pageCacheSize - 1) / pageCacheSize

/-- Change a page. -/
def setPage (n : Nat) (page : List UInt8) : DirInode :=
  { d with pages := fun i => if i = n then page else d.pages i }

/-- `generic_commit_write`, as far as the size goes. -/
def commitWrite (n stop : Nat) : DirInode :=
  { d with size := max d.size (n * pageCacheSize + stop) }

/-- `entry_add`. -/
def entryAdd (name : Name) (ino : Nat) : DirInode :=
  let len := recLen name
  let offset := if d.size % pageCacheSize + len ≥ pageCacheSize then 0 else d.size % pageCacheSize
  let numPages := if offset = 0 then d.dirPages + 1 else d.dirPages
  let page := if offset = 0 then List.replicate pageCacheSize 0 else d.pages (numPages - 1)
  (d.setPage (numPages - 1) (putRecord page offset (DirEntry.record ⟨name, ino⟩))).commitWrite
    (numPages - 1) (offset + len)

/-- Where `entry_del` finds a name: the page, and the place in it. -/
def findEntry (name : Name) : Option (Nat × Nat) :=
  (List.range d.dirPages).findSome? fun i =>
    ((entriesOf pageCacheSize (d.pages i)).find? fun x => x.2.name = name).map fun x => (i, x.1)

/-- `entry_del`, when it has found the name. -/
def removeEntry (name : Name) (i ptr : Nat) : DirInode :=
  let d' := d.setPage i (cutRecord (d.pages i) ptr (recLen name))
  if i = d.dirPages - 1 then
    { d' with size := d.size - recLen name }.commitWrite i ((d.size - recLen name) % pageCacheSize)
  else d'.commitWrite i pageCacheSize

/-- `entry_del`. -/
def entryDel (name : Name) : Int × DirInode :=
  match d.findEntry name with
  | none => (-1, d)
  | some (i, ptr) => (0, d.removeEntry name i ptr)

/-- `entry_num`. -/
def entryNum : Nat :=
  ((List.range d.dirPages).map fun i => (entriesOf pageCacheSize (d.pages i)).length).sum

/-- `osdfs_lookup`: the number of the inode. -/
def lookup (name : Name) : Option Nat :=
  (List.range d.dirPages).reverse.findSome? fun i =>
    ((entriesOf pageCacheSize (d.pages i)).find? fun x => x.2.name = name).map fun x => x.2.ino

/-- How far `osdfs_readdir` reads a page. -/
def readLimit (i : Nat) : Nat :=
  if i = d.dirPages - 1 then min (d.size % pageCacheSize) pageCacheSize else pageCacheSize

/-- The entries that `osdfs_readdir` comes past. -/
def listing : List DirEntry :=
  (List.range d.dirPages).flatMap fun i => (entriesOf (d.readLimit i) (d.pages i)).map Prod.snd

end DirInode

/-! ## `osdfs_readdir` -/

/-- An open directory: `f_pos` and `private_data`. -/
structure OpenDir where
  pos : Int
  seen : Nat
deriving DecidableEq, Repr

/-- What is given to `filldir`. -/
inductive Item where
  | dot
  | dotDot
  | entry (e : DirEntry)
deriving DecidableEq, Repr

/-- What a call of `osdfs_readdir` does: what it returns, how it leaves the open directory, what
`filldir` accepts, and whether it refuses anything. -/
structure Reply where
  rc : Int
  file : OpenDir
  items : List Item
  refused : Bool
deriving DecidableEq, Repr

/-- Whether the directory code accepts a number. -/
def acceptsIno (ino : Nat) : Bool := !(ino > 0xfff123 || ino < 0xabc123)

/-- The loop over the entries, which passes over `offset` of them.  `accept` says which calls of
`filldir` succeed, and `k` counts them. -/
def fill (accept : Nat → Bool) : Nat → Nat → List DirEntry → Int × List DirEntry × Bool
  | _, _, [] => (0, [], false)
  | offset + 1, k, _ :: es => fill accept offset k es
  | 0, k, e :: es =>
    if acceptsIno e.ino = false then (-1, [], false)
    else if accept k = false then (0, [], true)
    else
      let r := fill accept 0 (k + 1) es
      (r.1, e :: r.2.1, r.2.2)

/-- The end of `osdfs_readdir`, when `items` have been given. -/
def DirInode.fillEntries (d : DirInode) (f : OpenDir) (accept : Nat → Bool) (items : List Item)
    (offset : Nat) : Reply :=
  let r := fill accept offset items.length d.listing
  { rc := r.1, file := { f with pos := f.pos + r.2.1.length }
    items := items ++ r.2.1.map .entry, refused := r.2.2 }

/-- The beginning of `osdfs_readdir`: entries may have been deleted since the last call. -/
def DirInode.adjust (d : DirInode) (f : OpenDir) : OpenDir :=
  if f.pos ≠ 0 then
    if f.seen > d.entryNum then
      { pos := f.pos - (f.seen - d.entryNum : Int), seen := d.entryNum }
    else f
  else { f with seen := d.entryNum }

/-- `osdfs_readdir`. -/
def DirInode.readdir (d : DirInode) (f : OpenDir) (accept : Nat → Bool) : Reply :=
  let f := d.adjust f
  if f.pos = 0 then
    if accept 0 = false then ⟨-1, { f with pos := 1 }, [], true⟩
    else if accept 1 = false then ⟨-1, { f with pos := 2 }, [.dot], true⟩
    else d.fillEntries { f with pos := 2 } accept [.dot, .dotDot] 0
  else if f.pos = 1 then
    if accept 0 = false then ⟨-1, { f with pos := 2 }, [], true⟩
    else d.fillEntries { f with pos := 2 } accept [.dotDot] 0
  else d.fillEntries f accept [] (f.pos - 2).toNat

/-! ## Lists of pages -/

section Lists

variable {α β : Type}

/-- A loop over the indices of a list. -/
theorem range_map_eq {l : List α} {g : Nat → β} {f : α → β}
    (h : ∀ i x, l[i]? = some x → g i = f x) : (List.range l.length).map g = l.map f := by
  refine List.ext_getElem (by simp) fun i h₁ h₂ => ?_
  rw [List.getElem_map, List.getElem_map, List.getElem_range]
  rw [List.length_map] at h₂
  exact h i _ (List.getElem?_eq_getElem h₂)

/-- A list, split at an element. -/
theorem exists_split {l : List α} {i : Nat} {x : α} (h : l[i]? = some x) :
    ∃ a b, l = a ++ x :: b ∧ a.length = i := by
  obtain ⟨hi, hx⟩ := List.getElem?_eq_some_iff.mp h
  refine ⟨l.take i, l.drop (i + 1), ?_, List.length_take_of_le (Nat.le_of_lt hi)⟩
  rw [← hx, List.getElem_cons_drop, List.take_append_drop]

/-- Changing one element leaves the others. -/
theorem getElem?_split_ne {a b : List α} {x y : α} {i : Nat} (h : i ≠ a.length) :
    (a ++ x :: b)[i]? = (a ++ y :: b)[i]? := by
  rcases Nat.lt_or_gt_of_ne h with hlt | hgt
  · rw [List.getElem?_append_left hlt, List.getElem?_append_left hlt]
  · obtain ⟨j, hj⟩ := Nat.exists_eq_add_of_lt hgt
    rw [List.getElem?_append_right (Nat.le_of_lt hgt),
      List.getElem?_append_right (Nat.le_of_lt hgt), show i - a.length = j + 1 by omega,
      List.getElem?_cons_succ, List.getElem?_cons_succ]

theorem getElem?_split_self {a b : List α} {x : α} : (a ++ x :: b)[a.length]? = some x := by
  rw [List.getElem?_append_right (Nat.le_refl _), Nat.sub_self, List.getElem?_cons_zero]

end Lists

/-! ## What the pages hold -/

/-- The size of a directory whose pages hold these entries.  A last page that is empty has been left
behind by an empty page after it. -/
def sizeOf (ps : List (List DirEntry)) : Nat :=
  match ps.getLast? with
  | none => 0
  | some [] => ps.length * pageCacheSize
  | some last => (ps.length - 1) * pageCacheSize + used last

/-- The loops come past these entries on the pages. -/
structure DirInode.Shows (d : DirInode) (ps : List (List DirEntry)) : Prop where
  entriesOf : ∀ {i es}, ps[i]? = some es →
    Osdfs.entriesOf pageCacheSize (d.pages i) = placed 0 es
  count : d.dirPages = ps.length

/-- These entries are on the pages, wherever the last page ends. -/
structure DirInode.Stores (d : DirInode) (ps : List (List DirEntry)) : Prop where
  storable : ∀ es ∈ ps, ∀ e ∈ es, e.Storable
  fits : ∀ es ∈ ps, used es < pageCacheSize
  pages : ∀ i es, ps[i]? = some es → d.pages i = pageOf es
  count : d.dirPages = ps.length

/-- The pages hold these entries. -/
structure DirInode.Holds (d : DirInode) (ps : List (List DirEntry)) : Prop where
  storable : ∀ es ∈ ps, ∀ e ∈ es, e.Storable
  fits : ∀ es ∈ ps, used es < pageCacheSize
  pages : ∀ i es, ps[i]? = some es → d.pages i = pageOf es
  size : d.size = sizeOf ps

section Sizes

variable {ps : List (List DirEntry)} {es : List DirEntry}

theorem sizeOf_concat (h : es ≠ []) :
    sizeOf (ps ++ [es]) = ps.length * pageCacheSize + used es := by
  cases es with
  | nil => exact absurd rfl h
  | cons e es => simp only [sizeOf, List.getLast?_concat, List.length_append, List.length_singleton,
      Nat.add_sub_cancel]

theorem sizeOf_concat_nil : sizeOf (ps ++ [[]]) = (ps.length + 1) * pageCacheSize := by
  simp only [sizeOf, List.getLast?_concat, List.length_append, List.length_singleton]

theorem used_pos (h : es ≠ []) : 0 < used es := by
  obtain ⟨e, l, rfl⟩ := List.exists_cons_of_ne_nil h
  rw [used_cons, recLen, sizeofIno]
  omega

theorem used_middle {a b : List DirEntry} {e : DirEntry} :
    used (a ++ e :: b) = used (a ++ b) + recLen e.name := by
  rw [used_append, used_cons, used_append]
  omega

/-- The number of pages, and where the last one ends. -/
theorem sizeOf_div (hfits : ∀ es ∈ ps, used es < pageCacheSize) :
    (sizeOf ps + pageCacheSize - 1) / pageCacheSize = ps.length := by
  have hsize : pageCacheSize = 4096 := rfl
  rcases List.eq_nil_or_concat ps with rfl | ⟨l, es, rfl⟩
  · rw [sizeOf, List.getLast?_nil, hsize]
    rfl
  · rw [List.concat_eq_append] at hfits ⊢
    have hes := hfits es (by simp)
    rw [List.length_append, List.length_singleton]
    by_cases hnil : es = []
    · rw [hnil, sizeOf_concat_nil, hsize]
      omega
    · have hpos := used_pos hnil
      rw [sizeOf_concat hnil]
      rw [hsize] at hes ⊢
      omega

theorem sizeOf_le (hfits : ∀ es ∈ ps, used es < pageCacheSize) :
    sizeOf ps ≤ ps.length * pageCacheSize := by
  rcases List.eq_nil_or_concat ps with rfl | ⟨l, es, rfl⟩
  · exact Nat.zero_le _
  · rw [List.concat_eq_append] at hfits ⊢
    have hes := hfits es (by simp)
    rw [List.length_append, List.length_singleton]
    by_cases hnil : es = []
    · rw [hnil, sizeOf_concat_nil]
    · rw [sizeOf_concat hnil, Nat.add_mul]
      omega

end Sizes

section Add

variable {d : DirInode} {name : Name} {ino : Nat}

/-- An entry that goes to a new page. -/
theorem DirInode.entryAdd_of_full
    (h : d.size % pageCacheSize + recLen name ≥ pageCacheSize ∨ d.size % pageCacheSize = 0) :
    d.entryAdd name ino = (d.setPage d.dirPages (putRecord (List.replicate pageCacheSize 0) 0
      (DirEntry.record ⟨name, ino⟩))).commitWrite d.dirPages (recLen name) := by
  have hzero : (if d.size % pageCacheSize + recLen name ≥ pageCacheSize then 0
      else d.size % pageCacheSize) = 0 := by
    split
    · rfl
    · exact h.resolve_left ‹_›
  simp only [DirInode.entryAdd, hzero, if_true, Nat.add_sub_cancel, Nat.zero_add]

/-- An entry that goes to the last page. -/
theorem DirInode.entryAdd_of_room (hfit : ¬d.size % pageCacheSize + recLen name ≥ pageCacheSize)
    (hne : ¬d.size % pageCacheSize = 0) :
    d.entryAdd name ino = (d.setPage (d.dirPages - 1) (putRecord (d.pages (d.dirPages - 1))
      (d.size % pageCacheSize) (DirEntry.record ⟨name, ino⟩))).commitWrite (d.dirPages - 1)
        (d.size % pageCacheSize + recLen name) := by
  simp only [DirInode.entryAdd, if_neg hfit, if_neg hne]

end Add

section Holds

variable {d : DirInode} {ps A B : List (List DirEntry)} {es : List DirEntry} {i : Nat}

namespace DirInode.Shows

/-- `entry_num` counts the entries. -/
theorem entryNum (h : d.Shows ps) : d.entryNum = ps.flatten.length := by
  rw [DirInode.entryNum, h.count, List.length_flatten]
  refine congrArg List.sum (range_map_eq fun i es hi => ?_)
  rw [h.entriesOf hi, length_placed]

/-- An entry that is found in a page. -/
theorem of_find (h : d.Shows ps) {name : Name} {x : Nat × DirEntry} (hi : ps[i]? = some es)
    (hx : (Osdfs.entriesOf pageCacheSize (d.pages i)).find? (fun x => x.2.name = name) = some x) :
    ∃ a b, es = a ++ x.2 :: b ∧ x.1 = used a ∧ x.2.name = name ∧ ∀ e ∈ a, e.name ≠ name := by
  rw [h.entriesOf hi] at hx
  cases hfind : es.find? (fun e => e.name = name) with
  | some e =>
    obtain ⟨hname, a, b, rfl, hfirst⟩ := List.find?_eq_some_iff_append.mp hfind
    have hname' : e.name = name := of_decide_eq_true hname
    have hfirst' : ∀ e ∈ a, e.name ≠ name := fun e he => by simpa using hfirst e he
    rw [find_placed 0 hfirst' hname', Nat.zero_add] at hx
    obtain rfl := Option.some.inj hx
    exact ⟨a, b, rfl, rfl, hname', hfirst'⟩
  | none =>
    have hname : ∀ e ∈ es, e.name ≠ name := by simpa using hfind
    have hnone := find_placed_none 0 hname
    rw [hnone] at hx
    exact absurd hx (by simp)

/-- A name that is not there is not found in any page. -/
theorem find_none (h : d.Shows ps) {name : Name} (hname : ∀ e ∈ ps.flatten, e.name ≠ name)
    (hi : i < ps.length) :
    (Osdfs.entriesOf pageCacheSize (d.pages i)).find? (fun x => x.2.name = name) = none := by
  have hget : ps[i]? = some ps[i] := List.getElem?_eq_getElem hi
  rw [h.entriesOf hget]
  exact find_placed_none 0 fun e he =>
    hname e (List.mem_flatten.mpr ⟨_, List.getElem_mem hi, he⟩)

/-- A name that is there is found in its page. -/
theorem find_isSome (h : d.Shows ps) {e : DirEntry} (hi : ps[i]? = some es) (he : e ∈ es) :
    ((Osdfs.entriesOf pageCacheSize (d.pages i)).find?
      (fun x => x.2.name = e.name)).isSome = true := by
  rw [h.entriesOf hi, List.find?_isSome]
  have hmem : e ∈ (placed 0 es).map Prod.snd := by rwa [placed_map_snd]
  obtain ⟨x, hx, rfl⟩ := List.mem_map.mp hmem
  exact ⟨x, hx, decide_eq_true rfl⟩

/-- `osdfs_lookup` finds the names that are there. -/
theorem lookup (h : d.Shows ps) (hnodup : (ps.flatten.map DirEntry.name).Nodup) (name : Name) :
    d.lookup name = (ps.flatten.find? fun e => e.name = name).map DirEntry.ino := by
  cases hfind : ps.flatten.find? (fun e => e.name = name) with
  | none =>
    have hname : ∀ e ∈ ps.flatten, e.name ≠ name := fun e he => by
      simpa using List.find?_eq_none.mp hfind e he
    refine List.findSome?_eq_none_iff.mpr fun i hi => ?_
    rw [List.mem_reverse, List.mem_range, h.count] at hi
    rw [h.find_none hname hi]
    rfl
  | some e =>
    have hmem := List.mem_of_find?_eq_some hfind
    have hname : e.name = name := by simpa using List.find?_some hfind
    obtain ⟨es, hes, he⟩ := List.mem_flatten.mp hmem
    obtain ⟨i, hi⟩ := List.getElem?_of_mem hes
    have hlt := (List.getElem?_eq_some_iff.mp hi).1
    have hsome : (d.lookup name).isSome = true := by
      refine List.findSome?_isSome_iff.mpr ⟨i, ?_, ?_⟩
      · rw [List.mem_reverse, List.mem_range, h.count]
        exact hlt
      · rw [Option.isSome_map, ← hname]
        exact h.find_isSome hi he
    obtain ⟨ino, hino⟩ := Option.isSome_iff_exists.mp hsome
    rw [hino]
    obtain ⟨j, hj, hfound⟩ := List.exists_of_findSome?_eq_some hino
    rw [List.mem_reverse, List.mem_range, h.count] at hj
    obtain ⟨x, hx, rfl⟩ := Option.map_eq_some_iff.mp hfound
    have hget : ps[j]? = some ps[j] := List.getElem?_eq_getElem hj
    obtain ⟨a, b, hsplit, -, hxname, -⟩ := h.of_find hget hx
    have hxmem : x.2 ∈ ps.flatten :=
      List.mem_flatten.mpr ⟨_, List.getElem_mem hj, by rw [hsplit]; simp⟩
    rw [List.inj_on_of_nodup_map hnodup hxmem hmem (hxname.trans hname.symm)]
    rfl

/-- `entry_del` does not find a name that is not there. -/
theorem findEntry_none (h : d.Shows ps) {name : Name} (hname : ∀ e ∈ ps.flatten, e.name ≠ name) :
    d.findEntry name = none := by
  refine List.findSome?_eq_none_iff.mpr fun i hi => ?_
  rw [List.mem_range, h.count] at hi
  rw [h.find_none hname hi]
  rfl

/-- `entry_del` finds a name that is there. -/
theorem findEntry_some (h : d.Shows ps) {e : DirEntry} (he : e ∈ ps.flatten) :
    ∃ A a b B e', ps = A ++ (a ++ e' :: b) :: B ∧ e'.name = e.name ∧
      d.findEntry e.name = some (A.length, used a) := by
  obtain ⟨es, hes, he⟩ := List.mem_flatten.mp he
  obtain ⟨i, hi⟩ := List.getElem?_of_mem hes
  have hlt := (List.getElem?_eq_some_iff.mp hi).1
  have hsome : (d.findEntry e.name).isSome = true := by
    refine List.findSome?_isSome_iff.mpr ⟨i, ?_, ?_⟩
    · rw [List.mem_range, h.count]
      exact hlt
    · rw [Option.isSome_map]
      exact h.find_isSome hi he
  obtain ⟨⟨j, ptr⟩, hj⟩ := Option.isSome_iff_exists.mp hsome
  obtain ⟨k, hk, hfound⟩ := List.exists_of_findSome?_eq_some hj
  rw [List.mem_range, h.count] at hk
  obtain ⟨x, hx, heq⟩ := Option.map_eq_some_iff.mp hfound
  obtain ⟨rfl, rfl⟩ := Prod.mk.inj heq
  have hget : ps[k]? = some ps[k] := List.getElem?_eq_getElem hk
  obtain ⟨a, b, hsplit, hplace, hname, -⟩ := h.of_find hget hx
  obtain ⟨A, B, hps, hA⟩ := exists_split hget
  rw [hsplit] at hps
  refine ⟨A, a, b, B, x.2, hps, hname, ?_⟩
  rw [hj, hA, hplace]

end DirInode.Shows

namespace DirInode.Stores

theorem shown (h : d.Stores ps) (hi : ps[i]? = some es) : Shown (d.pages i) es := by
  have hmem := List.mem_of_getElem? hi
  rw [h.pages i es hi]
  exact shown_pageOf (h.storable es hmem) (h.fits es hmem)

theorem shows (h : d.Stores ps) : d.Shows ps where
  entriesOf hi := (h.shown hi).entriesOf (Nat.le_of_lt (h.shown hi).fits) (Nat.le_refl _)
  count := h.count

/-- The pages change in one place. -/
theorem pages_set (h : d.Stores (A ++ es :: B)) {d' : DirInode} {es' : List DirEntry}
    (hset : d'.pages A.length = pageOf es') (hother : ∀ i, i ≠ A.length → d'.pages i = d.pages i) :
    ∀ i fs, (A ++ es' :: B)[i]? = some fs → d'.pages i = pageOf fs := by
  intro i fs hi
  by_cases hiA : i = A.length
  · rw [hiA, getElem?_split_self] at hi
    obtain rfl := Option.some.inj hi
    rw [hiA]
    exact hset
  · rw [hother i hiA]
    exact h.pages i fs ((getElem?_split_ne hiA).trans hi)

/-- What is left when an entry has gone still fits. -/
theorem cut {a b : List DirEntry} {e : DirEntry} (h : d.Stores (A ++ (a ++ e :: b) :: B)) :
    (∀ es ∈ A ++ (a ++ b) :: B, ∀ x ∈ es, x.Storable) ∧
      ∀ es ∈ A ++ (a ++ b) :: B, used es < pageCacheSize := by
  have hstorable := List.forall_mem_append.mp h.storable
  have hfits := List.forall_mem_append.mp h.fits
  obtain ⟨hpage, hB⟩ := List.forall_mem_cons.mp hstorable.2
  obtain ⟨hused, hB'⟩ := List.forall_mem_cons.mp hfits.2
  obtain ⟨ha, hb⟩ := List.forall_mem_append.mp hpage
  rw [used_middle] at hused
  exact ⟨List.forall_mem_append.mpr ⟨hstorable.1, List.forall_mem_cons.mpr
      ⟨List.forall_mem_append.mpr ⟨ha, (List.forall_mem_cons.mp hb).2⟩, hB⟩⟩,
    List.forall_mem_append.mpr ⟨hfits.1, List.forall_mem_cons.mpr ⟨by omega, hB'⟩⟩⟩

theorem cutRecord {a b : List DirEntry} {e : DirEntry} (h : d.Stores (A ++ (a ++ e :: b) :: B)) :
    Osdfs.cutRecord (d.pages A.length) (used a) (recLen e.name) = pageOf (a ++ b) := by
  rw [h.pages _ _ getElem?_split_self]
  exact cutRecord_pageOf (Nat.le_of_lt (h.fits _ (List.mem_append_right _ List.mem_cons_self)))

/-- Deleting an entry of the last page. -/
theorem removeEntry_last {a b : List DirEntry} {e : DirEntry} (h : d.Stores (A ++ [a ++ e :: b]))
    (hlow : A.length * pageCacheSize + used (a ++ e :: b) ≤ d.size)
    (hhigh : d.size ≤ (A.length + 1) * pageCacheSize) :
    d.removeEntry e.name A.length (used a) =
      { size := d.size - recLen e.name
        pages := (d.setPage A.length (pageOf (a ++ b))).pages } := by
  have hpages : A.length = d.dirPages - 1 := by
    rw [h.count, List.length_append, List.length_singleton, Nat.add_sub_cancel]
  have hpos : 0 < recLen e.name := by
    rw [recLen]
    omega
  rw [used_middle] at hlow
  rw [Nat.add_mul] at hhigh
  have hmod : A.length * pageCacheSize + (d.size - recLen e.name) % pageCacheSize =
      d.size - recLen e.name := by
    obtain ⟨k, hk⟩ : ∃ k, d.size - recLen e.name = A.length * pageCacheSize + k :=
      ⟨d.size - recLen e.name - A.length * pageCacheSize, by omega⟩
    rw [hk, Nat.mul_comm, Nat.mul_add_mod, Nat.mod_eq_of_lt (by omega)]
  rw [DirInode.removeEntry, if_pos hpages, h.cutRecord, commitWrite, hmod, max_self]

/-- Deleting an entry of a page before the last one. -/
theorem removeEntry_inner {a b last : List DirEntry} {B' : List (List DirEntry)} {e : DirEntry}
    (h : d.Stores (A ++ (a ++ e :: b) :: (B' ++ [last])))
    (hlow : (A.length + B'.length + 1) * pageCacheSize ≤ d.size) :
    d.removeEntry e.name A.length (used a) = d.setPage A.length (pageOf (a ++ b)) := by
  have hpages : A.length ≠ d.dirPages - 1 := by
    rw [h.count, List.length_append, List.length_cons, List.length_append, List.length_singleton]
    omega
  have hle : A.length * pageCacheSize + pageCacheSize ≤ d.size := by
    rw [Nat.add_mul, Nat.add_mul] at hlow
    omega
  rw [DirInode.removeEntry, if_neg hpages, h.cutRecord, commitWrite]
  exact congrArg (fun n => DirInode.mk n _) (max_eq_left hle)

/-- A page behind the last one. -/
theorem concat (h : d.Stores ps) {d' : DirInode} (hnew : d'.pages ps.length = pageOf es)
    (hother : ∀ i, i ≠ ps.length → d'.pages i = d.pages i) (hstorable : ∀ e ∈ es, e.Storable)
    (hfits : used es < pageCacheSize) (hsize : d'.size = sizeOf (ps ++ [es])) :
    d'.Holds (ps ++ [es]) where
  storable := List.forall_mem_append.mpr ⟨h.storable, List.forall_mem_singleton.mpr hstorable⟩
  fits := List.forall_mem_append.mpr ⟨h.fits, List.forall_mem_singleton.mpr hfits⟩
  pages i fs hi := by
    by_cases hlast : i = ps.length
    · rw [hlast, getElem?_split_self] at hi
      obtain rfl := Option.some.inj hi
      rw [hlast]
      exact hnew
    · rw [hother i hlast]
      refine h.pages i fs ?_
      have hlt := (List.getElem?_eq_some_iff.mp hi).1
      rw [List.length_append, List.length_singleton] at hlt
      rwa [List.getElem?_append_left (by omega)] at hi
  size := hsize

/-- Adding an entry on a new page. -/
theorem entryAdd_new (h : d.Stores ps) (hle : d.size ≤ ps.length * pageCacheSize) {name : Name}
    {ino : Nat} (he : (DirEntry.mk name ino).Storable) (hlen : recLen name < pageCacheSize)
    (hoffset : d.size % pageCacheSize + recLen name ≥ pageCacheSize ∨ d.size % pageCacheSize = 0) :
    (d.entryAdd name ino).Holds (ps ++ [[⟨name, ino⟩]]) := by
  have hone : used [DirEntry.mk name ino] = recLen name := by rw [used_cons, used_nil, Nat.add_zero]
  rw [entryAdd_of_full hoffset, putRecord_empty (e := ⟨name, ino⟩) (Nat.le_of_lt hlen), h.count]
  refine h.concat (if_pos rfl) (fun i hi => if_neg hi) (List.forall_mem_singleton.mpr he)
    (by rw [hone]; exact hlen) ?_
  rw [sizeOf_concat (by simp), hone]
  refine max_eq_right ?_
  change d.size ≤ _
  omega

end DirInode.Stores

namespace DirInode.Holds

theorem dirPages (h : d.Holds ps) : d.dirPages = ps.length := by
  rw [DirInode.dirPages, h.size]
  exact sizeOf_div h.fits

theorem stores (h : d.Holds ps) : d.Stores ps := ⟨h.storable, h.fits, h.pages, h.dirPages⟩

/-- The last page is read up to the end of its entries. -/
theorem listed (h : d.Holds ps) (hi : ps[i]? = some es) :
    (Osdfs.entriesOf (d.readLimit i) (d.pages i)).map Prod.snd = es := by
  have hmem := List.mem_of_getElem? hi
  have hfits := h.fits es hmem
  have hlt := (List.getElem?_eq_some_iff.mp hi).1
  have hlimit : used es ≤ d.readLimit i ∧ d.readLimit i ≤ pageCacheSize := by
    rw [readLimit, h.dirPages, h.size]
    split
    · rcases List.eq_nil_or_concat ps with rfl | ⟨l, last, rfl⟩
      · exact absurd hlt (Nat.not_lt_zero i)
      · rw [List.concat_eq_append] at *
        rename_i heq
        rw [List.length_append, List.length_singleton, Nat.add_sub_cancel] at heq
        rw [heq, List.getElem?_concat_length] at hi
        obtain rfl := Option.some.inj hi
        refine ⟨?_, min_le_right _ _⟩
        by_cases hnil : last = []
        · rw [hnil, used_nil]
          exact Nat.zero_le _
        · rw [sizeOf_concat hnil, Nat.mul_comm, Nat.mul_add_mod, Nat.mod_eq_of_lt hfits]
          exact le_min (Nat.le_refl _) (Nat.le_of_lt hfits)
    · exact ⟨Nat.le_of_lt hfits, Nat.le_refl _⟩
  rw [h.pages i es hi, entriesOf_pageOf (h.storable es hmem) hlimit.1 hlimit.2, placed_map_snd]

/-- `osdfs_readdir` comes past all entries. -/
theorem listing (h : d.Holds ps) : d.listing = ps.flatten := by
  rw [DirInode.listing, h.dirPages, List.flatMap_def]
  have hmap := range_map_eq (l := ps) (f := id)
    (g := fun i => (Osdfs.entriesOf (d.readLimit i) (d.pages i)).map Prod.snd)
    fun i es hi => h.listed hi
  rw [hmap, List.map_id]

/-- Deleting an entry.  What goes wrong when the last page becomes empty is left out. -/
theorem removeEntry {a b : List DirEntry} {e : DirEntry} (h : d.Holds (A ++ (a ++ e :: b) :: B))
    (hlast : B = [] → a ++ b = [] → A = [] ∨ ∃ A', A = A' ++ [[]]) :
    ∃ ps', (d.removeEntry e.name A.length (used a)).Holds ps' ∧
      ps'.flatten = A.flatten ++ (a ++ b) ++ B.flatten := by
  have hcut := h.stores.cut
  rcases List.eq_nil_or_concat B with rfl | ⟨B', last, rfl⟩
  · -- the last page
    have hsize : d.size = A.length * pageCacheSize + used (a ++ e :: b) := by
      rw [h.size, sizeOf_concat (by simp)]
    have hused := used_middle (a := a) (e := e) (b := b)
    have hfits := h.fits (a ++ e :: b) (by simp)
    rw [h.stores.removeEntry_last (Nat.le_of_eq hsize.symm) (by rw [hsize, Nat.add_mul]; omega)]
    have hleft : d.size - recLen e.name = A.length * pageCacheSize + used (a ++ b) := by
      rw [hsize, hused]
      omega
    by_cases hempty : a ++ b = []
    · rw [hempty, used_nil, Nat.add_zero] at hleft
      refine ⟨A, ⟨fun es hes => h.storable es (List.mem_append_left _ hes),
        fun es hes => h.fits es (List.mem_append_left _ hes), fun i es hi => ?_, ?_⟩,
        by simp [hempty]⟩
      · have hlt := (List.getElem?_eq_some_iff.mp hi).1
        refine (if_neg (Nat.ne_of_lt hlt)).trans (h.pages i es ?_)
        rw [List.getElem?_append_left hlt]
        exact hi
      · refine hleft.trans ?_
        rcases hlast rfl hempty with hA | ⟨A', hA⟩
        · rw [hA, sizeOf, List.getLast?_nil, List.length_nil, Nat.zero_mul]
        · rw [hA, sizeOf_concat_nil, List.length_append, List.length_singleton]
    · refine ⟨A ++ [a ++ b], ⟨hcut.1, hcut.2, h.stores.pages_set (if_pos rfl) fun i hi => if_neg hi,
        ?_⟩, by simp⟩
      exact hleft.trans (sizeOf_concat hempty).symm
  · -- a page before the last one
    rw [List.concat_eq_append] at *
    have hassoc : ∀ fs : List DirEntry, A ++ fs :: (B' ++ [last]) = (A ++ fs :: B') ++ [last] := by
      simp
    have hlen : ∀ fs : List DirEntry,
        (A ++ fs :: B').length = A.length + B'.length + 1 := fun fs => by
      rw [List.length_append, List.length_cons, Nat.add_assoc]
    have hsame : ∀ fs gs : List DirEntry,
        sizeOf (A ++ fs :: (B' ++ [last])) = sizeOf (A ++ gs :: (B' ++ [last])) := fun fs gs => by
      rw [hassoc, hassoc]
      by_cases hnil : last = []
      · rw [hnil, sizeOf_concat_nil, sizeOf_concat_nil, hlen, hlen]
      · rw [sizeOf_concat hnil, sizeOf_concat hnil, hlen, hlen]
    have hle : (A.length + B'.length + 1) * pageCacheSize ≤ d.size := by
      rw [h.size, hassoc, ← hlen (a ++ e :: b)]
      by_cases hnil : last = []
      · rw [hnil, sizeOf_concat_nil, Nat.add_mul]
        omega
      · rw [sizeOf_concat hnil]
        omega
    rw [h.stores.removeEntry_inner hle]
    exact ⟨_, ⟨hcut.1, hcut.2, h.stores.pages_set (if_pos rfl) fun i hi => if_neg hi,
      h.size.trans (hsame _ _)⟩, by simp⟩

/-- Adding an entry. -/
theorem entryAdd (h : d.Holds ps) {name : Name} {ino : Nat} (he : (DirEntry.mk name ino).Storable)
    (hlen : recLen name < pageCacheSize) :
    ∃ ps', (d.entryAdd name ino).Holds ps' ∧ ps'.flatten = ps.flatten ++ [⟨name, ino⟩] := by
  by_cases hoffset : d.size % pageCacheSize + recLen name ≥ pageCacheSize ∨
      d.size % pageCacheSize = 0
  · have hle : d.size ≤ ps.length * pageCacheSize := by
      rw [h.size]
      exact sizeOf_le h.fits
    exact ⟨_, h.stores.entryAdd_new hle he hlen hoffset, by simp⟩
  · obtain ⟨hfit, hne⟩ := not_or.mp hoffset
    -- there is a last page, and it is not empty
    rcases List.eq_nil_or_concat ps with rfl | ⟨l, last, rfl⟩
    · rw [h.size] at hne
      exact absurd rfl hne
    rw [List.concat_eq_append] at h ⊢
    have hlast : last ≠ [] := by
      rintro rfl
      rw [h.size, sizeOf_concat_nil, Nat.mul_mod_left] at hne
      exact hne rfl
    have hmem : last ∈ l ++ [last] := by simp
    have hused := h.fits last hmem
    have hmod : d.size % pageCacheSize = used last := by
      rw [h.size, sizeOf_concat hlast, Nat.mul_comm, Nat.mul_add_mod, Nat.mod_eq_of_lt hused]
    rw [hmod] at hfit hne
    have hsum : used (last ++ [⟨name, ino⟩]) = used last + recLen name := by
      rw [used_append, used_cons, used_nil, Nat.add_zero]
    have hpage : putRecord (d.pages l.length) (used last) (DirEntry.record ⟨name, ino⟩) =
        pageOf (last ++ [⟨name, ino⟩]) := by
      rw [h.pages _ _ getElem?_split_self]
      exact putRecord_pageOf (e := ⟨name, ino⟩)
        (show used last + recLen name ≤ pageCacheSize by omega)
    have hplace : d.dirPages - 1 = l.length := by
      rw [h.dirPages, List.length_append, List.length_singleton, Nat.add_sub_cancel]
    have hresult : d.entryAdd name ino = _ :=
      entryAdd_of_room (by rwa [hmod]) (by rwa [hmod])
    rw [hmod, hplace, hpage] at hresult
    refine ⟨l ++ [last ++ [⟨name, ino⟩]], ?_, by simp⟩
    rw [hresult]
    refine ⟨?_, ?_, ?_, ?_⟩
    · refine List.forall_mem_append.mpr
        ⟨fun es hes => h.storable es (List.mem_append_left _ hes), ?_⟩
      exact List.forall_mem_singleton.mpr (List.forall_mem_append.mpr
        ⟨h.storable last hmem, List.forall_mem_singleton.mpr he⟩)
    · refine List.forall_mem_append.mpr ⟨fun es hes => h.fits es (List.mem_append_left _ hes), ?_⟩
      exact List.forall_mem_singleton.mpr (by omega)
    · exact h.stores.pages_set (if_pos rfl) fun i hi => if_neg hi
    · rw [sizeOf_concat (by simp), hsum]
      refine max_eq_right ?_
      change d.size ≤ _
      rw [h.size, sizeOf_concat hlast]
      omega

end DirInode.Holds

end Holds

end Ost.Osdfs
