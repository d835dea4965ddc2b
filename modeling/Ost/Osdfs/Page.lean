import Mathlib.Data.List.TakeWhile
import Mathlib.Data.UInt

/-!
# Pages of a directory

A directory of osdfs is a file, and its entries lie one behind the other in the pages of the file:
the name, a zero byte, the number of the inode as it lies in memory, and another zero byte.  Behind
the last entry a page is filled with zeros, so an entry that begins with a zero byte ends the page.

`walk` is the loop over the entries of a page that `entry_del`, `entry_num`, `osdfs_lookup` and
`osdfs_readdir` have in common.
-/

namespace Ost.Osdfs

/-! ## Entries -/

/-- A file name, without the zero byte that ends it. -/
abbrev Name := List UInt8

/-- `PAGE_CACHE_SIZE`. -/
def pageCacheSize : Nat := 4096

/-- `sizeof(ino_t)`. -/
def sizeofIno : Nat := 4

/-- An entry of a directory. -/
structure DirEntry where
  name : Name
  ino : Nat
deriving DecidableEq, Repr

/-- The bytes of an `ino_t`. -/
def inoBytes (ino : Nat) : List UInt8 :=
  [UInt8.ofNat ino, UInt8.ofNat (ino / 256), UInt8.ofNat (ino / 65536),
  UInt8.ofNat (ino / 16777216)]

/-- The `ino_t` that begins here. -/
def readIno (l : List UInt8) : Nat :=
  (l.getD 0 0).toNat + 256 * (l.getD 1 0).toNat + 65536 * (l.getD 2 0).toNat +
    16777216 * (l.getD 3 0).toNat

/-- The length of the record of a name. -/
def recLen (name : Name) : Nat := name.length + 2 + sizeofIno

/-- The record of an entry. -/
def DirEntry.record (e : DirEntry) : List UInt8 := e.name ++ 0 :: (inoBytes e.ino ++ [0])

/-- The length of the records of a page. -/
def used (es : List DirEntry) : Nat := (es.map fun e => recLen e.name).sum

/-- A page with these entries. -/
def pageOf (es : List DirEntry) : List UInt8 :=
  es.flatMap DirEntry.record ++ List.replicate (pageCacheSize - used es) 0

/-! ## The loop over the entries -/

/-- The string that begins here. -/
def cString (l : List UInt8) : Name := l.takeWhile (· ≠ 0)

/-- The loop `while ((ptr<limit)&&(*ptr))`: where it comes to, and the entries it finds there. -/
def walk (limit : Nat) (page : List UInt8) : Nat → Nat → List (Nat × DirEntry)
  | 0, _ => []
  | fuel + 1, ptr =>
    if ptr < limit ∧ page.getD ptr 0 ≠ 0 then
      let name := cString (page.drop ptr)
      (ptr, ⟨name, readIno (page.drop (ptr + name.length + 1))⟩) ::
        walk limit page fuel (ptr + recLen name)
    else []

/-- The entries of a page up to a limit.  A record has at least one byte, so there are no more
records than bytes. -/
def entriesOf (limit : Nat) (page : List UInt8) : List (Nat × DirEntry) :=
  walk limit page pageCacheSize 0

/-- Entries with the places where they lie. -/
def placed : Nat → List DirEntry → List (Nat × DirEntry)
  | _, [] => []
  | ptr, e :: es => (ptr, e) :: placed (ptr + recLen e.name) es

/-- What can be stored: a name that is not empty and that ends at its zero byte, and a number that
an `ino_t` holds. -/
structure DirEntry.Storable (e : DirEntry) : Prop where
  nonempty : e.name ≠ []
  plain : ∀ b ∈ e.name, b ≠ 0
  ino : e.ino < 4294967296

section Records

variable {e : DirEntry} {es es' : List DirEntry} {ptr : Nat}

@[simp] theorem used_nil : used [] = 0 := rfl

@[simp] theorem used_cons : used (e :: es) = recLen e.name + used es := by
  rw [used, List.map_cons, List.sum_cons]
  rfl

@[simp] theorem used_append : used (es ++ es') = used es + used es' := by
  rw [used, List.map_append, List.sum_append]
  rfl

theorem used_filter_le (es : List DirEntry) (p : DirEntry → Bool) :
    used (es.filter p) ≤ used es := by
  induction es with
  | nil => exact Nat.le_refl _
  | cons e es ih =>
    rw [List.filter_cons]
    split
    · rw [used_cons, used_cons]
      omega
    · rw [used_cons]
      omega

theorem length_record : e.record.length = recLen e.name := by
  simp only [DirEntry.record, inoBytes, List.length_append, List.length_cons, List.length_nil,
    recLen, sizeofIno]

theorem length_records : (es.flatMap DirEntry.record).length = used es := by
  induction es with
  | nil => rfl
  | cons e es ih => rw [List.flatMap_cons, List.length_append, length_record, ih, used_cons]

theorem length_pageOf (h : used es ≤ pageCacheSize) : (pageOf es).length = pageCacheSize := by
  rw [pageOf, List.length_append, length_records, List.length_replicate]
  omega

theorem readIno_inoBytes {n : Nat} (h : n < 4294967296) (l : List UInt8) :
    readIno (inoBytes n ++ l) = n := by
  simp only [readIno, inoBytes, List.cons_append, List.nil_append, List.getD_cons_zero,
    List.getD_cons_succ, UInt8.toNat_ofNat']
  omega

theorem cString_record (h : e.Storable) (l : List UInt8) : cString (e.record ++ l) = e.name := by
  rw [cString, DirEntry.record, List.append_assoc, List.takeWhile_append_of_pos]
  · rw [List.cons_append, List.takeWhile_cons_of_neg (by simp), List.append_nil]
  · intro b hb
    exact decide_eq_true (h.plain b hb)

theorem ino_record (h : e.Storable) (l : List UInt8) :
    readIno ((e.record ++ l).drop (e.name.length + 1)) = e.ino := by
  have hsplit : e.record ++ l = (e.name ++ [0]) ++ (inoBytes e.ino ++ ([0] ++ l)) := by
    simp only [DirEntry.record, List.append_assoc, List.cons_append, List.nil_append]
  have hlen : (e.name ++ [0]).length = e.name.length + 1 := by
    rw [List.length_append, List.length_singleton]
  rw [hsplit, ← hlen, List.drop_left]
  exact readIno_inoBytes h.ino _

/-- The loop finds the entries that lie in a page. -/
theorem walk_placed {limit fuel : Nat} {page rest : List UInt8} (hes : ∀ e ∈ es, e.Storable)
    (hpage : page.drop ptr = es.flatMap DirEntry.record ++ rest) (hlimit : ptr + used es ≤ limit)
    (hend : ptr + used es = limit ∨ rest.getD 0 0 = 0) (hfuel : es.length < fuel) :
    walk limit page fuel ptr = placed ptr es := by
  induction es generalizing ptr fuel with
  | nil =>
    obtain ⟨fuel, rfl⟩ := Nat.exists_eq_succ_of_ne_zero (by omega : fuel ≠ 0)
    refine if_neg fun h => ?_
    rcases hend with hend | hend
    · rw [used_nil] at hend
      omega
    · refine h.2 ?_
      rw [List.flatMap_nil, List.nil_append] at hpage
      have hget : page.getD ptr 0 = rest.getD 0 0 := by
        rw [← hpage, List.getD_eq_getElem?_getD, List.getD_eq_getElem?_getD, List.getElem?_drop,
          Nat.add_zero]
      exact hget.trans hend
  | cons e es ih =>
    obtain ⟨he, hes⟩ := List.forall_mem_cons.mp hes
    obtain ⟨fuel, rfl⟩ := Nat.exists_eq_succ_of_ne_zero (by omega : fuel ≠ 0)
    rw [used_cons] at hlimit hend
    rw [List.flatMap_cons, List.append_assoc] at hpage
    have hfirst : page.getD ptr 0 ≠ 0 := by
      obtain ⟨b, name, hname⟩ := List.exists_cons_of_ne_nil he.nonempty
      have hb : page.getD ptr 0 = b := by
        rw [List.getD_eq_getElem?_getD, show page[ptr]? = (page.drop ptr)[0]? by
          rw [List.getElem?_drop, Nat.add_zero], hpage, DirEntry.record, hname]
        rfl
      rw [hb]
      exact he.plain b (by rw [hname]; exact List.mem_cons_self)
    have hname : cString (page.drop ptr) = e.name := by
      rw [hpage]
      exact cString_record he _
    have hino : readIno (page.drop (ptr + e.name.length + 1)) = e.ino := by
      rw [Nat.add_assoc, ← List.drop_drop, hpage]
      exact ino_record he _
    have hpos : 0 < recLen e.name := by
      unfold recLen sizeofIno
      omega
    rw [walk, if_pos ⟨by omega, hfirst⟩, placed]
    simp only [hname, hino]
    congr 1
    refine ih hes ?_ (by omega) ?_ (by rw [List.length_cons] at hfuel; omega)
    · rw [← List.drop_drop, hpage, ← length_record, List.drop_left]
    · rw [Nat.add_assoc]
      exact hend

/-- Records are not empty. -/
theorem length_le_used (es : List DirEntry) : 6 * es.length ≤ used es := by
  induction es with
  | nil => exact Nat.le_refl _
  | cons e es ih =>
    rw [List.length_cons, used_cons, recLen, sizeofIno]
    omega

/-- What the loop finds in a page. -/
theorem entriesOf_pageOf {limit : Nat} (hes : ∀ e ∈ es, e.Storable) (hused : used es ≤ limit)
    (hlimit : limit ≤ pageCacheSize) : entriesOf limit (pageOf es) = placed 0 es := by
  have hlen := length_le_used es
  have hsize : pageCacheSize = 4096 := rfl
  have hrest : (List.replicate (pageCacheSize - used es) (0 : UInt8)).getD 0 0 = 0 := by
    cases pageCacheSize - used es <;> rfl
  exact walk_placed hes rfl (by omega) (.inr hrest) (by omega)

theorem placed_map_snd (ptr : Nat) (es : List DirEntry) : (placed ptr es).map Prod.snd = es := by
  induction es generalizing ptr with
  | nil => rfl
  | cons e es ih => rw [placed, List.map_cons, ih]

theorem placed_append (ptr : Nat) (es es' : List DirEntry) :
    placed ptr (es ++ es') = placed ptr es ++ placed (ptr + used es) es' := by
  induction es generalizing ptr with
  | nil => rfl
  | cons e es ih => rw [List.cons_append, placed, placed, ih, used_cons, List.cons_append,
      Nat.add_assoc]

theorem length_placed (ptr : Nat) (es : List DirEntry) : (placed ptr es).length = es.length := by
  rw [← List.length_map Prod.snd, placed_map_snd]

/-- The first entry with a name. -/
theorem find_placed {name : Name} (ptr : Nat) (hfirst : ∀ a ∈ es, a.name ≠ name)
    (he : e.name = name) : (placed ptr (es ++ e :: es')).find? (fun x => x.2.name = name) =
      some (ptr + used es, e) := by
  rw [placed_append, List.find?_append]
  have hnone : (placed ptr es).find? (fun x => x.2.name = name) = none := by
    refine List.find?_eq_none.mpr fun x hx => ?_
    have hmem : x.2 ∈ (placed ptr es).map Prod.snd := List.mem_map_of_mem hx
    rw [placed_map_snd] at hmem
    simpa using hfirst _ hmem
  rw [hnone, Option.none_or, placed, List.find?_cons_of_pos (by simpa using he)]

theorem find_placed_none {name : Name} (ptr : Nat) (h : ∀ a ∈ es, a.name ≠ name) :
    (placed ptr es).find? (fun x => x.2.name = name) = none := by
  refine List.find?_eq_none.mpr fun x hx => ?_
  have hmem : x.2 ∈ (placed ptr es).map Prod.snd := List.mem_map_of_mem hx
  rw [placed_map_snd] at hmem
  simpa using h _ hmem

end Records

/-! ## Adding and removing -/

/-- Write a record into a page. -/
def putRecord (page : List UInt8) (offset : Nat) (r : List UInt8) : List UInt8 :=
  page.take offset ++ r ++ page.drop (offset + r.length)

/-- Move what lies behind a record over it, and fill up with zeros. -/
def cutRecord (page : List UInt8) (ptr len : Nat) : List UInt8 :=
  page.take ptr ++ page.drop (ptr + len) ++ List.replicate len 0

section Change

variable {e : DirEntry} {es es' : List DirEntry}

/-- A record that is put behind the last one. -/
theorem putRecord_pageOf (h : used es + recLen e.name ≤ pageCacheSize) :
    putRecord (pageOf es) (used es) e.record = pageOf (es ++ [e]) := by
  have hz : pageCacheSize - used es - recLen e.name = pageCacheSize - used (es ++ [e]) := by
    rw [used_append, used_cons, used_nil]
    omega
  have htake : (pageOf es).take (used es) = es.flatMap DirEntry.record := by
    rw [pageOf, ← length_records, List.take_left]
  have hdrop : (pageOf es).drop (used es + e.record.length) =
      List.replicate (pageCacheSize - used (es ++ [e])) 0 := by
    rw [← List.drop_drop, pageOf, ← length_records, List.drop_left, length_records,
      List.drop_replicate, length_record, hz]
  rw [putRecord, htake, hdrop, pageOf, List.flatMap_append, List.flatMap_cons, List.flatMap_nil,
    List.append_nil]

/-- The first record of a new page. -/
theorem putRecord_empty (h : recLen e.name ≤ pageCacheSize) :
    putRecord (List.replicate pageCacheSize 0) 0 e.record = pageOf [e] := by
  have hput : putRecord (pageOf []) (used []) e.record = pageOf ([] ++ [e]) :=
    putRecord_pageOf (by rwa [used_nil, Nat.zero_add])
  rwa [used_nil, List.nil_append] at hput

/-- A record that is taken out. -/
theorem cutRecord_pageOf (h : used (es ++ e :: es') ≤ pageCacheSize) :
    cutRecord (pageOf (es ++ e :: es')) (used es) (recLen e.name) = pageOf (es ++ es') := by
  have hsplit : pageOf (es ++ e :: es') = es.flatMap DirEntry.record ++ (e.record ++
      (es'.flatMap DirEntry.record ++ List.replicate
      (pageCacheSize - used (es ++ e :: es')) 0)) := by
    rw [pageOf, List.flatMap_append, List.flatMap_cons]
    simp only [List.append_assoc]
  have htake : (pageOf (es ++ e :: es')).take (used es) = es.flatMap DirEntry.record := by
    rw [hsplit, ← length_records, List.take_left]
  have hdrop : (pageOf (es ++ e :: es')).drop (used es + recLen e.name) =
      es'.flatMap DirEntry.record ++ List.replicate (pageCacheSize - used (es ++ e :: es')) 0 := by
    rw [← List.drop_drop, hsplit, ← length_records, List.drop_left, ← length_record, List.drop_left]
  have hz : pageCacheSize - used (es ++ e :: es') + recLen e.name =
      pageCacheSize - used (es ++ es') := by
    rw [used_append, used_cons] at h ⊢
    rw [used_append]
    omega
  rw [cutRecord, htake, hdrop, List.append_assoc, List.append_assoc,
    List.replicate_append_replicate, hz, pageOf, List.flatMap_append, List.append_assoc]

end Change

/-! ## Pages with a rest -/

/-- The loops come past these entries on the page.  What lies behind the zero byte that ends them is
not looked at. -/
structure Shown (page : List UInt8) (es : List DirEntry) : Prop where
  storable : ∀ e ∈ es, e.Storable
  fits : used es < pageCacheSize
  length : page.length = pageCacheSize
  split : ∃ rest, page = es.flatMap DirEntry.record ++ rest ∧ rest.getD 0 0 = 0

/-- From `n` on a page holds zeros only. -/
def Blank (page : List UInt8) (n : Nat) : Prop := ∀ i, n ≤ i → page.getD i 0 = 0

section Rest

variable {page : List UInt8} {e : DirEntry} {es a b : List DirEntry} {n limit offset : Nat}

/-- What the loop finds. -/
theorem Shown.entriesOf (h : Shown page es) (hused : used es ≤ limit)
    (hlimit : limit ≤ pageCacheSize) : entriesOf limit page = placed 0 es := by
  obtain ⟨rest, hpage, hrest⟩ := h.split
  have hlen := length_le_used es
  have hsize : pageCacheSize = 4096 := rfl
  exact walk_placed h.storable hpage (by omega) (.inr hrest) (by omega)

theorem shown_pageOf (hes : ∀ e ∈ es, e.Storable) (hfits : used es < pageCacheSize) :
    Shown (pageOf es) es := by
  refine ⟨hes, hfits, length_pageOf (Nat.le_of_lt hfits), _, rfl, ?_⟩
  cases pageCacheSize - used es <;> rfl

theorem blank_pageOf (es : List DirEntry) : Blank (pageOf es) (used es) := by
  intro i hi
  rw [pageOf, List.getD_eq_getElem?_getD, List.getElem?_append_right (by rwa [length_records]),
    List.getElem?_replicate]
  split <;> rfl

/-- What lies behind a record moves up. -/
theorem getD_cutRecord {ptr len i : Nat} (hlen : ptr + len ≤ page.length) (hi : ptr ≤ i) :
    (cutRecord page ptr len).getD i 0 = page.getD (i + len) 0 := by
  have htake : (page.take ptr).length = ptr := List.length_take_of_le (by omega)
  have hdrop : (page.drop (ptr + len)).length = page.length - (ptr + len) := List.length_drop
  rw [cutRecord, List.append_assoc, List.getD_eq_getElem?_getD, List.getD_eq_getElem?_getD,
    List.getElem?_append_right (by omega), htake]
  rcases Nat.lt_or_ge (i + len) page.length with hlt | hge
  · rw [List.getElem?_append_left (by omega), List.getElem?_drop,
      show ptr + len + (i - ptr) = i + len by omega]
  · rw [List.getElem?_append_right (by omega), List.getElem?_replicate,
      List.getElem?_eq_none hge]
    split <;> rfl

/-- A record that is taken out. -/
theorem Shown.cut (h : Shown page (a ++ e :: b)) :
    Shown (cutRecord page (used a) (recLen e.name)) (a ++ b) := by
  obtain ⟨rest, hpage, hrest⟩ := h.split
  obtain ⟨ha, hb⟩ := List.forall_mem_append.mp h.storable
  have hfits := h.fits
  have hlength := h.length
  rw [used_append, used_cons] at hfits
  have hsplit : page =
      a.flatMap DirEntry.record ++ (e.record ++ (b.flatMap DirEntry.record ++ rest)) := by
    rw [hpage, List.flatMap_append, List.flatMap_cons]
    simp only [List.append_assoc]
  have htake : page.take (used a) = a.flatMap DirEntry.record := by
    rw [hsplit, ← length_records, List.take_left]
  have hdrop : page.drop (used a + recLen e.name) = b.flatMap DirEntry.record ++ rest := by
    rw [← List.drop_drop, hsplit, ← length_records, List.drop_left, ← length_record, List.drop_left]
  refine ⟨List.forall_mem_append.mpr ⟨ha, (List.forall_mem_cons.mp hb).2⟩, ?_, ?_,
    rest ++ List.replicate (recLen e.name) 0, ?_, ?_⟩
  · rw [used_append]
    omega
  · rw [cutRecord, List.length_append, List.length_append, List.length_take_of_le (by omega),
      List.length_drop, List.length_replicate]
    omega
  · rw [cutRecord, htake, hdrop, List.flatMap_append]
    simp only [List.append_assoc]
  · cases rest with
    | nil =>
      rw [List.nil_append]
      cases recLen e.name <;> rfl
    | cons => exact hrest

theorem Blank.cut (hblank : Blank page n) {ptr len : Nat} (hlen : ptr + len ≤ page.length)
    (hn : ptr + len ≤ n) : Blank (cutRecord page ptr len) (n - len) := by
  intro i hi
  rw [getD_cutRecord hlen (by omega)]
  exact hblank _ (by omega)

/-- What is behind a record that is written. -/
theorem getD_putRecord {r : List UInt8} {i : Nat} (hlen : offset ≤ page.length)
    (hi : offset + r.length ≤ i) : (putRecord page offset r).getD i 0 = page.getD i 0 := by
  have htake : (page.take offset ++ r).length = offset + r.length := by
    rw [List.length_append, List.length_take_of_le hlen]
  rw [putRecord, List.getD_eq_getElem?_getD, List.getD_eq_getElem?_getD,
    List.getElem?_append_right (by omega), htake, List.getElem?_drop,
    show offset + r.length + (i - (offset + r.length)) = i by omega]

theorem length_putRecord {r : List UInt8} (hlen : offset + r.length ≤ page.length) :
    (putRecord page offset r).length = page.length := by
  rw [putRecord, List.length_append, List.length_append, List.length_take_of_le (by omega),
    List.length_drop]
  omega

theorem Blank.put (hblank : Blank page offset) {r : List UInt8} (hlen : offset ≤ page.length) :
    Blank (putRecord page offset r) (offset + r.length) := by
  intro i hi
  rw [getD_putRecord hlen hi]
  exact hblank i (by omega)

/-- A record that is put behind the last one. -/
theorem Shown.put (h : Shown page es) (hblank : Blank page (used es)) (he : e.Storable)
    (hfits : used es + recLen e.name < pageCacheSize) :
    Shown (putRecord page (used es) e.record) (es ++ [e]) := by
  obtain ⟨rest, hpage, -⟩ := h.split
  have hlength := h.length
  have hrecord := length_record (e := e)
  have htake : page.take (used es) = es.flatMap DirEntry.record := by
    rw [hpage, ← length_records, List.take_left]
  refine ⟨List.forall_mem_append.mpr ⟨h.storable, List.forall_mem_singleton.mpr he⟩, ?_, ?_,
    page.drop (used es + e.record.length), ?_, ?_⟩
  · rw [used_append, used_cons, used_nil]
    exact hfits
  · rw [length_putRecord (by omega), hlength]
  · rw [putRecord, htake, List.flatMap_append, List.flatMap_cons, List.flatMap_nil, List.append_nil]
  · rw [List.getD_eq_getElem?_getD, List.getElem?_drop, ← List.getD_eq_getElem?_getD]
    exact hblank _ (by omega)

/-- A record that is put behind the zero byte. -/
theorem Shown.put_behind (h : Shown page es) {r : List UInt8} (hgap : used es < offset)
    (hlen : offset + r.length ≤ pageCacheSize) : Shown (putRecord page offset r) es := by
  obtain ⟨rest, hpage, hrest⟩ := h.split
  have hlength := h.length
  obtain ⟨k, rfl⟩ := Nat.exists_eq_add_of_lt hgap
  obtain ⟨c, rest, rfl⟩ : ∃ c l, rest = c :: l := by
    cases rest with
    | nil =>
      rw [hpage, List.append_nil, length_records] at hlength
      have hfits := h.fits
      omega
    | cons c l => exact ⟨c, l, rfl⟩
  have htake : page.take (used es + k + 1) = es.flatMap DirEntry.record ++ c :: rest.take k := by
    rw [hpage, Nat.add_assoc, ← length_records, List.take_length_add_append]
    rfl
  refine ⟨h.storable, h.fits, ?_, c :: rest.take k ++ r ++ page.drop (used es + k + 1 + r.length),
    ?_, ?_⟩
  · rw [length_putRecord (by omega), hlength]
  · rw [putRecord, htake]
    simp only [List.append_assoc]
  · exact hrest

end Rest

end Ost.Osdfs
