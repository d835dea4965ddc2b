import Ost.Osdfs.Entries

/-!
# A directory is a finite map

A `Session` is a directory that entries are added to and deleted from, and that is read through an
open file.  `live` is a ghost: the entries that have been added and not deleted, in the order in
which they were added.

In every run in which no deletion leaves a gap at the end of the directory, and in which `filldir`
takes the first two entries together, all functions agree on `live`.
-/

namespace Ost.Osdfs

open Ost.Prog

/-! ## Sessions -/

/-- A directory in use.  `given` are the entries that `filldir` has accepted since the directory was
opened, `steady` tells whether the directory has not changed since then, `rc` is what the last call
of `osdfs_readdir` returned, and `ended` tells whether that call came to the end. -/
structure Session where
  dir : DirInode
  live : List DirEntry
  file : OpenDir
  given : List Item
  steady : Bool
  rc : Int
  ended : Bool

/-- What can be done with a directory. -/
inductive DirEvent where
  | add (name : Name) (ino : Nat)
  | del (name : Name)
  | open
  | readdir (accept : Nat → Bool)

/-- One call. -/
def dirNext : DirEvent → Prog Empty Session PUnit
  | .add name ino => modify fun s =>
    { s with dir := s.dir.entryAdd name ino, live := s.live ++ [⟨name, ino⟩], steady := false }
  | .del name => modify fun s =>
    { s with
      dir := (s.dir.entryDel name).2, live := s.live.filter fun e => e.name ≠ name
      steady := false }
  | .open => modify fun s =>
    { s with file := ⟨0, 0⟩, given := [], steady := true, rc := 0, ended := false }
  | .readdir accept => modify fun s =>
    let r := s.dir.readdir s.file accept
    { s with
      file := r.file, given := s.given ++ r.items, rc := r.rc
      ended := r.rc == 0 && !r.refused }

/-- An empty directory, whatever the cache holds. -/
def Session.init (pages : Nat → List UInt8) : Session :=
  { dir := ⟨0, pages⟩, live := [], file := ⟨0, 0⟩, given := [], steady := false, rc := 0
    ended := false }

/-- What the callers keep to: a new name that is not empty, contains no zero byte and fits a page,
with a number that is accepted. -/
def Valid (s : Session) : DirEvent → Prop
  | .add name ino => (∀ e ∈ s.live, e.name ≠ name) ∧ acceptsIno ino = true ∧ name ≠ [] ∧
      (∀ b ∈ name, b ≠ 0) ∧ recLen name ≤ pageCacheSize
  | _ => True

/-- The calls that do not go wrong. -/
def Regular (s : Session) : DirEvent → Prop
  | .add name _ => recLen name < pageCacheSize
  | .del name => ¬s.dir.LeavesGap name
  | .open => True
  | .readdir accept => s.file.pos = 0 → accept 0 = true ∧ accept 1 = true

/-- What `osdfs_readdir` is to return. -/
def Session.all (s : Session) : List Item := [.dot, .dotDot] ++ s.live.map .entry

/-- The directory is a finite map. -/
structure Session.IsMap (s : Session) : Prop where
  /-- `osdfs_lookup` finds the names that are there, with their numbers. -/
  lookup : ∀ name,
    s.dir.lookup name = (s.live.find? fun e => e.name = name).map DirEntry.ino
  /-- So does `entry_del`. -/
  del : ∀ name, (s.dir.entryDel name).1 = 0 ↔ ∃ e ∈ s.live, e.name = name
  /-- `entry_num` counts them. -/
  num : s.dir.entryNum = s.live.length
  /-- As long as the directory does not change `osdfs_readdir` gives each entry once and in order,
  and all of them when it comes to the end. -/
  listed : s.steady = true →
    s.rc = 0 ∧ s.given <+: s.all ∧ (s.ended = true → s.given = s.all)

instance instDecidableValid (s : Session) : ∀ e, Decidable (Valid s e)
  | .add name ino => inferInstanceAs (Decidable ((∀ e ∈ s.live, e.name ≠ name) ∧
      acceptsIno ino = true ∧ name ≠ [] ∧ (∀ b ∈ name, b ≠ 0) ∧ recLen name ≤ pageCacheSize))
  | .del _ | .open | .readdir _ => inferInstanceAs (Decidable True)

instance instDecidableRegular (s : Session) : ∀ e, Decidable (Regular s e)
  | .add name _ => inferInstanceAs (Decidable (recLen name < pageCacheSize))
  | .del name => inferInstanceAs (Decidable ¬s.dir.LeavesGap name)
  | .open => inferInstanceAs (Decidable True)
  | .readdir accept =>
    inferInstanceAs (Decidable (s.file.pos = 0 → accept 0 = true ∧ accept 1 = true))

/-! ## `osdfs_readdir` -/

section Readdir

variable {d : DirInode} {es : List DirEntry} {accept : Nat → Bool}

/-- The loop gives what is left, up to the first refusal. -/
theorem fill_spec (hes : ∀ e ∈ es, acceptsIno e.ino = true) (offset k : Nat) :
    (fill accept offset k es).1 = 0 ∧ (fill accept offset k es).2.1 <+: es.drop offset ∧
      ((fill accept offset k es).2.2 = false → (fill accept offset k es).2.1 = es.drop offset) := by
  induction es generalizing offset k with
  | nil =>
    rw [fill, List.drop_nil]
    exact ⟨rfl, List.prefix_rfl, fun _ => rfl⟩
  | cons e es ih =>
    obtain ⟨he, hes⟩ := List.forall_mem_cons.mp hes
    cases offset with
    | succ offset =>
      rw [fill, List.drop_succ_cons]
      exact ih hes offset k
    | zero =>
      rw [fill, if_neg (by rw [he]; decide), List.drop_zero]
      split
      · exact ⟨rfl, List.nil_prefix, fun h => absurd h (by decide)⟩
      · obtain ⟨hrc, hpre, hall⟩ := ih hes 0 (k + 1)
        rw [List.drop_zero] at hpre hall
        refine ⟨hrc, ?_, fun h => ?_⟩
        · exact List.cons_prefix_cons.mpr ⟨rfl, hpre⟩
        · exact congrArg (e :: ·) (hall h)

/-- An open directory that has not changed: `f_pos` counts what has been given. -/
structure OpenDir.Tracks (f : OpenDir) (es : List DirEntry) (given : List Item) : Prop where
  pos : f.pos = given.length
  part : given <+: [.dot, .dotDot] ++ es.map .entry
  both : given.length ≠ 1
  seen : f.pos ≠ 0 → f.seen = es.length

/-- The end of a call. -/
theorem fillEntries_spec (hlist : d.listing = es) (hes : ∀ e ∈ es, acceptsIno e.ino = true)
    {f : OpenDir} {given items : List Item} {offset : Nat}
    (hgiven : given ++ items = [.dot, .dotDot] ++ (es.take offset).map .entry)
    (hpos : f.pos = (given ++ items).length) (hseen : f.seen = es.length) :
    let r := d.fillEntries f accept items offset
    r.rc = 0 ∧ r.file.Tracks es (given ++ r.items) ∧
      (r.refused = false → given ++ r.items = [.dot, .dotDot] ++ es.map .entry) := by
  obtain ⟨hrc, ⟨rest, hrest⟩, hall⟩ := @fill_spec es accept hes offset items.length
  rw [← hlist] at hrc hrest hall
  have htotal : ∀ l : List DirEntry, given ++ (items ++ l.map Item.entry) =
      [.dot, .dotDot] ++ (es.take offset ++ l).map .entry := fun l => by
    rw [← List.append_assoc, hgiven, List.map_append, List.append_assoc]
  refine ⟨hrc, ⟨?_, ?_, ?_, fun _ => hseen⟩, fun href => ?_⟩
  · change f.pos + _ = _
    rw [hpos]
    change _ = (List.length (given ++ (items ++ _)) : Int)
    rw [← List.append_assoc, @List.length_append _ (given ++ items), List.length_map]
    omega
  · change given ++ (items ++ _) <+: _
    rw [htotal]
    refine ⟨rest.map .entry, ?_⟩
    rw [List.append_assoc, ← List.map_append, List.append_assoc, hrest, hlist,
      List.take_append_drop]
  · change (given ++ (items ++ _)).length ≠ 1
    rw [htotal]
    simp
  · change given ++ (items ++ _) = _
    rw [htotal, hall href, hlist, List.take_append_drop]

/-- A call of `osdfs_readdir` on a directory that has not changed. -/
theorem readdir_spec (hlist : d.listing = es) (hnum : d.entryNum = es.length)
    (hes : ∀ e ∈ es, acceptsIno e.ino = true) {f : OpenDir} {given : List Item}
    (h : f.Tracks es given) (hfirst : f.pos = 0 → accept 0 = true ∧ accept 1 = true) :
    let r := d.readdir f accept
    r.rc = 0 ∧ r.file.Tracks es (given ++ r.items) ∧
      (r.refused = false → given ++ r.items = [.dot, .dotDot] ++ es.map .entry) := by
  have hadjust : (d.adjust f).pos = f.pos ∧ (d.adjust f).seen = es.length := by
    unfold DirInode.adjust
    split
    · rename_i hpos
      have hseen := h.seen hpos
      rw [if_neg (by rw [hseen, hnum]; exact Nat.lt_irrefl _)]
      exact ⟨rfl, hseen⟩
    · exact ⟨rfl, hnum⟩
  obtain ⟨hpos, hseen⟩ := hadjust
  rw [h.pos] at hpos hfirst
  unfold DirInode.readdir
  generalize d.adjust f = f' at hpos hseen
  by_cases hzero : given.length = 0
  · obtain rfl := List.length_eq_zero_iff.mp hzero
    obtain ⟨h₀, h₁⟩ := hfirst rfl
    simp only [hpos, List.length_nil, Nat.cast_zero, if_true, h₀, h₁, Bool.true_eq_false, if_false]
    exact fillEntries_spec hlist hes rfl rfl hseen
  · have hboth := h.both
    simp only [hpos]
    rw [if_neg (by omega), if_neg (by omega)]
    refine fillEntries_spec hlist hes ?_ ?_ hseen
    · have htake := List.prefix_iff_eq_take.mp h.part
      obtain ⟨n, hn⟩ : ∃ n, given.length = n + 2 := ⟨given.length - 2, by omega⟩
      have hsub : ((given.length : Int) - 2).toNat = n := by omega
      rw [hsub, List.append_nil, List.map_take]
      rw [hn] at htake
      exact htake
    · rw [List.append_nil]
      exact hpos

end Readdir

/-! ## Runs -/

section Runs

variable {s : Session}

/-- The invariant. -/
structure Session.Sound (s : Session) : Prop where
  wellFormed : s.dir.WellFormed
  entries : s.dir.entries = s.live
  accepted : ∀ e ∈ s.live, acceptsIno e.ino = true
  tracks : s.steady = true → s.rc = 0 ∧ s.file.Tracks s.live s.given ∧
    (s.ended = true → s.given = s.all)

/-- A number that is accepted fits an `ino_t`. -/
theorem lt_of_acceptsIno {ino : Nat} (h : acceptsIno ino = true) : ino < 4294967296 := by
  simp only [acceptsIno, Bool.not_eq_true', Bool.or_eq_false_iff, decide_eq_false_iff_not] at h
  omega

/-- `entry_add` adds an entry. -/
theorem Session.Sound.add (h : s.Sound) {name : Name} {ino : Nat}
    (hvalid : Valid s (.add name ino)) (hfits : recLen name < pageCacheSize) :
    ensures (dirNext (.add name ino)) (fun _ s' => s'.Sound) s := by
  obtain ⟨hnew, hino, hname, hplain, -⟩ := hvalid
  rw [← h.entries] at hnew
  obtain ⟨hwell, hentries⟩ :=
    h.wellFormed.entryAdd hnew ⟨hname, hplain, lt_of_acceptsIno hino⟩ hfits
  refine ⟨hwell, hentries.trans (by rw [h.entries]), ?_, fun hs => absurd hs Bool.false_ne_true⟩
  exact List.forall_mem_append.mpr ⟨h.accepted, List.forall_mem_singleton.mpr hino⟩

/-- `entry_del` deletes an entry. -/
theorem Session.Sound.del (h : s.Sound) {name : Name} (hgap : ¬s.dir.LeavesGap name) :
    ensures (dirNext (.del name)) (fun _ s' => s'.Sound) s := by
  have hdone : (s.dir.entryDel name).2.WellFormed ∧
      (s.dir.entryDel name).2.entries = s.live.filter fun e => e.name ≠ name := by
    rw [← h.entries]
    by_cases hmem : ∃ e ∈ s.dir.entries, e.name = name
    · obtain ⟨e, he, rfl⟩ := hmem
      exact (h.wellFormed.entryDel he hgap).2
    · have hnone : ∀ e ∈ s.dir.entries, e.name ≠ name := fun e he hn => hmem ⟨e, he, hn⟩
      rw [h.wellFormed.readable.entryDel_none hnone,
        List.filter_eq_self.mpr fun e he => decide_eq_true (hnone e he)]
      exact ⟨h.wellFormed, rfl⟩
  exact ⟨hdone.1, hdone.2, fun e he => h.accepted e (List.mem_of_mem_filter he),
    fun hs => absurd hs Bool.false_ne_true⟩

/-- One call. -/
theorem dirNext_sound (h : s.Sound) {e : DirEvent} (hvalid : Valid s e) (hregular : Regular s e) :
    ensures (dirNext e) (fun _ s' => s'.Sound) s := by
  cases e with
  | add name ino => exact h.add hvalid hregular
  | del name => exact h.del hregular
  | «open» =>
    refine ⟨h.wellFormed, h.entries, h.accepted, fun _ => ⟨rfl, ⟨rfl, List.nil_prefix, ?_, ?_⟩, ?_⟩⟩
    · exact Nat.zero_ne_one
    · exact fun hne => absurd rfl hne
    · exact fun hended => absurd hended Bool.false_ne_true
  | readdir accept =>
    refine ⟨h.wellFormed, h.entries, h.accepted, fun hsteady => ?_⟩
    obtain ⟨-, htracks, -⟩ := h.tracks hsteady
    obtain ⟨hrc, htracks', hall⟩ := readdir_spec (h.wellFormed.listing.trans h.entries)
      (h.wellFormed.readable.entryNum.trans (congrArg List.length h.entries))
      h.accepted htracks hregular
    refine ⟨hrc, htracks', fun hended => hall ?_⟩
    change ((s.dir.readdir s.file accept).rc == 0 &&
      !(s.dir.readdir s.file accept).refused) = true at hended
    rw [Bool.and_eq_true, Bool.not_eq_true'] at hended
    exact hended.2

/-- The invariant holds at the start. -/
theorem sound_init (pages : Nat → List UInt8) : (Session.init pages).Sound where
  wellFormed := (DirInode.WellFormed.empty pages).1
  entries := (DirInode.WellFormed.empty pages).2
  accepted := List.forall_mem_nil _
  tracks hs := absurd hs Bool.false_ne_true

/-- The invariant says what it should. -/
theorem Session.Sound.isMap (h : s.Sound) : s.IsMap := by
  have hreadable := h.wellFormed.readable
  refine ⟨fun name => ?_, fun name => ?_, ?_, fun hsteady => ?_⟩
  · rw [hreadable.lookup, h.entries]
  · rw [← h.entries]
    by_cases hmem : ∃ e ∈ s.dir.entries, e.name = name
    · obtain ⟨e, he, rfl⟩ := hmem
      refine iff_of_true ?_ ⟨e, he, rfl⟩
      exact hreadable.entryDel_found he
    · rw [hreadable.entryDel_none fun e he hn => hmem ⟨e, he, hn⟩]
      exact iff_of_false (show (-1 : Int) ≠ 0 by decide) hmem
  · rw [hreadable.entryNum, h.entries]
  · obtain ⟨hrc, htracks, hall⟩ := h.tracks hsteady
    exact ⟨hrc, htracks.part, hall⟩

/-- In every run in which nothing goes wrong a directory is a finite map. -/
theorem directory_isMap (pages : Nat → List UInt8)
    (hs : Reach dirNext (fun s e => Valid s e ∧ Regular s e) (.init pages) s) : s.IsMap := by
  have hsound : s.Sound := hs.invariant (P := Session.Sound) (sound_init pages)
    fun s e h hok => dirNext_sound h hok.1 hok.2
  exact hsound.isMap

/-- The name `a`, added and deleted again, and the name `b`. -/
theorem directory_isMap_two :
    ∃ s : Session, (s.live = [⟨[98], 0xabc124⟩] ∧ s.steady = true ∧ s.ended = true) ∧
      s.IsMap := by
  have hrun : ∃ s, Reach dirNext (fun s e => Valid s e ∧ Regular s e) (.init fun _ => []) s ∧
      s.live = [⟨[98], 0xabc124⟩] ∧ s.steady = true ∧ s.ended = true :=
    exists_reach [.add [97] 0xabc123, .add [98] 0xabc124, .del [97], .open,
      .readdir fun _ => true] (by decide +kernel)
  obtain ⟨s, hs, hend⟩ := hrun
  exact ⟨s, hend, directory_isMap _ hs⟩

/-- A `filldir` that refuses the first entry: the next call begins with the second. -/
theorem readdir_skips :
    ¬∀ s, Reach dirNext Valid (.init fun _ => []) s → s.IsMap := by
  intro h
  have hrun : ∃ s, Reach dirNext Valid (.init fun _ => []) s ∧ s.steady = true ∧ s.rc = 0 ∧
      s.live = [] ∧ s.given = [.dotDot] ∧ s.ended = true :=
    exists_reach [.open, .readdir fun _ => false, .readdir fun _ => true] (by decide +kernel)
  obtain ⟨s, hs, hsteady, -, hlive, hgiven, hended⟩ := hrun
  have hall := ((h s hs).listed hsteady).2.2 hended
  rw [hgiven, Session.all, hlive] at hall
  exact absurd hall (by decide)

end Runs

end Ost.Osdfs
