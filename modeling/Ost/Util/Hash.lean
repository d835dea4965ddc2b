import Mathlib.Data.List.Perm.Basic
import Mathlib.Data.List.Nodup
import Mathlib.Data.List.Range
import Mathlib.Data.List.Flatten
import Mathlib.Logic.Function.Basic
import Mathlib.Algebra.GroupWithZero.Nat

/-!
# The tag hash of `util.c`

`Hash` transcribes `HASH_T`: `n` chains of elements, an element with key `k` living
in chain `k % n`.  A session keeps its outstanding commands in one of these, keyed
by their initiator task tag.

`Hash.WF` says that the chains are indexed as they should be and that no key occurs
twice; `TagHash` carries it as a field.  The abstract view is `TagHash.entries`, the
stored key-value pairs up to permutation.

`hash_destroy` sets `n` to zero, after which every other operation divides by zero.
The operations here are total; the programs that call them test `n` first.
-/

namespace Ost.Util

variable {α : Type}

/-- `HASH_T`.  The chains are listed from their heads. -/
structure Hash (α : Type) where
  /-- Number of chains. -/
  n : Nat
  /-- The chains. -/
  bucket : Nat → List (UInt32 × α)

/-- The chain of a key, `key % h->n`. -/
def Hash.chain (h : Hash α) (key : UInt32) : Nat := key.toNat % h.n

/-- `hash_init`. -/
def hashInit (n : Nat) : Hash α := { n, bucket := fun _ => [] }

/-- `hash_insert`: `none` is the return value -1 for a key that is already present. -/
def hashInsert (h : Hash α) (key : UInt32) (ptr : α) : Option (Hash α) :=
  let i := h.chain key
  if (h.bucket i).any fun e => e.1 == key then none
  else some { h with bucket := Function.update h.bucket i ((key, ptr) :: h.bucket i) }

/-- `hash_get`. -/
def hashGet (h : Hash α) (key : UInt32) : Option α :=
  ((h.bucket (h.chain key)).find? fun e => e.1 == key).map (·.2)

/-- `hash_remove`: the element unlinked and the hash without it. -/
def hashRemove (h : Hash α) (key : UInt32) : Option (α × Hash α) :=
  let i := h.chain key
  let rest := (h.bucket i).eraseP fun e => e.1 == key
  ((h.bucket i).find? fun e => e.1 == key).map fun e =>
    (e.2, { h with bucket := Function.update h.bucket i rest })

/-- `hash_remove_head`: unlink the head of the first non-empty chain. -/
def hashRemoveHead (h : Hash α) : Option (α × Hash α) :=
  ((List.range h.n).find? fun i => !(h.bucket i).isEmpty).bind fun i =>
    match h.bucket i with
    | [] => none
    | e :: l => some (e.2, { h with bucket := Function.update h.bucket i l })

/-- `hash_count`. -/
def hashCount (h : Hash α) : Nat := ((List.range h.n).map fun i => (h.bucket i).length).sum

/-- `hash_destroy`. -/
def hashDestroy (_ : Hash α) : Hash α := { n := 0, bucket := fun _ => [] }

namespace Hash

/-- Elements live in the chain of their key and no chain holds a key twice. -/
structure WF (h : Hash α) : Prop where
  lt : ∀ i, ∀ e ∈ h.bucket i, i < h.n
  chain_eq : ∀ i, ∀ e ∈ h.bucket i, h.chain e.1 = i
  nodup : ∀ i, ((h.bucket i).map (·.1)).Nodup

/-- The stored key-value pairs. -/
def entries (h : Hash α) : List (UInt32 × α) := (List.range h.n).flatMap h.bucket

theorem wf_init (n : Nat) : (hashInit n : Hash α).WF where
  lt := fun _ _ he => nomatch he
  chain_eq := fun _ _ he => nomatch he
  nodup := fun _ => List.nodup_nil

theorem wf_destroy (h : Hash α) : (hashDestroy h).WF where
  lt := fun _ _ he => nomatch he
  chain_eq := fun _ _ he => nomatch he
  nodup := fun _ => List.nodup_nil

theorem mem_entries {h : Hash α} (hw : h.WF) {e : UInt32 × α} :
    e ∈ h.entries ↔ e ∈ h.bucket (h.chain e.1) := by
  simp only [entries, List.mem_flatMap, List.mem_range]
  constructor
  · rintro ⟨i, _, he⟩
    rwa [hw.chain_eq i e he]
  · intro he
    exact ⟨_, hw.lt _ e he, he⟩

/-- Replacing one chain of several replaces its contribution to their concatenation. -/
theorem flatMap_update_perm {f : Nat → List α} {i : Nat} (l : List α) {s : List Nat}
    (hs : s.Nodup) (hi : i ∈ s) :
    (s.flatMap (Function.update f i l)).Perm (l ++ s.flatMap (Function.update f i [])) := by
  induction s with
  | nil => exact nomatch hi
  | cons a s ih =>
    obtain ⟨ha, hs⟩ := List.nodup_cons.mp hs
    simp only [List.flatMap_cons]
    rcases eq_or_ne a i with rfl | hne
    · have hcongr : ∀ x, s.flatMap (Function.update f a x) = s.flatMap f := fun x =>
        List.flatMap_congr fun b hb =>
          Function.update_of_ne (fun he : b = a => ha (he ▸ hb)) _ _
      simp [hcongr]
    · have hi : i ∈ s := (List.mem_cons.mp hi).resolve_left (Ne.symm hne)
      rw [Function.update_of_ne hne, Function.update_of_ne hne]
      refine ((ih hs hi).append_left _).trans ?_
      rw [← List.append_assoc, ← List.append_assoc]
      exact List.perm_append_comm.append_right _

/-- The pairs stored after one chain is replaced. -/
theorem entries_update_perm {h : Hash α} {i : Nat} (hi : i < h.n) (l : List (UInt32 × α)) :
    ∃ rest, h.entries.Perm (h.bucket i ++ rest) ∧
      ({ h with bucket := Function.update h.bucket i l } : Hash α).entries.Perm (l ++ rest) := by
  refine ⟨_, ?_, flatMap_update_perm l List.nodup_range (List.mem_range.mpr hi)⟩
  have := flatMap_update_perm (f := h.bucket) (h.bucket i) List.nodup_range (List.mem_range.mpr hi)
  rwa [Function.update_eq_self] at this

theorem chain_lt {h : Hash α} (hn : 0 < h.n) (k : UInt32) : h.chain k < h.n := Nat.mod_lt _ hn

/-- Replacing a chain by one with the right keys, each once, keeps the hash well formed. -/
theorem wf_update {h : Hash α} (hw : h.WF) {i : Nat} (hi : i < h.n) {l : List (UInt32 × α)}
    (hl : ∀ e ∈ l, h.chain e.1 = i) (hd : (l.map (·.1)).Nodup) :
    ({ h with bucket := Function.update h.bucket i l } : Hash α).WF := by
  refine ⟨fun j e he => ?_, fun j e he => ?_, fun j => ?_⟩ <;>
    rcases eq_or_ne j i with rfl | hne
  · exact hi
  · exact hw.lt j e (by simpa [hne] using he)
  · exact hl e (by simpa using he)
  · exact hw.chain_eq j e (by simpa [hne] using he)
  · simpa using hd
  · simpa [hne] using hw.nodup j

theorem get_eq_some {h : Hash α} (hw : h.WF) {k : UInt32} {a : α} :
    hashGet h k = some a ↔ (k, a) ∈ h.entries := by
  rw [mem_entries hw]
  change _ ↔ (k, a) ∈ h.bucket (h.chain k)
  have hd := hw.nodup (h.chain k)
  unfold hashGet
  generalize h.bucket (h.chain k) = l at hd
  induction l with
  | nil => simp
  | cons e l ih =>
    obtain ⟨hne, hd⟩ := List.nodup_cons.mp (by simpa using hd : (e.1 :: l.map (·.1)).Nodup)
    rw [List.find?_cons]
    by_cases he : e.1 = k
    · simp only [he, beq_self_eq_true, Option.map_some, Option.some.injEq, List.mem_cons]
      subst he
      constructor
      · rintro rfl
        exact .inl rfl
      · rintro (h' | h')
        · exact congrArg Prod.snd h'.symm
        · exact absurd (List.mem_map_of_mem h') hne
    · have : (e.1 == k) = false := by simpa using he
      simp only [this, ih hd, List.mem_cons]
      refine ⟨.inr, fun h' => h'.resolve_left fun h'' => he (congrArg Prod.fst h'').symm⟩

theorem get_eq_none {h : Hash α} (hw : h.WF) {k : UInt32} :
    hashGet h k = none ↔ ∀ a, (k, a) ∉ h.entries := by
  rw [Option.eq_none_iff_forall_ne_some]
  exact forall_congr' fun a => not_congr (get_eq_some hw)

/-- Inserting a new key succeeds and adds the pair. -/
theorem insert_new {h : Hash α} (hw : h.WF) (hn : 0 < h.n) {k : UInt32} (a : α)
    (hk : hashGet h k = none) :
    ∃ h', hashInsert h k a = some h' ∧ h'.WF ∧ h'.n = h.n ∧
      h'.entries.Perm ((k, a) :: h.entries) := by
  have hfresh : ∀ e ∈ h.bucket (h.chain k), e.1 ≠ k := by
    rintro ⟨k', b⟩ he rfl
    exact (get_eq_none hw).mp hk b ((mem_entries hw).mpr he)
  have hany : (h.bucket (h.chain k)).any (fun e => e.1 == k) = false := by
    simpa using hfresh
  obtain ⟨rest, hold, hnew⟩ :=
    entries_update_perm (chain_lt hn k) ((k, a) :: h.bucket (h.chain k))
  refine ⟨{ h with
      bucket := Function.update h.bucket (h.chain k) ((k, a) :: h.bucket (h.chain k)) },
    by simp only [hashInsert, hany, Bool.false_eq_true, if_false], ?_, rfl, ?_⟩
  · refine wf_update hw (chain_lt hn k) ?_ ?_
    · intro e he
      rcases List.mem_cons.mp he with rfl | he
      · rfl
      · exact hw.chain_eq _ e he
    · rw [List.map_cons, List.nodup_cons]
      refine ⟨fun hm => ?_, hw.nodup _⟩
      obtain ⟨e, he, hek⟩ := List.mem_map.mp hm
      exact hfresh e he hek
  · exact hnew.trans ((hold.symm.cons _))

/-- Erasing the element of a key from a list without repeated keys. -/
theorem perm_cons_eraseP {l : List (UInt32 × α)} {k : UInt32} {e : UInt32 × α}
    (h : l.find? (fun e => e.1 == k) = some e) :
    l.Perm (e :: l.eraseP fun e => e.1 == k) := by
  induction l with
  | nil => exact nomatch h
  | cons a l ih =>
    by_cases ha : (a.1 == k) = true
    · rw [List.find?_cons_of_pos (p := fun e : UInt32 × α => e.1 == k) ha, Option.some.injEq] at h
      subst h
      rw [List.eraseP_cons_of_pos (p := fun e : UInt32 × α => e.1 == k) ha]
    · rw [List.find?_cons_of_neg (p := fun e : UInt32 × α => e.1 == k) ha] at h
      rw [List.eraseP_cons_of_neg (p := fun e : UInt32 × α => e.1 == k) ha]
      exact ((ih h).cons a).trans (List.Perm.swap e a _)

/-- A removal that succeeds takes out exactly the pair of its key. -/
theorem remove_some {h h' : Hash α} (hw : h.WF) {k : UInt32} {a : α}
    (hr : hashRemove h k = some (a, h')) :
    h'.WF ∧ h'.n = h.n ∧ h.entries.Perm ((k, a) :: h'.entries) := by
  obtain ⟨e, he, heq⟩ := Option.map_eq_some_iff.mp hr
  obtain ⟨rfl, rfl⟩ := Prod.mk.inj heq
  have hek : e.1 = k := by simpa using List.find?_some he
  have hlt : h.chain k < h.n := hw.lt _ e (List.mem_of_find?_eq_some he)
  obtain ⟨rest, hold, hnew⟩ := entries_update_perm hlt
    ((h.bucket (h.chain k)).eraseP fun e => e.1 == k)
  have hsub : ((h.bucket (h.chain k)).eraseP fun e => e.1 == k).Sublist (h.bucket (h.chain k)) :=
    List.eraseP_sublist
  refine ⟨wf_update hw hlt (fun e he => hw.chain_eq _ e (hsub.subset he)) ?_, rfl, ?_⟩
  · exact (hw.nodup _).sublist (hsub.map _)
  · refine hold.trans (((perm_cons_eraseP he).append_right _).trans ?_)
    subst hek
    exact hnew.symm.cons e

/-- A removal fails only when the key is absent. -/
theorem remove_none {h : Hash α} {k : UInt32} (hr : hashRemove h k = none) :
    hashGet h k = none := by
  unfold hashRemove at hr
  unfold hashGet
  rw [Option.map_eq_none_iff] at hr ⊢
  exact hr

/-- Unlinking the first element keeps the hash well formed and takes out one pair. -/
theorem removeHead_some {h h' : Hash α} (hw : h.WF) {a : α}
    (hr : hashRemoveHead h = some (a, h')) :
    h'.WF ∧ h'.n = h.n ∧ ∃ k, h.entries.Perm ((k, a) :: h'.entries) := by
  unfold hashRemoveHead at hr
  obtain ⟨i, hi, hr⟩ := Option.bind_eq_some_iff.mp hr
  have hlt : i < h.n := List.mem_range.mp (List.mem_of_find?_eq_some hi)
  rcases hb : h.bucket i with _ | ⟨e, l⟩
  · simp [hb] at hr
  · simp only [hb, Option.some.injEq, Prod.mk.injEq] at hr
    obtain ⟨rfl, rfl⟩ := hr
    have hsub : ∀ x ∈ l, x ∈ h.bucket i := fun x hx => hb ▸ List.mem_cons_of_mem _ hx
    obtain ⟨rest, hp, hp'⟩ := entries_update_perm hlt l
    refine ⟨wf_update hw hlt (fun x hx => hw.chain_eq i x (hsub x hx)) ?_, rfl, e.1, ?_⟩
    · have hd := hw.nodup i
      rw [hb] at hd
      exact (List.nodup_cons.mp hd).2
    · rw [hb] at hp
      exact hp.trans (List.Perm.cons _ hp'.symm)

/-- Unlinking the first element fails only on an empty hash. -/
theorem removeHead_none {h : Hash α} (hr : hashRemoveHead h = none) : h.entries = [] := by
  unfold hashRemoveHead at hr
  rw [Option.bind_eq_none_iff] at hr
  refine List.flatMap_eq_nil_iff.mpr fun i hi => ?_
  by_contra hne
  have hsome : ((List.range h.n).find? fun i => !(h.bucket i).isEmpty).isSome = true := by
    rw [List.find?_isSome]
    exact ⟨i, hi, by simpa using hne⟩
  obtain ⟨j, hj⟩ := Option.isSome_iff_exists.mp hsome
  have hj' := hr j hj
  have := List.find?_some hj
  rcases hb : h.bucket j with _ | ⟨e, l⟩ <;> simp [hb] at hj' this

/-- Counting counts the stored pairs. -/
theorem count_eq (h : Hash α) : hashCount h = h.entries.length := by
  simp [hashCount, entries, List.length_flatMap]

end Hash

/-! ## Well-formed hashes -/

/-- A hash together with its invariant. -/
structure TagHash (α : Type) where
  /-- The hash as the code sees it. -/
  hash : Hash α
  /-- Its invariant. -/
  wf : hash.WF

namespace TagHash

/-- The stored key-value pairs. -/
def entries (t : TagHash α) : List (UInt32 × α) := t.hash.entries

/-- The stored values. -/
def values (t : TagHash α) : List α := t.entries.map (·.2)

/-- The number of chains; zero after `hash_destroy`. -/
def n (t : TagHash α) : Nat := t.hash.n

/-- `hash_init`. -/
def init (n : Nat) : TagHash α := ⟨hashInit n, Hash.wf_init n⟩

/-- `hash_get`. -/
def get (t : TagHash α) (k : UInt32) : Option α := hashGet t.hash k

/-- `hash_insert` of a key that may or may not be present. -/
def insert (t : TagHash α) (k : UInt32) (a : α) : Option (TagHash α) :=
  if hk : hashGet t.hash k = none ∧ 0 < t.hash.n then
    match h : hashInsert t.hash k a with
    | none => none
    | some h' => some ⟨h', by
        obtain ⟨h₁, he, hw, _⟩ := Hash.insert_new t.wf hk.2 a hk.1
        obtain rfl : h₁ = h' := Option.some.inj (he.symm.trans h)
        exact hw⟩
  else none

/-- `hash_remove`. -/
def remove (t : TagHash α) (k : UInt32) : Option (α × TagHash α) :=
  match h : hashRemove t.hash k with
  | none => none
  | some (a, h') => some (a, ⟨h', (Hash.remove_some t.wf h).1⟩)

/-- `hash_remove_head` on a well-formed hash. -/
def removeHead (t : TagHash α) : Option (α × TagHash α) :=
  match h : hashRemoveHead t.hash with
  | none => none
  | some (a, h') => some (a, ⟨h', (Hash.removeHead_some t.wf h).1⟩)

/-- `hash_count`. -/
def count (t : TagHash α) : Nat := hashCount t.hash

/-- `hash_destroy`. -/
def destroy (t : TagHash α) : TagHash α := ⟨hashDestroy t.hash, Hash.wf_destroy _⟩

@[simp] theorem entries_init (n : Nat) : (init n : TagHash α).entries = [] := by
  simp [entries, init, Hash.entries, hashInit]

@[simp] theorem entries_destroy (t : TagHash α) : t.destroy.entries = [] := rfl

theorem count_eq (t : TagHash α) : t.count = t.entries.length := Hash.count_eq _

theorem get_eq_some {t : TagHash α} {k : UInt32} {a : α} :
    t.get k = some a ↔ (k, a) ∈ t.entries := Hash.get_eq_some t.wf

theorem get_eq_none {t : TagHash α} {k : UInt32} :
    t.get k = none ↔ ∀ a, (k, a) ∉ t.entries := Hash.get_eq_none t.wf

/-- An insertion that succeeds adds the pair, whose key was absent. -/
theorem insert_some {t t' : TagHash α} {k : UInt32} {a : α} (h : t.insert k a = some t') :
    t'.entries.Perm ((k, a) :: t.entries) ∧ t'.n = t.n ∧ t.get k = none := by
  unfold insert at h
  split at h
  · rename_i hk
    obtain ⟨h₁, he, _, hn, hp⟩ := Hash.insert_new t.wf hk.2 a hk.1
    split at h
    · exact nomatch h
    · rename_i h' hi
      obtain rfl := Option.some.inj h
      obtain rfl : h₁ = h' := Option.some.inj (he.symm.trans hi)
      exact ⟨hp, hn, hk.1⟩
  · exact nomatch h

/-- An insertion of an absent key into a live hash succeeds. -/
theorem insert_of_none {t : TagHash α} {k : UInt32} (a : α) (hk : t.get k = none) (hn : 0 < t.n) :
    ∃ t', t.insert k a = some t' := by
  obtain ⟨h', he, _⟩ := Hash.insert_new t.wf hn a hk
  unfold insert
  rw [dif_pos ⟨hk, hn⟩]
  split
  · rename_i hi
    rw [he] at hi
    exact nomatch hi
  · exact ⟨_, rfl⟩

/-- A removal that succeeds takes out exactly the pair of its key. -/
theorem remove_some {t t' : TagHash α} {k : UInt32} {a : α} (h : t.remove k = some (a, t')) :
    t.entries.Perm ((k, a) :: t'.entries) ∧ t'.n = t.n := by
  unfold remove at h
  split at h
  · exact nomatch h
  · rename_i b h' hr
    obtain ⟨rfl, rfl⟩ := Prod.mk.inj (Option.some.inj h)
    obtain ⟨_, hn, hp⟩ := Hash.remove_some t.wf hr
    exact ⟨hp, hn⟩

/-- A removal fails exactly when the key is absent. -/
theorem remove_eq_none {t : TagHash α} {k : UInt32} : t.remove k = none ↔ t.get k = none := by
  constructor
  · intro h
    unfold remove at h
    split at h
    · rename_i hr
      exact Hash.remove_none hr
    · exact nomatch h
  · intro h
    cases hr : t.remove k with
    | none => rfl
    | some p =>
      obtain ⟨a, t'⟩ := p
      have := (remove_some hr).1
      exact absurd (this.mem_iff.mpr List.mem_cons_self) (get_eq_none.mp h _)

/-- Unlinking the first element takes out one pair. -/
theorem removeHead_some {t t' : TagHash α} {a : α} (h : t.removeHead = some (a, t')) :
    (∃ k, t.entries.Perm ((k, a) :: t'.entries)) ∧ t'.n = t.n := by
  unfold removeHead at h
  split at h
  · exact nomatch h
  · rename_i b h' hr
    obtain ⟨rfl, rfl⟩ := Prod.mk.inj (Option.some.inj h)
    obtain ⟨_, hn, hp⟩ := Hash.removeHead_some t.wf hr
    exact ⟨hp, hn⟩

/-- Unlinking the first element fails only on an empty hash. -/
theorem removeHead_none {t : TagHash α} (h : t.removeHead = none) : t.entries = [] := by
  unfold removeHead at h
  split at h
  · rename_i hr
    exact Hash.removeHead_none hr
  · exact nomatch h

/-- The hash without a key. -/
def without (t : TagHash α) (k : UInt32) : TagHash α := ((t.remove k).map (·.2)).getD t

/-- Taking out a key that is there takes out its pair. -/
theorem perm_without {t : TagHash α} {k : UInt32} {a : α} (h : (k, a) ∈ t.entries) :
    t.entries.Perm ((k, a) :: (t.without k).entries) := by
  unfold without
  rcases hr : t.remove k with _ | ⟨b, t'⟩
  · exact absurd h (get_eq_none.mp (remove_eq_none.mp hr) a)
  · have hp := (remove_some hr).1
    have hb : t.get k = some b := get_eq_some.mpr (hp.mem_iff.mpr List.mem_cons_self)
    rw [get_eq_some.mpr h] at hb
    obtain rfl := Option.some.inj hb
    exact hp

/-- Taking out a key that is absent changes nothing. -/
theorem without_eq_self {t : TagHash α} {k : UInt32} (h : ∀ a, (k, a) ∉ t.entries) :
    t.without k = t := by
  simp [without, remove_eq_none.mpr (get_eq_none.mpr h)]

/-- Nothing else comes in. -/
theorem entries_without_subset {t : TagHash α} {k : UInt32} {e : UInt32 × α}
    (he : e ∈ (t.without k).entries) : e ∈ t.entries := by
  by_cases h : ∃ a, (k, a) ∈ t.entries
  · obtain ⟨a, ha⟩ := h
    exact (perm_without ha).mem_iff.mpr (List.mem_cons_of_mem _ he)
  · rw [without_eq_self fun a ha => h ⟨a, ha⟩] at he
    exact he

/-- The pairs of other keys stay. -/
theorem mem_without {t : TagHash α} {k : UInt32} {e : UInt32 × α} (he : e ∈ t.entries)
    (hk : e.1 ≠ k) : e ∈ (t.without k).entries := by
  by_cases h : ∃ a, (k, a) ∈ t.entries
  · obtain ⟨a, ha⟩ := h
    refine (List.mem_cons.mp ((perm_without ha).mem_iff.mp he)).resolve_left fun hek => ?_
    exact hk (congrArg Prod.fst hek)
  · rwa [without_eq_self fun a ha => h ⟨a, ha⟩]

@[simp] theorem n_without (t : TagHash α) (k : UInt32) : (t.without k).n = t.n := by
  unfold without
  rcases hr : t.remove k with _ | ⟨b, t'⟩
  · rfl
  · exact (remove_some hr).2

/-- The keys of a hash are distinct. -/
theorem nodup_keys (t : TagHash α) : (t.entries.map (·.1)).Nodup := by
  unfold entries Hash.entries
  rw [List.map_flatMap, List.nodup_flatMap]
  refine ⟨fun i _ => t.wf.nodup i, ?_⟩
  refine List.nodup_range.imp ?_
  intro i j hne k hi hj
  obtain ⟨e, he, rfl⟩ := List.mem_map.mp hi
  obtain ⟨e', he', hk⟩ := List.mem_map.mp hj
  exact hne ((t.wf.chain_eq i e he).symm.trans (hk ▸ t.wf.chain_eq j e' he'))

end TagHash

end Ost.Util
