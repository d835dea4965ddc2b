import Mathlib.Algebra.Order.BigOperators.Group.List
import Mathlib.Data.Finmap
import Ost.Util.HashTable
import Ost.Prog.Trace

/-!
# Runs of the tag hash

The functions of the hash as calls that are made one after another on the table that `hash_init` has
made, from memory with anything in it.  As long as no key is inserted a second time they are
answered as a finite map answers them.  The insertion of a key that is there fails as it should, but
it keeps the lock, and the call after it never returns.
-/

namespace Ost.Util

open Ost.Prog

/-! ## A hash with a pair more -/

namespace Hash

variable {α : Type} {t t' : Hash α} {k : UInt32} {a : α}

/-- What the keys lead to in two hashes of which one has a pair more. -/
theorem get_of_perm_cons (hw : t.WF) (hw' : t'.WF) (hp : t.entries.Perm ((k, a) :: t'.entries)) :
    hashGet t k = some a ∧ hashGet t' k = none ∧ ∀ j, j ≠ k → hashGet t j = hashGet t' j := by
  have hnodup := (hp.map (·.1)).nodup_iff.mp (TagHash.nodup_keys ⟨t, hw⟩)
  rw [List.map_cons, List.nodup_cons] at hnodup
  refine ⟨(get_eq_some hw).mpr (hp.mem_iff.mpr List.mem_cons_self), ?_, fun j hj => ?_⟩
  · exact (get_eq_none hw').mpr fun b hb => hnodup.1 (List.mem_map.mpr ⟨(k, b), hb, rfl⟩)
  · refine Option.ext fun b => ?_
    rw [get_eq_some hw, get_eq_some hw', hp.mem_iff, List.mem_cons]
    exact or_iff_right fun he => hj (congrArg Prod.fst he)

theorem length_bucket_le (hw : t.WF) (i : Nat) : (t.bucket i).length ≤ t.entries.length := by
  by_cases hi : i < t.n
  · rw [← count_eq, hashCount]
    exact List.single_le_sum (fun _ _ => Nat.zero_le _) _
      (List.mem_map_of_mem (List.mem_range.mpr hi))
  · have hnil : t.bucket i = [] :=
      List.eq_nil_iff_forall_not_mem.mpr fun e he => hi (hw.lt i e he)
    rw [hnil]
    exact Nat.zero_le _

end Hash

/-! ## The calls -/

/-- The calls.  The caller stores the key and the pointer in the element that it inserts. -/
inductive HashOp (α : Type) where
  | insert (e : Nat) (key : UInt32) (ptr : α)
  | get (key : UInt32)
  | getElem (key : UInt32)
  | remove (key : UInt32)
  | removeElem (key : UInt32)
  | removeHead
  | count
  | print
deriving DecidableEq

/-- What they return. -/
inductive HashResult (α : Type) where
  | /-- The status of `hash_insert`. -/
    status (rc : Int)
  | /-- A `ptr`, or `NULL`. -/
    ptr (p : Option α)
  | /-- An element, or `NULL`. -/
    elem (e : Option Nat)
  | /-- A number. -/
    num (count : Int)
deriving DecidableEq

/-- A finite map from keys to elements and their pointers that answers the calls. -/
inductive FiniteMap {α : Type} : Finmap (fun _ : UInt32 => Nat × α) → HashOp α → HashResult α →
    Finmap (fun _ : UInt32 => Nat × α) → Prop
  | insert {m : Finmap fun _ : UInt32 => Nat × α} {e : Nat} {key : UInt32} {ptr : α} (h : key ∉ m) :
    FiniteMap m (.insert e key ptr) (.status 0) (m.insert key (e, ptr))
  | insertPresent {m : Finmap fun _ : UInt32 => Nat × α} {e : Nat} {key : UInt32} {ptr : α}
    (h : key ∈ m) : FiniteMap m (.insert e key ptr) (.status (-1)) m
  | get {m : Finmap fun _ : UInt32 => Nat × α} {key : UInt32} :
    FiniteMap m (.get key) (.ptr ((m.lookup key).map (·.2))) m
  | getElem {m : Finmap fun _ : UInt32 => Nat × α} {key : UInt32} :
    FiniteMap m (.getElem key) (.elem ((m.lookup key).map (·.1))) m
  | remove {m : Finmap fun _ : UInt32 => Nat × α} {key : UInt32} :
    FiniteMap m (.remove key) (.ptr ((m.lookup key).map (·.2))) (m.erase key)
  | removeElem {m : Finmap fun _ : UInt32 => Nat × α} {key : UInt32} :
    FiniteMap m (.removeElem key) (.elem ((m.lookup key).map (·.1))) (m.erase key)
  | removeHead {m : Finmap fun _ : UInt32 => Nat × α} {key : UInt32} {e : Nat} {ptr : α}
    (h : m.lookup key = some (e, ptr)) : FiniteMap m .removeHead (.ptr (some ptr)) (m.erase key)
  | removeHeadEmpty : FiniteMap ∅ .removeHead (.ptr none) ∅
  | count {m : Finmap fun _ : UInt32 => Nat × α} : FiniteMap m .count (.num m.keys.card) m
  | print {m : Finmap fun _ : UInt32 => Nat × α} : FiniteMap m .print (.status 0) m

namespace HashTable

variable {α : Type}

/-- What the caller stores in an element before it inserts it. -/
def fill (e : Nat) (key : UInt32) (ptr : α) : HashProg α PUnit := modify fun h =>
  { h with elem := Function.update h.elem e { h.elem e with key, ptr } }

/-- One call. -/
def hashCall (fuel : Nat) : HashOp α → HashProg α (HashResult α)
  | .insert e key ptr => do
    fill e key ptr
    return .status (← hashInsert fuel e)
  | .get key => return .ptr (← hashGet fuel key)
  | .getElem key => return .elem (← hashGetElem fuel key)
  | .remove key => return .ptr (← hashRemove fuel key)
  | .removeElem key => return .elem (← hashRemoveElem fuel key)
  | .removeHead => return .ptr (← hashRemoveHead)
  | .count => return .num (← hashCount fuel)
  | .print => return .status (← hashPrint fuel)

/-- A list of calls on a table that `hash_init` has made; `none` when it has failed. -/
def hashSession (fuel n : Nat) (ops : List (HashOp α)) :
    HashProg α (Option (List (HashOp α × HashResult α))) := do
  if (← hashInit n) ≠ 0 then return none else return some (← calls (hashCall fuel) ops)

/-- The element is in one of the chains. -/
def Holds (h : HashTable α) (a : Nat) : Prop :=
  ∃ i < h.n, ∃ l, Linked h.next (h.bucket i) l ∧ a ∈ l

/-- An element that is inserted is not linked. -/
def Unlinked (op : HashOp α) (h : HashTable α) : Prop :=
  match op with
  | .insert e _ _ => ¬h.Holds e
  | _ => True

/-- The elements are counted when their number is of type `int`. -/
def Countable (op : HashOp α) (h : HashTable α) : Prop :=
  match op with
  | .count => ∀ s : Finset Nat, (∀ a ∈ s, h.Holds a) → s.card < 2147483648
  | _ => True

/-- A key that is inserted is not there yet. -/
def NewKey (op : HashOp α) (h : HashTable α) : Prop :=
  match op with
  | .insert _ key _ => ∀ a, h.Holds a → (h.elem a).key ≠ key
  | _ => True

/-! ## The table and the map -/

/-- The table stores a map. -/
def Stores (h : HashTable α) (m : Finmap fun _ : UInt32 => Nat × α) : Prop :=
  ∃ t, Linkage h t ∧ h.lock = false ∧
    ∀ k, m.lookup k = (Util.hashGet t k).map fun a => (a, (h.elem a).ptr)

section Stores

variable {h : HashTable α} {t : Hash Nat} {m : Finmap fun _ : UInt32 => Nat × α}

/-- The elements in the chains are those under the keys. -/
theorem Linkage.holds_iff (hlink : Linkage h t) {a : Nat} :
    h.Holds a ↔ ((h.elem a).key, a) ∈ t.entries := by
  constructor
  · rintro ⟨i, hi, l, hl, ha⟩
    rw [hl.unique (hlink.linked i hi)] at ha
    obtain ⟨hmem, hchain⟩ := hlink.key_mem ha
    exact (Hash.mem_entries hlink.wf).mpr (hchain.symm ▸ hmem)
  · intro ha
    have hmem := (Hash.mem_entries hlink.wf).mp ha
    exact ⟨_, hlink.chain_lt _, _, hlink.linked _ (hlink.chain_lt _), List.mem_map_of_mem hmem⟩

theorem Linkage.holds_of_mem (hlink : Linkage h t) {x : UInt32 × Nat} (hx : x ∈ t.entries) :
    h.Holds x.2 ∧ (h.elem x.2).key = x.1 := by
  have hkey := hlink.key _ x ((Hash.mem_entries hlink.wf).mp hx)
  exact ⟨hlink.holds_iff.mpr (hkey ▸ hx), hkey⟩

theorem card_keys (hlink : Linkage h t)
    (hmap : ∀ k, m.lookup k = (Util.hashGet t k).map fun a => (a, (h.elem a).ptr)) :
    m.keys.card = t.entries.length := by
  have hkeys : m.keys = (t.entries.map (·.1)).toFinset := by
    ext k
    rw [Finmap.mem_keys, Finmap.mem_iff, List.mem_toFinset, List.mem_map]
    constructor
    · rintro ⟨b, hb⟩
      rw [hmap, Option.map_eq_some_iff] at hb
      obtain ⟨a, ha, -⟩ := hb
      exact ⟨(k, a), (Hash.get_eq_some hlink.wf).mp ha, rfl⟩
    · rintro ⟨x, hx, rfl⟩
      refine ⟨(x.2, (h.elem x.2).ptr), ?_⟩
      rw [hmap, (Hash.get_eq_some hlink.wf).mpr hx]
      rfl
  have hnodup : (t.entries.map (·.1)).Nodup := TagHash.nodup_keys ⟨t, hlink.wf⟩
  rw [hkeys, List.toFinset_card_of_nodup hnodup, List.length_map]

/-- No two keys lead to one element. -/
theorem nodup_elems (hlink : Linkage h t) : (t.entries.map (·.2)).Nodup := by
  have hkeys : (t.entries.map (·.1)).Nodup := TagHash.nodup_keys ⟨t, hlink.wf⟩
  have hsame : t.entries.map (·.1) = (t.entries.map (·.2)).map fun a => (h.elem a).key := by
    rw [List.map_map]
    exact List.map_congr_left fun x hx => (hlink.holds_of_mem hx).2.symm
  rw [hsame] at hkeys
  exact hkeys.of_map _

end Stores

/-! ## One call -/

section Calls

variable {h : HashTable α} {t : Hash Nat} {m : Finmap fun _ : UInt32 => Nat × α} {fuel : Nat}
  {key : UInt32}

/-- A key is in the map just when an element in a chain has it. -/
theorem mem_iff_holds (hlink : Linkage h t)
    (hmap : ∀ k, m.lookup k = (Util.hashGet t k).map fun a => (a, (h.elem a).ptr)) :
    key ∈ m ↔ ∃ a, h.Holds a ∧ (h.elem a).key = key := by
  rw [← Finmap.lookup_isSome, hmap, Option.isSome_map, Option.isSome_iff_exists]
  refine exists_congr fun a => ?_
  rw [Hash.get_eq_some hlink.wf, hlink.holds_iff]
  constructor
  · intro ha
    have hkey := (hlink.holds_of_mem ha).2
    exact ⟨hkey.symm ▸ ha, hkey⟩
  · rintro ⟨ha, rfl⟩
    exact ha

/-- The map when a pair is taken out of the table. -/
theorem stores_erase {h' : HashTable α} {t' : Hash Nat} {a : Nat} (hlink : Linkage h t)
    (hmap : ∀ k, m.lookup k = (Util.hashGet t k).map fun a => (a, (h.elem a).ptr))
    (hlink' : Linkage h' t') (hsame : SameElems h h') (hfree : h'.lock = false)
    (hperm : t.entries.Perm ((key, a) :: t'.entries)) :
    m.lookup key = some (a, (h.elem a).ptr) ∧ Stores h' (m.erase key) := by
  obtain ⟨hget, hgone, hother⟩ := Hash.get_of_perm_cons hlink.wf hlink'.wf hperm
  refine ⟨by rw [hmap, hget]; rfl, t', hlink', hfree, fun k => ?_⟩
  rcases eq_or_ne k key with rfl | hne
  · rw [Finmap.lookup_erase, hgone]
    rfl
  · rw [Finmap.lookup_erase_ne hne, hmap, hother k hne]
    cases Util.hashGet t' k with
    | none => rfl
    | some b => exact congrArg some (Prod.ext rfl (hsame b).2.symm)

/-- An element that is not linked may be filled in. -/
theorem Linkage.fill (hlink : Linkage h t) {e : Nat} (hfresh : ∀ i, e ∉ (t.bucket i).map (·.2))
    (x : HashElem α) : Linkage { h with elem := Function.update h.elem e x } t := by
  have hne (i a : Nat) (ha : a ∈ (t.bucket i).map (·.2)) : a ≠ e := by
    rintro rfl
    exact hfresh i ha
  refine ⟨hlink.wf, hlink.n_eq, hlink.pos, fun i hi => (hlink.linked i hi).congr fun a ha => ?_,
    fun i x hx => ?_⟩
  · change (Function.update h.elem e _ a).next = _
    rw [Function.update_of_ne (hne i a ha)]
    rfl
  · change (Function.update h.elem e _ x.2).key = _
    rw [Function.update_of_ne (hne i x.2 (List.mem_map_of_mem hx))]
    exact hlink.key i x hx

theorem Stores.insert (hst : Stores h m) {e : Nat} {ptr : α} (hlegal : ¬h.Holds e)
    (hfuel : m.keys.card ≤ fuel) :
    (key ∈ m ∧ ∃ h', hashCall fuel (.insert e key ptr) h = .ret (.status (-1)) h' ∧
      h'.lock = true) ∨
    (key ∉ m ∧ ∃ h', hashCall fuel (.insert e key ptr) h = .ret (.status 0) h' ∧
      Stores h' (m.insert key (e, ptr))) := by
  obtain ⟨t, hlink, hfree, hmap⟩ := hst
  have hfresh (i : Nat) : e ∉ (t.bucket i).map (·.2) := by
    intro he
    obtain ⟨hmem, hchain⟩ := hlink.key_mem he
    exact hlegal (hlink.holds_iff.mpr ((Hash.mem_entries hlink.wf).mpr (hchain.symm ▸ hmem)))
  have hother {k : UInt32} {a : Nat} (ha : Util.hashGet t k = some a) : a ≠ e := by
    rintro rfl
    have hmem := (Hash.mem_entries hlink.wf).mp ((Hash.get_eq_some hlink.wf).mp ha)
    exact hfresh _ (List.mem_map_of_mem hmem)
  generalize hg : ({ h with elem := Function.update h.elem e { h.elem e with key, ptr } } :
    HashTable α) = g
  have hlink₁ : Linkage g t := hg ▸ hlink.fill hfresh _
  have hfree₁ : g.lock = false := hg ▸ hfree
  have helem : g.elem = Function.update h.elem e { h.elem e with key, ptr } := hg ▸ rfl
  have hkey : (g.elem e).key = key := by rw [helem, Function.update_self]
  have hcall : hashCall fuel (.insert e key ptr) h =
      (do return .status (← hashInsert fuel e) : HashProg α (HashResult α)) g := by
    rw [hashCall, HashTable.fill, modify_bind, hg]
  have hlen : (t.bucket (t.chain (g.elem e).key)).length ≤ fuel :=
    (Hash.length_bucket_le hlink.wf _).trans (card_keys hlink hmap ▸ hfuel)
  have hmem : key ∈ m ↔ (Util.hashGet t key).isSome := by
    rw [← Finmap.lookup_isSome, hmap, Option.isSome_map]
  rcases hashInsert_cases hlink₁ hfree₁ hfresh hlen with
    ⟨hold, hrun⟩ | ⟨t', h', hnew, hins, hrun, hlink', hsame, hfree'⟩
  · rw [hkey] at hold
    refine .inl ⟨hmem.mpr hold, hashLock.set true g, ?_, rfl⟩
    rw [hcall, bind_apply, hrun]
    rfl
  · rw [hkey] at hnew hins
    have hnot : key ∉ m := fun h => by
      rw [hmem, hnew] at h
      exact absurd h (by decide)
    obtain ⟨t₁, hins₁, -, -, hperm⟩ := Hash.insert_new hlink.wf (hlink.n_eq ▸ hlink.pos) e hnew
    obtain rfl := Option.some.inj (hins.symm.trans hins₁)
    obtain ⟨hget, -, hrest⟩ := Hash.get_of_perm_cons hlink'.wf hlink.wf hperm
    refine .inr ⟨hnot, h', ?_, t', hlink', hfree', fun k => ?_⟩
    · rw [hcall, bind_apply, hrun]
      rfl
    · rcases eq_or_ne k key with rfl | hne
      · rw [Finmap.lookup_insert, hget]
        refine congrArg some (Prod.ext rfl ?_)
        change ptr = (h'.elem e).ptr
        rw [(hsame e).2, helem, Function.update_self]
      · rw [Finmap.lookup_insert_of_ne m hne, hmap, hrest k hne]
        cases ha : Util.hashGet t k with
        | none => rfl
        | some b =>
          refine congrArg some (Prod.ext rfl ?_)
          change (h.elem b).ptr = (h'.elem b).ptr
          rw [(hsame b).2, helem, Function.update_of_ne (hother ha)]

theorem Stores.removeCurr (hst : Stores h m) (hfuel : m.keys.card ≤ fuel) :
    ∃ h', removeCurr fuel key h = .ret ((m.lookup key).map (·.1)) h' ∧ SameElems h h' ∧
      Stores h' (m.erase key) := by
  obtain ⟨t, hlink, hfree, hmap⟩ := hst
  have hlen := (Hash.length_bucket_le hlink.wf (t.chain key)).trans (card_keys hlink hmap ▸ hfuel)
  rcases removeCurr_cases hlink hfree hlen with
    ⟨hnone, hrun⟩ | ⟨a, t', h', hget, hrem, hrun, hlink', hsame, hfree'⟩
  · have hlookup : m.lookup key = none := by
      rw [hmap, hnone]
      rfl
    have herase : m.erase key = m := by
      refine Finmap.ext_lookup fun k => ?_
      rcases eq_or_ne k key with rfl | hne
      · rw [Finmap.lookup_erase, hlookup]
      · rw [Finmap.lookup_erase_ne hne]
    refine ⟨h, ?_, fun _ => ⟨rfl, rfl⟩, ?_⟩
    · rw [hrun, hlookup]
      rfl
    · rw [herase]
      exact ⟨t, hlink, hfree, hmap⟩
  · obtain ⟨-, -, hperm⟩ := Hash.remove_some hlink.wf hrem
    obtain ⟨hlookup, hst'⟩ := stores_erase hlink hmap hlink' hsame hfree' hperm
    refine ⟨h', ?_, hsame, hst'⟩
    rw [hrun, hlookup]
    rfl

theorem map_ptr (hst : Stores h m) {h' : HashTable α} (hsame : SameElems h h') :
    ((m.lookup key).map (·.1)).map (fun e => (h'.elem e).ptr) = (m.lookup key).map (·.2) := by
  obtain ⟨t, -, -, hmap⟩ := hst
  rw [hmap, Option.map_map, Option.map_map, Option.map_map]
  refine congrArg (Option.map · _) (funext fun a => ?_)
  exact (hsame a).2

theorem Stores.getCurr (hst : Stores h m) (hfuel : m.keys.card ≤ fuel) :
    getCurr fuel key h = .ret ((m.lookup key).map (·.1)) h := by
  obtain ⟨t, hlink, hfree, hmap⟩ := hst
  have hlen := (Hash.length_bucket_le hlink.wf (t.chain key)).trans (card_keys hlink hmap ▸ hfuel)
  rw [getCurr_eq hlink hfree hlen, hmap, Option.map_map]
  cases Util.hashGet t key <;> rfl

/-- A call returns what the map returns, and the table stores the map then if the lock is free. -/
theorem Stores.step (hst : Stores h m) {op : HashOp α} (hlegal : Unlinked op h)
    (hfuel : m.keys.card ≤ fuel) :
    ∃ r h' m', hashCall fuel op h = .ret r h' ∧ (Countable op h → FiniteMap m op r m') ∧
      (NewKey op h → Stores h' m') ∧ (¬NewKey op h → h'.lock = true) ∧
      m'.keys.card ≤ m.keys.card + 1 := by
  have herase (k : UInt32) : (m.erase k).keys.card ≤ m.keys.card + 1 := by
    rw [Finmap.keys_erase]
    exact (Finset.card_erase_le).trans (Nat.le_succ _)
  cases op with
  | insert e key ptr =>
    obtain ⟨t, hlink, -, hmap⟩ := id hst
    have hkey : key ∈ m ↔ _ := mem_iff_holds hlink hmap
    rcases @Stores.insert _ h m fuel key hst e ptr hlegal hfuel with
      ⟨hin, h', hcall, hlock⟩ | ⟨hnot, h', hcall, hst'⟩
    · refine ⟨_, h', m, hcall, fun _ => .insertPresent hin, fun hnew => ?_, fun _ => hlock,
        Nat.le_succ _⟩
      obtain ⟨a, ha, hak⟩ := hkey.mp hin
      exact absurd hak (hnew a ha)
    · refine ⟨_, h', _, hcall, fun _ => .insert hnot, fun _ => hst', fun hold => ?_, ?_⟩
      · exact absurd (fun a ha hak => hnot (hkey.mpr ⟨a, ha, hak⟩)) hold
      · have hkeys : (m.insert key (e, ptr)).keys = Insert.insert key m.keys := by
          ext k
          rw [Finmap.mem_keys, Finmap.mem_insert, Finset.mem_insert, Finmap.mem_keys]
        rw [hkeys]
        exact Finset.card_insert_le _ _
  | get key =>
    refine ⟨_, h, m, ?_, fun _ => .get, fun _ => hst, fun h => absurd trivial h, Nat.le_succ _⟩
    rw [hashCall, HashTable.hashGet, bind_apply, bind_apply, hst.getCurr hfuel]
    exact congrArg (Outcome.ret · h)
      (congrArg HashResult.ptr (map_ptr hst fun _ => ⟨rfl, rfl⟩))
  | getElem key =>
    refine ⟨_, h, m, ?_, fun _ => .getElem, fun _ => hst, fun h => absurd trivial h, Nat.le_succ _⟩
    rw [hashCall, hashGetElem, bind_apply, hst.getCurr hfuel]
    rfl
  | remove key =>
    obtain ⟨h', hrun, hsame, hst'⟩ := @Stores.removeCurr _ h m fuel key hst hfuel
    refine ⟨_, h', _, ?_, fun _ => .remove, fun _ => hst', fun h => absurd trivial h, herase key⟩
    rw [hashCall, HashTable.hashRemove, bind_apply, bind_apply, hrun]
    exact congrArg (Outcome.ret · h') (congrArg HashResult.ptr (map_ptr hst hsame))
  | removeElem key =>
    obtain ⟨h', hrun, -, hst'⟩ := @Stores.removeCurr _ h m fuel key hst hfuel
    refine ⟨_, h', _, ?_, fun _ => .removeElem, fun _ => hst',
      fun h => absurd trivial h, herase key⟩
    rw [hashCall, hashRemoveElem, bind_apply, hrun]
    rfl
  | removeHead =>
    obtain ⟨t, hlink, hfree, hmap⟩ := id hst
    rcases hashRemoveHead_cases hlink hfree with
      ⟨hnone, hrun⟩ | ⟨a, t', h', hrem, hrun, hlink', hsame, hfree'⟩
    · have hempty : m = ∅ := by
        refine Finmap.ext_lookup fun k => ?_
        rw [hmap, Finmap.lookup_empty, (Hash.get_eq_none hlink.wf).mpr fun b hb => ?_]
        · rfl
        · rw [Hash.removeHead_none hnone] at hb
          exact absurd hb List.not_mem_nil
      subst hempty
      refine ⟨_, h, ∅, ?_, fun _ => .removeHeadEmpty, fun _ => hst, fun h => absurd trivial h,
        Nat.le_succ _⟩
      rw [hashCall, bind_apply, hrun]
      rfl
    · obtain ⟨-, -, k, hperm⟩ := Hash.removeHead_some hlink.wf hrem
      obtain ⟨hlookup, hst'⟩ := stores_erase hlink hmap hlink' hsame hfree' hperm
      refine ⟨_, h', _, ?_, fun _ => .removeHead hlookup, fun _ => hst', fun h => absurd trivial h,
        herase k⟩
      rw [hashCall, bind_apply, hrun]
      rfl
  | count =>
    obtain ⟨t, hlink, hfree, hmap⟩ := id hst
    have hcard := card_keys hlink hmap
    have hrun := @hashCount_eq _ h t fuel hlink hfree fun i =>
      (Hash.length_bucket_le hlink.wf i).trans (hcard ▸ hfuel)
    refine ⟨.num (wrapInt t.entries.length), h, m, ?_, fun hsmall => ?_, fun _ => hst,
      fun h => absurd trivial h, Nat.le_succ _⟩
    · rw [hashCall, bind_apply, hrun]
      rfl
    · have hlt := hsmall (t.entries.map (·.2)).toFinset fun a ha => by
        obtain ⟨x, hx, rfl⟩ := List.mem_map.mp (List.mem_toFinset.mp ha)
        exact (hlink.holds_of_mem hx).1
      rw [List.toFinset_card_of_nodup (nodup_elems hlink), List.length_map, ← hcard] at hlt
      rw [← hcard, wrapInt_of_lt hlt]
      exact .count
  | print =>
    obtain ⟨t, hlink, hfree, hmap⟩ := id hst
    have hrun := @hashPrint_eq _ h t fuel hlink hfree fun i =>
      (Hash.length_bucket_le hlink.wf i).trans (card_keys hlink hmap ▸ hfuel)
    refine ⟨_, h, m, ?_, fun _ => .print, fun _ => hst, fun h => absurd trivial h, Nat.le_succ _⟩
    rw [hashCall, bind_ret hrun]
    rfl

/-- A call on a table that is locked never returns. -/
theorem hashCall_locked (hlock : h.lock = true) (op : HashOp α) :
    ∃ h', hashCall fuel op h = .halt .hang h' := by
  have hgetCurr (key : UInt32) : HashTable.getCurr fuel key h = .halt .hang h :=
    hashLock.acquire_bind_held hlock _
  have hremoveCurr (key : UInt32) : HashTable.removeCurr fuel key h = .halt .hang h :=
    hashLock.acquire_bind_held hlock _
  cases op with
  | insert e key ptr =>
    refine ⟨{ h with elem := Function.update h.elem e { h.elem e with key, ptr } }, ?_⟩
    rw [hashCall, HashTable.fill, modify_bind, bind_apply, hashInsert,
      hashLock.acquire_bind_held (s := { h with
        elem := Function.update h.elem e { h.elem e with key, ptr } }) hlock]
  | get key => exact ⟨h, by rw [hashCall, HashTable.hashGet, bind_apply, bind_apply, hgetCurr]⟩
  | getElem key => exact ⟨h, by rw [hashCall, hashGetElem, bind_apply, hgetCurr]⟩
  | remove key =>
    exact ⟨h, by rw [hashCall, HashTable.hashRemove, bind_apply, bind_apply, hremoveCurr]⟩
  | removeElem key => exact ⟨h, by rw [hashCall, hashRemoveElem, bind_apply, hremoveCurr]⟩
  | removeHead =>
    exact ⟨h, by
      rw [hashCall, HashTable.hashRemoveHead, bind_apply, hashLock.acquire_bind_held hlock]⟩
  | count =>
    exact ⟨h, by rw [hashCall, HashTable.hashCount, bind_apply, hashLock.acquire_bind_held hlock]⟩
  | print =>
    exact ⟨h, by rw [hashCall, HashTable.hashPrint, bind_apply, hashLock.acquire_bind_held hlock]⟩

end Calls

/-! ## Sessions -/

section Sessions

variable {h : HashTable α} {m : Finmap fun _ : UInt32 => Nat × α} {fuel n : Nat}
  {ops : List (HashOp α)}

/-- What holds of the table and the map before the calls that are still to come. -/
def Ready (fuel : Nat) (ops : List (HashOp α)) (h : HashTable α)
    (m : Finmap fun _ : UInt32 => Nat × α) : Prop :=
  Stores h m ∧ m.keys.card + ops.length ≤ fuel ∧ Along Unlinked (hashCall fuel) ops h

/-- One call leaves the table ready, unless it has inserted a key a second time. -/
theorem Ready.step {op : HashOp α} (hready : Ready fuel (op :: ops) h m) :
    ∃ r h' m', hashCall fuel op h = .ret r h' ∧ (Countable op h → FiniteMap m op r m') ∧
      (NewKey op h → Ready fuel ops h' m') ∧ (¬NewKey op h → h'.lock = true) := by
  obtain ⟨hst, hcard, hunlinked, hlater⟩ := hready
  rw [List.length_cons] at hcard
  obtain ⟨r, h', m', hcall, hspec, hst', hlock, hgrow⟩ :=
    @Stores.step _ h m fuel hst op hunlinked (by omega)
  exact ⟨r, h', m', hcall, hspec, fun hnew => ⟨hst' hnew, by omega, hlater.of_ret hcall⟩, hlock⟩

/-- The calls are answered as the map answers them when no call follows the insertion of a key that
is there. -/
theorem calls_finiteMap (hready : Ready fuel ops h m)
    (hcount : Along Countable (hashCall fuel) ops h)
    (hnew : Along NewKey (hashCall fuel) ops.dropLast h) :
    ∃ l h' m', calls (hashCall fuel) ops h = .ret l h' ∧ Runs FiniteMap m l m' := by
  -- nothing is needed of the table when no call is left
  let R (ops : List (HashOp α)) (h : HashTable α) (m : Finmap fun _ : UInt32 => Nat × α) : Prop :=
    ops ≠ [] → Ready fuel ops h m ∧ Along Countable (hashCall fuel) ops h ∧
      Along NewKey (hashCall fuel) ops.dropLast h
  have hstep (op : HashOp α) (ops : List (HashOp α)) (h : HashTable α)
      (m : Finmap fun _ : UInt32 => Nat × α) (hR : R (op :: ops) h m) :
      ∃ r h' m', hashCall fuel op h = .ret r h' ∧ FiniteMap m op r m' ∧ R ops h' m' := by
    obtain ⟨hready, ⟨hcount, hcounts⟩, hnew⟩ := hR (List.cons_ne_nil op ops)
    obtain ⟨r, h', m', hcall, hspec, hready', -⟩ := hready.step
    refine ⟨r, h', m', hcall, hspec hcount, fun hne => ?_⟩
    obtain ⟨j, ops, rfl⟩ := List.exists_cons_of_ne_nil hne
    obtain ⟨hop, hops⟩ := hnew
    exact ⟨hready' hop, hcounts.of_ret hcall, hops.of_ret hcall⟩
  obtain ⟨l, h', m', hrun, hruns, -⟩ := runs_calls hstep fun _ => ⟨hready, hcount, hnew⟩
  exact ⟨l, h', m', hrun, hruns⟩

/-- Only then do all of them return. -/
theorem newKey_of_calls {l : List (HashOp α × HashResult α)} {h' : HashTable α}
    (hready : Ready fuel ops h m) (hrun : calls (hashCall fuel) ops h = .ret l h') :
    Along NewKey (hashCall fuel) ops.dropLast h := by
  induction ops generalizing h m l h' with
  | nil => trivial
  | cons op ops ih =>
    obtain ⟨r, h₁, m₁, hcall, -, hready', hlock⟩ := hready.step
    rw [calls_cons hcall, bind_apply] at hrun
    cases ops with
    | nil => trivial
    | cons op' ops =>
      by_cases hop : NewKey op h
      · refine ⟨hop, wp_intro (fun r' h₂ hcall' => ?_) fun _ _ _ => trivial⟩
        obtain ⟨rfl, rfl⟩ := Outcome.ret.inj (hcall.symm.trans hcall')
        cases hrest : calls (hashCall fuel) (op' :: ops) h₁ with
        | ret l' h₂ => exact ih (hready' hop) hrest
        | halt e h₂ =>
          rw [hrest] at hrun
          exact absurd hrun (by simp)
      · obtain ⟨h₂, hblocked⟩ := @hashCall_locked _ h₁ fuel (hlock hop) op'
        rw [calls, bind_apply, hblocked] at hrun
        exact absurd hrun (by simp)

/-- The array of the buckets has a size of type `int`, or `malloc` fails. -/
def Allocates (n : Nat) : Prop := 8 * n < 2147483648 ∨ wrapInt (8 * n : Nat) < 0

theorem stores_init (h : HashTable α) (hn : 1 ≤ n) :
    Stores { h.cleared n with bucket := fun _ => none } ∅ := by
  refine ⟨Util.hashInit n, ⟨Hash.wf_init n, rfl, hn, fun _ _ => rfl, fun i x hx => ?_⟩, rfl,
    fun k => ?_⟩
  · exact absurd hx List.not_mem_nil
  · rw [Finmap.lookup_empty]
    rfl

/-- `hash_init` fails, makes a fresh table, or writes past the end of the array. -/
theorem hashInit_cases (h : HashTable α) (hn : 1 ≤ n) :
    (wrapInt (8 * n : Nat) < 0 ∧ hashInit n h = .ret (-1) (h.cleared n)) ∨
    (8 * n < 2147483648 ∧ ∃ h', hashInit n h = .ret 0 h' ∧ Stores h' ∅) ∨
    (¬Allocates n ∧ hashInit n h = .halt .fault (h.cleared n)) := by
  have hinit : hashInit n h = (if wrapInt (8 * n : Nat) < 0 then return -1
      else if wrapInt (8 * n : Nat) < (8 * n : Nat) then halt .fault
      else do
        modify fun h => { h with bucket := fun _ => none }
        return 0 : HashProg α Int) (h.cleared n) := by
    rw [hashInit, modify_bind]
  by_cases hneg : wrapInt (8 * n : Nat) < 0
  · rw [if_pos hneg] at hinit
    exact .inl ⟨hneg, hinit⟩
  rw [if_neg hneg] at hinit
  by_cases hsmall : 8 * n < 2147483648
  · rw [wrapInt_of_lt hsmall, if_neg (Int.lt_irrefl _)] at hinit
    exact .inr (.inl ⟨hsmall, _, hinit, stores_init h hn⟩)
  · have hlt : wrapInt (8 * n : Nat) < 2147483648 := by
      have := @Int.bmod_lt (8 * n : Nat) 4294967296 (by decide)
      unfold wrapInt
      omega
    rw [if_pos (by omega)] at hinit
    exact .inr (.inr ⟨not_or.mpr ⟨hsmall, hneg⟩, hinit⟩)

/-- After `hash_init` the caller inserts only elements that are not linked. -/
def CallsUnlinked (fuel n : Nat) (ops : List (HashOp α)) (h : HashTable α) : Prop :=
  ∀ h', hashInit n h = .ret 0 h' → Along Unlinked (hashCall fuel) ops h'

/-- After `hash_init` no key is inserted that is there already, unless by the last call. -/
def CallsNewKeys (fuel n : Nat) (ops : List (HashOp α)) (h : HashTable α) : Prop :=
  ∀ h', hashInit n h = .ret 0 h' → Along NewKey (hashCall fuel) ops.dropLast h'

/-- After `hash_init` the elements are never counted when there are more than an `int` can hold. -/
def CallsCountable (fuel n : Nat) (ops : List (HashOp α)) (h : HashTable α) : Prop :=
  ∀ h', hashInit n h = .ret 0 h' → Along Countable (hashCall fuel) ops h'

/-- Every call returns, and the calls are answered as a finite map answers them that is empty at
first. -/
def ActsAsMap (fuel n : Nat) (ops : List (HashOp α)) (h : HashTable α) : Prop :=
  ∃ r h', hashSession fuel n ops h = .ret r h' ∧ ∀ l, r = some l → ∃ m, Runs FiniteMap ∅ l m

/-- When the table acts as a finite map. -/
theorem hash_actsAsMap (fuel n : Nat) (ops : List (HashOp α)) (h : HashTable α) (hn : 1 ≤ n)
    (hfuel : ops.length ≤ fuel) (hcaller : CallsUnlinked fuel n ops h) :
    (Allocates n ∧ CallsNewKeys fuel n ops h ∧ CallsCountable fuel n ops h →
      ActsAsMap fuel n ops h) ∧
    (ActsAsMap fuel n ops h → Allocates n ∧ CallsNewKeys fuel n ops h) := by
  rcases hashInit_cases h hn with ⟨hneg, hinit⟩ | ⟨hsmall, h', hinit, hst⟩ | ⟨hbad, hinit⟩
  · have hsession : hashSession fuel n ops h = .ret none (h.cleared n) := by
      rw [hashSession, bind_ret hinit, if_pos (by decide)]
      rfl
    refine ⟨fun _ => ⟨none, _, hsession, fun l hl => absurd hl (Option.some_ne_none l).symm⟩,
      fun _ => ⟨.inr hneg, fun h₁ hrun => ?_⟩⟩
    exact absurd (Outcome.ret.inj (hinit.symm.trans hrun)).1 (by decide)
  · have hready : Ready fuel ops h' ∅ := by
      refine ⟨hst, ?_, hcaller h' hinit⟩
      rw [Finmap.keys_empty, Finset.card_empty, Nat.zero_add]
      exact hfuel
    have hsession : hashSession fuel n ops h =
        (do return some (← calls (hashCall fuel) ops) : HashProg α (Option _)) h' := by
      rw [hashSession, bind_ret hinit, if_neg (not_not.mpr rfl)]
    constructor
    · rintro ⟨-, hnew, hcount⟩
      obtain ⟨l, h₂, m, hrun, hruns⟩ := calls_finiteMap hready (hcount h' hinit) (hnew h' hinit)
      refine ⟨some l, h₂, ?_, fun l' hl => ⟨m, Option.some.inj hl ▸ hruns⟩⟩
      rw [hsession, bind_ret hrun]
      rfl
    · rintro ⟨r, h₂, hrun, -⟩
      rw [hsession] at hrun
      refine ⟨.inl hsmall, fun h₁ hinit₁ => ?_⟩
      obtain ⟨-, rfl⟩ := Outcome.ret.inj (hinit.symm.trans hinit₁)
      cases hcalls : calls (hashCall fuel) ops h' with
      | ret l h₃ => exact newKey_of_calls hready hcalls
      | halt e h₃ =>
        rw [bind_halt hcalls] at hrun
        exact absurd hrun (by simp)
  · have hsession : hashSession fuel n ops h = .halt .fault (h.cleared n) := by
      rw [hashSession, bind_halt hinit]
    constructor
    · rintro ⟨halloc, -, -⟩
      exact absurd halloc hbad
    · rintro ⟨r, h₂, hrun, -⟩
      exact absurd (hsession.symm.trans hrun) (by simp)

end Sessions

/-! ## A table of one bucket -/

/-- Memory before `hash_init`. -/
def rawTable : HashTable Nat := ⟨fun _ => none, 0, 0, 0, false, fun _ => ⟨none, 0, 0⟩⟩

theorem hashInit_rawTable : hashInit 1 rawTable = .ret 0 (rawTable.cleared 1) := rfl

theorem not_holds {h : HashTable α} (hn : h.n = 1) {l : List Nat}
    (hl : Linked h.next (h.bucket 0) l) {a : Nat} (ha : a ∉ l) : ¬h.Holds a := by
  rintro ⟨i, hi, l', hl', ha'⟩
  obtain rfl : i = 0 := by omega
  exact ha (hl'.unique hl ▸ ha')

/-- An element with the key 5 is inserted, and then another one. -/
theorem unlinked_rawTable (ops : List (HashOp Nat))
    (hops : ∀ h : HashTable Nat, Along Unlinked (hashCall 3) ops h) :
    CallsUnlinked 3 1 (.insert 0 5 7 :: .insert 1 5 8 :: ops) rawTable := by
  intro h' hinit
  obtain ⟨-, rfl⟩ := Outcome.ret.inj (hashInit_rawTable.symm.trans hinit)
  refine ⟨?_, ensures_of_ret rfl ⟨?_, ensures_of_ret rfl (hops _)⟩⟩
  · change ¬HashTable.Holds _ 0
    refine not_holds (l := []) rfl ?_ List.not_mem_nil
    exact rfl
  · change ¬HashTable.Holds _ 1
    refine not_holds (l := [0]) rfl ?_ (by decide)
    exact ⟨rfl, rfl⟩

/-- The second insertion of a key, when no call follows it. -/
theorem hash_actsAsMap_two : ActsAsMap 3 1 [.insert 0 5 7, .insert 1 5 8] rawTable := by
  refine (hash_actsAsMap 3 1 _ rawTable (by decide) (by decide)
    (unlinked_rawTable [] fun _ => trivial)).1 ⟨.inl (by decide), fun h' hinit => ?_,
    fun h' hinit => ?_⟩
  · obtain ⟨-, rfl⟩ := Outcome.ret.inj (hashInit_rawTable.symm.trans hinit)
    refine ⟨fun a ha => absurd ha ?_, ensures_of_ret rfl trivial⟩
    refine not_holds (l := []) rfl ?_ List.not_mem_nil
    exact rfl
  · obtain ⟨-, rfl⟩ := Outcome.ret.inj (hashInit_rawTable.symm.trans hinit)
    exact ⟨trivial, ensures_of_ret rfl ⟨trivial, ensures_of_ret rfl trivial⟩⟩

/-- The lookup after the second insertion of a key never returns. -/
theorem hash_blocks : CallsUnlinked 3 1 [.insert 0 5 7, .insert 1 5 8, .get 5] rawTable ∧
    ¬ActsAsMap 3 1 [.insert 0 5 7, .insert 1 5 8, .get 5] rawTable := by
  refine ⟨unlinked_rawTable [.get 5] fun h => ⟨trivial, ensures_true _ h⟩, ?_⟩
  rintro ⟨r, h', hrun, -⟩
  have hhang : (hashSession 3 1 [.insert 0 5 7, .insert 1 5 8, .get 5] rawTable).value? = none := by
    decide +kernel
  rw [hrun] at hhang
  exact absurd hhang (Option.some_ne_none r)

end HashTable

end Ost.Util
