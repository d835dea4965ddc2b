import Ost.Util.Hash
import Ost.Util.Iov
import Ost.Prog.Linked
import Ost.Prog.Lock

/-!
# The tag hash in memory

`HashTable` is `HASH_T` with the memory of its elements: the chains are linked by the pointers
`next` in the elements, which belong to the callers, and the lock is a field.  An element is named
by its address.  The `ptr` in an element is not null: the callers store the address of the structure
around it.

The duplicates of the loops in `util.c` are one definition each, under the functions that have them.
A walk along a chain that is linked in a circle would not end; the loops get as much fuel as the
caller gives them.

`Linkage` says that the chains in memory are those of a `Hash`.
-/

namespace Ost.Util

open Ost.Prog

/-- `HASH_ELEM_T`. -/
structure HashElem (α : Type) where
  next : Option Nat
  key : UInt32
  ptr : α
deriving DecidableEq

/-- `HASH_T`, and the memory with the elements. -/
structure HashTable (α : Type) where
  bucket : Nat → Option Nat
  collisions : Int
  insertions : Int
  n : Nat
  lock : Bool
  /-- What is at an address. -/
  elem : Nat → HashElem α

/-- A call of the module. -/
abbrev HashProg (α β : Type) : Type := Prog Halt (HashTable α) β

/-- `h->lock`. -/
def hashLock {α : Type} : Lock (HashTable α) where
  held h := h.lock
  set b h := { h with lock := b }
  held_set _ _ := rfl

namespace HashTable

variable {α : Type}

/-- The table when `hash_init` calls `malloc`. -/
def cleared (h : HashTable α) (n : Nat) : HashTable α :=
  { h with lock := false, n, insertions := 0, collisions := 0 }

/-- `hash_init`.  `malloc` is given the size as an `int`, and fails when it is negative; `memset` is
given the size itself. -/
def hashInit (n : Nat) : HashProg α Int := do
  modify fun h => h.cleared n
  if wrapInt (8 * n : Nat) < 0 then return -1
  else if wrapInt (8 * n : Nat) < (8 * n : Nat) then halt .fault
  else do
    modify fun h => { h with bucket := fun _ => none }
    return 0

/-- `i = key%(h->n)`. -/
def bucketOf (key : UInt32) : HashProg α Nat := do
  let h ← get
  if h.n = 0 then halt .fault else return key.toNat % h.n

/-! ## Inserting -/

/-- The loop of `hash_insert`: whether the key is in the chain. -/
def rehashing (key : UInt32) : Nat → Option Nat → HashProg α Bool
  | _, none => return false
  | 0, some _ => halt .hang
  | fuel + 1, some p => do
    let e := (← get).elem p
    if key = e.key then return true else rehashing key fuel e.next

/-- Put an element in front of a chain. -/
def linkFirst (i e : Nat) : HashProg α PUnit := modify fun h =>
  { h with
    bucket := Function.update h.bucket i (some e)
    elem := Function.update h.elem e { h.elem e with next := h.bucket i } }

/-- The end of `hash_insert`. -/
def inserted : HashProg α Int := do
  modify fun h => { h with insertions := wrapInt (h.insertions + 1) }
  hashLock.release
  return 0

/-- `hash_insert`.  The lock is kept when the key is there already. -/
def hashInsert (fuel e : Nat) : HashProg α Int := do
  hashLock.acquire .hang
  let key := ((← get).elem e).key
  let i ← bucketOf key
  let head := (← get).bucket i
  if head = none then
    linkFirst i e
    inserted
  else if ← rehashing key fuel head then return -1
  else
    linkFirst i e
    modify fun h => { h with collisions := wrapInt (h.collisions + 1) }
    inserted

/-! ## Looking up and removing -/

/-- The loop of the four functions that look for a key: `prev` and `curr` at its end. -/
def walk (key : UInt32) : Nat → Option Nat → Nat → HashProg α (Option Nat × Nat)
  | 0, _, _ => halt .hang
  | fuel + 1, prev, curr => do
    let e := (← get).elem curr
    if e.key ≠ key then
      match e.next with
      | none => return (prev, curr)
      | some next => walk key fuel (some curr) next
    else return (prev, curr)

/-- What `hash_get` and `hash_get_elem` have in common: `curr`. -/
def getCurr (fuel : Nat) (key : UInt32) : HashProg α (Option Nat) := do
  hashLock.acquire .hang
  let i ← bucketOf key
  match (← get).bucket i with
  | none =>
    hashLock.release
    return none
  | some head =>
    let (_, curr) ← walk key fuel none head
    let found := ((← get).elem curr).key = key
    hashLock.release
    return if found then some curr else none

/-- Read the `ptr` of `curr`. -/
def ptrOf (curr : Option Nat) : HashProg α (Option α) :=
  gets fun h => curr.map fun e => (h.elem e).ptr

/-- `hash_get_elem`. -/
def hashGetElem (fuel : Nat) (key : UInt32) : HashProg α (Option Nat) := getCurr fuel key

/-- `hash_get`. -/
def hashGet (fuel : Nat) (key : UInt32) : HashProg α (Option α) := do
  ptrOf (← getCurr fuel key)

/-- Take `curr` out of its chain. -/
def unlink (i : Nat) (prev : Option Nat) (curr : Nat) : HashProg α PUnit := modify fun h =>
  match prev with
  | none => { h with
    bucket := Function.update h.bucket i ((h.bucket i).bind fun b => (h.elem b).next) }
  | some p => { h with
    elem := Function.update h.elem p { h.elem p with next := (h.elem curr).next } }

/-- What `hash_remove` and `hash_remove_elem` have in common: `curr`. -/
def removeCurr (fuel : Nat) (key : UInt32) : HashProg α (Option Nat) := do
  hashLock.acquire .hang
  let i ← bucketOf key
  match (← get).bucket i with
  | none =>
    hashLock.release
    return none
  | some head =>
    let (prev, curr) ← walk key fuel none head
    if ((← get).elem curr).key ≠ key then
      hashLock.release
      return none
    else
      unlink i prev curr
      hashLock.release
      return some curr

/-- `hash_remove_elem`. -/
def hashRemoveElem (fuel : Nat) (key : UInt32) : HashProg α (Option Nat) := removeCurr fuel key

/-- `hash_remove`. -/
def hashRemove (fuel : Nat) (key : UInt32) : HashProg α (Option α) := do
  ptrOf (← removeCurr fuel key)

/-- The loop of `hash_remove_head`, over the buckets that are left. -/
def removeFirst : List Nat → HashProg α (Option Nat)
  | [] => do
    hashLock.release
    return none
  | i :: is => do
    match (← get).bucket i with
    | none => removeFirst is
    | some curr =>
      modify fun h => { h with bucket := Function.update h.bucket i (h.elem curr).next }
      hashLock.release
      return some curr

/-- `hash_remove_head`. -/
def hashRemoveHead : HashProg α (Option α) := do
  hashLock.acquire .hang
  ptrOf (← removeFirst (List.range (← get).n))

/-! ## Counting -/

/-- The inner loop of `hash_count` and of `hash_print`: the count. -/
def countChain (head : Option Nat) : Nat → Option Nat → Int → HashProg α Int
  | _, none, count => return count
  | 0, some _, _ => halt .hang
  | fuel + 1, some p, count => do
    let next := ((← get).elem p).next
    if next = head then return wrapInt (count + 1)
    else countChain head fuel next (wrapInt (count + 1))

/-- The outer loop, over the buckets that are left. -/
def countChains (fuel : Nat) : List Nat → Int → HashProg α Int
  | [], count => return count
  | i :: is, count => do
    let head := (← get).bucket i
    countChains fuel is (← countChain head fuel head count)

/-- `hash_count`. -/
def hashCount (fuel : Nat) : HashProg α Int := do
  hashLock.acquire .hang
  let count ← countChains fuel (List.range (← get).n) 0
  hashLock.release
  return count

/-- `hash_print`, without what it prints. -/
def hashPrint (fuel : Nat) : HashProg α Int := do
  hashLock.acquire .hang
  let _ ← countChains fuel (List.range (← get).n) 0
  hashLock.release
  return 0

/-! ## The loops along a chain -/

/-- The pointer in an element. -/
def next (h : HashTable α) (a : Nat) : Option Nat := (h.elem a).next

section Loops

variable {h : HashTable α} {key : UInt32} {fuel : Nat} {l : List Nat}

/-- The loop of `hash_insert` looks at the whole chain. -/
theorem rehashing_eq {p : Option Nat} (hl : Linked h.next p l) (hfuel : l.length ≤ fuel) :
    rehashing key fuel p h = .ret (l.any fun a => key = (h.elem a).key) h := by
  induction l generalizing p fuel with
  | nil =>
    obtain rfl : p = none := hl
    cases fuel <;> rfl
  | cons a l ih =>
    obtain ⟨rfl, hl⟩ := hl
    obtain ⟨fuel, rfl⟩ := Nat.exists_eq_succ_of_ne_zero (Nat.ne_zero_of_lt hfuel)
    rw [rehashing, get_bind]
    by_cases hkey : key = (h.elem a).key
    · rw [if_pos hkey, List.any_cons, decide_eq_true hkey, Bool.true_or]
      rfl
    · rw [if_neg hkey, List.any_cons, decide_eq_false hkey, Bool.false_or]
      exact ih hl (Nat.le_of_succ_le_succ hfuel)

/-- The loop of the lookups stops at the first element with the key. -/
theorem walk_found {l₁ l₂ : List Nat} {a c : Nat} {prev : Option Nat}
    (hl : Linked h.next (some c) (l₁ ++ a :: l₂)) (hbefore : ∀ b ∈ l₁, (h.elem b).key ≠ key)
    (hkey : (h.elem a).key = key) (hfuel : l₁.length < fuel) :
    walk key fuel prev c h = .ret (l₁.getLast?.or prev, a) h := by
  induction l₁ generalizing c prev fuel with
  | nil =>
    obtain ⟨fuel, rfl⟩ := Nat.exists_eq_succ_of_ne_zero (Nat.ne_zero_of_lt hfuel)
    obtain rfl := Option.some.inj hl.1
    rw [walk, get_bind]
    rw [if_neg (not_not.mpr hkey)]
    rfl
  | cons b l₁ ih =>
    obtain ⟨fuel, rfl⟩ := Nat.exists_eq_succ_of_ne_zero (Nat.ne_zero_of_lt hfuel)
    obtain ⟨hc, hl⟩ := hl
    obtain rfl := Option.some.inj hc
    change Linked h.next (h.next c) (l₁ ++ a :: l₂) at hl
    obtain ⟨n, hn⟩ : ∃ n, (h.elem c).next = some n := by
      refine Option.ne_none_iff_exists'.mp fun hnone => ?_
      have hhead := hl.head
      rw [next, hnone] at hhead
      cases l₁ <;> exact absurd hhead (Option.some_ne_none _).symm
    rw [next, hn] at hl
    have hlast : (c :: l₁).getLast?.or prev = l₁.getLast?.or (some c) := by
      rw [List.getLast?_cons]
      cases l₁.getLast? <;> rfl
    rw [walk, get_bind]
    rw [if_pos (hbefore c List.mem_cons_self), hn, hlast]
    exact ih hl (fun b hb => hbefore b (List.mem_cons_of_mem _ hb)) (Nat.lt_of_succ_lt_succ hfuel)

/-- It stops at the last one when none has it. -/
theorem walk_missing {c : Nat} {prev : Option Nat} (hl : Linked h.next (some c) l)
    (hnone : ∀ b ∈ l, (h.elem b).key ≠ key) (hfuel : l.length ≤ fuel) :
    ∃ p a, walk key fuel prev c h = .ret (p, a) h ∧ (h.elem a).key ≠ key := by
  induction l generalizing c prev fuel with
  | nil => exact absurd hl (Option.some_ne_none c)
  | cons b l ih =>
    obtain ⟨fuel, rfl⟩ := Nat.exists_eq_succ_of_ne_zero (Nat.ne_zero_of_lt hfuel)
    obtain ⟨hc, hl⟩ := hl
    obtain rfl := Option.some.inj hc
    have hkey := hnone c List.mem_cons_self
    rw [walk]
    cases hn : (h.elem c).next with
    | none =>
      refine ⟨prev, c, ?_, hkey⟩
      rw [get_bind]
      rw [if_pos hkey, hn]
      rfl
    | some n =>
      rw [next, hn] at hl
      obtain ⟨p, a, hrun, ha⟩ := @ih fuel n (some c) hl
        (fun b hb => hnone b (List.mem_cons_of_mem _ hb)) (Nat.le_of_succ_le_succ hfuel)
      refine ⟨p, a, ?_, ha⟩
      rw [get_bind]
      rw [if_pos hkey, hn]
      exact hrun

theorem countChain_eq {head p : Option Nat} {count : Int} (hl : Linked h.next p l)
    (hhead : ∀ a ∈ l, h.next a ≠ head) (hfuel : l.length ≤ fuel) (hcount : wrapInt count = count) :
    countChain head fuel p count h = .ret (wrapInt (count + l.length)) h := by
  induction l generalizing p count fuel with
  | nil =>
    obtain rfl : p = none := hl
    rw [List.length_nil, Int.natCast_zero, Int.add_zero, hcount]
    cases fuel <;> rfl
  | cons a l ih =>
    obtain ⟨rfl, hl⟩ := hl
    obtain ⟨fuel, rfl⟩ := Nat.exists_eq_succ_of_ne_zero (Nat.ne_zero_of_lt hfuel)
    have hnext : (h.elem a).next ≠ head := hhead a List.mem_cons_self
    rw [countChain, get_bind, if_neg hnext]
    have hwrap : wrapInt (wrapInt (count + 1)) = wrapInt (count + 1) := Int.bmod_bmod
    rw [show countChain head fuel (h.elem a).next (wrapInt (count + 1)) h = _ from
      @ih fuel _ _ hl (fun b hb => hhead b (List.mem_cons_of_mem _ hb))
        (Nat.le_of_succ_le_succ hfuel) hwrap]
    congr 1
    rw [wrapInt, wrapInt, wrapInt, Int.bmod_add_bmod, List.length_cons]
    congr 1
    push_cast
    omega

end Loops

/-! ## The chains in memory -/

/-- The chains in memory are those of a hash of addresses. -/
structure Linkage (h : HashTable α) (t : Hash Nat) : Prop where
  wf : t.WF
  n_eq : t.n = h.n
  pos : 0 < h.n
  linked : ∀ i < h.n, Linked h.next (h.bucket i) ((t.bucket i).map (·.2))
  key : ∀ i, ∀ x ∈ t.bucket i, (h.elem x.2).key = x.1

section Linkage

variable {h : HashTable α} {t : Hash Nat} {key : UInt32} {fuel : Nat}

theorem Linkage.lock (hlink : Linkage h t) (b : Bool) : Linkage (hashLock.set b h) t :=
  ⟨hlink.wf, hlink.n_eq, hlink.pos, hlink.linked, hlink.key⟩

theorem Linkage.chain_lt (hlink : Linkage h t) (key : UInt32) : t.chain key < h.n :=
  hlink.n_eq ▸ Hash.chain_lt (hlink.n_eq ▸ hlink.pos) key

theorem Linkage.key_mem (hlink : Linkage h t) {i a : Nat} (ha : a ∈ (t.bucket i).map (·.2)) :
    ((h.elem a).key, a) ∈ t.bucket i ∧ t.chain (h.elem a).key = i := by
  obtain ⟨x, hx, rfl⟩ := List.mem_map.mp ha
  have hkey := hlink.key i x hx
  exact ⟨hkey ▸ hx, hkey ▸ hlink.wf.chain_eq i x hx⟩

theorem bucketOf_bind (hlink : Linkage h t) {β : Type} (k : Nat → HashProg α β) :
    (bucketOf key >>= k) h = k (t.chain key) h := by
  rw [bucketOf, bind_assoc, get_bind, if_neg (Nat.ne_of_gt hlink.pos), pure_bind, Hash.chain,
    hlink.n_eq]

/-- What is under a key, by where it is in its chain. -/
theorem hashGet_of_split {l₁ l₂ : List (UInt32 × Nat)} {a : Nat}
    (hb : t.bucket (t.chain key) = l₁ ++ (key, a) :: l₂) (hbefore : ∀ x ∈ l₁, x.1 ≠ key) :
    Util.hashGet t key = some a := by
  have hfind : (t.bucket (t.chain key)).find? (fun e => e.1 == key) = some (key, a) := by
    refine List.find?_eq_some_iff_append.mpr ⟨beq_self_eq_true key, l₁, l₂, hb, fun x hx => ?_⟩
    rw [beq_eq_false_iff_ne.mpr (hbefore x hx), Bool.not_false]
  rw [Util.hashGet, hfind]
  rfl

theorem hashGet_of_missing (hnone : ∀ x ∈ t.bucket (t.chain key), x.1 ≠ key) :
    Util.hashGet t key = none := by
  rw [Util.hashGet, List.find?_eq_none.mpr fun x hx => by simpa using hnone x hx]
  rfl

/-- The walk finds the element with the key, or there is none. -/
theorem Linkage.walk_cases (hlink : Linkage h t) {head : Nat}
    (hhead : h.bucket (t.chain key) = some head)
    (hfuel : (t.bucket (t.chain key)).length ≤ fuel) :
    (∃ l₁ a l₂, t.bucket (t.chain key) = l₁ ++ (key, a) :: l₂ ∧ (∀ x ∈ l₁, x.1 ≠ key) ∧
      (h.elem a).key = key ∧
      walk key fuel none head h = .ret ((l₁.map (·.2)).getLast?, a) h) ∨
    ((∀ x ∈ t.bucket (t.chain key), x.1 ≠ key) ∧
      ∃ p a, walk key fuel none head h = .ret (p, a) h ∧ (h.elem a).key ≠ key) := by
  have hlinked := hlink.linked _ (hlink.chain_lt key)
  rw [hhead] at hlinked
  have hkeys := hlink.key (t.chain key)
  cases hfind : (t.bucket (t.chain key)).find? (fun e => e.1 == key) with
  | none =>
    have hnone (x : UInt32 × Nat) (hx : x ∈ t.bucket (t.chain key)) : x.1 ≠ key := by
      simpa using List.find?_eq_none.mp hfind x hx
    refine .inr ⟨hnone, walk_missing hlinked (fun b hb => ?_) (by rwa [List.length_map])⟩
    obtain ⟨x, hx, rfl⟩ := List.mem_map.mp hb
    exact hkeys x hx ▸ hnone x hx
  | some x =>
    obtain ⟨hx, l₁, l₂, hb, hbefore⟩ := List.find?_eq_some_iff_append.mp hfind
    obtain ⟨k, a⟩ := x
    obtain rfl : k = key := by simpa using hx
    have hne (x : UInt32 × Nat) (hx : x ∈ l₁) : x.1 ≠ k := by simpa using hbefore x hx
    rw [hb] at hlinked hkeys hfuel
    rw [List.map_append, List.map_cons] at hlinked
    have ha : (h.elem a).key = k := hkeys (k, a) (List.mem_append_right _ List.mem_cons_self)
    refine .inl ⟨l₁, a, l₂, hb, hne, ha, ?_⟩
    rw [walk_found hlinked (fun b hb => ?_) ha, Option.or_none]
    · rw [List.length_map]
      rw [List.length_append, List.length_cons] at hfuel
      omega
    · obtain ⟨x, hx, rfl⟩ := List.mem_map.mp hb
      rw [hkeys x (List.mem_append_left _ hx)]
      exact hne x hx

theorem Linkage.bucket_eq_none (hlink : Linkage h t) {i : Nat} (hi : i < h.n) :
    h.bucket i = none ↔ t.bucket i = [] := by
  rw [(hlink.linked i hi).head, List.head?_eq_none_iff, List.map_eq_nil_iff]

theorem set_set_lock (hfree : h.lock = false) : hashLock.set false (hashLock.set true h) = h := by
  cases h
  cases hfree
  rfl

/-- The lookups return what is under the key. -/
theorem getCurr_eq (hlink : Linkage h t) (hfree : h.lock = false)
    (hfuel : (t.bucket (t.chain key)).length ≤ fuel) :
    getCurr fuel key h = .ret (Util.hashGet t key) h := by
  have hlink' := hlink.lock true
  rw [getCurr, hashLock.acquire_bind hfree, bucketOf_bind hlink', get_bind]
  cases hhead : h.bucket (t.chain key) with
  | none =>
    have hnil := (hlink.bucket_eq_none (hlink.chain_lt key)).mp hhead
    rw [hashGet_of_missing (by rw [hnil]; exact fun x hx => absurd hx List.not_mem_nil)]
    have hhead' : (hashLock.set true h).bucket (t.chain key) = none := hhead
    rw [hhead']
    dsimp only
    rw [hashLock.release_bind, set_set_lock hfree]
    rfl
  | some head =>
    have hhead' : (hashLock.set true h).bucket (t.chain key) = some head := hhead
    rw [hhead']
    dsimp only
    rcases hlink'.walk_cases hhead' hfuel with
      ⟨l₁, a, l₂, hb, hne, ha, hwalk⟩ | ⟨hnone, p, a, hwalk, ha⟩
    · rw [bind_apply, hwalk]
      dsimp only
      rw [get_bind, hashLock.release_bind, set_set_lock hfree, hashGet_of_split hb hne]
      exact congrArg (Outcome.ret · h) (if_pos ha)
    · rw [bind_apply, hwalk]
      dsimp only
      rw [get_bind, hashLock.release_bind, set_set_lock hfree, hashGet_of_missing hnone]
      exact congrArg (Outcome.ret · h) (if_neg ha)

end Linkage

/-! ## Changing a chain -/

section Changes

variable {h h' : HashTable α} {t : Hash Nat} {key : UInt32} {fuel : Nat}

/-- The keys and the pointers in the elements are the same. -/
def SameElems (h h' : HashTable α) : Prop :=
  ∀ a, (h'.elem a).key = (h.elem a).key ∧ (h'.elem a).ptr = (h.elem a).ptr

/-- One chain is replaced, and nothing happens to the elements of the others. -/
theorem Linkage.update (hlink : Linkage h t) {i : Nat} {l : List (UInt32 × Nat)} (hn : h'.n = h.n)
    (hwf : ({ t with bucket := Function.update t.bucket i l } : Hash Nat).WF)
    (hchain : Linked h'.next (h'.bucket i) (l.map (·.2)))
    (hkey : ∀ x ∈ l, (h'.elem x.2).key = x.1) (hbucket : ∀ j, j ≠ i → h'.bucket j = h.bucket j)
    (helem : ∀ j, j ≠ i → ∀ a ∈ (t.bucket j).map (·.2), h'.elem a = h.elem a) :
    Linkage h' { t with bucket := Function.update t.bucket i l } := by
  refine ⟨hwf, hlink.n_eq.trans hn.symm, hn ▸ hlink.pos, fun j hj => ?_, fun j x hx => ?_⟩
  · change Linked h'.next (h'.bucket j) ((Function.update t.bucket i l j).map (·.2))
    rcases eq_or_ne j i with rfl | hne
    · rw [Function.update_self]
      exact hchain
    · rw [Function.update_of_ne hne, hbucket j hne]
      refine (hlink.linked j (hn ▸ hj)).congr fun a ha => ?_
      rw [next, next, helem j hne a ha]
  · change x ∈ Function.update t.bucket i l j at hx
    rcases eq_or_ne j i with rfl | hne
    · rw [Function.update_self] at hx
      exact hkey x hx
    · rw [Function.update_of_ne hne] at hx
      rw [helem j hne _ (List.mem_map_of_mem hx)]
      exact hlink.key j x hx

theorem next_update (h : HashTable α) (a : Nat) (p : Option Nat) :
    ({ h with elem := Function.update h.elem a { h.elem a with next := p } } : HashTable α).next =
      Function.update h.next a p := by
  funext b
  change (Function.update h.elem a { h.elem a with next := p } b).next = _
  rcases eq_or_ne b a with rfl | hne
  · rw [Function.update_self, Function.update_self]
  · rw [Function.update_of_ne hne, Function.update_of_ne hne]
    rfl

theorem sameElems_update (h : HashTable α) (a : Nat) (p : Option Nat) (b : Nat) :
    (Function.update h.elem a { h.elem a with next := p } b).key = (h.elem b).key ∧
      (Function.update h.elem a { h.elem a with next := p } b).ptr = (h.elem b).ptr := by
  rcases eq_or_ne b a with rfl | hne
  · rw [Function.update_self]
    exact ⟨rfl, rfl⟩
  · rw [Function.update_of_ne hne]
    exact ⟨rfl, rfl⟩

/-- What is removed from a hash, by where it is in its chain. -/
theorem hashRemove_of_split {l₁ l₂ : List (UInt32 × Nat)} {a : Nat}
    (hb : t.bucket (t.chain key) = l₁ ++ (key, a) :: l₂) (hbefore : ∀ x ∈ l₁, x.1 ≠ key) :
    Util.hashRemove t key = some (a,
      { t with bucket := Function.update t.bucket (t.chain key) (l₁ ++ l₂) }) := by
  have hfind : (t.bucket (t.chain key)).find? (fun e => e.1 == key) = some (key, a) := by
    refine List.find?_eq_some_iff_append.mpr ⟨beq_self_eq_true key, l₁, l₂, hb, fun x hx => ?_⟩
    rw [beq_eq_false_iff_ne.mpr (hbefore x hx), Bool.not_false]
  have herase : (t.bucket (t.chain key)).eraseP (fun e => e.1 == key) = l₁ ++ l₂ := by
    rw [hb, List.eraseP_append_right _ fun x hx => by simpa using hbefore x hx]
    exact congrArg (l₁ ++ ·) (List.eraseP_cons_of_pos (p := fun e : UInt32 × Nat => e.1 == key)
      (beq_self_eq_true key))
  rw [Util.hashRemove, hfind, herase]
  rfl

/-- Taking an element out of its chain. -/
theorem Linkage.unlink (hlink : Linkage h t) {l₁ l₂ : List (UInt32 × Nat)} {a : Nat}
    (hb : t.bucket (t.chain key) = l₁ ++ (key, a) :: l₂) (hbefore : ∀ x ∈ l₁, x.1 ≠ key) :
    ∃ h', unlink (t.chain key) (l₁.map (·.2)).getLast? a h = .ret ⟨⟩ h' ∧
      Linkage h' { t with bucket := Function.update t.bucket (t.chain key) (l₁ ++ l₂) } ∧
      SameElems h h' ∧ h'.lock = h.lock := by
  have hwf := (Hash.remove_some hlink.wf (hashRemove_of_split hb hbefore)).1
  have hlinked := hlink.linked _ (hlink.chain_lt key)
  have hkeys := hlink.key (t.chain key)
  rw [hb] at hlinked hkeys
  rw [List.map_append, List.map_cons] at hlinked
  refine ⟨_, rfl, ?_⟩
  rcases List.eq_nil_or_concat l₁ with rfl | ⟨l, y, rfl⟩
  · refine ⟨hlink.update rfl hwf ?_ (fun x hx => hkeys x (List.mem_cons_of_mem _ hx))
      (fun j hj => Function.update_of_ne hj _ _) fun _ _ _ _ => rfl, fun _ => ⟨rfl, rfl⟩, rfl⟩
    change Linked h.next (Function.update h.bucket (t.chain key) _ (t.chain key)) _
    rw [Function.update_self, hlinked.1]
    exact hlinked.2
  · rw [List.concat_eq_append] at hb hbefore hlinked hkeys hwf ⊢
    have hlast : ((l ++ [y]).map (·.2)).getLast? = some y.2 := by
      rw [List.map_append, List.map_singleton, List.getLast?_concat]
    rw [hlast]
    have hy : y ∈ t.bucket (t.chain key) := by
      rw [hb]
      exact List.mem_append_left _ (List.mem_append_right _ (List.mem_singleton_self y))
    refine ⟨hlink.update rfl hwf ?_ (fun x hx => ?_) (fun _ _ => rfl) fun j hj b hb' => ?_,
      sameElems_update h y.2 _, rfl⟩
    · change Linked (HashTable.next { h with elem := Function.update h.elem y.2 _ }) _ _
      rw [next_update]
      rw [List.map_append, List.append_assoc] at hlinked
      rw [List.map_append, List.map_append, List.append_assoc]
      exact hlinked.unlink
    · refine (sameElems_update h y.2 _ x.2).1.trans (hkeys x ?_)
      rcases List.mem_append.mp hx with hx | hx
      · exact List.mem_append_left _ hx
      · exact List.mem_append_right _ (List.mem_cons_of_mem _ hx)
    · refine Function.update_of_ne ?_ _ _
      rintro rfl
      have hin := (hlink.key_mem hb').2
      have hown := (hlink.key_mem (List.mem_map_of_mem hy)).2
      exact hj (hin.symm.trans hown)

/-- The removals take out what is under the key. -/
theorem removeCurr_cases (hlink : Linkage h t) (hfree : h.lock = false)
    (hfuel : (t.bucket (t.chain key)).length ≤ fuel) :
    (Util.hashGet t key = none ∧ removeCurr fuel key h = .ret none h) ∨
    ∃ a t' h', Util.hashGet t key = some a ∧ Util.hashRemove t key = some (a, t') ∧
      removeCurr fuel key h = .ret (some a) h' ∧ Linkage h' t' ∧ SameElems h h' ∧
      h'.lock = false := by
  have hlink' := hlink.lock true
  rw [removeCurr, hashLock.acquire_bind hfree, bucketOf_bind hlink', get_bind]
  cases hhead : h.bucket (t.chain key) with
  | none =>
    have hnil := (hlink.bucket_eq_none (hlink.chain_lt key)).mp hhead
    refine .inl ⟨hashGet_of_missing
      (by rw [hnil]; exact fun x hx => absurd hx List.not_mem_nil), ?_⟩
    have hhead' : (hashLock.set true h).bucket (t.chain key) = none := hhead
    rw [hhead']
    dsimp only
    rw [hashLock.release_bind, set_set_lock hfree]
    rfl
  | some head =>
    have hhead' : (hashLock.set true h).bucket (t.chain key) = some head := hhead
    rw [hhead']
    dsimp only
    rcases hlink'.walk_cases hhead' hfuel with
      ⟨l₁, a, l₂, hb, hne, ha, hwalk⟩ | ⟨hnone, p, a, hwalk, ha⟩
    · obtain ⟨h₁, hunlink, hlink₁, hsame, -⟩ := hlink'.unlink hb hne
      refine .inr ⟨a, _, hashLock.set false h₁, hashGet_of_split hb hne,
        hashRemove_of_split hb hne, ?_, hlink₁.lock false, hsame, rfl⟩
      rw [bind_apply, hwalk]
      dsimp only
      rw [get_bind, if_neg (not_not.mpr ha), bind_apply, hunlink]
      rfl
    · refine .inl ⟨hashGet_of_missing hnone, ?_⟩
      rw [bind_apply, hwalk]
      dsimp only
      rw [get_bind, if_pos ha, hashLock.release_bind, set_set_lock hfree]
      rfl

end Changes

/-! ## Inserting, removing any element, and counting -/

section Calls

variable {h : HashTable α} {t : Hash Nat} {key : UInt32} {fuel e : Nat}

theorem Linkage.same {h' : HashTable α} (hlink : Linkage h t) (hbucket : h'.bucket = h.bucket)
    (hn : h'.n = h.n) (helem : h'.elem = h.elem) : Linkage h' t := by
  obtain ⟨bucket, collisions, insertions, n, lock, elem⟩ := h'
  subst hbucket
  subst hn
  subst helem
  exact ⟨hlink.wf, hlink.n_eq, hlink.pos, hlink.linked, hlink.key⟩

/-- Putting an element with a new key in front of its chain. -/
theorem Linkage.linkFirst (hlink : Linkage h t) (hfresh : ∀ i, e ∉ (t.bucket i).map (·.2))
    (hnew : Util.hashGet t (h.elem e).key = none) :
    ∃ t' h', Util.hashInsert t (h.elem e).key e = some t' ∧
      linkFirst (t.chain (h.elem e).key) e h = .ret ⟨⟩ h' ∧ Linkage h' t' ∧ SameElems h h' := by
  have hpos : 0 < t.n := hlink.n_eq ▸ hlink.pos
  obtain ⟨t', hins, hwf, -⟩ := Hash.insert_new hlink.wf hpos e hnew
  have ht' : t' = { t with
      bucket := Function.update t.bucket (t.chain (h.elem e).key)
        (((h.elem e).key, e) :: t.bucket (t.chain (h.elem e).key)) } := by
    rw [Util.hashInsert] at hins
    split at hins
    · exact absurd hins (Option.some_ne_none _).symm
    · exact (Option.some.inj hins).symm
  subst ht'
  refine ⟨_, _, hins, rfl, hlink.update rfl hwf ?_ (fun x hx => ?_) (fun j hj => ?_)
    fun j hj a ha => ?_, sameElems_update h e _⟩
  · change Linked (HashTable.next { h with elem := Function.update h.elem e _ })
      (Function.update h.bucket _ _ _) _
    rw [next_update, Function.update_self]
    exact (hlink.linked _ (hlink.chain_lt _)).push (hfresh _)
  · refine (sameElems_update h e _ x.2).1.trans ?_
    rcases List.mem_cons.mp hx with rfl | hx
    · rfl
    · exact hlink.key _ x hx
  · exact Function.update_of_ne hj _ _
  · refine Function.update_of_ne ?_ _ _
    rintro rfl
    exact hfresh j ha

/-- An insertion fails and keeps the lock, or it goes through. -/
theorem hashInsert_cases (hlink : Linkage h t) (hfree : h.lock = false)
    (hfresh : ∀ i, e ∉ (t.bucket i).map (·.2))
    (hfuel : (t.bucket (t.chain (h.elem e).key)).length ≤ fuel) :
    ((Util.hashGet t (h.elem e).key).isSome ∧
      hashInsert fuel e h = .ret (-1) (hashLock.set true h)) ∨
    ∃ t' h', Util.hashGet t (h.elem e).key = none ∧
      Util.hashInsert t (h.elem e).key e = some t' ∧ hashInsert fuel e h = .ret 0 h' ∧
      Linkage h' t' ∧ SameElems h h' ∧ h'.lock = false := by
  have hlink' := hlink.lock true
  have hchain := hlink.chain_lt (h.elem e).key
  have hlinked := hlink.linked _ hchain
  -- the chain has the key just when there is something under it
  have hany : ((t.bucket (t.chain (h.elem e).key)).map (·.2)).any
      (fun a => decide ((h.elem e).key = (h.elem a).key)) =
        (Util.hashGet t (h.elem e).key).isSome := by
    rw [List.any_map, Util.hashGet, Option.isSome_map, List.isSome_find?]
    refine Bool.eq_iff_iff.mpr ?_
    rw [List.any_eq_true, List.any_eq_true]
    refine exists_congr fun x => and_congr_right fun hx => ?_
    change decide ((h.elem e).key = (h.elem x.2).key) = true ↔ _
    rw [decide_eq_true_iff, hlink.key _ x hx, beq_iff_eq, eq_comm]
  have hrehash : rehashing (h.elem e).key fuel (h.bucket (t.chain (h.elem e).key))
      (hashLock.set true h) =
        .ret (Util.hashGet t (h.elem e).key).isSome (hashLock.set true h) := by
    rw [← hany]
    exact rehashing_eq hlinked (by rwa [List.length_map])
  have hstart : hashInsert fuel e h = (do
      let head := h.bucket (t.chain (h.elem e).key)
      if head = none then
        HashTable.linkFirst (t.chain (h.elem e).key) e
        inserted
      else if ← rehashing (h.elem e).key fuel head then return -1
      else
        HashTable.linkFirst (t.chain (h.elem e).key) e
        modify fun h => { h with collisions := wrapInt (h.collisions + 1) }
        inserted : HashProg α Int) (hashLock.set true h) := by
    rw [hashInsert, hashLock.acquire_bind hfree, get_bind]
    exact (bucketOf_bind hlink' _).trans rfl
  rw [hstart]
  dsimp only
  have hdone (hnew : Util.hashGet t (h.elem e).key = none) :
      ∃ t' h', Util.hashInsert t (h.elem e).key e = some t' ∧
        HashTable.linkFirst (t.chain (h.elem e).key) e (hashLock.set true h) = .ret ⟨⟩ h' ∧
        Linkage h' t' ∧ SameElems h h' := hlink'.linkFirst hfresh hnew
  by_cases hhead : h.bucket (t.chain (h.elem e).key) = none
  · have hnil := (hlink.bucket_eq_none hchain).mp hhead
    have hnew : Util.hashGet t (h.elem e).key = none :=
      hashGet_of_missing (by rw [hnil]; exact fun x hx => absurd hx List.not_mem_nil)
    obtain ⟨t', h₁, hins, hfirst, hlink₁, hsame⟩ := hdone hnew
    refine .inr ⟨t', { h₁ with insertions := wrapInt (h₁.insertions + 1), lock := false }, hnew,
      hins, ?_, hlink₁.same rfl rfl rfl, hsame, rfl⟩
    rw [if_pos hhead, bind_apply, hfirst]
    rfl
  · rw [if_neg hhead, bind_apply, hrehash]
    dsimp only
    cases hget : Util.hashGet t (h.elem e).key with
    | some a => exact .inl ⟨rfl, rfl⟩
    | none =>
      obtain ⟨t', h₁, hins, hfirst, hlink₁, hsame⟩ := hdone hget
      refine .inr ⟨t', { h₁ with
        collisions := wrapInt (h₁.collisions + 1)
        insertions := wrapInt (h₁.insertions + 1)
        lock := false }, rfl, hins, ?_, hlink₁.same rfl rfl rfl, hsame, rfl⟩
      rw [Option.isSome_none, if_neg Bool.false_ne_true, bind_apply, hfirst]
      rfl

/-- The loop of `hash_remove_head` takes the first element of the first chain that has one. -/
theorem removeFirst_cases (hlink : Linkage h t) {is : List Nat} (his : ∀ i ∈ is, i < h.n) :
    (is.find? (fun i => !(t.bucket i).isEmpty) = none ∧
      removeFirst is h = .ret none (hashLock.set false h)) ∨
    ∃ i x l h', is.find? (fun i => !(t.bucket i).isEmpty) = some i ∧ t.bucket i = x :: l ∧
      removeFirst is h = .ret (some x.2) h' ∧
      Linkage h' { t with bucket := Function.update t.bucket i l } ∧ SameElems h h' ∧
      h'.lock = false := by
  induction is with
  | nil => exact .inl ⟨rfl, rfl⟩
  | cons i is ih =>
    have hi := his i List.mem_cons_self
    have hlinked := hlink.linked i hi
    rw [removeFirst, get_bind]
    cases hb : t.bucket i with
    | nil =>
      rw [(hlink.bucket_eq_none hi).mpr hb, List.find?_cons_of_neg (by rw [hb]; decide)]
      exact ih fun j hj => his j (List.mem_cons_of_mem _ hj)
    | cons x l =>
      rw [hb] at hlinked
      have hwf : ({ t with bucket := Function.update t.bucket i l } : Hash Nat).WF := by
        have hin (y : UInt32 × Nat) (hy : y ∈ l) : y ∈ t.bucket i := hb ▸ List.mem_cons_of_mem _ hy
        refine Hash.wf_update hlink.wf (hlink.n_eq ▸ hi)
          (fun y hy => hlink.wf.chain_eq i y (hin y hy)) ?_
        have hnodup := hlink.wf.nodup i
        rw [hb] at hnodup
        exact (List.nodup_cons.mp hnodup).2
      rw [hlinked.1]
      have hkeys (y : UInt32 × Nat) (hy : y ∈ l) : (h.elem y.2).key = y.1 :=
        hlink.key i y (hb ▸ List.mem_cons_of_mem _ hy)
      refine .inr ⟨i, x, l, hashLock.set false
        { h with bucket := Function.update h.bucket i (h.elem x.2).next },
        List.find?_cons_of_pos (by rw [hb]; rfl), hb, rfl, ?_, fun _ => ⟨rfl, rfl⟩, rfl⟩
      refine hlink.update rfl hwf ?_ hkeys (fun j hj => Function.update_of_ne hj _ _)
        fun _ _ _ _ => rfl
      change Linked h.next (Function.update h.bucket i (h.elem x.2).next i) _
      rw [Function.update_self]
      exact hlinked.2

/-- `hash_remove_head` takes out an element, unless there is none. -/
theorem hashRemoveHead_cases (hlink : Linkage h t) (hfree : h.lock = false) :
    (Util.hashRemoveHead t = none ∧ hashRemoveHead h = .ret none h) ∨
    ∃ a t' h', Util.hashRemoveHead t = some (a, t') ∧
      hashRemoveHead h = .ret (some (h.elem a).ptr) h' ∧ Linkage h' t' ∧ SameElems h h' ∧
      h'.lock = false := by
  have hn : (hashLock.set true h).n = t.n := hlink.n_eq.symm
  rw [hashRemoveHead, hashLock.acquire_bind hfree, get_bind, hn, Util.hashRemoveHead]
  rcases removeFirst_cases (hlink.lock true) (fun i hi => hn ▸ List.mem_range.mp hi) with
    ⟨hfind, hrun⟩ | ⟨i, x, l, h', hfind, hb, hrun, hlink', hsame, hfree'⟩
  · refine .inl ⟨by rw [hfind]; rfl, ?_⟩
    rw [bind_apply, hrun, set_set_lock hfree]
    rfl
  · refine .inr ⟨x.2, _, h', ?_, ?_, hlink', hsame, hfree'⟩
    · rw [hfind, Option.bind_some, hb]
    · rw [bind_apply, hrun]
      exact congrArg (Outcome.ret · h') (congrArg some (hsame x.2).2)

/-- The loops of `hash_count` add up the lengths of the chains. -/
theorem countChains_eq (hlink : Linkage h t) {is : List Nat} (his : ∀ i ∈ is, i < h.n)
    (hfuel : ∀ i ∈ is, (t.bucket i).length ≤ fuel) {count : Int} (hcount : wrapInt count = count) :
    countChains fuel is count h =
      .ret (wrapInt (count + ((is.map fun i => (t.bucket i).length).sum : Nat))) h := by
  induction is generalizing count with
  | nil =>
    rw [List.map_nil, List.sum_nil, Int.natCast_zero, Int.add_zero, hcount]
    rfl
  | cons i is ih =>
    have hlinked := hlink.linked i (his i List.mem_cons_self)
    have hchain := @countChain_eq _ h fuel _ (h.bucket i) _ count hlinked
      (fun a ha => hlinked.next_ne ha)
      (by rw [List.length_map]; exact hfuel i List.mem_cons_self) hcount
    have hwrap : wrapInt (wrapInt (count + ((t.bucket i).map (·.2)).length)) =
        wrapInt (count + ((t.bucket i).map (·.2)).length) := Int.bmod_bmod
    rw [countChains, get_bind, bind_apply, hchain]
    refine (ih (fun j hj => his j (List.mem_cons_of_mem _ hj))
      (fun j hj => hfuel j (List.mem_cons_of_mem _ hj)) hwrap).trans ?_
    congr 1
    rw [wrapInt, wrapInt, wrapInt, Int.bmod_add_bmod, List.map_cons, List.sum_cons, List.length_map]
    congr 1
    push_cast
    omega

theorem hashCount_eq (hlink : Linkage h t) (hfree : h.lock = false)
    (hfuel : ∀ i, (t.bucket i).length ≤ fuel) :
    hashCount fuel h = .ret (wrapInt t.entries.length) h := by
  have hn : (hashLock.set true h).n = t.n := hlink.n_eq.symm
  rw [hashCount, hashLock.acquire_bind hfree, get_bind, hn, bind_apply,
    countChains_eq (hlink.lock true) (fun i hi => hn ▸ List.mem_range.mp hi)
      (fun i _ => hfuel i) (by decide)]
  dsimp only
  rw [hashLock.release_bind, set_set_lock hfree, Int.zero_add, ← Hash.count_eq]
  rfl

theorem hashPrint_eq (hlink : Linkage h t) (hfree : h.lock = false)
    (hfuel : ∀ i, (t.bucket i).length ≤ fuel) : hashPrint fuel h = .ret 0 h := by
  have hn : (hashLock.set true h).n = t.n := hlink.n_eq.symm
  rw [hashPrint, hashLock.acquire_bind hfree, get_bind, hn, bind_ret
    (countChains_eq (hlink.lock true) (fun i hi => hn ▸ List.mem_range.mp hi)
      (fun i _ => hfuel i) (by decide)), hashLock.release_bind, set_set_lock hfree]
  rfl

end Calls

end HashTable

end Ost.Util
