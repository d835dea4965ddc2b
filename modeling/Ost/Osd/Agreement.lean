import Ost.Osd.Service

/-!
# The attribute service agrees with its client

A session is a sequence of calls of the client, each with what it returned.  What the vendor
specific attribute of an object should be follows from that record, and what the ids should be from
the call.  In every session whose calls have values that fit, and ask for the ids of object zero
only, the results are the right ones.
-/

namespace Ost.Osd

open Ost.Iscsi Ost.Util Ost.Prog

variable (env : Env) (lun : UInt64)

/-- The device, and the calls that returned with what they returned, the latest first. -/
structure Session where
  world : World
  past : List (Call × Result)
deriving DecidableEq

/-- A call, with what it finds in its buffer, and its record. -/
def serve (call : Call × Stale) : Prog Halt Session PUnit := fun s =>
  match call.1.run env lun call.2 s.world with
  | .ret r w => .ret ⟨⟩ ⟨w, (call.1, r) :: s.past⟩
  | .halt e w => .halt e ⟨w, s.past⟩

/-- The attribute that a call has set, and its object. -/
def setBy : Call × Result → Option (Obj × Entry)
  | (.setOneAttr g u page index v, .stored) => some (⟨lun, g, u⟩, ⟨page, index, v.1⟩)
  | (.createAndSet g _ page index (some v), .user id) =>
    some (⟨lun, g, id⟩, ⟨page, index, v.1⟩)
  | _ => none

/-- An entry for the vendor specific attribute. -/
def Entry.isInode (e : Entry) : Prop := e.page = pageInode ∧ e.index = 1

instance (e : Entry) : Decidable e.isInode := instDecidableAnd

/-- The latest value of `INODE_LEN` bytes that was set. -/
def lastInode (start : Obj → Option Bytes) : List (Call × Result) → Obj → Option Bytes
  | [], o => start o
  | done :: past, o =>
    match setBy lun done with
    | some (o', e) =>
      if o = o' ∧ e.isInode ∧ e.value.length = inodeLen then some e.value
      else lastInode start past o
    | none => lastInode start past o

/-- The first `INODE_LEN` bytes of a file, if it has so many. -/
def inodeOf : Option Bytes → Option Bytes
  | some b => if inodeLen ≤ b.length then some (b.take inodeLen) else none
  | none => none

/-- The vendor specific attribute of an object, as far as it is returned. -/
def inode (base : BaseDir) (f : Text → Option Bytes) (o : Obj) : Option Bytes :=
  inodeOf (f (fileName base o (.attr pageInode 1)))

/-- An entry that is no vendor specific attribute, has its length, or repeats what is there. -/
def Replacing (last : Option Bytes) (e : Entry) : Prop :=
  e.isInode → e.value.length = inodeLen ∨
    match last with
    | some v => e.value.take inodeLen <+: v
    | none => e.value.length < inodeLen

instance (last : Option Bytes) (e : Entry) : Decidable (Replacing last e) := by
  unfold Replacing
  cases last <;> infer_instance

/-- A value fits into the buffer of `osd_create_and_set` and into the length of its header; a value
for the vendor specific attribute replaces the one that is there; ids are asked for only where they
are zero. -/
def CallOk (start : Obj → Option Bytes) (s : Session) : Call → Prop
  | .createGroup _ | .create _ _ => True
  | .createAndSet g u page index value => ∀ v ∈ value, 10 + v.1.length ≤ 1024 ∧
      ∀ id, Drawn (clearedArgs osdCreate g u) s.world.rand id →
        Replacing (lastInode lun start s.past ⟨lun, g, id⟩) ⟨page, index, v.1⟩
  | .setOneAttr g u page index v => v.1.length < 65536 ∧
      Replacing (lastInode lun start s.past ⟨lun, g, u⟩) ⟨page, index, v.1⟩
  | .getOneAttr g u page index allocLen => 10 + allocLen.toNat < 4294967296 ∧
      (page = pageGroup ∨ page = pageIds ∧ wanted page index = 1 → g = 0) ∧
      (page = pageIds ∧ wanted page index = 2 → u = 0)

/-- What a call that returned should have done. -/
def Agrees (start : Obj → Option Bytes) (s : Session) (w' : World) : Call → Result → Prop
  | _, .overflow => False
  | _, .failed => True
  | .createGroup g, r => ∃ id, r = .group id ∧ (if g = 0 then id ≠ 0 else id = g) ∧
      ∃ w₁, GroupMade env.baseDir lun g s.world id w₁ ∧ w'.host.dirs = w₁.host.dirs
  | .create g u, r | .createAndSet g u _ _ _, r => ∃ id, r = .user id ∧ (u ≠ 0 → id = u) ∧
      w'.acts = .created ⟨lun, g, id⟩ :: s.world.acts ∧
      w'.host.file (fileName env.baseDir ⟨lun, g, id⟩ .data) = some []
  | .setOneAttr .., r => r = .stored
  | .getOneAttr g u page index _, r => ∃ v, r = .value v ∧
      (page = pageGroup ∨ page = pageIds ∧ wanted page index = 1 → v = word32 g) ∧
      (page = pageIds ∧ wanted page index = 2 → v = word64 u) ∧
      (page = pageInode → lastInode lun start s.past ⟨lun, g, u⟩ = some v)

/-- The files hold what was set. -/
def Recorded (start : Obj → Option Bytes) (s : Session) : Prop :=
  ∀ o, inode env.baseDir s.world.host.file o = lastInode lun start s.past o

section Files

variable {env} {lun} {base : BaseDir} {f f' : Text → Option Bytes} {o o' : Obj}

theorem inode_congr (h : f (fileName base o (.attr pageInode 1)) =
    f' (fileName base o (.attr pageInode 1))) : inode base f o = inode base f' o := by
  unfold inode
  rw [h]

/-- A value behind the old one is stored over its beginning. -/
theorem overwrite_zero (old b : Bytes) : overwrite old 0 b = b ++ old.drop b.length := by
  unfold overwrite
  by_cases hb : b = []
  · rw [if_pos hb, hb]
    rfl
  · rw [if_neg hb]
    simp

/-- A value that begins like what is there changes nothing that is there. -/
theorem take_overwrite_of_prefix {old b : Bytes} {n : Nat} (hn : n ≤ old.length)
    (h : b.take n <+: old.take n) : (overwrite old 0 b).take n = old.take n := by
  rw [overwrite_zero]
  by_cases hb : b.length ≤ n
  · rw [List.take_of_length_le hb] at h
    obtain ⟨t, rfl⟩ := h.trans (List.take_prefix n old)
    rw [List.drop_left' rfl]
  · have hlen : (b.take n).length = (old.take n).length := by
      rw [List.length_take, List.length_take]
      omega
    rw [List.take_append_of_le_length (by omega), h.eq_of_length hlen]

/-- A value of `INODE_LEN` bytes is what is returned then. -/
theorem inodeOf_overwrite_of_length (old : Bytes) {b : Bytes} (hlen : b.length = inodeLen) :
    inodeOf (some (overwrite old 0 b)) = some b := by
  rw [overwrite_zero, inodeOf, if_pos (by simp [hlen]), List.take_left' hlen]

/-- Any other one that is harmless does not change what is returned. -/
theorem inodeOf_overwrite (old : Option Bytes) {e : Entry} (hinode : e.isInode)
    (hlen : e.value.length ≠ inodeLen) (h : Replacing (inodeOf old) e) :
    inodeOf (some (overwrite (old.getD []) 0 e.value)) = inodeOf old := by
  replace h := (h hinode).resolve_left hlen
  cases old with
  | none =>
    rw [Option.getD_none, overwrite_zero, List.drop_nil, List.append_nil]
    exact if_neg (Nat.not_le.mpr h)
  | some b =>
    have hsum : (overwrite b 0 e.value).length = max e.value.length b.length := by
      rw [overwrite_zero, List.length_append, List.length_drop]
      omega
    unfold inodeOf at h ⊢
    dsimp only [Option.getD_some] at h ⊢
    rw [hsum]
    by_cases hb : inodeLen ≤ b.length
    · rw [if_pos hb] at h ⊢
      rw [if_pos (le_max_of_le_right hb), take_overwrite_of_prefix hb h]
    · rw [if_neg hb] at h ⊢
      exact if_neg (Nat.not_le.mpr (Nat.max_lt.mpr ⟨h, Nat.not_le.mp hb⟩))

/-- The vendor specific attribute after an entry was stored. -/
theorem inode_stored {e : Entry} (h : Replacing (inode base f o) e) (o' : Obj) :
    inode base (stored base o [e] f) o' =
      if o' = o ∧ e.isInode ∧ e.value.length = inodeLen then some e.value else inode base f o' := by
  by_cases hhere : o' = o ∧ e.isInode
  · obtain ⟨rfl, hinode⟩ := hhere
    have hpath : fileName base o' (.attr pageInode 1) = e.path base o' := by
      unfold Entry.path
      rw [hinode.1, hinode.2]
    unfold inode at h ⊢
    rw [hpath] at h ⊢
    rw [stored, stored, if_pos rfl]
    by_cases hlen : e.value.length = inodeLen
    · rw [if_pos ⟨rfl, hinode, hlen⟩, inodeOf_overwrite_of_length _ hlen]
    · rw [if_neg fun h => hlen h.2.2, inodeOf_overwrite _ hinode hlen h]
  · rw [if_neg fun h => hhere ⟨h.1, h.2.1⟩]
    refine inode_congr (if_neg fun h => hhere ?_)
    obtain ⟨ho, hitem⟩ := fileName_inj h
    obtain ⟨hpage, hindex⟩ := Item.attr.inj hitem
    exact ⟨ho, hpage.symm, hindex.symm⟩

end Files

/-! ## Answers -/

section Answers

variable {base : BaseDir} {f : Text → Option Bytes} {r : Ran} {index : UInt32} {b : Bytes}

/-- The value of an attribute is behind its header. -/
theorem drop_attrHead {page index : UInt32} {n : Nat} {v : Bytes}
    (h : some (attrHead page index n ++ v) = some b) : b.drop 10 = v := by
  obtain rfl := Option.some.inj h
  exact List.drop_left' (by simp)

theorem answer_pageGroup (h : answer base r f pageGroup index = some b) :
    b.drop 10 = word32 r.groupID := by
  rw [answer, if_pos rfl] at h
  split at h
  · exact drop_attrHead h
  · cases h

theorem answer_pageIds_one (h : answer base r f pageIds 1 = some b) :
    b.drop 10 = word32 r.groupID :=
  drop_attrHead h

theorem answer_pageIds_two (h : answer base r f pageIds 2 = some b) :
    b.drop 10 = word64 r.userID :=
  drop_attrHead h

theorem answer_pageInode (h : answer base r f pageInode index = some b) :
    inode base f r.obj = some (b.drop 10) := by
  rw [answer, if_neg (by decide), if_neg (by decide), if_pos rfl] at h
  split at h
  · rename_i hindex
    rw [hindex] at h
    unfold inode inodeOf
    cases hfile : f (fileName base r.obj (.attr pageInode 1)) with
    | none =>
      rw [hfile] at h
      cases h
    | some v =>
      rw [hfile] at h
      dsimp only at h ⊢
      split at h
      · rw [if_pos ‹_›, drop_attrHead h]
      · cases h
  · cases h

end Answers

/-! ## Calls -/

section Calls

variable {env} {lun} {stale : Stale} {w w' : World} {start : Obj → Option Bytes}
  {past : List (Call × Result)}

/-- The files after a call that set nothing. -/
theorem recorded_of_none {call : Call} {r : Result}
    (h : Recorded env lun start ⟨w, past⟩) (hset : setBy lun (call, r) = none)
    (hfile : ∀ o, inode env.baseDir w'.host.file o = inode env.baseDir w.host.file o) :
    Recorded env lun start ⟨w', (call, r) :: past⟩ := by
  intro o
  change _ = lastInode lun start ((call, r) :: past) o
  rw [lastInode, hset, hfile]
  exact h o

/-- The files after a call that set an attribute. -/
theorem recorded_of_some {call : Call} {r : Result} {o : Obj} {e : Entry}
    (h : Recorded env lun start ⟨w, past⟩) (hset : setBy lun (call, r) = some (o, e))
    (hharm : Replacing (lastInode lun start past o) e)
    (hfile : ∀ o', inode env.baseDir w'.host.file o' =
      inode env.baseDir (stored env.baseDir o [e] w.host.file) o') :
    Recorded env lun start ⟨w', (call, r) :: past⟩ := by
  intro o'
  change _ = lastInode lun start ((call, r) :: past) o'
  have ho := h o
  change inode env.baseDir w.host.file o = lastInode lun start past o at ho
  rw [lastInode, hset, hfile, inode_stored (ho ▸ hharm), h o']

/-- What a command that creates an object did. -/
theorem Executed.of_create {a : OsdArgs} {buf : Option Bytes} {r : Ran} {d : Completion}
    (h : Executed env.baseDir lun a buf w w' r d) (ha : a.serviceAction = osdCreate) :
    Drawn a w.rand r.userID ∧ r.obj = ⟨lun, a.groupID, r.userID⟩ ∧
      w'.acts = .created r.obj :: w.acts ∧
      w'.host.file (fileName env.baseDir r.obj .data) = some [] ∧
      ∃ es, SetList buf a.setAttributesListLength.toNat 0 es ∧
        ∀ o, inode env.baseDir w'.host.file o =
          inode env.baseDir (stored env.baseDir r.obj es w.host.file) o := by
  obtain ⟨w₁, hacted, ⟨es, hes, hfile⟩, -, hacts⟩ := h.acted
  obtain ⟨hdrawn, hobj, -, hnew, hothers, hcreated⟩ := hacted.of_create ha
  refine ⟨hdrawn, hobj, hacts.trans hcreated, ?_, es, hes, fun o => inode_congr ?_⟩
  · rw [hfile, stored_of_ne]
    · exact hnew
    · exact fun page index h => nomatch (fileName_inj h).2
  · rw [hfile]
    exact stored_congr _ _ _ (hothers _ fun h => nomatch (fileName_inj h).2)

/-- What is shown of each call. -/
def Serves (env : Env) (lun : UInt64) (stale : Stale) (start : Obj → Option Bytes) (w : World)
    (past : List (Call × Result)) (call : Call) : Prop :=
  ensures (call.run env lun stale) (fun r w' => Agrees env lun start ⟨w, past⟩ w' call r ∧
    Recorded env lun start ⟨w', (call, r) :: past⟩) w

theorem createGroup_serves (group : UInt32) (hw : Recorded env lun start ⟨w, past⟩) :
    Serves env lun stale start w past (.createGroup group) := by
  refine (osdCreateGroupCall_ensures group).mono ?_
  rintro _ w' (⟨rfl, hhost⟩ | ⟨id, w₁, rfl, hid, hmade, hfile, hdirs⟩)
  · exact ⟨trivial, recorded_of_none hw rfl fun o => by rw [hhost]⟩
  · refine ⟨⟨id, rfl, hid, w₁, hmade, hdirs⟩, recorded_of_none hw rfl fun o => inode_congr ?_⟩
    rw [hfile, Host.file, hmade.2.1, ← Host.file]

/-- The id of an object that was created is the one that was recorded. -/
theorem Executed.created {a : OsdArgs} {buf : Option Bytes} {r : Ran} {d : Completion}
    (h : Executed env.baseDir lun a buf w w' r d) (ha : a.serviceAction = osdCreate) :
    ∃ id, Result.user r.userID = .user id ∧ (a.userID ≠ 0 → id = a.userID) ∧
      w'.acts = .created ⟨lun, a.groupID, id⟩ :: w.acts ∧
      w'.host.file (fileName env.baseDir ⟨lun, a.groupID, id⟩ .data) = some [] := by
  obtain ⟨hdrawn, hobj, hacts, hnew, -⟩ := h.of_create ha
  rw [hobj] at hacts hnew
  refine ⟨r.userID, rfl, fun hne => ?_, hacts, hnew⟩
  rwa [Drawn, if_neg hne] at hdrawn

/-- A new object has the attributes that are there. -/
theorem Executed.inode_of_create {a : OsdArgs} {buf : Option Bytes} {r : Ran} {d : Completion}
    (h : Executed env.baseDir lun a buf w w' r d) (ha : a.serviceAction = osdCreate)
    (hset : a.setAttributesListLength = 0) (o : Obj) :
    inode env.baseDir w'.host.file o = inode env.baseDir w.host.file o := by
  obtain ⟨-, -, -, -, es, hes, hfile⟩ := h.of_create ha
  rw [hset] at hes
  cases hes with
  | done _ => exact hfile o
  | entry h => exact absurd h (Nat.not_lt_zero _)

theorem create_serves (group : UInt32) (user : UInt64) (hw : Recorded env lun start ⟨w, past⟩) :
    Serves env lun stale start w past (.create group user) := by
  refine (created_ensures rfl nothing [] rfl rfl rfl).mono ?_
  rintro _ w' (⟨rfl, hhost⟩ | ⟨r, d, hexec, rfl⟩)
  · exact ⟨trivial, recorded_of_none hw rfl fun o => by rw [hhost]⟩
  · exact ⟨hexec.created rfl, recorded_of_none hw rfl (hexec.inode_of_create rfl rfl)⟩

/-- Without a value `osd_create_and_set` is `osd_create`. -/
theorem createAndSet_none_serves (group : UInt32) (user : UInt64) (page index : UInt32)
    (hw : Recorded env lun start ⟨w, past⟩) :
    Serves env lun stale start w past (.createAndSet group user page index none) := by
  refine (created_ensures rfl nothing _ rfl rfl rfl).mono ?_
  rintro _ w' (⟨rfl, hhost⟩ | ⟨r, d, hexec, rfl⟩)
  · exact ⟨trivial, recorded_of_none hw rfl fun o => by rw [hhost]⟩
  · exact ⟨hexec.created rfl, recorded_of_none hw rfl (hexec.inode_of_create rfl rfl)⟩

theorem createAndSet_some_serves (group : UInt32) (user : UInt64) (page index : UInt32) (v : Sized)
    (hw : Recorded env lun start ⟨w, past⟩) (hfits : 10 + v.1.length ≤ 1024)
    (hharm : ∀ id, Drawn (clearedArgs osdCreate group user) w.rand id →
      Replacing (lastInode lun start past ⟨lun, group, id⟩) ⟨page, index, v.1⟩) :
    Serves env lun stale start w past (.createAndSet group user page index (some v)) := by
  unfold Serves Call.run osdCreateAndSetCall
  dsimp only
  rw [dif_neg (Nat.not_lt.mpr hfits)]
  refine (created_ensures rfl _ _ rfl rfl rfl).mono ?_
  rintro _ w' (⟨rfl, hhost⟩ | ⟨r, d, hexec, rfl⟩)
  · exact ⟨trivial, recorded_of_none hw rfl fun o => by rw [hhost]⟩
  · refine ⟨hexec.created rfl, ?_⟩
    obtain ⟨hdrawn, hobj, -, -, es, hes, hfile⟩ := hexec.of_create rfl
    have hlen : (UInt32.ofNat (10 + v.1.length)).toNat = 10 + v.1.length := by
      rw [UInt32.toNat_ofNat']
      omega
    rw [buffer_of_pos (by simp)] at hes
    simp only [hlen] at hes
    rw [setList_single (by omega) hes, hobj] at hfile
    exact recorded_of_some hw rfl (hharm _ hdrawn) hfile

theorem setOneAttr_serves (group : UInt32) (user : UInt64) (page index : UInt32) (v : Sized)
    (hw : Recorded env lun start ⟨w, past⟩) (hshort : v.1.length < 65536)
    (hharm : Replacing (lastInode lun start past ⟨lun, group, user⟩) ⟨page, index, v.1⟩) :
    Serves env lun stale start w past (.setOneAttr group user page index v) := by
  refine (osdSetOneAttr_ensures group user page index v hshort).mono ?_
  rintro _ w' (⟨rfl, hhost⟩ | ⟨rfl, hfile⟩)
  · exact ⟨trivial, recorded_of_none hw rfl fun o => by rw [hhost]⟩
  · exact ⟨rfl, recorded_of_some hw rfl hharm fun o => inode_congr (hfile _)⟩

theorem getOneAttr_serves (group : UInt32) (user : UInt64) (page index allocLen : UInt32)
    (hw : Recorded env lun start ⟨w, past⟩) (hshort : 10 + allocLen.toNat < 4294967296)
    (hgroup : page = pageGroup ∨ page = pageIds ∧ wanted page index = 1 → group = 0)
    (huser : page = pageIds ∧ wanted page index = 2 → user = 0) :
    Serves env lun stale start w past (.getOneAttr group user page index allocLen) := by
  refine (osdGetOneAttr_ensures group user page index allocLen hshort).mono ?_
  rintro _ w' ⟨hfile, rfl | ⟨v, rfl, rfl | ⟨b, hb, rfl⟩⟩⟩
  · exact ⟨trivial, recorded_of_none hw rfl fun o => inode_congr (hfile _)⟩
  · -- there is no page zero: nothing is said of what is returned
    refine ⟨⟨v, rfl, fun h => ?_, fun h => ?_, fun h => ?_⟩,
      recorded_of_none hw rfl fun o => inode_congr (hfile _)⟩
    · rcases h with h | ⟨h, -⟩ <;> exact absurd h (by decide)
    · exact absurd h.1 (by decide)
    · exact absurd h (by decide)
  · refine ⟨⟨_, rfl, fun h => ?_, fun h => ?_, fun h => ?_⟩,
      recorded_of_none hw rfl fun o => inode_congr (hfile _)⟩
    · rw [hgroup h]
      rcases h with rfl | ⟨rfl, hindex⟩
      · have hvalue := answer_pageGroup hb
        exact hvalue
      · rw [hindex] at hb
        have hvalue := answer_pageIds_one hb
        exact hvalue
    · rw [huser h]
      obtain ⟨rfl, hindex⟩ := h
      rw [hindex] at hb
      have hvalue := answer_pageIds_two hb
      exact hvalue
    · subst h
      have hvalue := answer_pageInode hb
      exact (hw _).symm.trans hvalue

/-- Every call that meets the condition agrees, and keeps the record. -/
theorem call_serves {call : Call} (hw : Recorded env lun start ⟨w, past⟩)
    (hok : CallOk lun start ⟨w, past⟩ call) : Serves env lun stale start w past call := by
  cases call with
  | createGroup group => exact createGroup_serves group hw
  | create group user => exact create_serves group user hw
  | createAndSet group user page index value =>
    cases value with
    | none => exact createAndSet_none_serves group user page index hw
    | some v =>
      obtain ⟨hfits, hharm⟩ := hok v rfl
      exact createAndSet_some_serves group user page index v hw hfits hharm
  | setOneAttr group user page index v =>
    exact setOneAttr_serves group user page index v hw hok.1 hok.2
  | getOneAttr group user page index allocLen =>
    exact getOneAttr_serves group user page index allocLen hw hok.1 hok.2.1 hok.2.2

/-- The record is kept by a call that agrees. -/
theorem serve_ensures {s : Session} {call : Call × Stale}
    (h : Serves env lun call.2 start s.world s.past call.1) :
    ensures (serve env lun call) (fun _ s' => Recorded env lun start s') s := by
  unfold ensures wp serve
  cases hrun : call.1.run env lun call.2 s.world with
  | ret r w' => exact (h.of_ret hrun).2
  | halt e w' => trivial

end Calls

/-- In every session of such calls, each call that returns agrees with the target. -/
theorem attributes_agree (env : Env) (lun : UInt64) (h : Host) (rand : List Nat) {s : Session}
    {call : Call} {stale : Stale} {r : Result} {w' : World}
    (hrun : Reach (serve env lun) (fun s call => CallOk lun (inode env.baseDir h.file) s call.1)
      ⟨started h rand, []⟩ s)
    (hok : CallOk lun (inode env.baseDir h.file) s call)
    (hret : call.run env lun stale s.world = .ret r w') :
    Agrees env lun (inode env.baseDir h.file) s w' call r := by
  have hrecorded := hrun.invariant (P := Recorded env lun (inode env.baseDir h.file))
    (fun o => rfl) fun s call hs hok => serve_ensures (call_serves hs hok)
  exact ((call_serves hrecorded hok).of_ret hret).1

section Runs

/-- A value of `INODE_LEN` bytes. -/
def sevens : Sized := ⟨List.replicate inodeLen 7, by rw [List.length_replicate]; decide⟩

/-- Cleared buffers. -/
def noMemory : Stale := fun _ => 0

/-- The session after a call. -/
def Session.after (s : Session) (call : Call) : Session := (serve oneLun 0 (call, noMemory) s).state

/-- The session at the start. -/
def opened : Session := ⟨started oneGroup [], []⟩

/-- An object is created, its attribute is set, and read back. -/
theorem attributes_agree_small : ∃ s w',
    Reach (serve oneLun 0) (fun s call => CallOk 0 (inode .dflt oneGroup.file) s call.1) opened s ∧
      Call.run oneLun 0 noMemory (.getOneAttr 0 5 pageInode 1 1024) s.world =
        .ret (.value sevens.1) w' ∧
      Agrees oneLun 0 (inode .dflt oneGroup.file) s w' (.getOneAttr 0 5 pageInode 1 1024)
        (.value sevens.1) := by
  have hcreate : serve oneLun 0 (.create 0 5, noMemory) opened =
      .ret ⟨⟩ (opened.after (.create 0 5)) := by
    decide +kernel
  have hset : serve oneLun 0 (.setOneAttr 0 5 pageInode 1 sevens, noMemory)
      (opened.after (.create 0 5)) =
      .ret ⟨⟩ ((opened.after (.create 0 5)).after (.setOneAttr 0 5 pageInode 1 sevens)) := by
    decide +kernel
  have hlen : sevens.1.length = inodeLen := List.length_replicate
  have hcreateOk : CallOk 0 (inode .dflt oneGroup.file) opened (.create 0 5) := trivial
  have hsetOk : CallOk 0 (inode .dflt oneGroup.file) (opened.after (.create 0 5))
      (.setOneAttr 0 5 pageInode 1 sevens) :=
    ⟨by rw [hlen]; decide, fun _ => .inl hlen⟩
  have hrun : Reach (serve oneLun 0) (fun s call => CallOk 0 (inode .dflt oneGroup.file) s call.1)
      opened _ := .tail (.tail .refl hcreateOk hcreate) hsetOk hset
  have hget : Call.run oneLun 0 noMemory (.getOneAttr 0 5 pageInode 1 1024)
      ((opened.after (.create 0 5)).after (.setOneAttr 0 5 pageInode 1 sevens)).world =
      .ret (.value sevens.1) (Call.run oneLun 0 noMemory (.getOneAttr 0 5 pageInode 1 1024)
        ((opened.after (.create 0 5)).after (.setOneAttr 0 5 pageInode 1 sevens)).world).state := by
    decide +kernel
  exact ⟨_, _, hrun, hget, attributes_agree oneLun 0 oneGroup [] hrun
    ⟨by decide, by decide, by decide⟩ hget⟩

/-- The user id of object 5 is asked for, and the answer is zero. -/
theorem attributes_disagree : ∃ s r w', Reach (serve oneLun 0) (fun _ _ => True) opened s ∧
    Call.run oneLun 0 noMemory (.getOneAttr 0 5 pageIds 2 8) s.world = .ret r w' ∧
    ¬Agrees oneLun 0 (inode .dflt oneGroup.file) s w' (.getOneAttr 0 5 pageIds 2 8) r := by
  have hcreate : serve oneLun 0 (.create 0 5, noMemory) opened =
      .ret ⟨⟩ (opened.after (.create 0 5)) := by
    decide +kernel
  have hget : Call.run oneLun 0 noMemory (.getOneAttr 0 5 pageIds 2 8)
      (opened.after (.create 0 5)).world = .ret (.value (word64 0))
        (Call.run oneLun 0 noMemory (.getOneAttr 0 5 pageIds 2 8)
          (opened.after (.create 0 5)).world).state := by
    decide +kernel
  refine ⟨_, _, _, .tail .refl trivial hcreate, hget, ?_⟩
  rintro ⟨v, hv, -, huser, -⟩
  have hval := Result.value.inj (hv.trans (congrArg Result.value (huser ⟨rfl, rfl⟩)))
  exact absurd hval (by decide)

end Runs

end Ost.Osd
