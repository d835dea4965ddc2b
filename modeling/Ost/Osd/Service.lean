import Ost.Osd.Client
import Ost.Osd.Objects

/-!
# The attribute service and its client

What the builders of the client lay out, the loops of the target find, and what the target answers,
`extract_attribute` takes apart.  So the ids that the calls store are those of what was created,
and the vendor specific attribute that is returned is the one that was set.

The ids that `osd_get_one_attr` returns are not those of the addressed object: the target answers
with locals that only the actions that create something set.
-/

namespace Ost.Osd

open Ost.Iscsi Ost.Util Ost.Prog

/-! ## Layout -/

theorem byte_append_left {b t : Bytes} {i : Nat} (hi : i < b.length) :
    byte (b ++ t) i = byte b i := by
  simp only [byte, List.getD_eq_getElem?_getD]
  rw [List.getElem?_append_left hi]

theorem be32_append_left {b t : Bytes} {i : Nat} (hi : i + 4 ≤ b.length) :
    be32 (b ++ t) i = be32 b i :=
  be32_congr fun _ _ => byte_append_left (by omega)

theorem be16_append_left {b t : Bytes} {i : Nat} (hi : i + 2 ≤ b.length) :
    be16 (b ++ t) i = be16 b i :=
  be16_congr fun _ _ => byte_append_left (by omega)

section Head

variable (page index : UInt32) (n : Nat) (t : Bytes)

/-- The page in the header of an attribute. -/
theorem page_attrHead : be32 (attrHead page index n ++ t) 0 = page := by
  rw [be32_append_left (by simp)]
  simp [attrHead]

/-- The index. -/
theorem index_attrHead : be32 (attrHead page index n ++ t) 4 = index := by
  rw [be32_append_left (by simp)]
  simp [attrHead]

/-- The length, of which 16 bits are stored. -/
theorem length_field_attrHead : be16 (attrHead page index n ++ t) 8 = n % 65536 := by
  rw [be16_append_left (by simp)]
  simp [attrHead]

end Head

theorem be32_word32 (x : UInt32) (t : Bytes) : be32 (word32 x ++ t) 0 = x := by
  rw [be32_append_left (by simp)]
  simp [word32]

theorem be32_word32_snd (x y : UInt32) : be32 (word32 x ++ word32 y) 4 = y := by
  have h := be32_drop (word32 x ++ word32 y) 4 0
  rw [List.drop_left' (length_word32 x)] at h
  rw [← h]
  simp [word32]

/-- The list of `osd_get_one_attr`, as the target finds it. -/
theorem slice_pair (x y : UInt32) (action : UInt16) (group : UInt32) (user : UInt64) :
    slice (some (word32 x ++ word32 y))
      (clearedArgs action group user).setAttributesListLength.toNat 8 = word32 x ++ word32 y :=
  rfl

theorem be64_word64 (x : UInt64) : be64 (word64 x) 0 = x := by
  have hx := x.toNat_lt
  apply UInt64.toNat_inj.mp
  simp [be64, word64, put64]
  omega

/-- `extract_attribute` takes apart what the target lays out. -/
theorem extractAttribute_answer (page index : UInt32) (v t : Bytes) (n : Nat)
    (hv : v.length < 65536) :
    extractAttribute page index v.length (attrHead page index v.length ++ v ++ t)
      (10 + v.length) (n + 2) 0 [] = .value v := by
  have hlen : (attrHead page index v.length ++ v ++ t).length = 10 + v.length + t.length := by
    simp [Nat.add_assoc]
  have hpage : be32 (attrHead page index v.length ++ v ++ t) 0 = page := by
    rw [List.append_assoc, page_attrHead]
  have hindex : be32 (attrHead page index v.length ++ v ++ t) (0 + 4) = index := by
    rw [List.append_assoc, index_attrHead]
  have hfield : be16 (attrHead page index v.length ++ v ++ t) (0 + 8) = v.length := by
    rw [List.append_assoc, length_field_attrHead, Nat.mod_eq_of_lt hv]
  have hval : ((attrHead page index v.length ++ v ++ t).drop (0 + 10)).take v.length = v := by
    rw [List.append_assoc, List.drop_left' (by simp), List.take_left' rfl]
  rw [extractAttribute, if_neg (by omega), if_neg (by omega), if_neg (not_not_intro hpage),
    if_neg (by omega), if_neg (not_not_intro hindex), if_neg (by omega),
    if_neg (not_not_intro hfield), if_neg (by omega), hval, extractAttribute, if_pos (by omega)]

/-- The target finds the one entry that `osd_set_one_attr` lays out. -/
theorem setList_single {page index : UInt32} {v : Bytes} {es : List Entry} (hv : v.length < 65536)
    (h : SetList (some (attrHead page index v.length ++ v)) (10 + v.length) 0 es) :
    es = [⟨page, index, v⟩] := by
  have hhead : slice (some (attrHead page index v.length ++ v)) 0 10 =
      attrHead page index v.length := by
    change ((attrHead page index v.length ++ v).drop 0).take 10 = _
    rw [List.drop_zero, List.take_left' (by simp)]
  have hfield : be16 (attrHead page index v.length) 8 = v.length := by
    have := length_field_attrHead page index v.length []
    rwa [List.append_nil, Nat.mod_eq_of_lt hv] at this
  have hval : slice (some (attrHead page index v.length ++ v)) (0 + 10) v.length = v := by
    change ((attrHead page index v.length ++ v).drop 10).take v.length = v
    rw [List.drop_left' (by simp), List.take_length]
  cases h with
  | done h => omega
  | entry _ _ _ rest =>
    rw [hhead, hfield] at rest
    cases rest with
    | entry h => omega
    | done _ =>
      have hpage := page_attrHead page index v.length []
      have hindex := index_attrHead page index v.length []
      rw [List.append_nil] at hpage hindex
      rw [entryAt, hhead, hfield, hval, hpage, hindex]

/-! ## Exchanges -/

variable {env : Env} {lun : UInt64} {stale : Stale} {w : World}

/-- The data of a client in the buffer of the target. -/
def Sized.buffer (send : Sized) : Option Bytes := if send.1 = [] then none else some send.1

theorem buffer_of_pos {send : Sized} (h : 0 < send.1.length) : send.buffer = some send.1 :=
  if_neg (List.ne_nil_of_length_pos h)

/-- What an exchange with the target comes to. -/
def Exchanged (env : Env) (lun : UInt64) (stale : Stale) (a : OsdArgs) (send : Sized)
    (recvLen : Nat) (w : World) (reply : Option Bytes) (w' : World) : Prop :=
  reply = none ∧ w'.host = w.host ∨
    ∃ r d, Executed env.baseDir lun a send.buffer w w' r d ∧
      reply = if send.1 = [] ∨ recvLen ≤ d.gather.flatten.length then
        some (replyBuffer stale recvLen d.gather.flatten) else none

/-- The answer to a command whose bytes all came. -/
theorem reply_of_le {send : Sized} {recvLen : Nat} {got : Bytes} (h : recvLen ≤ got.length) :
    (if send.1 = [] ∨ recvLen ≤ got.length then some (replyBuffer stale recvLen got) else none) =
      some (got.take recvLen) := by
  rw [if_pos (.inr h), replyBuffer_of_le h]

theorem osdExec_ensures (a : OsdArgs) (opcode : a.opcode = 0x7f) (send : Sized) (recvLen : Nat) :
    ensures (osdExec env lun stale a opcode send recvLen) (Exchanged env lun stale a send recvLen w)
      w := by
  have hargs := arrived_args lun a send.1 recvLen opcode send.2
  have hbuf : (arrived lun a send.1 recvLen opcode send.2).buffer = send.buffer := by
    unfold Command.buffer Sized.buffer arrived
    by_cases hs : send.1 = [] <;> simp [hs]
  refine (wp_bind _ _).mpr ?_
  refine (wp_gets _).mpr ?_
  refine ((deviceCommand_returnsIff env _).toEnsures).bind ?_
  rintro _ w' ⟨-, hserved⟩
  refine (wp_bind _ _).mpr ((wp_gets _).mpr ?_)
  cases hserved with
  | refused _ d status host _ done =>
    rw [done, List.getElem?_append_right (Nat.le_refl _), Nat.sub_self]
    exact .inl ⟨if_neg (fun h => by rw [status] at h; exact nomatch h.1), host⟩
  | unanswered _ hnone => exact nomatch hnone
  | executed ext hext r d exec =>
    rw [hargs ext hext, hbuf] at exec
    rw [exec.done, List.getElem?_append_right (Nat.le_refl _), Nat.sub_self]
    refine .inr ⟨r, d, exec, ?_⟩
    simp only [exec.status, true_and]

/-- The answer to a page that is asked for alone. -/
theorem Executed.page {a : OsdArgs} {buf : Option Bytes} {w' : World} {r : Ran} {d : Completion}
    (h : Executed env.baseDir lun a buf w w' r d) (hread : r.read = none)
    (hlist : a.getAttributesListLength = 0) (hpage : a.getAttributesPage ≠ 0) :
    ∃ b, answer env.baseDir r w'.host.file a.getAttributesPage
      (if a.getAttributesPage = pageIds then 2 else 1) = some b ∧ d.gather.flatten = b ∧
      b.length = a.getAttributesAllocationLength.toNat := by
  obtain ⟨attrs, hgot, hgather⟩ := h.got
  obtain ⟨⟨b, rfl, hlen⟩, hattrs⟩ := hgot.of_page r hlist hpage
  refine ⟨b, hattrs.symm, ?_, hlen⟩
  rw [hgather, hread]
  simp

/-- The answer to an attribute that is asked for alone. -/
theorem Executed.single {a : OsdArgs} {buf : Option Bytes} {w' : World} {r : Ran} {d : Completion}
    (h : Executed env.baseDir lun a buf w w' r d) (hread : r.read = none)
    (hlist : a.getAttributesListLength = 8) (hpage : a.getAttributesPage = 0) :
    ∃ b, answer env.baseDir r w'.host.file
      (be32 (slice buf a.setAttributesListLength.toNat 8) 0)
      (be32 (slice buf a.setAttributesListLength.toNat 8) 4) = some b ∧ d.gather.flatten = b ∧
      b.length = a.getAttributesAllocationLength.toNat := by
  obtain ⟨attrs, hgot, hgather⟩ := h.got
  obtain ⟨⟨b, rfl, hlen⟩, hattrs⟩ := hgot.of_single r hlist hpage
  refine ⟨b, hattrs.symm, ?_, hlen⟩
  rw [hgather, hread]
  simp

/-- Without a set list only the service action changes files. -/
theorem Executed.acted_of_no_list {a : OsdArgs} {buf : Option Bytes} {w' : World} {r : Ran}
    {d : Completion} (h : Executed env.baseDir lun a buf w w' r d)
    (hset : a.setAttributesListLength = 0) :
    ∃ w₁, Acted env.baseDir lun a w r w₁ ∧ (∀ q, w'.host.file q = w₁.host.file q) ∧
      w'.host.dirs = w₁.host.dirs ∧ w'.acts = w₁.acts := by
  obtain ⟨w₁, hacted, ⟨es, hes, hfile⟩, hdirs, hacts⟩ := h.acted
  rw [hset] at hes
  cases hes with
  | done _ => exact ⟨w₁, hacted, hfile, hdirs, hacts⟩
  | entry h => exact absurd h (Nat.not_lt_zero _)

/-- What `OSD_CREATE_GROUP` did. -/
theorem Acted.of_group {a : OsdArgs} {r : Ran} {w' : World} (h : Acted env.baseDir lun a w r w')
    (ha : a.serviceAction = osdCreateGroup) :
    r.read = none ∧ (if a.groupID = 0 then r.groupID ≠ 0 else r.groupID = a.groupID) ∧
      GroupMade env.baseDir lun a.groupID w r.groupID w' := by
  cases h with
  | grouped _ _ _ asked dirs files acts => exact ⟨rfl, asked, dirs, files, acts⟩
  | created _ _ action | ungrouped _ action | removed _ action | wrote _ _ action
  | read _ _ action => exact absurd (ha.symm.trans action) (by decide)
  | attributes action =>
    rcases action with action | action <;> exact absurd (ha.symm.trans action) (by decide)

/-- What the actions on attributes did: nothing. -/
theorem Acted.of_attributes {a : OsdArgs} {r : Ran} {w' : World}
    (h : Acted env.baseDir lun a w r w')
    (ha : a.serviceAction = osdGetAttr ∨ a.serviceAction = osdSetAttr) :
    r = ⟨0, 0, a.obj lun, none⟩ ∧ w' = w := by
  have hne {x : UInt16} (hx : x ≠ osdGetAttr) (hx' : x ≠ osdSetAttr) : a.serviceAction ≠ x := by
    rintro rfl
    exact ha.elim hx hx'
  cases h with
  | attributes => exact ⟨rfl, rfl⟩
  | grouped _ _ action | created _ _ action | ungrouped _ action | removed _ action
  | wrote _ _ action | read _ _ action => exact absurd action (hne (by decide) (by decide))

/-! ## Calls -/

theorem osdCreateGroupCall_ensures (group : UInt32) :
    ensures (osdCreateGroupCall env lun stale group)
      (fun r w' => r = .failed ∧ w'.host = w.host ∨ ∃ id w₁, r = .group id ∧
        (if group = 0 then id ≠ 0 else id = group) ∧ GroupMade env.baseDir lun group w id w₁ ∧
        (∀ q, w'.host.file q = w₁.host.file q) ∧ w'.host.dirs = w₁.host.dirs) w := by
  refine (osdExec_ensures _ rfl nothing 14).bind ?_
  rintro reply w' (⟨rfl, hhost⟩ | ⟨r, d, hexec, rfl⟩)
  · exact .inl ⟨rfl, hhost⟩
  · obtain ⟨w₁, hacted, hfile, hdirs, -⟩ := hexec.acted_of_no_list rfl
    obtain ⟨hread, hid, hmade⟩ := hacted.of_group rfl
    obtain ⟨b, hb, hflat, -⟩ := hexec.page hread rfl (show pageGroup ≠ 0 by decide)
    have hval : attrHead pageGroup 1 4 ++ word32 r.groupID = b := Option.some.inj hb
    have hlen : b.length = 14 := by simp [← hval]
    have hextract : extractAttribute 0x40000001 1 4 b 14 14 0 [] = .value (word32 r.groupID) := by
      rw [← hval, ← List.append_nil (_ ++ _)]
      exact extractAttribute_answer pageGroup 1 (word32 r.groupID) [] 12 (by simp)
    rw [hflat, reply_of_le (Nat.le_of_eq hlen.symm), ← hlen, List.take_length]
    dsimp only
    rw [hlen, hextract]
    refine .inr ⟨r.groupID, w₁, ?_, hid, hmade, hfile, hdirs⟩
    have := be32_word32 r.groupID []
    rw [List.append_nil] at this
    rw [this]

/-- What the calls that create an object store. -/
theorem storeUser_answer (user : UInt64) (rest : Bytes) :
    storeUser (some (attrHead pageIds 2 8 ++ word64 user)) rest = .user user := by
  have hextract : extractAttribute 0x00000001 2 8 (attrHead pageIds 2 8 ++ word64 user ++ rest)
      18 18 0 [] = .value (word64 user) :=
    extractAttribute_answer pageIds 2 (word64 user) rest 16 (by simp)
  unfold storeUser
  dsimp only
  rw [hextract]
  change Result.user (be64 (word64 user) 0) = _
  rw [be64_word64]

/-- The exchange of a call that creates an object. -/
theorem created_ensures {a : OsdArgs} (opcode : a.opcode = 0x7f) (send : Sized) (rest : Bytes)
    (haction : a.serviceAction = osdCreate) (hlist : a.getAttributesListLength = 0)
    (hpage : a.getAttributesPage = pageIds) :
    ensures (osdExec env lun stale a opcode send 18 >>= fun reply => pure (storeUser reply rest))
      (fun r w' => r = .failed ∧ w'.host = w.host ∨ ∃ ran d,
        Executed env.baseDir lun a send.buffer w w' ran d ∧ r = .user ran.userID) w := by
  refine (osdExec_ensures a opcode send 18).bind ?_
  rintro reply w' (⟨rfl, hhost⟩ | ⟨r, d, hexec, rfl⟩)
  · exact .inl ⟨rfl, hhost⟩
  · obtain ⟨w₁, hacted, -⟩ := hexec.acted
    obtain ⟨-, -, hread, -⟩ := hacted.of_create haction
    obtain ⟨b, hb, hflat, -⟩ := hexec.page hread hlist (by rw [hpage]; decide)
    rw [hpage] at hb
    have hval : attrHead pageIds 2 8 ++ word64 r.userID = b := Option.some.inj hb
    have hlen : b.length = 18 := by simp [← hval]
    rw [hflat, reply_of_le (Nat.le_of_eq hlen.symm), ← hlen, List.take_length, ← hval,
      storeUser_answer]
    exact .inr ⟨r, d, hexec, rfl⟩

/-- `osd_set_one_attr` stores the value, or changes nothing. -/
theorem osdSetOneAttr_ensures (group : UInt32) (user : UInt64) (page index : UInt32)
    (value : Sized) (hshort : value.1.length < 65536) :
    ensures (osdSetOneAttr env lun stale group user page index value)
      (fun r w' => r = .failed ∧ w'.host = w.host ∨ r = .stored ∧ ∀ q, w'.host.file q =
        stored env.baseDir ⟨lun, group, user⟩ [⟨page, index, value.1⟩] w.host.file q) w := by
  have hmod : (10 + value.1.length) % 4294967296 = 10 + value.1.length :=
    Nat.mod_eq_of_lt (by omega)
  have hlen : (UInt32.ofNat (10 + value.1.length)).toNat = 10 + value.1.length := by
    rw [UInt32.toNat_ofNat']
    exact hmod
  refine (wp_ite _ _ _).mpr ⟨fun _ => .inl ⟨rfl, rfl⟩, fun _ => ?_⟩
  rw [dif_neg (by omega)]
  refine (osdExec_ensures _ rfl _ 0).bind ?_
  rintro reply w' (⟨rfl, hhost⟩ | ⟨r, d, hexec, rfl⟩)
  · exact .inl ⟨rfl, hhost⟩
  · obtain ⟨w₁, hacted, ⟨es, hes, hfile⟩, -, -⟩ := hexec.acted
    obtain ⟨rfl, rfl⟩ := hacted.of_attributes (.inr rfl)
    rw [buffer_of_pos (by simp)] at hes
    simp only [hmod, hlen] at hes
    rw [setList_single hshort hes] at hfile
    rw [reply_of_le (Nat.zero_le _)]
    exact .inr ⟨rfl, hfile⟩

/-- The index that `osd_get_one_attr` comes to, as index zero stands for the page. -/
def wanted (page index : UInt32) : UInt32 :=
  if index ≠ 0 then index else if page = pageIds then 2 else 1

/-- What the target has at hand in an action on attributes. -/
def addressed (lun : UInt64) (group : UInt32) (user : UInt64) : Ran :=
  ⟨0, 0, ⟨lun, group, user⟩, none⟩

/-- The exchange of `osd_get_one_attr`. -/
theorem got_ensures (group : UInt32) (user : UInt64) (page index : UInt32) {n : Nat}
    (hn : n < 2147483648) :
    ensures (osdExec env lun stale (getArgs group user page index n) (opcode_getArgs ..)
        (getListOut page index) n)
      (fun reply w' => (∀ q, w'.host.file q = w.host.file q) ∧ ∀ b ∈ reply, page = 0 ∨
        answer env.baseDir (addressed lun group user) w.host.file page
          (wanted page index) = some b ∧ b.length = n) w := by
  have hlen : (UInt32.ofNat n).toNat = n := by
    rw [UInt32.toNat_ofNat']
    omega
  refine (osdExec_ensures _ _ _ n).mono ?_
  rintro reply w' (⟨rfl, hhost⟩ | ⟨r, d, hexec, rfl⟩)
  · exact ⟨fun q => by rw [hhost], nofun⟩
  · have hset : (getArgs group user page index n).setAttributesListLength = 0 := by
      unfold getArgs
      split <;> rfl
    have haction : (getArgs group user page index n).serviceAction = osdGetAttr := by
      unfold getArgs
      split <;> rfl
    have hobj : (getArgs group user page index n).obj lun = ⟨lun, group, user⟩ := by
      unfold getArgs
      split <;> rfl
    obtain ⟨w₁, hacted, hfile, -, -⟩ := hexec.acted_of_no_list hset
    obtain ⟨rfl, rfl⟩ := hacted.of_attributes (.inl haction)
    refine ⟨hfile, fun b hb => ?_⟩
    by_cases hzero : page = 0
    · exact .inl hzero
    refine .inr ?_
    unfold wanted
    by_cases hindex : index = 0
    · subst hindex
      obtain ⟨b', hb', hflat, hlen'⟩ := hexec.page rfl rfl hzero
      rw [funext hfile] at hb'
      have hlen' : b'.length = n := hlen'.trans hlen
      rw [hflat, reply_of_le hlen'.ge, ← hlen', List.take_length] at hb
      obtain rfl := Option.some.inj hb
      exact ⟨hb', hlen'⟩
    · have hargs : getArgs group user page index n = { clearedArgs osdGetAttr group user with
          length := 8, getAttributesListLength := 8
          getAttributesAllocationLength := UInt32.ofNat n } := if_pos hindex
      have hsend : getListOut page index = ⟨word32 page ++ word32 index, by simp⟩ := if_pos hindex
      rw [hargs, hsend, buffer_of_pos (by simp)] at hexec
      obtain ⟨b', hb', hflat, hlen'⟩ := hexec.single rfl rfl rfl
      have hlen' : b'.length = n := hlen'.trans hlen
      rw [funext hfile, slice_pair, be32_word32, be32_word32_snd] at hb'
      rw [hflat, reply_of_le hlen'.ge, ← hlen', List.take_length] at hb
      obtain rfl := Option.some.inj hb
      rw [if_pos hindex]
      exact ⟨hb', hlen'⟩

/-- `osd_get_one_attr` stores the value in the answer.  Page zero is none, and has no answer. -/
theorem osdGetOneAttr_ensures (group : UInt32) (user : UInt64) (page index allocLen : UInt32)
    (hshort : 10 + allocLen.toNat < 4294967296) :
    ensures (osdGetOneAttr env lun stale group user page index allocLen)
      (fun r w' => (∀ q, w'.host.file q = w.host.file q) ∧ (r = .failed ∨ ∃ v, r = .value v ∧
        (page = 0 ∨ ∃ b, answer env.baseDir (addressed lun group user) w.host.file page
          (wanted page index) = some b ∧ v = b.drop 10))) w := by
  unfold osdGetOneAttr
  generalize hn : (10 + allocLen.toNat) % 4294967296 = n
  rw [Nat.mod_eq_of_lt hshort] at hn
  dsimp only
  refine (wp_ite _ _ _).mpr ⟨fun _ => ⟨fun _ => rfl, .inl rfl⟩, fun hbig => ?_⟩
  refine (got_ensures group user page index (Nat.lt_of_not_le hbig)).bind ?_
  rintro (_ | b) w' ⟨hfile, hreply⟩
  · exact ⟨hfile, .inl rfl⟩
  · refine ⟨hfile, .inr ⟨_, if_neg (by omega), (hreply b rfl).imp_right fun h => ?_⟩⟩
    obtain ⟨hb, hlen⟩ := h
    refine ⟨b, hb, List.take_of_length_le ?_⟩
    rw [List.length_drop]
    omega

end Ost.Osd
