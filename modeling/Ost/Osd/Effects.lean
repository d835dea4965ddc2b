import Ost.Osd.Exec
import Ost.Prog.Returns

/-!
# What a command does, and when

One lemma for each part of `exec_upper`: under which condition it returns, which files it then
has changed, and what it hands on.  A service action changes the data of one object, the set list
changes attributes of that object, and the attributes to get change nothing.
-/

namespace Ost.Osd

open Ost.Iscsi Ost.Util Ost.Prog

variable {w : World}

/-! ## Calls -/

/-- `open` with `O_CREAT` succeeds on this path. -/
def Host.Openable (h : Host) (p : Text) : Prop :=
  p ∉ h.dirs ∧ ((h.file p).isSome ∨ dirname p ∈ h.dirs)

instance {h : Host} {p : Text} : Decidable (h.Openable p) := inferInstanceAs (Decidable (_ ∧ _))

theorem openCreat_ok_iff (h : Host) (p : Text) (trunc : Bool) :
    (∃ h', h.openCreat p trunc = .ok h') ↔ h.Openable p := by
  unfold Host.openCreat Host.Openable
  by_cases hdir : p ∈ h.dirs
  · simp [hdir]
  · cases hp : h.file p with
    | some b => simp [hdir]
    | none => by_cases hparent : dirname p ∈ h.dirs <;> simp [hdir, hparent]

/-- Without `O_EXCL` no `open` fails because the file is there. -/
theorem openCreat_ne_eexist (h : Host) (p : Text) (trunc : Bool) :
    h.openCreat p trunc ≠ .error .eexist := by
  unfold Host.openCreat
  by_cases hdir : p ∈ h.dirs
  · simp [hdir]
  · cases hp : h.file p with
    | some b => simp [hdir]
    | none => by_cases hparent : dirname p ∈ h.dirs <;> simp [hdir, hparent]

/-- A call on the host returns, whatever comes of it. -/
theorem wp_attempt (f : Host → Except Errno Host) {Q : Except Errno PUnit → World → Prop}
    {E : Halt → World → Prop} :
    wp (attempt f) Q E w ↔ match f w.host with
      | .ok h => Q (.ok ⟨⟩) { w with host := h }
      | .error e => Q (.error e) w := by
  unfold wp attempt
  cases f w.host <;> rfl

/-- A call whose failure is fatal. -/
theorem orExit_returnsIff (f : Host → Except Errno Host) :
    ReturnsIff (orExit f) (∃ h, f w.host = .ok h)
      (fun _ w' => f w.host = .ok w'.host ∧ w' = { w with host := w'.host }) w := by
  refine (wp_bind _ _).mpr ((wp_attempt f).mpr ?_)
  cases hf : f w.host with
  | ok h => exact ⟨⟨h, rfl⟩, rfl, rfl⟩
  | error e => exact fun ⟨_, he⟩ => nomatch he

theorem onHost_returnsIff (f : Host → Host) :
    ReturnsIff (onHost f) True (fun _ w' => w' = { w with host := f w.host }) w := ⟨trivial, rfl⟩

theorem record_returnsIff (a : Act) :
    ReturnsIff (record a) True (fun _ w' => w' = { w with acts := a :: w.acts }) w := ⟨trivial, rfl⟩

theorem nextRand_returnsIff :
    ReturnsIff nextRand (w.rand ≠ [])
      (fun r w' => ∃ rs, w.rand = r :: rs ∧ w' = { w with rand := rs }) w := by
  unfold ReturnsIff wp nextRand
  cases hr : w.rand with
  | nil => exact fun h => h rfl
  | cons r rs => exact ⟨nofun, rs, rfl, rfl⟩

/-- Bytes lie in the buffer of the incoming data. -/
def InBuffer (buf : Option Bytes) (off len : Nat) : Prop := ∃ b ∈ buf, off + len ≤ b.length

instance {buf : Option Bytes} {off len : Nat} : Decidable (InBuffer buf off len) :=
  inferInstanceAs (Decidable (∃ b ∈ buf, off + len ≤ b.length))

/-- The bytes at an offset of the buffer. -/
def slice (buf : Option Bytes) (off len : Nat) : Bytes := ((buf.getD []).drop off).take len

theorem load_returnsIff (buf : Option Bytes) (off len : Nat) :
    ReturnsIff (load buf off len) (InBuffer buf off len)
      (fun b w' => b = slice buf off len ∧ w = w') w := by
  unfold load InBuffer
  cases buf with
  | none => exact fun ⟨_, h, _⟩ => nomatch h
  | some b =>
    refine (ReturnsIff.ite_else_halt fun _ => ReturnsIff.pure ⟨rfl, rfl⟩).congr_left ?_
    simp

theorem emit_returnsIff (alloc : Nat) (out b : Bytes) :
    ReturnsIff (emit alloc out b) (out.length + b.length ≤ alloc)
      (fun r w' => r = out ++ b ∧ w = w') w :=
  (ReturnsIff.ite_else_halt fun _ => ReturnsIff.pure ⟨rfl, rfl⟩).congr_left (by rw [and_true])

/-! ## Service actions -/

/-- No file but one is changed. -/
def AllBut (p : Text) (w w' : World) : Prop := ∀ q, q ≠ p → w'.host.file q = w.host.file q

/-- The contents of a file, where a file that is missing is empty. -/
def World.contents (w : World) (p : Text) : Bytes := (w.host.file p).getD []

/-- The object that a command addresses. -/
def OsdArgs.obj (a : OsdArgs) (lun : UInt64) : Obj := ⟨lun, a.groupID, a.userID⟩

theorem open_returnsIff (p : Text) (trunc : Bool) :
    ReturnsIff (orExit (·.openCreat p trunc)) (w.host.Openable p)
      (fun _ w' => w'.host.file p = some (if trunc then [] else w.contents p) ∧ AllBut p w w' ∧
        w'.host.dirs = w.host.dirs ∧ w'.acts = w.acts) w := by
  refine (orExit_returnsIff _).congr (openCreat_ok_iff _ _ _) ?_
  rintro _ w' - ⟨e, hw'⟩
  obtain ⟨hfile, hothers, hdirs⟩ := file_openCreat e
  exact ⟨hfile, hothers, hdirs, by rw [hw']⟩

/-- Something is there under the name. -/
def Host.Taken (h : Host) (p : Text) : Prop := p ∈ h.dirs ∨ (h.file p).isSome

instance {h : Host} {p : Text} : Decidable (h.Taken p) := inferInstanceAs (Decidable (_ ∨ _))

variable (base : BaseDir) (lun : UInt64) (a : OsdArgs)

/-- The `UserID` that `OSD_CREATE` ends up with. -/
def Drawn (rand : List Nat) (user : UInt64) : Prop :=
  if a.userID = 0 then ∃ r ∈ rand.head?, user = UInt64.ofNat (randId r) else user = a.userID

/-- What a service action does to the files and to the record, and what it hands on. -/
inductive Acted (w : World) : Ran → World → Prop where
  | /-- `OSD_CREATE_GROUP`. -/
    grouped (group : UInt32) (w' : World) (action : a.serviceAction = osdCreateGroup)
      (asked : if a.groupID = 0 then group ≠ 0 else group = a.groupID)
      (dirs : ¬w.host.Taken (groupName base lun group) ∧
          w'.host.dirs = groupName base lun group :: w.host.dirs ∨
        a.groupID ≠ 0 ∧ w.host.Taken (groupName base lun group) ∧ w'.host.dirs = w.host.dirs)
      (files : w'.host.files = w.host.files) (acts : w'.acts = w.acts) :
      Acted w ⟨group, 0, a.obj lun, none⟩ w'
  | /-- `OSD_REMOVE_GROUP`. -/
    ungrouped (w' : World) (action : a.serviceAction = osdRemoveGroup)
      (dirs : w'.host.dirs = w.host.dirs.filter (· ≠ groupName base lun a.groupID))
      (files : w'.host.files = w.host.files) (acts : w'.acts = w.acts) :
      Acted w ⟨0, 0, a.obj lun, none⟩ w'
  | /-- `OSD_CREATE`. -/
    created (user : UInt64) (w' : World) (action : a.serviceAction = osdCreate)
      (drawn : Drawn a w.rand user) (dirs : w'.host.dirs = w.host.dirs)
      (file : w'.host.file (fileName base ⟨lun, a.groupID, user⟩ .data) = some [])
      (others : AllBut (fileName base ⟨lun, a.groupID, user⟩ .data) w w')
      (acts : w'.acts = .created ⟨lun, a.groupID, user⟩ :: w.acts) :
      Acted w ⟨0, user, ⟨lun, a.groupID, user⟩, none⟩ w'
  | /-- `OSD_REMOVE`. -/
    removed (w' : World) (action : a.serviceAction = osdRemove)
      (dirs : w'.host.dirs = w.host.dirs)
      (file : ∀ q, w'.host.file q =
        if globMatch (removePattern base (a.obj lun)) q then none else w.host.file q)
      (acts : w'.acts = .removed (a.obj lun) :: w.acts) : Acted w ⟨0, 0, a.obj lun, none⟩ w'
  | /-- `OSD_WRITE`. -/
    wrote (b : Bytes) (w' : World) (action : a.serviceAction = osdWrite)
      (dirs : w'.host.dirs = w.host.dirs)
      (file : w'.host.file (fileName base (a.obj lun) .data) =
        some (overwrite (w.contents (fileName base (a.obj lun) .data)) a.offset.toNat b))
      (others : AllBut (fileName base (a.obj lun) .data) w w')
      (acts : w'.acts = .wrote (a.obj lun) a.offset.toNat b :: w.acts) :
      Acted w ⟨0, 0, a.obj lun, none⟩ w'
  | /-- `OSD_READ`. -/
    read (b : Bytes) (w' : World) (action : a.serviceAction = osdRead)
      (dirs : w'.host.dirs = w.host.dirs)
      (file : w'.host.file (fileName base (a.obj lun) .data) =
        some (w.contents (fileName base (a.obj lun) .data)))
      (length : b.length = a.length.toNat)
      (bytes : ∀ k < b.length, byte b k =
        byte (w.contents (fileName base (a.obj lun) .data)) (a.offset.toNat + k))
      (others : AllBut (fileName base (a.obj lun) .data) w w') (acts : w'.acts = w.acts) :
      Acted w ⟨0, 0, a.obj lun, some b⟩ w'
  | /-- `OSD_GET_ATTR` and `OSD_SET_ATTR`. -/
    attributes (action : a.serviceAction = osdGetAttr ∨ a.serviceAction = osdSetAttr) :
      Acted w ⟨0, 0, a.obj lun, none⟩ w

/-- What `OSD_CREATE_GROUP` needs. -/
def GroupFree (w : World) : Prop :=
  if a.groupID = 0 then
    lunName base lun ∈ w.host.dirs ∧
      ∃ r ∈ w.rand, ¬w.host.Taken (groupName base lun (UInt32.ofNat (randId r)))
  else
    w.host.Taken (groupName base lun a.groupID) ∨ lunName base lun ∈ w.host.dirs

/-- A directory can be made here. -/
theorem mkdir_cases (h : Host) (p : Text) :
    (h.Taken p ∧ h.mkdir p = .error .eexist) ∨
      (¬h.Taken p ∧ dirname p ∉ h.dirs ∧ h.mkdir p = .error .enoent) ∨
      (¬h.Taken p ∧ dirname p ∈ h.dirs ∧ h.mkdir p = .ok { h with dirs := p :: h.dirs }) := by
  have htaken : (decide (p ∈ h.dirs) || (h.file p).isSome) = true ↔ h.Taken p := by
    rw [Bool.or_eq_true, decide_eq_true_iff]
    rfl
  unfold Host.mkdir
  by_cases ht : h.Taken p
  · exact .inl ⟨ht, if_pos (htaken.mpr ht)⟩
  · rw [if_neg (mt htaken.mp ht)]
    by_cases hd : dirname p ∈ h.dirs
    · exact .inr (.inr ⟨ht, hd, if_neg (not_not_intro hd)⟩)
    · exact .inr (.inl ⟨ht, hd, if_pos hd⟩)

/-- What the loop of `OSD_CREATE_GROUP` leaves behind. -/
def GroupMade (asked : UInt32) (v : World) (group : UInt32) (w : World) : Prop :=
  (¬v.host.Taken (groupName base lun group) ∧
      w.host.dirs = groupName base lun group :: v.host.dirs ∨
    asked ≠ 0 ∧ v.host.Taken (groupName base lun group) ∧ w.host.dirs = v.host.dirs) ∧
  w.host.files = v.host.files ∧ w.acts = v.acts

/-- A random id is not zero. -/
theorem randId_ne_zero (r : Nat) : UInt32.ofNat (randId r) ≠ 0 := by
  intro h
  have hval := congrArg UInt32.toNat h
  rw [UInt32.toNat_ofNat'] at hval
  unfold randId at hval
  change _ = 0 at hval
  omega

/-- The loop goes on until an id is free.  It takes a number for each round. -/
theorem createGroupAgain_returnsIff (asked : UInt32) (n : Nat) (group : UInt32) (v : World)
    (hn : v.rand.length < n) (hgroup : asked = 0 → group ≠ 0) :
    ReturnsIff (createGroupAgain base lun asked n group)
      (if asked = 0 then
        lunName base lun ∈ v.host.dirs ∧ (¬v.host.Taken (groupName base lun group) ∨
          ∃ r ∈ v.rand, ¬v.host.Taken (groupName base lun (UInt32.ofNat (randId r))))
      else v.host.Taken (groupName base lun group) ∨ lunName base lun ∈ v.host.dirs)
      (fun g w => (if asked = 0 then g ≠ 0 else g = group) ∧ GroupMade base lun asked v g w)
      v := by
  induction n generalizing group v with
  | zero => exact absurd hn (Nat.not_lt_zero _)
  | succ n ih =>
    refine (wp_bind _ _).mpr ((wp_attempt _).mpr ?_)
    rcases mkdir_cases v.host (groupName base lun group) with
      ⟨ht, he⟩ | ⟨ht, hd, he⟩ | ⟨ht, hd, he⟩
    · rw [he]
      change ReturnsIff (if asked = 0 then _ else _) _ _ v
      by_cases hasked : asked = 0
      · rw [if_pos hasked, if_pos hasked]
        refine (nextRand_returnsIff.bind
          (D := lunName base lun ∈ v.host.dirs ∧
            ∃ r ∈ v.rand, ¬v.host.Taken (groupName base lun (UInt32.ofNat (randId r))))
          fun r v' _ hr => ?_).congr_left ?_
        · obtain ⟨rs, hrs, rfl⟩ := hr
          have hlen : rs.length < n := by
            rw [hrs, List.length_cons] at hn
            exact Nat.lt_of_succ_lt_succ hn
          refine (ih (UInt32.ofNat (randId r)) { v with rand := rs } hlen
            fun _ => randId_ne_zero r).congr ?_ fun g w' _ h => ?_
          · rw [if_pos hasked, hrs]
            simp
          · rw [if_pos hasked] at h ⊢
            exact h
        · simp only [ht, not_true_eq_false, false_or, and_iff_right_iff_imp]
          rintro ⟨-, r, hr, -⟩
          exact List.ne_nil_of_mem hr
      · rw [if_neg hasked, if_neg hasked]
        exact (ReturnsIff.pure ⟨if_neg hasked ▸ rfl, .inr ⟨hasked, ht, rfl⟩, rfl, rfl⟩).congr_left
          (by simp [ht])
    · rw [he]
      rw [dirname_groupName] at hd
      change ReturnsIff (halt _) _ _ v
      exact (ReturnsIff.halt _).congr_left (by split <;> simp [ht, hd])
    · rw [he]
      rw [dirname_groupName] at hd
      refine ⟨?_, ?_, .inl ⟨ht, rfl⟩, rfl, rfl⟩
      · split <;> simp [ht, hd]
      · split
        · exact hgroup ‹_›
        · rfl

/-- How `OSD_CREATE_GROUP` comes to a `GroupID`. -/
theorem drawGroup_returnsIff :
    ReturnsIff (drawGroup a.groupID) (a.groupID = 0 → w.rand ≠ [])
      (fun g w' => if a.groupID = 0 then ∃ r rs, w.rand = r :: rs ∧ w' = { w with rand := rs } ∧
        g = UInt32.ofNat (randId r) else g = a.groupID ∧ w = w') w := by
  unfold drawGroup
  by_cases hasked : a.groupID = 0
  · simp only [if_pos hasked]
    refine (nextRand_returnsIff.bind fun r w' _ hr => ReturnsIff.pure ?_).congr_left
      (by simp [hasked])
    obtain ⟨rs, hrs, rfl⟩ := hr
    exact ⟨r, rs, hrs, rfl, rfl⟩
  · simp only [if_neg hasked]
    exact (ReturnsIff.pure ⟨rfl, rfl⟩).congr_left (by simp [hasked])

theorem createGroup_returnsIff :
    ReturnsIff (createGroup base lun a.groupID) (GroupFree base lun a w)
      (fun g w' => (if a.groupID = 0 then g ≠ 0 else g = a.groupID) ∧
        GroupMade base lun a.groupID w g w') w := by
  refine (returnsIff_gets (Q := fun rand w' => rand = w.rand ∧ w = w') ⟨rfl, rfl⟩).bind_of_true ?_
  rintro _ _ ⟨rfl, rfl⟩
  refine ((drawGroup_returnsIff a).bind (D := GroupFree base lun a w)
    fun g w' _ hg => ?_).congr_left ?_
  · unfold GroupFree
    by_cases hasked : a.groupID = 0
    · rw [if_pos hasked] at hg ⊢
      obtain ⟨r, rs, hrs, rfl, rfl⟩ := hg
      have hlen : rs.length < w.rand.length + 1 := by
        rw [hrs, List.length_cons]
        omega
      refine (createGroupAgain_returnsIff base lun a.groupID _ _ { w with rand := rs } hlen
        fun _ => randId_ne_zero r).congr ?_ fun g w' _ h => ?_
      · rw [if_pos hasked, hrs]
        simp
      · rw [if_pos hasked] at h ⊢
        exact h
    · rw [if_neg hasked] at hg ⊢
      obtain ⟨rfl, rfl⟩ := hg
      refine (createGroupAgain_returnsIff base lun a.groupID _ _ w (Nat.lt_succ_self _)
        fun h => absurd h hasked).congr ?_ fun g w' _ h => ?_
      · rw [if_neg hasked]
      · rw [if_neg hasked] at h ⊢
        exact h
  · refine and_iff_right_of_imp fun h hasked => ?_
    rw [GroupFree, if_pos hasked] at h
    obtain ⟨-, r, hr, -⟩ := h
    exact List.ne_nil_of_mem hr

/-- How `OSD_CREATE` comes to a `UserID`. -/
theorem drawUser_returnsIff :
    ReturnsIff (drawUser a.userID) (a.userID = 0 → w.rand ≠ [])
      (fun user w' => (∀ v, Drawn a w.rand v ↔ v = user) ∧ w'.host = w.host ∧ w'.acts = w.acts)
      w := by
  unfold Drawn drawUser
  by_cases hasked : a.userID = 0
  · simp only [if_pos hasked]
    refine (nextRand_returnsIff.bind fun r w' _ hr => ReturnsIff.pure ?_).congr_left
      (by simp [hasked])
    obtain ⟨rs, hrs, rfl⟩ := hr
    exact ⟨fun v => by simp [hrs], rfl, rfl⟩
  · simp only [if_neg hasked]
    exact (ReturnsIff.pure ⟨fun v => Iff.rfl, rfl, rfl⟩).congr_left (by simp [hasked])

/-- An `open` of `OSD_CREATE` is tried once: it does not fail because the file is there. -/
theorem createAgain_returnsIff (n : Nat) :
    ReturnsIff (createAgain base lun a.groupID a.userID (n + 1))
      (∃ user, Drawn a w.rand user ∧ w.host.Openable (fileName base ⟨lun, a.groupID, user⟩ .data))
      (fun user w' => Drawn a w.rand user ∧ w'.host.dirs = w.host.dirs ∧ w'.acts = w.acts ∧
        w'.host.file (fileName base ⟨lun, a.groupID, user⟩ .data) = some [] ∧
        AllBut (fileName base ⟨lun, a.groupID, user⟩ .data) w w') w := by
  refine ((drawUser_returnsIff a).bind (D := ∃ user, Drawn a w.rand user ∧
    w.host.Openable (fileName base ⟨lun, a.groupID, user⟩ .data))
    fun user w' _ hw' => ?_).congr_left ?_
  · obtain ⟨hd, hh, ha⟩ := hw'
    refine (wp_bind _ _).mpr ((wp_attempt _).mpr ?_)
    rw [hh]
    cases he : w.host.openCreat (fileName base ⟨lun, a.groupID, user⟩ .data) true with
    | ok h =>
      obtain ⟨hfile, hothers, hdirs⟩ := file_openCreat he
      exact ⟨⟨user, (hd user).mpr rfl, (openCreat_ok_iff _ _ _).mp ⟨h, he⟩⟩, (hd user).mpr rfl,
        hdirs, ha, hfile, hothers⟩
    | error e =>
      have hno : ¬∃ user, Drawn a w.rand user ∧
          w.host.Openable (fileName base ⟨lun, a.groupID, user⟩ .data) := by
        rintro ⟨v, hv, hop⟩
        obtain rfl := (hd v).mp hv
        obtain ⟨h, hh⟩ := (openCreat_ok_iff _ _ true).mpr hop
        rw [he] at hh
        exact nomatch hh
      cases e with
      | eexist => exact absurd he (openCreat_ne_eexist _ _ _)
      | _ => exact hno
  · refine and_iff_right_of_imp ?_
    rintro ⟨user, hd, -⟩ hasked
    rw [Drawn, if_pos hasked] at hd
    obtain ⟨r, hr, -⟩ := hd
    rintro hnil
    rw [hnil] at hr
    exact nomatch hr

/-- What `OSD_CREATE` needs. -/
def CreateOk (w : World) : Prop :=
  ∃ user, Drawn a w.rand user ∧ w.host.Openable (fileName base ⟨lun, a.groupID, user⟩ .data)

theorem create_returnsIff (action : a.serviceAction = osdCreate) :
    ReturnsIff (create base lun a.groupID a.userID) (CreateOk base lun a w)
      (fun user w' => Acted base lun a w ⟨0, user, ⟨lun, a.groupID, user⟩, none⟩ w') w := by
  refine (returnsIff_gets (Q := fun rand w' => rand = w.rand ∧ w = w') ⟨rfl, rfl⟩).bind_of_true ?_
  rintro _ _ ⟨rfl, rfl⟩
  refine ((createAgain_returnsIff base lun a _).bind fun user w₁ _ h =>
    (record_returnsIff _).bind_of_true fun _ w₂ e => ReturnsIff.pure ?_).congr_left
      (by rw [and_true]; rfl)
  obtain ⟨hd, hdirs, hacts, hfile, hothers⟩ := h
  subst e
  exact .created user _ action hd hdirs hfile hothers (congrArg _ hacts)

theorem removeObject_returnsIff (action : a.serviceAction = osdRemove) :
    ReturnsIff (removeObject base (a.obj lun)) True
      (fun _ w' => Acted base lun a w ⟨0, 0, a.obj lun, none⟩ w') w := by
  refine (onHost_returnsIff _).bind_of_true fun _ w₁ e => (record_returnsIff _).mono
    fun _ w₂ _ e' => ?_
  subst e e'
  exact .removed _ action rfl (file_remove _ _) rfl

/-- What `OSD_WRITE` needs, besides a result that is an `int`. -/
structure WriteOk (buf : Option Bytes) (off : Nat) (w : World) : Prop where
  openable : w.host.Openable (fileName base (a.obj lun) .data)
  inBuffer : a.length = 0 ∨ InBuffer buf off a.length.toNat
  fits : a.offset.toNat + a.length.toNat < 9223372036854775808
  int : a.length.toNat < 2147483648

theorem loadData_returnsIff (buf : Option Bytes) (off : Nat) (length : UInt64) :
    ReturnsIff (loadData buf off length) (length = 0 ∨ InBuffer buf off length.toNat)
      (fun b w' => b = slice buf off length.toNat ∧ w = w') w := by
  refine (ReturnsIff.ite (fun h => ReturnsIff.pure ?_) fun _ =>
    load_returnsIff buf off length.toNat).congr_left ?_
  · subst h
    exact ⟨(List.take_zero).symm, rfl⟩
  · by_cases h : length = 0 <;> simp [h]

theorem writeObject_returnsIff (action : a.serviceAction = osdWrite) (buf : Option Bytes)
    (off : Nat) :
    ReturnsIff (writeObject base (a.obj lun) a.offset a.length buf off)
      (WriteOk base lun a buf off w)
      (fun _ w' => Acted base lun a w ⟨0, 0, a.obj lun, none⟩ w') w := by
  refine ((open_returnsIff _ _).bind fun _ w₁ _ h₁ =>
    ReturnsIff.ite_halt fun _ => (loadData_returnsIff buf off a.length).bind fun b w₂ _ h₂ =>
    ReturnsIff.ite_halt fun _ => (onHost_returnsIff _).bind_of_true fun _ w₃ h₃ =>
    ReturnsIff.ite_halt fun _ => (record_returnsIff _).mono fun _ w₄ _ h₄ => ?_).congr_left ?_
  · obtain ⟨hfile, hothers, hdirs, hacts⟩ := h₁
    obtain ⟨-, rfl⟩ := h₂
    subst h₃ h₄
    refine .wrote b _ action hdirs ?_ (fun q hq => ?_) (congrArg _ hacts)
    · change ((w₁.host.put _ _).file _) = _
      rw [file_put_self, hfile]
      rfl
    · change ((w₁.host.put _ _).file _) = _
      rw [file_put_of_ne _ _ hq, hothers q hq]
  · constructor
    · rintro ⟨hopen, -, hbuf, hfits, hint, -⟩
      exact ⟨hopen, hbuf, by omega, by omega⟩
    · rintro ⟨hopen, hbuf, hfits, hint⟩
      exact ⟨hopen, by omega, hbuf, by omega, by omega, trivial⟩

/-- What `OSD_READ` needs. -/
structure ReadOk (w : World) : Prop where
  openable : w.host.Openable (fileName base (a.obj lun) .data)
  seekable : a.offset.toNat < 9223372036854775808
  int : a.length.toNat < 2147483648

/-- A byte of what `read` returns, with zeros behind the end of the file. -/
theorem byte_read (b : Bytes) (off len : Nat) {k : Nat} (hk : k < len) :
    byte ((b.drop off).take len ++
      List.replicate (len - ((b.drop off).take len).length) 0) k = byte b (off + k) := by
  simp only [byte, List.getD_eq_getElem?_getD]
  by_cases hin : k < ((b.drop off).take len).length
  · rw [List.getElem?_append_left hin, List.getElem?_take_of_lt hk, List.getElem?_drop]
  · have hout : b.length ≤ off + k := by
      simp at hin
      omega
    rw [List.getElem?_append_right (by omega), List.getElem?_replicate,
      List.getElem?_eq_none hout]
    split <;> rfl

theorem readObject_returnsIff (action : a.serviceAction = osdRead) :
    ReturnsIff (readObject base (a.obj lun) a.offset a.length) (ReadOk base lun a w)
      (fun b w' => Acted base lun a w ⟨0, 0, a.obj lun, some b⟩ w') w := by
  refine (ReturnsIff.ite_halt fun _ => (open_returnsIff _ _).bind fun _ w₁ _ h₁ =>
    ReturnsIff.ite_halt fun _ => ReturnsIff.ite_halt fun _ =>
    (returnsIff_gets (Q := fun h w₂ => h = w₁.host ∧ w₁ = w₂) ⟨rfl, rfl⟩).bind_of_true
    fun h w₂ h₂ => ReturnsIff.pure ?_).congr_left ?_
  · obtain ⟨hfile, hothers, hdirs, hacts⟩ := h₁
    obtain ⟨rfl, rfl⟩ := h₂
    have hlen : ∀ b : Bytes, ((b.drop a.offset.toNat).take a.length.toNat ++ List.replicate
        (a.length.toNat - ((b.drop a.offset.toNat).take a.length.toNat).length) 0).length =
          a.length.toNat := by
      intro b
      simp
    refine .read _ _ action hdirs hfile (hlen _) (fun k hk => ?_) hothers hacts
    rw [hlen] at hk
    rw [byte_read _ _ _ hk, hfile]
    rfl
  · have := a.length.toNat_lt
    constructor
    · rintro ⟨hmalloc, hopen, hseek, hlen, -⟩
      exact ⟨hopen, by omega, by omega⟩
    · rintro ⟨hopen, hseek, hint⟩
      exact ⟨by omega, hopen, by omega, by omega, trivial⟩

/-- What a service action needs. -/
def ActionOk (buf : Option Bytes) (w : World) : Prop :=
  if a.serviceAction = osdCreateGroup then GroupFree base lun a w
  else if a.serviceAction = osdRemoveGroup then
    groupName base lun a.groupID ∈ w.host.dirs ∧
      w.host.emptyDir (groupName base lun a.groupID) = true
  else if a.serviceAction = osdCreate then CreateOk base lun a w
  else if a.serviceAction = osdRemove then True
  else if a.serviceAction = osdWrite then
    WriteOk base lun a buf
      (a.setAttributesListLength.toNat + a.getAttributesListLength.toNat) w
  else if a.serviceAction = osdRead then ReadOk base lun a w
  else a.serviceAction = osdGetAttr ∨ a.serviceAction = osdSetAttr

theorem rmdir_ok_iff (h : Host) (p : Text) :
    (∃ h', h.rmdir p = .ok h') ↔ p ∈ h.dirs ∧ h.emptyDir p = true := by
  unfold Host.rmdir
  by_cases hp : p ∈ h.dirs
  · cases he : h.emptyDir p <;> simp [hp]
  · simp [hp]

/-- The service actions. -/
theorem serviceAction_returnsIff (buf : Option Bytes) :
    ReturnsIff (serviceAction base lun a buf) (ActionOk base lun a buf w)
      (fun r w' => Acted base lun a w r w') w := by
  unfold serviceAction ActionOk
  split_ifs with h₁ h₂ h₃ h₄ h₅ h₆ h₇
  · refine ((createGroup_returnsIff base lun a).bind fun g w' _ h =>
      ReturnsIff.pure ?_).congr_left (by rw [and_true])
    obtain ⟨hasked, hdirs, hfiles, hacts⟩ := h
    exact .grouped g w' h₁ hasked hdirs hfiles hacts
  · refine ((orExit_returnsIff _).bind fun _ w' _ h =>
      ReturnsIff.pure ?_).congr_left (by rw [and_true]; exact rmdir_ok_iff _ _)
    obtain ⟨he, hw'⟩ := h
    have hhost := rmdir_eq he
    exact .ungrouped w' h₂ (congrArg Host.dirs hhost) (by rw [hhost])
      (by rw [hw'])
  · exact ((create_returnsIff base lun a h₃).bind fun user w' _ h =>
      ReturnsIff.pure h).congr_left (by rw [and_true])
  · exact (removeObject_returnsIff base lun a h₄).bind_of_true fun _ w' h => ReturnsIff.pure h
  · exact ((writeObject_returnsIff base lun a h₅ buf _).bind fun _ w' _ h =>
      ReturnsIff.pure h).congr_left (by rw [and_true])
  · exact ((readObject_returnsIff base lun a h₆).bind fun _ w' _ h =>
      ReturnsIff.pure h).congr_left (by rw [and_true])
  · have h : a.serviceAction = osdGetAttr ∨ a.serviceAction = osdSetAttr := by simpa using h₇
    exact (ReturnsIff.pure (.attributes h)).congr_left (by simp [h])
  · have h : ¬(a.serviceAction = osdGetAttr ∨ a.serviceAction = osdSetAttr) := by simpa using h₇
    exact (ReturnsIff.halt _).congr_left (by simp [h])

end Ost.Osd
