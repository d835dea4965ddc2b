import Ost.Session.Window

/-!
# PDUs in the stream

A header says how long its PDU is: behind the 48 bytes of the header come the AHS and the data
segment, each padded to a multiple of four bytes.  Each handler of the target reads what it wants of
a PDU, and the worker takes the next 48 bytes for a header.  So a PDU that is refused without an end
of the session leaves in the stream what it carries.  `PduFramed` says which PDUs are read whole.
-/

namespace Ost.Target

open Ost.Iscsi Ost.Util Ost.Param Ost.Prog Ost.Disk

/-! ## Boundaries -/

/-- How many bytes belong to a PDU behind its header. -/
def bodyLen (hdr : Bytes) : Nat := pad4 (byte hdr 4).toNat + pad4 (iscsiLen hdr)

/-- Some bytes of a stream were read. -/
def Consumed (n : Nat) (rx rx' : Bytes) : Prop := n ≤ rx.length ∧ rx' = rx.drop n

instance (n : Nat) (rx rx' : Bytes) : Decidable (Consumed n rx rx') :=
  inferInstanceAs (Decidable (_ ∧ _))

/-- What a round reads of the PDU it serves.  A PDU whose command is not ready is left in the hand
of the worker with its header, and the rest of it is read in a later round. -/
def Slot.Framed (s s' : Slot) : Prop :=
  match s.waiting, s'.waiting with
  | none, none => Consumed (iscsiHeaderLen + bodyLen s.nextHeader) s.conn.rx s'.conn.rx
  | none, some (_, hdr, _) => hdr = s.nextHeader ∧ Consumed iscsiHeaderLen s.conn.rx s'.conn.rx
  | some (_, hdr, _), none => Consumed (bodyLen hdr) s.conn.rx s'.conn.rx
  | some pdu, some pdu' => pdu' = pdu ∧ Consumed 0 s.conn.rx s'.conn.rx

instance (s s' : Slot) : Decidable (s.Framed s') := by
  unfold Slot.Framed
  split <;> infer_instance

/-- A slot whose stream and whose PDU in hand are as they were. -/
def Slot.Untouched (s s' : Slot) : Prop := s'.conn.rx = s.conn.rx ∧ s'.waiting = s.waiting

/-! ## The condition -/

/-- A SCSI command is read whole unless it is refused before that. -/
def ScsiFramed (p : SessParams) (hdr rx : Bytes) : Prop :=
  if (iscsiScsiCmdDecap hdr).1 ≠ 0 then bodyLen hdr = 0
  else SessParams.tooLong p (iscsiLen hdr) = false ∧ (ahsOk rx (byte hdr 4).toNat = true ∨
    pad4 (byte hdr 4).toNat ≤ rx.length ∧ iscsiLen hdr = 0)

instance (p : SessParams) (hdr rx : Bytes) : Decidable (ScsiFramed p hdr rx) := by
  unfold ScsiFramed
  infer_instance

/-- The requests that are read whole, or end the session, whatever their header says. -/
def framedRequests : List UInt8 := [opTaskCmd, opNopOut, opTextCmd, opLogoutCmd, opWriteData]

/-- A PDU that is read whole, if the session goes on after it.  `rx` is what is behind its
header. -/
def PduFramed (p : SessParams) (hdr rx : Bytes) : Prop :=
  if iscsiOpcode hdr = opScsiCmd then ScsiFramed p hdr rx
  else if iscsiOpcode hdr = opLoginCmd then byte hdr 4 = 0
  else iscsiOpcode hdr ∈ framedRequests ∨ bodyLen hdr = 0

instance (p : SessParams) (hdr rx : Bytes) : Decidable (PduFramed p hdr rx) := by
  unfold PduFramed
  infer_instance

/-- The PDU that a slot is about to take, if any, is such. -/
def Slot.TakesFramed (s : Slot) : Prop :=
  s.waiting = none →
    PduFramed s.login.sessParams s.nextHeader (s.conn.rx.drop iscsiHeaderLen)

instance (s : Slot) : Decidable s.TakesFramed := inferInstanceAs (Decidable (_ → _))

/-! ## Headers -/

section Headers

variable {hdr rx rx' : Bytes} {m n : Nat}

theorem pad4_eq_zero : pad4 n = 0 ↔ n = 0 := by
  unfold pad4
  omega

/-- A word of the header in which the length of the AHS is read as well. -/
theorem be32_ahs (hdr : Bytes) :
    (be32 hdr 4).toNat = (byte hdr 4).toNat * 16777216 + iscsiLen hdr := by
  rw [be32_toNat]
  simp only [iscsiLen, be24, be16, Nat.reduceAdd]
  omega

/-- A PDU without an AHS. -/
theorem bodyLen_of_ahs (h : byte hdr 4 = 0) : bodyLen hdr = pad4 (be32 hdr 4).toNat := by
  rw [bodyLen, be32_ahs, h]
  simp [pad4]

/-- The word is the length of the data only without an AHS. -/
theorem bodyLen_eq_iff : bodyLen hdr = pad4 (be32 hdr 4).toNat ↔ byte hdr 4 = 0 := by
  refine ⟨fun h => ?_, bodyLen_of_ahs⟩
  by_contra hne
  have hpos : (byte hdr 4).toNat ≠ 0 := fun h0 => hne (UInt8.toNat_inj.mp h0)
  have hlt := (byte hdr 4).toNat_lt
  rw [be32_ahs] at h
  unfold bodyLen pad4 at h
  omega

/-- What has been read is known from what is left. -/
theorem consumed_iff (hn : n ≤ rx.length) (hrx : rx' = rx.drop n) : Consumed m rx rx' ↔ m = n := by
  refine ⟨fun ⟨hm, h⟩ => ?_, fun h => h ▸ ⟨hn, hrx⟩⟩
  have hlen := congrArg List.length (hrx.symm.trans h)
  rw [List.length_drop, List.length_drop] at hlen
  omega

/-- Reading in two parts. -/
theorem consumed_add (hm : m ≤ rx.length) :
    Consumed (m + n) rx rx' ↔ Consumed n (rx.drop m) rx' := by
  rw [Consumed, Consumed, List.drop_drop, List.length_drop]
  exact and_congr_left fun _ => by omega

/-- All checks of a header passed. -/
theorem firstFailure_cons {ok : Bool} {rc : Int} {l : List (Bool × Int)} (hrc : rc ≠ 0) :
    firstFailure ((ok, rc) :: l) = 0 ↔ ok = true ∧ firstFailure l = 0 := by
  cases ok <;> simp [firstFailure, hrc]

/-- A task management request has no AHS and no data. -/
theorem bodyLen_task (h : (iscsiTaskCmdDecap hdr).1 = 0) : bodyLen hdr = 0 := by
  have h4 : be32 hdr 4 = 0 := by
    simp [iscsiTaskCmdDecap, firstFailure_cons] at h
    exact h.2.2.2.2.1
  have h0 := be32_ahs hdr
  rw [h4] at h0
  have h0 : (byte hdr 4).toNat * 16777216 + iscsiLen hdr = 0 := h0.symm
  unfold bodyLen pad4
  omega

/-- A ping has no AHS. -/
theorem ahs_nopOut (h : (iscsiNopOutDecap hdr).1 = 0) : byte hdr 4 = 0 := by
  simp [iscsiNopOutDecap, firstFailure_cons] at h
  exact h.2.2.2.2.1

/-- A text request has no AHS. -/
theorem ahs_textCmd (h : (iscsiTextCmdDecap hdr).1 = 0) : byte hdr 4 = 0 := by
  simp [iscsiTextCmdDecap, firstFailure_cons] at h
  exact h.2.2.2.1

/-- Write data have no AHS. -/
theorem ahs_writeData (h : (iscsiWriteDataDecap hdr).1 = 0) : byte hdr 4 = 0 := by
  simp [iscsiWriteDataDecap, firstFailure_cons] at h
  exact h.2.2.2.2.1

/-- A PDU that is refused as too long has data. -/
theorem len_of_tooLong {p : SessParams} (h : SessParams.tooLong p n = true) : n ≠ 0 := by
  rintro rfl
  simp [SessParams.tooLong] at h

end Headers

/-! ## One PDU -/

section Step

variable {env : Env} {i c : Nat} {s s' : Local} {hdr : Bytes}

/-- What a handler reads behind a header: what belongs to the PDU, unless the PDU is to wait. -/
def BodyRead (hdr : Bytes) (s s' : Local) : Prop :=
  match s'.slot.waiting with
  | none => Consumed (bodyLen hdr) s.slot.conn.rx s'.slot.conn.rx
  | some (_, hdr', _) => hdr' = hdr ∧ s'.slot.conn.rx = s.slot.conn.rx

/-- A handler that reads a known number of bytes. -/
theorem bodyRead_iff {n : Nat} (hw : s'.slot.waiting = none) (h : Reads n s s') :
    BodyRead hdr s s' ↔ bodyLen hdr = pad4 n := by
  rw [BodyRead, hw]
  exact consumed_iff h.enough h.rx

/-- A handler that reads nothing. -/
theorem bodyRead_unread (hw : s'.slot.waiting = none) (h : Keeps unread s s') :
    BodyRead hdr s s' ↔ bodyLen hdr = 0 := bodyRead_iff hw (.zero h)

/-- A request that is read whole whatever its header says. -/
theorem pduFramed_of_mem {p : SessParams} {rx : Bytes} (h : iscsiOpcode hdr ∈ framedRequests) :
    PduFramed p hdr rx := by
  have hne {op : UInt8} (hop : op ∉ framedRequests) : iscsiOpcode hdr ≠ op := fun he => hop (he ▸ h)
  rw [PduFramed, if_neg (hne (by decide)), if_neg (hne (by decide))]
  exact .inl h

/-- What tells how far a SCSI command was read, when its header is well formed. -/
inductive ScsiRead (hdr : Bytes) (s s' : Local) : Prop where
  | tooLong (hlen : SessParams.tooLong s.slot.login.sessParams (iscsiLen hdr) = true)
    (hrx : Keeps unread s s')
  | badAhs (hlen : SessParams.tooLong s.slot.login.sessParams (iscsiLen hdr) = false)
    (hahs : ahsOk s.slot.conn.rx (byte hdr 4).toNat = false)
    (hrx : pad4 (byte hdr 4).toNat ≤ s.slot.conn.rx.length → Reads (byte hdr 4).toNat s s')
  | accepted (hlen : SessParams.tooLong s.slot.login.sessParams (iscsiLen hdr) = false)
    (hahs : ahsOk s.slot.conn.rx (byte hdr 4).toNat = true)

/-- How far `scsi_command_t` reads. -/
theorem scsiCommandT_read (h : Nat) (hrc : (iscsiScsiCmdDecap hdr).1 = 0) (s : Local) :
    ensures (scsiCommandT i h hdr) (fun rc s' => rc = 0 → ScsiRead hdr s s') s := by
  rw [scsiCommandT, ensures, wp_bind, wp_takeCmd]
  refine ⟨fun _ => by simp, fun c q _ => ?_⟩
  dsimp only
  rw [wp_bind, wp_modifyCmd]
  refine (wp_ite _ _ _).mpr ⟨fun hne => absurd hrc hne, fun _ => ?_⟩
  rw [wp_bind, wp_modifySeq, wp_bind, wp_getLogin]
  set s₁ := ((s.setPool { s.slot.pool with cmdQ := q }).setCmd c
      { TargetCmd.zero with
        header := h, scsiCmd := ScsiCmd.ofPdu (iscsiScsiCmdDecap hdr).2 }).setSeq
      { s.slot.seq with expCmdSN := iscsiCmdSN hdr } with hs₁
  have hahs : (s₁.slot.pool.cmdMem c).scsiCmd.ahsLen = (byte hdr 4).toNat := by
    simp [hs₁, Local.setCmd, Local.setPool, Local.setSeq, ScsiCmd.ofPdu, iscsiScsiCmdDecap]
  refine (wp_ite _ _ _).mpr ⟨fun hlen => ?_, fun hlen => ?_⟩
  · exact (scsiError_spec c s₁).mono fun _ _ hend hrc => .tooLong hlen (hend.1 hrc).1.calm.rx
  have hlen : SessParams.tooLong s.slot.login.sessParams (iscsiLen hdr) = false :=
    Bool.eq_false_iff.mpr hlen
  rw [wp_bind]
  refine (readAhs_spec c s₁).mono fun ok s₂ hread => ?_
  obtain ⟨⟨hok, hreads⟩, _⟩ := hread
  rw [hahs] at hok hreads
  rcases ok with _ | _
  · refine (wp_ite _ _ _).mpr ⟨fun _ => ?_, by simp⟩
    refine (scsiError_spec c s₂).mono fun _ _ hend hrc => .badAhs hlen hok.symm fun hp => ?_
    exact ⟨hp, (hend.1 hrc).1.calm.rx.trans (hreads hp).rx⟩
  · exact wp_intro (fun _ _ _ _ => .accepted hlen hok.symm) fun _ _ _ => trivial

/-- A SCSI command leaves no PDU to wait. -/
theorem ScsiEnd.waiting {h : Nat} {rc : Int} (he : ScsiEnd i h hdr rc s s') :
    s'.slot.waiting = s.slot.waiting := by
  cases he with
  | noCmd _ hs => rw [hs]
  | refused ha _ hend => exact hend.calm.waiting.trans ha.waiting
  | dropped _ ha => exact ha.waiting
  | queued _ _ ha _ _ _ hb hend => exact hend.calm.waiting.trans (hb.calm.waiting.trans ha.waiting)

/-- What a SCSI command with a malformed header is read of, and one that goes to the device. -/
theorem ScsiEnd.read {h : Nat} (he : ScsiEnd i h hdr 0 s s') :
    (iscsiScsiCmdDecap hdr).1 ≠ 0 ∧ Keeps unread s s' ∨
    (iscsiScsiCmdDecap hdr).1 = 0 ∧
      (SessParams.tooLong s.slot.login.sessParams (iscsiLen hdr) = false →
        ahsOk s.slot.conn.rx (byte hdr 4).toNat = true →
        Consumed (bodyLen hdr) s.slot.conn.rx s'.slot.conn.rx) := by
  cases he with
  | noCmd hrc => exact absurd rfl hrc
  | @refused c s₁ ha hwhy hend =>
    cases hwhy with
    | header hrc _ hrx => exact .inl ⟨hrc, Eq.trans hend.calm.rx hrx⟩
    | tooLong hrc _ hlen => exact .inr ⟨hrc, fun h => absurd (hlen.symm.trans h) (by decide)⟩
    | ahs hrc _ hahs => exact .inr ⟨hrc, fun _ h => absurd (hahs.symm.trans h) (by decide)⟩
  | dropped hrc => exact absurd rfl hrc
  | @queued c s₁ s₂ _ hpdu ha _ _ hreads hb hend =>
    refine .inr ⟨hpdu, fun _ _ => ⟨hreads.1, ?_⟩⟩
    exact hend.calm.rx.trans (hb.calm.rx.trans hreads.2)

/-- A SCSI command is read whole just when the condition holds. -/
theorem scsi_framed {h : Nat} (hw : s.slot.waiting = none)
    (hrun : scsiCommandT i h hdr s = .ret 0 s') :
    BodyRead hdr s s' ↔ ScsiFramed s.slot.login.sessParams hdr s.slot.conn.rx := by
  have he := (scsiCommandT_spec i h hdr s).of_ret hrun
  have hw' := he.waiting.trans hw
  rcases he.read with ⟨hrc, hrx⟩ | ⟨hrc, hok⟩
  · rw [ScsiFramed, if_pos hrc]
    exact bodyRead_unread hw' hrx
  rw [ScsiFramed, if_neg (not_not.mpr hrc)]
  cases (scsiCommandT_read h hrc s).of_ret hrun rfl with
  | tooLong hlen hrx =>
    rw [bodyRead_unread hw' hrx, hlen]
    have hpos := mt pad4_eq_zero.mp (len_of_tooLong hlen)
    simp only [bodyLen, Bool.true_eq_false, false_and, iff_false]
    omega
  | badAhs hlen hahs hrx =>
    rw [hlen, hahs]
    simp only [true_and, Bool.false_eq_true, false_or]
    by_cases hp : pad4 (byte hdr 4).toNat ≤ s.slot.conn.rx.length
    · rw [bodyRead_iff hw' (hrx hp), ← pad4_eq_zero, bodyLen]
      simp [hp]
    · rw [BodyRead, hw']
      refine ⟨fun hread => absurd hread.1 ?_, fun hcon => absurd hcon.1 hp⟩
      unfold bodyLen
      omega
  | accepted hlen hahs =>
    rw [BodyRead, hw']
    exact ⟨fun _ => ⟨hlen, .inl hahs⟩, fun _ => hok hlen hahs⟩

end Step

/-! ## Write data -/

section Data

variable {env : Env} {i c : Nat} {s s' : Local} {hdr : Bytes}

/-- The R2T at the end of the first burst lets the worker go on or fails. -/
theorem sendBurstR2t_rc (s : Local) : ensures (sendBurstR2t c) (fun rc _ => rc ≤ 0) s := by
  simp only [sendBurstR2t, ensures, wp_bind, wp_getCmd, wp_getLogin, wp_ite, wp_pure, wp_getSeq,
    wp_modifyCmd]
  refine ⟨fun _ => (ensures_true _ s).mono fun _ _ _ =>
    ⟨fun _ => by decide, fun _ => ?_⟩, fun _ => ?_⟩
  · exact le_refl 0
  · exact le_refl 0

/-- So does the placement of data. -/
theorem placeWriteData_rc (data : WriteData) (s : Local) :
    ensures (placeWriteData i c data) (fun rc _ => rc ≤ 0) s := by
  rw [placeWriteData]
  refine (ensures_true _ s).bind fun _ s₁ _ => (ensures_true _ s₁).bind fun _ s₂ _ => ?_
  rw [ensures, wp_bind, wp_modifyScsi, wp_bind, wp_getCmd]
  refine (wp_ite _ _ _).mpr ⟨fun _ => ?_, fun _ => sendBurstR2t_rc _⟩
  refine (ensures_true _ _).bind fun _ s₃ _ => ?_
  exact (wp_ite _ _ _).mpr ⟨fun _ => (wp_pure _).mpr (by decide), fun _ => le_refl 0⟩

/-- A `WRITE_DATA` PDU is only rejected, with its data left in the stream, when its tag is not the
tag of its command. -/
theorem writeDataReady_rc (htag : (s.slot.pool.cmdMem c).scsiCmd.tag = iscsiItt hdr) :
    ensures (writeDataReady i hdr c) (fun rc _ => rc ≤ 0) s := by
  have hrefuse : ensures (refuseData c) (fun rc _ => rc ≤ 0) s := by
    rw [refuseData, ensures, wp_bind, wp_modifyScsi, wp_pure]
    decide
  have htag' : (iscsiWriteDataDecap hdr).2.tag = (s.slot.pool.cmdMem c).scsiCmd.tag := htag.symm
  rw [writeDataReady, ensures]
  dsimp only
  rw [wp_bind, wp_getCmd, wp_bind, wp_getLogin]
  refine (wp_ite _ _ _).mpr ⟨fun _ => hrefuse, fun _ => ?_⟩
  refine (wp_ite _ _ _).mpr ⟨fun _ => hrefuse, fun _ => ?_⟩
  refine (wp_ite _ _ _).mpr ⟨fun _ => hrefuse, fun _ => ?_⟩
  rw [wp_bind, rejectTag]
  simp only [htag', ne_eq, not_true, decide_false, Bool.not_false, if_true]
  refine (wp_ite _ _ _).mpr ⟨by simp, fun _ => ?_⟩
  exact (wp_ite _ _ _).mpr ⟨fun _ => (wp_pure _).mpr (by decide), fun _ => placeWriteData_rc _ _⟩

/-- The same for a PDU that need not wait. -/
theorem writeDataT_rc (h : Nat)
    (htag : ∀ k c, (k, c) ∈ s.slot.pool.cmds.entries → (s.slot.pool.cmdMem c).scsiCmd.tag = k) :
    ensures (writeDataT i h hdr) (fun r _ => ∀ rc, r = some rc → rc ≤ 0) s := by
  have hsome {r rc : Int} (hr : r ≤ 0) (he : some r = some rc) : rc ≤ 0 := Option.some.inj he ▸ hr
  rw [writeDataT, ensures]
  dsimp only
  refine (wp_ite _ _ _).mpr ⟨fun _ _ => hsome (by decide), fun _ => ?_⟩
  rw [wp_bind, wp_getOutstanding]
  refine ⟨fun _ => trivial, fun _ => ?_⟩
  rcases hget : s.slot.pool.cmds.get (iscsiWriteDataDecap hdr).2.tag with _ | c
  · trivial
  dsimp only
  rw [wp_bind, wp_getCmd]
  refine (wp_ite _ _ _).mpr ⟨fun _ => ?_, fun _ => ?_⟩
  · rw [wp_bind, wp_modify]
    exact fun rc hnone => absurd hnone.symm (Option.some_ne_none rc)
  · rw [wp_map]
    exact (writeDataReady_rc (htag _ _ (TagHash.get_eq_some.mp hget))).mono fun _ _ hrc _ =>
      hsome hrc

end Data

/-! ## One round -/

section Round

variable {env : Env} {i : Nat} {s s' : Local} {hdr : Bytes} {h : Nat} {r : Option Int}

theorem waiting_of_aside (ha : Keeps aside s s') : s'.slot.waiting = s.slot.waiting :=
  congrArg (fun a => a.2.2.1) ha

/-- A PDU after which the session goes on is read whole just when the condition holds. -/
theorem Executed.framed (hb : Books i s) (hw : s.slot.waiting = none)
    (hx : Executed env i h hdr s s' r)
    (hr : ∀ queued, r = some queued → 0 ≤ queued ∧ iscsiOpcode hdr ≠ opLogoutCmd) :
    BodyRead hdr s s' ↔ PduFramed s.slot.login.sessParams hdr s.slot.conn.rx := by
  have hrc {rc x : Int} (hr : ∀ queued, some (if rc ≠ 0 then (-1 : Int) else x) = some queued →
      0 ≤ queued ∧ iscsiOpcode hdr ≠ opLogoutCmd) : rc = 0 :=
    rc_of_continues fun queued hq => ⟨(hr queued hq).1, trivial⟩
  cases hx with
  | outOfPhase => exact absurd (hr _ rfl).1 (by decide)
  | task hop _ hrun =>
    obtain ⟨hpdu, hrx, _⟩ := (taskCommandT_spec hdr s).of_ret hrun (hrc hr)
    have hw' := (waiting_of_aside ((aside_taskCommandT hdr).of_ret hrun)).trans hw
    rw [bodyRead_unread hw' hrx]
    exact iff_of_true (bodyLen_task hpdu) (pduFramed_of_mem (by rw [hop]; decide))
  | nop hop _ hrun =>
    obtain ⟨_, _, _, hspec⟩ := (nopOutT_spec hdr s).of_ret hrun
    obtain ⟨hpdu, hreads, _⟩ := hspec (hrc hr)
    have hw' := (waiting_of_aside ((aside_nopOutT hdr).of_ret hrun)).trans hw
    rw [bodyRead_iff hw' hreads]
    exact iff_of_true (bodyLen_of_ahs (ahs_nopOut hpdu)) (pduFramed_of_mem (by rw [hop]; decide))
  | login hop hrun =>
    have hend := (loginCommandT_spec env i hdr s).of_ret hrun
    have hw' := (waiting_of_aside hend.aside).trans hw
    rw [PduFramed, if_neg (by rw [hop]; decide), if_pos hop, ← bodyLen_eq_iff]
    cases hend with
    | silent hne => exact absurd (hrc hr) hne
    | refused hne => exact absurd (hrc hr) hne
    | advanced _ _ hreads _ hadv =>
      obtain ⟨_, _, ht, ha, _⟩ := hadv.steps
      have hreads : Reads (be32 hdr 4).toNat s s' :=
        ⟨hreads.enough, Eq.trans ha.unread (Eq.trans ht.unread hreads.rx)⟩
      exact bodyRead_iff hw' hreads
  | text hop _ hrun =>
    obtain ⟨_, _, hspec⟩ := (textCommandT_spec hdr env s).of_ret hrun
    obtain ⟨hpdu, hreads, _⟩ := hspec (hrc hr)
    have hw' := (waiting_of_aside ((aside_textCommandT hdr env).of_ret hrun)).trans hw
    rw [bodyRead_iff hw' hreads]
    exact iff_of_true (bodyLen_of_ahs (ahs_textCmd hpdu)) (pduFramed_of_mem (by rw [hop]; decide))
  | logout hop => exact absurd hop (hr _ rfl).2
  | scsi hop _ hrun =>
    rw [PduFramed, if_pos hop]
    rw [hrc hr] at hrun
    exact scsi_framed hw hrun
  | data hop _ hrun =>
    have htag := fun k c hc => (hb.outstanding k c hc).1
    have hframed : PduFramed s.slot.login.sessParams hdr s.slot.conn.rx :=
      pduFramed_of_mem (by rw [hop]; decide)
    cases (writeDataT_spec i h hdr htag fun c hc => hb.lun c (.inl hc)).of_ret hrun with
    | bad hneg => exact absurd (hr _ hneg).1 (by decide)
    | waits _ _ _ _ hs =>
      subst hs
      exact iff_of_true ⟨rfl, rfl⟩ hframed
    | @ready c rc hsome _ _ hpdu hend =>
      obtain ⟨_, hwait, _, _, hreads⟩ := hend.still
      have hrc : rc = 0 :=
        le_antisymm ((writeDataT_rc h htag).of_ret hrun rc hsome) (hr rc hsome).1
      rw [bodyRead_iff (hwait.trans hw) (hreads hrc)]
      exact iff_of_true (bodyLen_of_ahs (ahs_writeData hpdu)) hframed
  | unknown _ hop hrun =>
    have hne {op : UInt8} (hop' : op ∈ [opTaskCmd, opNopOut, opLoginCmd, opTextCmd, opLogoutCmd,
        opScsiCmd, opWriteData]) : iscsiOpcode hdr ≠ op := fun he => hop (he ▸ hop')
    have hw' := (waiting_of_aside ((aside_rejectT hdr 0x04).of_ret hrun)).trans hw
    rw [bodyRead_unread hw' ((rejectT_spec hdr 0x04 s).of_ret hrun).1, PduFramed,
      if_neg (hne (by decide)), if_neg (hne (by decide)), or_iff_right]
    exact fun hmem => hop ((by decide : framedRequests ⊆ _) hmem)

/-- The PDU in the hand of a worker carries write data. -/
def Slot.HoldsData (s : Slot) : Prop :=
  ∀ h hdr c, s.waiting = some (h, hdr, c) → (iscsiWriteDataDecap hdr).1 = 0

/-- A worker only keeps a `WRITE_DATA` PDU in its hand. -/
theorem Executed.holdsData (hb : Books i s) (hw : s.slot.waiting = none)
    (hx : Executed env i h hdr s s' r) : s'.slot.HoldsData := by
  have hnone (hs : s'.slot.waiting = s.slot.waiting) : s'.slot.HoldsData := by
    intro _ _ _ hcon
    rw [hs, hw] at hcon
    exact nomatch hcon
  cases hx with
  | outOfPhase ha => exact hnone (waiting_of_aside ha)
  | task _ _ hrun => exact hnone (waiting_of_aside ((aside_taskCommandT hdr).of_ret hrun))
  | nop _ _ hrun => exact hnone (waiting_of_aside ((aside_nopOutT hdr).of_ret hrun))
  | login _ hrun =>
    exact hnone (waiting_of_aside ((loginCommandT_spec env i hdr s).of_ret hrun).aside)
  | text _ _ hrun => exact hnone (waiting_of_aside ((aside_textCommandT hdr env).of_ret hrun))
  | logout _ hrun => exact hnone (waiting_of_aside ((aside_logoutCommandT hdr).of_ret hrun))
  | scsi _ _ hrun => exact hnone ((scsiCommandT_spec i h hdr s).of_ret hrun).waiting
  | data _ _ hrun =>
    cases (writeDataT_spec i h hdr (fun k c hc => (hb.outstanding k c hc).1)
      fun c hc => hb.lun c (.inl hc)).of_ret hrun with
    | bad _ hs => exact hnone (by rw [hs])
    | waits _ _ _ hpdu hs =>
      subst hs
      intro _ _ _ he
      obtain ⟨rfl, rfl, rfl⟩ := by simpa [Local.setWaiting] using he
      exact hpdu
    | ready _ _ _ _ hend => exact hnone hend.still.2.1
  | unknown _ _ hrun => exact hnone (waiting_of_aside ((aside_rejectT hdr 0x04).of_ret hrun))

theorem Settled.waiting {queued : Int} (hs : Settled h hdr s queued s') :
    s'.slot.waiting = s.slot.waiting := by
  cases hs <;> rfl

/-- A round leaves nothing but write data in the hand of the worker. -/
theorem Round.holdsData (hb : Books i s) (hk : s.slot.HoldsData) (hr : Round env i s s') :
    s'.slot.HoldsData := by
  cases hr with
  | noHeader _ _ hs => exact hs ▸ hk
  | short _ _ _ _ hs => exact hs ▸ hk
  | @waits h q hw _ _ hx =>
    have hb₀ : Books i (s.setHeaderQ q).skipHeader := hb.congr rfl rfl rfl (.inl rfl) rfl rfl
    exact Executed.holdsData hb₀ hw hx
  | @executed h q queued s₁ hw _ _ hx hs =>
    have hb₀ : Books i (s.setHeaderQ q).skipHeader := hb.congr rfl rfl rfl (.inl rfl) rfl rfl
    have h₁ := Executed.holdsData hb₀ hw hx
    rwa [Slot.HoldsData, hs.waiting]
  | stays _ _ hs => exact hs ▸ hk
  | resumed hw hready hx hs =>
    obtain ⟨hend, _⟩ := hb.resumed hw hready hx
    intro _ _ _ hcon
    rw [hs.waiting, hend.still.2.1] at hcon
    exact nomatch hcon

/-- A round after which the session goes on reads what it should, just when the PDU that it takes is
such that it is read whole. -/
theorem Round.framed (hb : Books i s) (hk : s.slot.HoldsData) (hr : Round env i s s')
    (hp : s'.slot.phase = .running) : s.slot.Framed s'.slot ↔ s.slot.TakesFramed := by
  cases hr.continues hp with
  | @pdu h q q' r s₁ hw _ hrx hx hgo hs =>
    subst hs
    have hb₀ : Books i (s.setHeaderQ q).skipHeader := hb.congr rfl rfl rfl (.inl rfl) rfl rfl
    have hstep := Executed.framed hb₀ hw hx hgo
    rw [Slot.TakesFramed, imp_iff_right hw]
    refine Iff.trans ?_ hstep
    have hw' : (s₁.setHeaderQ q').slot.waiting = s₁.slot.waiting := rfl
    rw [Slot.Framed, hw, hw', BodyRead]
    rcases s₁.slot.waiting with _ | ⟨h₁, hdr₁, c⟩
    · exact consumed_add hrx
    · exact and_congr_right fun _ => ⟨fun hc => hc.2, fun hc => ⟨hrx, hc⟩⟩
  | stays hw hs =>
    subst hs
    refine iff_of_true ?_ fun hnone => absurd (hw.symm.trans hnone) (by simp)
    rw [Slot.Framed, hw]
    exact ⟨rfl, Nat.zero_le _, rfl⟩
  | @resumed h c hdr rc q' s₁ hw hready hx hpos hs =>
    subst hs
    refine iff_of_true ?_ fun hnone => absurd (hw.symm.trans hnone) (by simp)
    obtain ⟨hend, _⟩ := hb.resumed hw hready hx
    obtain ⟨_, hwait, _, _, hreads⟩ := hend.still
    have hrc : rc = 0 := le_antisymm
      ((writeDataReady_rc (s := s.setWaiting none) (hb.waiting h hdr c hw).1).of_ret hx) hpos
    have hw' : (s₁.setHeaderQ q').slot.waiting = none := hwait
    rw [Slot.Framed, hw, hw']
    obtain ⟨henough, hrx⟩ := hreads hrc
    dsimp only
    rw [bodyLen_of_ahs (ahs_writeData (hk h hdr c hw))]
    exact ⟨henough, hrx⟩

end Round

/-! ## Runs -/

section Runs

variable {env : Env} {Ok : World → Event → Prop} {w₀ w w' : World}

/-- Only write data are in the hand of a worker. -/
theorem holdsData_reachable (hw₀ : w₀.Starts) (h : Reach (step env) Ok w₀ w) (i : Nat) :
    (w.slots i).HoldsData := by
  refine invariant_slots (P := fun _ s => s.HoldsData) (fun i => ?_) ?_ ?_ ?_ ?_ h i
  · rw [hw₀.slots i]
    exact nofun
  · exact fun _ _ _ _ => nofun
  · exact fun _ _ _ _ _ _ _ hk => hk
  · intro w i hreach _ _ hk
    exact (workerRound_spec env i _).mono fun _ _ hr => hr.holdsData
      (books_reachable hw₀ hreach i) hk
  · intro w i c q _ _ _ hk
    refine (lunWorker_spec _).mono fun _ s hl => ?_
    rwa [Slot.HoldsData, hl.calm.waiting]

/-- In every reachable state, a round after which the session goes on reads what belongs to its PDU
if and only if the PDU is such that it is read whole.  The stream is left alone by all others. -/
theorem framed_iff (hw₀ : w₀.Starts) (h : Reach (step env) Ok w₀ w) (i : Nat) :
    (∀ w', step env (.rx i) w = .ret ⟨⟩ w' → (w'.slots i).phase = .running →
      ((w.slots i).Framed (w'.slots i) ↔ (w.slots i).TakesFramed)) ∧
    ∀ e w', step env e w = .ret ⟨⟩ w' → e ≠ .rx i → (∀ cl, e ≠ .accept cl) →
      (w.slots i).Untouched (w'.slots i) := by
  refine ⟨fun w' he hp => ?_, fun e w' he hne hacc => ?_⟩
  · cases (step_spec env _ w).of_ret he with
    | idle hidle => exact absurd hp (hidle i rfl)
    | round _ hrun =>
      rw [World.slots_put_self] at hp ⊢
      exact ((workerRound_spec env i _).of_ret hrun).framed (books_reachable hw₀ h i)
        (holdsData_reachable hw₀ h i) hp
    | ended q _ hend =>
      rcases hend with rfl | rfl <;> simp [Slot.cleaned] at hp
  · cases (step_spec env _ w).of_ret he with
    | idle => exact ⟨rfl, rfl⟩
    | accept cl => exact absurd rfl (hacc cl)
    | @round j =>
      rw [World.slots_put_of_ne _ _ fun hij => hne (by rw [hij])]
      exact ⟨rfl, rfl⟩
    | @ended j =>
      have hj : i ≠ j := fun hij => hne (by rw [hij])
      simp [Slot.Untouched, Function.update_of_ne hj]
    | @lun j c q s hq hrun =>
      by_cases hj : i = j
      · subst hj
        rw [World.slots_put_self]
        have hcalm := ((lunWorker_spec _).of_ret hrun).calm
        exact ⟨hcalm.rx, hcalm.waiting⟩
      · rw [World.slots_put_of_ne _ _ hj]
        exact ⟨rfl, rfl⟩

end Runs

/-- A ping with four bytes is read whole. -/
theorem framed_iff_ping : ∃ w, Reach (step smallEnv) (fun _ _ => True) smallWorld w ∧
    ∃ w', step smallEnv (.rx 0) w = .ret ⟨⟩ w' ∧ (w.slots 0).Framed (w'.slots 0) := by
  obtain ⟨w, h, htakes, w', he, hp⟩ : ∃ w, Reach (step smallEnv) (fun _ _ => True) smallWorld w ∧
      (w.slots 0).TakesFramed ∧
      ∃ w', step smallEnv (.rx 0) w = .ret ⟨⟩ w' ∧ (w'.slots 0).phase = .running :=
    exists_reach [.accept (client (smallLogin ++ request 0x00 0x80 4 2 0xffffffff 0 ++
      [1, 2, 3, 4])), .rx 0] (by decide +kernel)
  exact ⟨w, h, w', he, ((framed_iff starts_smallWorld h 0).1 w' he hp).mpr htakes⟩

/-- A PDU with an unknown opcode is rejected, and its data are left in the stream. -/
theorem unframed_unknown : ∃ w, Reach (step smallEnv) (fun _ _ => True) smallWorld w ∧
    ∃ w', step smallEnv (.rx 0) w = .ret ⟨⟩ w' ∧ (w'.slots 0).phase = .running ∧
      ¬(w.slots 0).Framed (w'.slots 0) :=
  exists_reach [.accept (client (smallLogin ++ request 0x1e 0x80 4 2 0 0 ++ [1, 2, 3, 4])), .rx 0]
    (by decide +kernel)

end Ost.Target
