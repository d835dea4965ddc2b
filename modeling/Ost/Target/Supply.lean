import Ost.Target.ReadData
import Ost.Target.Storing

/-!
# What a read sends

The data of a read are sent straight from the medium, on a disk whose buffers are the medium.
`Posts P` says that all that a program sends has the property `P`.  The loop over the read data
PDUs sends slices of the blocks that the command addresses (`lunWorker_posts`), whether or not all
of its transmissions succeed.
-/

namespace Ost.Target

open Ost.Iscsi Ost.Util Ost.Param Ost.Prog Ost.Disk

/-! ## What is sent -/

/-- What was sent. -/
def outgoing (s : Local) : List Sent := s.slot.conn.sent

/-- All that was sent from `s` to `s'` has the property `P`. -/
def Posts (P : Sent → Prop) (s s' : Local) : Prop :=
  ∃ l, outgoing s' = outgoing s ++ l ∧ ∀ x ∈ l, P x

/-- A read data PDU that has gone out carries the bytes of the medium `f` at its offset from
`base`, and no more than `size` bytes from there on are read. -/
def Supplied (f : Nat → UInt8) (base size : Nat) (x : Sent) : Prop :=
  ∀ d, x.pdu = .readData d → x.ok = true → d.offset.toNat + x.data.length ≤ size ∧
    ∀ k (hk : k < x.data.length), x.data[k] = f (base + d.offset.toNat + k)

section Instances

variable {P : Sent → Prop} {id c : Nat} {s s' : Local} {α : Type} {x : Handler α}

instance instIsPreorderPosts : IsPreorder Local (Posts P) where
  refl _ := ⟨[], (List.append_nil _).symm, by simp⟩
  trans := by
    rintro s₁ s₂ s₃ ⟨l, hl, hall⟩ ⟨l', hl', hall'⟩
    refine ⟨l ++ l', by rw [hl', hl, List.append_assoc], fun x hx => ?_⟩
    exact (List.mem_append.mp hx).elim (hall x) (hall' x)

/-- What is sent after a change that sends nothing. -/
theorem Posts.after {s₁ s₂ : Local} (h : Posts P s s₁) (hs : outgoing s₂ = outgoing s₁)
    (h' : Posts P s₂ s') : Posts P s s' := by
  have h₁ : Posts P s₁ s' := by
    obtain ⟨l, hl, hall⟩ := h'
    exact ⟨l, by rw [hl, hs], hall⟩
  exact Trans.trans h h₁

theorem posts_of_keeps (h : Within (Keeps outgoing) x) : Within (Posts P) x :=
  h.mono fun _ _ h => ⟨[], by rw [List.append_nil]; exact h, by simp⟩

instance posts_getCmd : Within (Posts P) (getCmd c) := within_gets _

instance posts_getSeq : Within (Posts P) getSeq := within_gets _

instance posts_getDev : Within (Posts P) getDev := within_gets _

instance posts_modifySeq (f : SeqNums → SeqNums) : Within (Posts P) (modifySeq f) :=
  posts_of_keeps ⟨fun _ => rfl⟩

theorem posts_onDev (f : Device → α × Device) : Within (Posts P) (onDev f) :=
  posts_of_keeps ⟨fun _ => rfl⟩

theorem posts_onPool (f : Pool → α × Pool) : Within (Posts P) (onPool f) :=
  posts_of_keeps ⟨fun _ => rfl⟩

instance posts_gather (sg : List Iov) (len : Nat) :
    Within (Posts P) (gather sg len) := within_gets _

/-- A PDU that has the property whatever its data are. -/
theorem posts_sendLeaky {pdu : TargetPdu} (h : ∀ d ok, P ⟨pdu, d, ok⟩) (data : Option Bytes) :
    Within (Posts P) (sendLeaky pdu data) where
  run s := by
    refine wp_mono (sendLeaky_spec pdu data s) (fun ok s' hs => ?_) fun _ _ _ => trivial
    obtain ⟨⟨d, n, b, rfl, _⟩, _⟩ := hs
    exact ⟨[⟨pdu, d, ok⟩], rfl, fun x hx => List.mem_singleton.mp hx ▸ h d ok⟩

instance posts_retire : Within (Posts P) (retire c) := by
  have hremove (tag : UInt32) : Within (Posts P) (removeOutstanding tag) := by
    unfold removeOutstanding
    refine .bind (within_gets _) fun _ => .ite _ (posts_onPool _)
  have hheader (h : Nat) : Within (Posts P) (putHeader h) := posts_onPool _
  have hcmd : Within (Posts P) (putCmd c) := posts_onPool _
  unfold retire
  infer_instance

instance posts_releaseBuffers : Within (Posts P) (releaseBuffers c) := by
  have hput (v : Iov) : Within (Posts P) (putStaging v) := posts_onDev _
  have hputs (l : List Iov) : Within (Posts P) (l.forM putStaging) := by
    induction l with
    | nil => exact within_pure _
    | cons v l ih => exact within_bind (putStaging v) fun _ => l.forM putStaging
  have hio : Within (Posts P) nextIo := posts_onDev _
  have hunmap (l : List Iov) (type : MemType) : Within (Posts P) (unmapBuffers l type) := by
    unfold unmapBuffers
    infer_instance
  unfold releaseBuffers
  infer_instance

end Instances

/-! ## The loop -/

section Loop

variable {id c base size : Nat} {s s' : Local} {f : Nat → UInt8}

/-- The bytes of a slice of the blocks. -/
theorem supplied_read {m : Memory} {d : ReadData} {off n : Nat} {ok : Bool} {pdu : TargetPdu}
    (hpdu : pdu = .readData d) (hoff : d.offset.toNat = off) (hle : off + n ≤ size) :
    Supplied (m .media) base size ⟨pdu, m.read .media (base + off) n, ok⟩ := by
  rintro d' hd' -
  obtain rfl : d = d' := TargetPdu.readData.inj (hpdu.symm.trans hd')
  refine ⟨?_, fun k hk => ?_⟩
  · rw [hoff, Memory.length_read]
    exact hle
  · simp [Memory.read, hoff]

/-- What is not sent whole is not looked at. -/
theorem supplied_failed {pdu : TargetPdu} {bs : Bytes} : Supplied f base size ⟨pdu, bs, false⟩ :=
  fun _ _ hok => absurd hok Bool.false_ne_true

/-- The bytes that are collected from a slice of the blocks. -/
theorem gather_slice {off n len : Nat} {iov : List Iov} (hsize : size < 2147483648)
    (hlt : off < len) (hn : off + n ≤ len) (hpos : 0 < n)
    (hslice : (if n ≠ len then modifyIov [⟨.media, base, size⟩] off n
      else some [⟨.media, base, size⟩]) = some iov) (s : Local) :
    ∃ r, gather iov n s = .ret r s ∧
      ∀ bs, r = some bs → off + n ≤ size ∧ bs = s.dev.mem.read .media (base + off) n := by
  refine ⟨_, rfl, fun bs hbs => ?_⟩
  dsimp only at hbs
  rw [if_neg (Nat.ne_of_gt hpos)] at hbs
  by_cases hall : n = len
  · obtain rfl : off = 0 := by omega
    rw [if_neg (not_not.mpr hall)] at hslice
    obtain rfl := Option.some.inj hslice
    split at hbs
    · rename_i hw
      have htotal : w32 (iovTotal [⟨.media, base, size⟩]) = size :=
        Nat.mod_eq_of_lt (by simp [iovTotal]; omega)
      obtain rfl : size = n := htotal.symm.trans hw.1
      obtain rfl := Option.some.inj hbs
      exact ⟨by omega, by simp⟩
    · exact absurd hbs.symm (Option.some_ne_none bs)
  · rw [if_pos hall, modifyIov_singleton hsize] at hslice
    split at hslice
    · rename_i hfits
      obtain rfl := Option.some.inj hslice
      split at hbs
      · obtain rfl := Option.some.inj hbs
        exact ⟨hfits.2, by simp⟩
      · exact absurd hbs.symm (Option.some_ne_none bs)
    · exact absurd hslice.symm (Option.some_ne_none iov)

/-- The loop sends slices of the blocks. -/
theorem sendReadData_posts {len mdsl fuel offset : Nat} {dataSN : UInt32}
    (hsize : size < 2147483648) (hf : s.dev.mem .media = f) :
    ensures (sendReadData c [⟨.media, base, size⟩] len mdsl fuel offset dataSN)
      (fun _ s' => Posts (Supplied f base size) s s') s := by
  induction fuel generalizing offset dataSN s with
  | zero => trivial
  | succ fuel ih =>
    have hrefl : Posts (Supplied f base size) s s := refl s
    rw [sendReadData]
    refine (wp_ite _ _ _).mpr ⟨fun hlt => ?_, fun _ => hrefl⟩
    rw [pduLength_eq]
    set n := segmentLength mdsl len offset with hn
    have hpos : 0 < n := segmentLength_pos hlt
    have hle : offset + n ≤ len := segmentLength_le hlt.le
    dsimp only
    rcases hslice : (if n ≠ len then modifyIov [⟨.media, base, size⟩] offset n
      else some [⟨.media, base, size⟩]) with _ | iov
    · exact hrefl
    dsimp only
    obtain ⟨r, hgather, hr⟩ := gather_slice hsize hlt hle hpos hslice s
    rw [wp_bind, wp_getSeq, wp_bind, wp_getCmd, wp_bind, wp, hgather]
    dsimp only
    set d := { ReadData.zero with
      length := UInt32.ofNat n, final := offset + n = len
      taskTag := (s.slot.pool.cmdMem c).scsiCmd.tag, expCmdSN := s.slot.seq.expCmdSN
      maxCmdSN := s.slot.seq.maxCmdSN, dataSN, offset := UInt32.ofNat offset } with hd
    have hsupplied (bs : Bytes) (ok : Bool) (hbs : ok = true → r = some bs) :
        Supplied f base size ⟨.readData d, bs, ok⟩ := by
      cases ok with
      | false => exact supplied_failed
      | true =>
        obtain ⟨hin, rfl⟩ := hr bs (hbs rfl)
        have hoff : d.offset.toNat = offset :=
          UInt32.toNat_ofNat_of_lt' (show _ < 4294967296 by omega)
        exact hf ▸ supplied_read rfl hoff hin
    refine (wp_bind _ _).mpr (wp_mono (sendLeaky_spec _ r s) ?_ fun _ _ _ => trivial)
    rintro ok s₁ ⟨⟨bs, k, b, rfl, hbs⟩, -⟩
    have hsent : Posts (Supplied f base size) s (s.setConn { s.slot.conn with
        tx := s.slot.conn.tx.drop k, slock := b
        sent := s.slot.conn.sent ++ [⟨.readData d, bs, ok⟩] }) :=
      ⟨_, rfl, fun x hx => List.mem_singleton.mp hx ▸ hsupplied bs ok hbs⟩
    refine (wp_ite _ _ _).mpr ⟨fun _ => hsent, fun _ => ?_⟩
    rw [wp_bind, wp_modifyScsi]
    refine ensures.mono (ih ?_) fun _ _ h => hsent.after rfl h
    exact hf

/-- The first half of `device_command_done`.  A command that sends data has the blocks for its
gather list. -/
theorem sendInput_posts (hsize : size < 2147483648) (hf : s.dev.mem .media = f)
    (hc : (s.slot.pool.cmdMem c).scsiCmd.status = 0 →
      (s.slot.pool.cmdMem c).gatherList = [⟨.media, base, size⟩] ∧
        (s.slot.pool.cmdMem c).scsiCmd.sendSgLen ≠ 0) :
    ensures (sendInput c) (fun _ s' => Posts (Supplied f base size) s s') s := by
  rw [sendInput, ensures, wp_bind, wp_getCmd]
  refine (wp_ite _ _ _).mpr ⟨fun h => ?_, fun _ => (refl s : Posts _ s s)⟩
  simp only [Bool.and_eq_true, decide_eq_true_eq] at h
  obtain ⟨hlist, hlen⟩ := hc h.1
  rw [wp_bind, wp_getLogin, if_pos hlen, hlist]
  exact sendReadData_posts hsize hf

instance posts_sendResponse (dataSN : UInt32) :
    Within (Posts (Supplied f base size)) (sendResponse c dataSN) := by
  have hsend (r : ScsiRsp) (data : Option Bytes) :
      Within (Posts (Supplied f base size)) (sendLeaky (.scsiRsp r) data) :=
    posts_sendLeaky (fun _ _ _ hd => TargetPdu.noConfusion hd) data
  unfold sendResponse
  infer_instance

/-- `device_command_done`. -/
theorem deviceCommandDone_posts (hsize : size < 2147483648) (hf : s.dev.mem .media = f)
    (hc : (s.slot.pool.cmdMem c).scsiCmd.status = 0 →
      (s.slot.pool.cmdMem c).gatherList = [⟨.media, base, size⟩]) :
    ensures (deviceCommandDone c) (fun _ s' => Posts (Supplied f base size) s s') s := by
  rw [deviceCommandDone, ensures, wp_bind, wp_getCmd]
  refine (wp_ite _ _ _).mpr ⟨fun _ => trivial, fun _ => ?_⟩
  rw [wp_bind, wp_modifyScsi, wp_bind]
  set s₁ := s.setCmd c { s.slot.pool.cmdMem c with
    scsiCmd := { (s.slot.pool.cmdMem c).scsiCmd with
      sendData := true, sendSgLen := (s.slot.pool.cmdMem c).gatherList.length
      bytesFromdev := 0 } } with hs₁
  have hself : s₁.slot.pool.cmdMem c = { s.slot.pool.cmdMem c with
      scsiCmd := { (s.slot.pool.cmdMem c).scsiCmd with
        sendData := true, sendSgLen := (s.slot.pool.cmdMem c).gatherList.length
        bytesFromdev := 0 } } := Function.update_self ..
  refine (@sendInput_posts c base size s₁ f hsize hf fun hstatus => ?_).mono fun r s₂ h₁ => ?_
  · rw [hself] at hstatus ⊢
    exact ⟨hc hstatus, by simp [hc hstatus]⟩
  have h₁ : Posts (Supplied f base size) s s₂ := h₁
  rcases r with _ | dataSN
  · exact h₁
  · have hrest : Within (Posts (Supplied f base size)) (do
        if !(← sendResponse c dataSN) then return -1
        retire c : Handler Int) := inferInstance
    exact (hrest.run s₂).mono fun _ _ h₂ => Trans.trans h₁ h₂

/-- `command_done` for a command that is not a new trace file, on a disk whose buffers are the
medium. -/
theorem commandDone_posts (hst : DiskType.staged s.dev.cfg = false)
    (hop : byte (s.slot.pool.cmdMem c).scsiCmd.cdb 0 ≠ opTracingSet)
    (hsize : size < 2147483648) (hf : s.dev.mem .media = f)
    (hc : (s.slot.pool.cmdMem c).scsiCmd.status = 0 →
      (s.slot.pool.cmdMem c).gatherList = [⟨.media, base, size⟩]) :
    ensures (commandDone id c) (fun _ s' => Posts (Supplied f base size) s s') s := by
  have hopen : openTraceFile (s.slot.pool.cmdMem c).scsiCmd = pure true := if_neg (by simp [hop])
  rw [commandDone, ensures, wp_bind, wp_getCmd, hopen, wp_bind, wp_pure]
  refine (wp_ite _ _ _).mpr ⟨fun h => absurd h (by decide), fun _ => ?_⟩
  rw [wp_bind]
  refine (writeOut_direct hst).mono fun _ s₀ hs₀ => ?_
  rw [hs₀, wp_bind, wp_guarded]
  refine ⟨fun _ => trivial, fun _ => ?_⟩
  rw [wp_bind, wp_getCmd, wp_bind, wp_logDev, wp_bind]
  have hrest (rc : Int) (op : UInt8) : Within (Posts (Supplied f base size)) (do
      guarded (rc ≠ 0) (halt .exit)
      if !(← releaseBuffers c) then return -1
      guarded (op = opTargetExit) (halt .exit)
      return 0 : Handler Int) := inferInstance
  refine (deviceCommandDone_posts (s := s.setDev { s.dev with
    log := s.dev.log ++ [.callback id c (s.slot.pool.cmdMem c)] }) hsize hf hc).mono
      fun rc s₁ h₁ => ?_
  exact ((hrest rc _).run s₁).mono fun _ _ h₂ => Trans.trans (show Posts _ s s₁ from h₁) h₂

/-! ## The LUN worker -/

/-- The outcome of a command that replies with no data. -/
theorem finishWith_posts {status : UInt8} (hst : DiskType.staged s.dev.cfg = false)
    (hop : byte (s.slot.pool.cmdMem c).scsiCmd.cdb 0 ≠ opTracingSet) (hsize : size < 2147483648)
    (hf : s.dev.mem .media = f) (hstatus : status ≠ 0) :
    ensures (finishWith id c status) (fun _ s' => Posts (Supplied f base size) s s') s := by
  rw [finishWith, ensures, wp_bind, wp_modifyScsi, finish, wp_bind, wp_getCmd, wp_bind]
  set s₁ := s.setCmd c { s.slot.pool.cmdMem c with
    scsiCmd := { (s.slot.pool.cmdMem c).scsiCmd with status, length := 0 } } with hs₁
  have hself : s₁.slot.pool.cmdMem c = { s.slot.pool.cmdMem c with
      scsiCmd := { (s.slot.pool.cmdMem c).scsiCmd with status, length := 0 } } :=
    Function.update_self ..
  rw [wp_guarded]
  refine ⟨fun h => ?_, fun _ => ?_⟩
  · rw [hself] at h
    simp at h
  · refine (@commandDone_posts id c base size s₁ f hst ?_ hsize hf fun h => ?_).mono fun _ _ h => h
    · rwa [hself]
    · rw [hself] at h
      exact absurd h hstatus

/-- How `disk_read` ends: it refuses, or the blocks become the gather list of the command. -/
inductive DiskReadEnd (c lba len : Nat) (s : Local) : Option Nat → Local → Prop where
  | refused : DiskReadEnd c lba len s none s
  | found {n : Nat} {s' : Local} (hpast : pastEnd s.dev.cfg lba len = false)
    (hsent : outgoing s' = outgoing s) (hlist : (s'.slot.pool.cmdMem c).gatherList =
      [⟨.media, lba * s.dev.cfg.blockLen, w32 (len * s.dev.cfg.blockLen)⟩]) :
    DiskReadEnd c lba len s (some n) s'

theorem DiskReadEnd.of_setCmd {lba len n : Nat} {s₁ : Local}
    (hpast : pastEnd s.dev.cfg lba len = false) (hsent : outgoing s₁ = outgoing s) :
    DiskReadEnd c lba len s (some n) (s₁.setCmd c { s₁.slot.pool.cmdMem c with
      gatherList := [⟨.media, lba * s.dev.cfg.blockLen, w32 (len * s.dev.cfg.blockLen)⟩] }) :=
  .found hpast hsent (by simp [Local.setCmd, Local.setPool])

/-- What `disk_read` does on a disk whose buffers are the medium. -/
theorem diskRead_end {lba len : Nat} (hst : DiskType.staged s.dev.cfg = false) :
    ensures (diskRead c lba len) (DiskReadEnd c lba len s) s := by
  rw [diskRead, ensures, wp_bind, wp_getDev]
  refine (wp_ite _ _ _).mpr ⟨fun _ => .refused, fun _ => ?_⟩
  refine (wp_ite _ _ _).mpr ⟨fun _ => .refused, fun hpast => ?_⟩
  refine (wp_ite _ _ _).mpr ⟨fun _ => .refused, fun _ => ?_⟩
  have hpast : pastEnd s.dev.cfg lba len = false := by simpa using hpast
  rw [wp_bind, readAllocateSpace, wp_bind, wp_getDev]
  dsimp only
  cases htype : s.dev.cfg.type with
  | ram =>
    dsimp only
    rw [wp_bind, wp_modifyScsi, wp_pure]
    dsimp only
    rw [wp_bind, wp_modifyCmd, wp_pure]
    exact .of_setCmd hpast rfl
  | fs | sd =>
    dsimp only
    rw [wp_bind, nextIo, wp_onDev]
    refine (wp_ite _ _ _).mpr ⟨fun _ => trivial, fun _ => ?_⟩
    rw [wp_bind, wp_modifyCmd, wp_bind, wp_modifyScsi, wp_pure]
    dsimp only
    rw [wp_bind, wp_modifyCmd, wp_pure]
    exact .of_setCmd hpast rfl
  | raw | sg | ctrl => simp [DiskType.staged, htype] at hst

/-- The blocks of a read that is on the medium are less than 2 GiB. -/
theorem readRange_lt {cdb : Bytes} {r : Nat × Nat} (h : readRange cdb = some r) : r.2 < 65536 := by
  unfold readRange at h
  split at h
  · obtain rfl := Option.some.inj h
    exact len6_lt cdb
  · split at h
    · obtain rfl := Option.some.inj h
      exact be16_lt cdb 7
    · exact absurd h (Option.some_ne_none r).symm

/-- `READ_6` and `READ_10` from the moment on at which the blocks are known. -/
theorem readDone_posts {lba len n : Nat} {s₁ : Local} (hst : DiskType.staged s.dev.cfg = false)
    (hop : byte (s.slot.pool.cmdMem c).scsiCmd.cdb 0 ≠ opTracingSet) (hlen : len < 65536)
    (hf : s.dev.mem .media = f) (hsent : outgoing s₁ = outgoing s)
    (hlist : (s₁.slot.pool.cmdMem c).gatherList =
      [⟨.media, lba * s.dev.cfg.blockLen, w32 (len * s.dev.cfg.blockLen)⟩])
    (hk : Keeps ledger s s₁) :
    ensures (do
      modifyScsi c fun a => { a with status := 0, fromdev := true, length := n }
      commandDone id c) (fun _ s' =>
        Posts (Supplied f (lba * s.dev.cfg.blockLen) (len * s.dev.cfg.blockLen)) s s') s₁ := by
  have hshelf : Keeps shelf s s₁ := congrArg Prod.fst hk
  have hcfg := cfg_of_shelf hshelf
  have hcdb : (s₁.slot.pool.cmdMem c).scsiCmd.cdb = (s.slot.pool.cmdMem c).scsiCmd.cdb :=
    congrArg (fun l => l.1) (load_of_shelf hshelf c)
  have hmedia : s₁.dev.mem .media = f := (congrArg (fun g => g.1) hshelf).trans hf
  have hbytes : len * s.dev.cfg.blockLen < 2147483648 := blocks_lt hlen
  rw [show w32 (len * s.dev.cfg.blockLen) = len * s.dev.cfg.blockLen from
    Nat.mod_eq_of_lt (by omega)] at hlist
  rw [ensures, wp_bind, wp_modifyScsi]
  set s₂ := s₁.setCmd c { s₁.slot.pool.cmdMem c with
    scsiCmd := { (s₁.slot.pool.cmdMem c).scsiCmd with
      status := 0, fromdev := true, length := n } } with hs₂
  have hself : s₂.slot.pool.cmdMem c = { s₁.slot.pool.cmdMem c with
      scsiCmd := { (s₁.slot.pool.cmdMem c).scsiCmd with
        status := 0, fromdev := true, length := n } } := Function.update_self ..
  refine (@commandDone_posts id c (lba * s.dev.cfg.blockLen) (len * s.dev.cfg.blockLen) s₂ f ?_ ?_
    hbytes hmedia fun _ => ?_).mono fun _ _ h => ?_
  · change DiskType.staged s₁.dev.cfg = false
    rwa [hcfg]
  · rw [hself]
    exact hcdb ▸ hop
  · rw [hself]
    exact hlist
  · have hrefl : Posts (Supplied f (lba * s.dev.cfg.blockLen) (len * s.dev.cfg.blockLen)) s s :=
      refl s
    exact hrefl.after hsent h

/-- A read is not a write, and not a new trace file. -/
theorem op_of_readRange {cdb : Bytes} {r : Nat × Nat} (h : readRange cdb = some r) :
    (byte cdb 0 = opRead6 ∧ r = (lba6 cdb, len6 cdb)) ∨
      byte cdb 0 = opRead10 ∧ r = (lba10 cdb, len10 cdb) := by
  unfold readRange at h
  split at h
  · rename_i hop
    exact .inl ⟨hop, (Option.some.inj h).symm⟩
  · split at h
    · rename_i hop
      exact .inr ⟨hop, (Option.some.inj h).symm⟩
    · exact absurd h (Option.some_ne_none r).symm

/-- `READ_6` in the switch of `device_command`. -/
theorem deviceOp_read6 (cfg : DiskConfig) (a : ScsiCmd) : deviceOp id c cfg a opRead6 = (do
    match ← diskRead c (lba6 a.cdb) (len6 a.cdb) with
    | none => finishWith id c 2
    | some n =>
      modifyScsi c fun a => { a with status := 0, fromdev := true, length := n }
      commandDone id c : Handler Int) := by
  unfold deviceOp
  exact (if_neg (by decide)).trans <| (if_neg (by decide)).trans <| (if_neg (by decide)).trans <|
    (if_neg (by decide)).trans (if_pos rfl)

/-- `READ_10` in the switch of `device_command`. -/
theorem deviceOp_read10 (cfg : DiskConfig) (a : ScsiCmd) : deviceOp id c cfg a opRead10 = (do
    match ← diskRead c (lba10 a.cdb) (len10 a.cdb) with
    | none => halt .exit
    | some n =>
      modifyScsi c fun a => { a with status := 0, fromdev := true, length := n }
      commandDone id c : Handler Int) := by
  unfold deviceOp
  exact (if_neg (by decide)).trans <| (if_neg (by decide)).trans <| (if_neg (by decide)).trans <|
    (if_neg (by decide)).trans <| (if_neg (by decide)).trans <| (if_neg (by decide)).trans
      (if_pos rfl)

/-- What the LUN worker sends for a read that it takes. -/
theorem lunWorker_posts {r : Nat × Nat} (hst : DiskType.staged s.dev.cfg = false)
    (ha : Aimed s.dev.cfg (s.slot.pool.cmdMem c)) (hf : s.dev.mem .media = f)
    (hread : readRange (s.slot.pool.cmdMem c).scsiCmd.cdb = some r) :
    ensures (lunWorker id c) (fun _ s' =>
      Posts (Supplied f (r.1 * s.dev.cfg.blockLen) (r.2 * s.dev.cfg.blockLen)) s s') s := by
  set a := (s.slot.pool.cmdMem c).scsiCmd with haCmd
  have hop := op_of_readRange hread
  have hlt := readRange_lt hread
  have hset : byte a.cdb 0 ≠ opTracingSet := by
    rcases hop with ⟨h, -⟩ | ⟨h, -⟩ <;> rw [h] <;> decide
  -- a command with a buffer is a write or a new trace file
  have hun : Untouched (s.slot.pool.cmdMem c) := by
    refine ha.untouched ((ha.buffer.imp And.left fun h => h).resolve_right ?_)
    rintro ⟨v, -, ⟨q, hq, -⟩ | ⟨hop', -⟩⟩
    · obtain ⟨p, hp, -⟩ := Option.bind_eq_some_iff.mp hq
      rw [writeRange] at hp
      rcases hop with ⟨h, -⟩ | ⟨h, -⟩ <;> rw [h, if_neg (by decide), if_neg (by decide)] at hp <;>
        exact absurd hp (Option.some_ne_none p).symm
    · exact hset hop'
  rw [lunWorker, ensures, wp_bind, wp_getCmd]
  refine (wp_ite _ _ _).mpr
    ⟨fun hd => absurd (hun.done.symm.trans hd) Bool.false_ne_true, fun _ => ?_⟩
  rw [wp_bind, deviceCommand, wp_bind, wp_getDev, wp_bind, wp_getCmd]
  refine (wp_ite _ _ _).mpr ⟨fun _ => trivial, fun _ => ?_⟩
  have hbytes : r.2 * s.dev.cfg.blockLen < 2147483648 := blocks_lt hlt
  refine (wp_ite _ _ _).mpr ⟨fun _ => ?_, fun _ => ?_⟩
  · rcases hop with ⟨h, rfl⟩ | ⟨h, rfl⟩
    · rw [← haCmd, h, deviceOp_read6, wp_bind]
      refine ensures.mono ((ledger_diskRead _ _).and_wp (diskRead_end hst)) ?_
      rintro o s₁ ⟨hend, hk⟩
      cases hend with
      | refused => exact finishWith_posts hst hset hbytes hf (by decide)
      | found hpast hsent hlist => exact readDone_posts hst hset hlt hf hsent hlist hk
    · rw [← haCmd, h, deviceOp_read10, wp_bind]
      refine ensures.mono ((ledger_diskRead _ _).and_wp (diskRead_end hst)) ?_
      rintro o s₁ ⟨hend, hk⟩
      cases hend with
      | refused => trivial
      | found hpast hsent hlist => exact readDone_posts hst hset hlt hf hsent hlist hk
  · refine (wp_ite _ _ _).mpr ⟨fun h => ?_, fun _ => ?_⟩
    · rcases hop with ⟨h', -⟩ | ⟨h', -⟩ <;> exact absurd (h'.symm.trans h) (by decide)
    · rw [wp_bind, wp_modifyScsi]
      set s₁ := s.setCmd c { s.slot.pool.cmdMem c with
        scsiCmd := { (s.slot.pool.cmdMem c).scsiCmd with fromdev := false } } with hs₁
      have hset₁ : byte (s₁.slot.pool.cmdMem c).scsiCmd.cdb 0 ≠ opTracingSet := by
        simpa [hs₁, Local.setCmd, Local.setPool] using hset
      have hrefl : Posts (Supplied f (r.1 * s.dev.cfg.blockLen) (r.2 * s.dev.cfg.blockLen)) s s :=
        refl s
      exact (finishWith_posts (s := s₁) hst hset₁ hbytes hf (by decide)).mono fun _ _ h =>
        hrefl.after rfl h

end Loop

end Ost.Target
