import Ost.Disk.Medium

/-!
# What is stored for a command

The programs of the device that take a command from the queue, along `Stores`: the immediate data of
a write are stored in its blocks, a write with all its data is reported with them, and no other
command changes the medium.
-/

namespace Ost.Disk

open Ost.Iscsi Ost.Util Ost.Param Ost.Prog Ost.Target

variable {id c : Nat} {s s' : Local}

/-- The immediate data are stored at the beginning of the buffer. -/
theorem copyImmediate_stores {v : Iov} (hlist : (s.slot.pool.cmdMem c).scatterList = [v])
    (hgot : (s.slot.pool.cmdMem c).got = [])
    (hv : Buffer s.dev.cfg (s.slot.pool.cmdMem c).scsiCmd.cdb v)
    (hdone : (s.slot.pool.cmdMem c).done = true → (s.slot.pool.cmdMem c).ready = true) :
    ensures (copyImmediate c) (fun _ s' => Stores id c s s' ∧ s'.dev.log = s.dev.log ∧
      (s'.slot.pool.cmdMem c).ready = (s.slot.pool.cmdMem c).ready ∧
      (s'.slot.pool.cmdMem c).scatterList = [v]) s := by
  simp only [copyImmediate, poke, onMem, ensures, wp_bind, wp_getCmd, wp_modifyDev, wp_guarded,
    wp_halt, wp_modifyCmd]
  refine ⟨fun _ => trivial, fun hle => ?_⟩
  rw [hlist, List.headD_cons, Nat.not_lt] at hle
  rw [hlist, List.headD_cons, Nat.min_eq_right hle]
  have hlen : (immediateData (s.slot.pool.cmdMem c) (s.slot.pool.cmdMem c).scsiCmd.length).length =
      (s.slot.pool.cmdMem c).scsiCmd.length := by simp [immediateData]
  obtain ⟨hmedia, hin⟩ := @Buffer.write _ _ (immediateData (s.slot.pool.cmdMem c)
    (s.slot.pool.cmdMem c).scsiCmd.length) v 0 hv (by omega) s.dev.mem
  refine ⟨.of_setCmd rfl ?_ hin hmedia ⟨.inr ⟨v, hlist, hv⟩, fun _ h => ?_, hdone⟩, rfl, ?_, ?_⟩
  · rw [hgot]
    rfl
  · exact absurd (hlist.symm.trans h) (List.cons_ne_nil _ _)
  · simp [Local.setCmd, Local.setPool, Local.setDev]
  · simp [Local.setCmd, Local.setPool, Local.setDev, hlist]

/-- The data that are asked for may come. -/
theorem targetTransferData_stores (enqueue : Nat → Handler Int)
    (hmissing : sub32 (s.slot.pool.cmdMem c).scsiCmd.transLen
      (s.slot.pool.cmdMem c).scsiCmd.bytesTodev ≠ 0)
    (hlist : (s.slot.pool.cmdMem c).scatterList ≠ [])
      (ha : Aimed s.dev.cfg (s.slot.pool.cmdMem c)) :
    ensures (targetTransferData enqueue c) (fun rc s' => Stores id c s s' ∧
      (rc ≠ 0 → (s'.slot.pool.cmdMem c).ready = (s.slot.pool.cmdMem c).ready)) s := by
  simp only [targetTransferData, ensures, wp_bind, wp_getCmd, if_neg hmissing]
  refine ((ledger_requestData c).run s).mono fun ok s₁ h₁ => ?_
  have hload := load_of_shelf (congrArg Prod.fst h₁ : Keeps shelf s s₁) c
  have hstores : Stores id c s s₁ := .of_filing (.of_ledger h₁) ha
  rcases ok with _ | _
  · exact ⟨hstores, fun _ => congrArg (fun l => l.2.2.2.1) hload⟩
  · simp only [Bool.not_true, Bool.false_eq_true, if_false, wp_bind, wp_modifyCmd, wp_pure]
    refine ⟨.of_front (front_of_ledger h₁) ?_, fun h => absurd rfl h⟩
    have ha₁ := hstores.aimed
    rw [← hstores.cfg] at ha₁
    have hlist₁ : (s₁.slot.pool.cmdMem c).scatterList ≠ [] := by
      have h := congrArg (fun l => l.2.2.1) hload
      exact fun hnil => hlist (h.symm.trans hnil)
    refine @Stores.of_setCmd _ _ s₁ _ s₁.dev.mem [] rfl (List.append_nil _).symm inSpan_nil ?_ ?_
    · rw [storeData_nil]
    · exact ⟨ha₁.buffer, fun _ => hlist₁, fun _ => rfl⟩

/-- What `prepare_write` does from the label `transfer` on. -/
theorem prepareTransfer_stores {v : Iov} (hst : DiskType.staged s.dev.cfg = false)
    (hlist : (s.slot.pool.cmdMem c).scatterList = [v]) (hgot : (s.slot.pool.cmdMem c).got = [])
    (hv : Buffer s.dev.cfg (s.slot.pool.cmdMem c).scsiCmd.cdb v)
    (hdone : (s.slot.pool.cmdMem c).done = true → (s.slot.pool.cmdMem c).ready = true) :
    ensures (prepareTransfer id c) (fun rc s' => Stores id c s s' ∧
      (rc ≠ 0 → (s'.slot.pool.cmdMem c).ready = (s.slot.pool.cmdMem c).ready)) s := by
  simp only [prepareTransfer, ensures, wp_bind]
  refine (@copyImmediate_stores id c s v hlist hgot hv hdone).mono fun _ s₁ hcopy => ?_
  obtain ⟨h₁, hlog, hready, hlist₁⟩ := hcopy
  have ha₁ : Aimed s₁.dev.cfg (s₁.slot.pool.cmdMem c) := h₁.cfg ▸ h₁.aimed
  simp only [wp_bind, wp_getCmd, wp_ite, wp_pure]
  refine ⟨fun hmore => ?_, fun _ => ?_⟩
  · have hmissing := (Bool.and_eq_true_iff.mp hmore).2
    refine (@targetTransferData_stores id c s₁ (lunEnqueue id) (by simpa using hmissing)
      (hlist₁ ▸ List.cons_ne_nil _ _) ha₁).mono fun rc s₂ htransfer => ?_
    obtain ⟨h₂, hready₂⟩ := htransfer
    have h₁₂ := h₁.trans hlog hready h₂
    exact ⟨fun hrc => ⟨h₁₂, fun _ => (hready₂ hrc).trans hready⟩,
      fun _ => ⟨h₁₂, fun h => absurd rfl h⟩⟩
  · refine (notes_commandDone.run s₁).mono fun rc s₂ h₂ => ?_
    have hfiling := h₂ (h₁.cfg ▸ hst)
    have h₁₂ := h₁.filing hready hfiling
    have hready₂ : (s₂.slot.pool.cmdMem c).ready = (s.slot.pool.cmdMem c).ready :=
      (congrArg (fun l => l.2.2.2.1) (load_of_shelf hfiling.shelf c)).trans hready
    exact ⟨fun _ => ⟨h₁₂, fun _ => hready₂⟩, fun _ => ⟨h₁₂, fun _ => hready₂⟩⟩

/-- A command that the device has not looked at. -/
structure Untouched (t : TargetCmd) : Prop where
  scatterList : t.scatterList = []
  got : t.got = []
  ready : t.ready = false
  done : t.done = false

/-- A command without a buffer is untouched. -/
theorem Aimed.untouched {cfg : DiskConfig} {t : TargetCmd} (h : Aimed cfg t)
    (hlist : t.scatterList = []) : Untouched t := by
  have hready : t.ready = false := by
    by_contra hne
    exact h.ready (by simpa using hne) hlist
  refine ⟨hlist, ?_, hready, ?_⟩
  · rcases h.buffer with h | ⟨v, hv, _⟩
    · exact h.2
    · exact absurd (hlist.symm.trans hv).symm (List.cons_ne_nil _ _)
  · by_contra hne
    exact absurd (h.done (by simpa using hne)) (by simp [hready])

theorem Untouched.aimed {t : TargetCmd} (h : Untouched t) (cfg : DiskConfig) : Aimed cfg t :=
  ⟨.inl ⟨h.scatterList, h.got⟩, fun hr => absurd (h.ready.symm.trans hr) Bool.false_ne_true,
    fun hd => absurd (h.done.symm.trans hd) Bool.false_ne_true⟩

/-- What `prepare_write` does, once the buffer is known. -/
theorem prepareTransfer_aimed {s₁ : Local} {v : Iov} (hst : DiskType.staged s.dev.cfg = false)
    (h : Untouched (s.slot.pool.cmdMem c)) (hf : front c s₁ = front c s)
    (hv : Buffer s.dev.cfg (s.slot.pool.cmdMem c).scsiCmd.cdb v) :
    ensures (prepareTransfer id c) (fun rc s' => Stores id c s s' ∧
      (rc ≠ 0 → (s'.slot.pool.cmdMem c).ready = (s.slot.pool.cmdMem c).ready))
      (s₁.setCmd c { s₁.slot.pool.cmdMem c with scatterList := [v] }) := by
  set s₂ := s₁.setCmd c { s₁.slot.pool.cmdMem c with scatterList := [v] } with hs₂
  have hself : s₂.slot.pool.cmdMem c = { s₁.slot.pool.cmdMem c with scatterList := [v] } :=
    Function.update_self ..
  have hf₂ : front c s₂ = front c s := by
    rw [← hf, front, front, hself]
    rfl
  have hfront := hf₂
  simp only [front, Prod.mk.injEq] at hfront
  obtain ⟨-, hcfg, -, hcdb, hgot, hready, hdone⟩ := hfront
  refine (prepareTransfer_stores (v := v) (hcfg ▸ hst) (by rw [hself])
    (hgot.trans h.got) ?_ ?_).mono ?_
  · rw [hcfg, hcdb]
    exact hv
  · rw [hdone, h.done]
    exact fun hd => absurd hd Bool.false_ne_true
  · rintro rc s' ⟨h', hr⟩
    exact ⟨h'.of_front hf₂, fun hrc => (hr hrc).trans hready⟩

/-- What `prepare_write` does. -/
theorem prepareWrite_stores {lba len : Nat} (hst : DiskType.staged s.dev.cfg = false)
    (h : Untouched (s.slot.pool.cmdMem c))
    (hr : byte (s.slot.pool.cmdMem c).scsiCmd.cdb 0 = opTracingSet ∨
      writeRange (s.slot.pool.cmdMem c).scsiCmd.cdb = some (lba, len)) :
    ensures (prepareWrite id c lba len) (fun rc s' => Stores id c s s' ∧
      (rc ≠ 0 → (s'.slot.pool.cmdMem c).ready = (s.slot.pool.cmdMem c).ready)) s := by
  have hrefl : Stores id c s s := .of_filing (refl s) (h.aimed _)
  simp only [prepareWrite, ensures, wp_bind, wp_getDev, wp_getCmd, wp_ite, wp_pure, wp_modifyCmd]
  refine ⟨fun hop => ?_, fun hop => ⟨fun _ => ⟨hrefl, fun _ => trivial⟩, fun hpast => ?_⟩⟩
  · exact prepareTransfer_aimed hst h rfl (.inr ⟨hop, rfl, by decide⟩)
  have hrange := hr.resolve_left hop
  have hspan : writeSpan s.dev.cfg (s.slot.pool.cmdMem c).scsiCmd.cdb =
      some (lba * s.dev.cfg.blockLen, len * s.dev.cfg.blockLen) := by
    rw [writeSpan, hrange, Option.bind_some, if_neg (by simpa using hpast)]
  have hw : w32 (len * s.dev.cfg.blockLen) = len * s.dev.cfg.blockLen := by
    have hlt := writeSpan_lt hspan
    exact Nat.mod_eq_of_lt (by dsimp only at hlt; omega)
  have hbuffer : Buffer s.dev.cfg (s.slot.pool.cmdMem c).scsiCmd.cdb
      ⟨.media, lba * s.dev.cfg.blockLen, w32 (len * s.dev.cfg.blockLen)⟩ :=
    .inl ⟨_, hspan, by rw [hw]⟩
  have hprivate (s : Local) : front c (s.setCmd c { s.slot.pool.cmdMem c with
      scsiCmd := { (s.slot.pool.cmdMem c).scsiCmd with lba, len } }) = front c s :=
    front_of_ledger ((ledger_modifyScsi c fun _ => rfl :
      Within (Keeps ledger) (modifyScsi c fun a => { a with lba, len })).run s)
  have htype (s : Local) : front c (s.setCmd c { s.slot.pool.cmdMem c with
      scatterType := .mapped }) = front c s :=
    front_of_ledger ((ledger_modifyCmd c fun _ => rfl :
      Within (Keeps ledger) (modifyCmd c fun t => { t with scatterType := .mapped })).run s)
  simp only [writeAllocateSpace, wp_bind, wp_getDev, wp_ite, wp_modifyScsi, wp_pure, hst,
    Bool.false_eq_true]
  refine ⟨fun _ => ?_, fun _ => ⟨fun hf => hf.elim, fun _ => ?_⟩⟩
  · exact prepareTransfer_aimed hst h (hprivate s) hbuffer
  · simp only [nextIo, wp_onDev, wp_halt, wp_modifyCmd]
    refine ⟨fun _ => trivial, fun _ => ?_⟩
    exact prepareTransfer_aimed hst h ((hprivate _).trans (htype _)) hbuffer

/-- What `WRITE_6` and `WRITE_10` do. -/
theorem deviceWrite_stores {lba len : Nat} {status : UInt8}
    (hst : DiskType.staged s.dev.cfg = false) (h : Untouched (s.slot.pool.cmdMem c))
    (hr : writeRange (s.slot.pool.cmdMem c).scsiCmd.cdb = some (lba, len)) :
    ensures (deviceWrite id c lba len status) (fun _ s' => Stores id c s s') s := by
  have hstatus : Within (Keeps ledger) (modifyScsi c fun a => { a with status }) :=
    ledger_modifyScsi c fun _ => rfl
  have hlength : Within (Keeps ledger) (modifyScsi c fun a => { a with length := 0 }) :=
    ledger_modifyScsi c fun _ => rfl
  simp only [deviceWrite, ensures, wp_bind]
  refine (@prepareWrite_stores id c s lba len hst h (.inr hr)).mono fun rc s₁ h₁ => ?_
  have hguard : Within (Keeps ledger) (guarded (rc ≠ 0) (modifyScsi c fun a =>
      { a with status })) := inferInstance
  refine (hguard.run s₁).mono fun _ s₂ h₂ => ?_
  exact (hlength.run s₂).mono fun _ s₃ h₃ => h₁.1.ledger (Trans.trans h₂ h₃)

/-- What the device does for a LUN that exists. -/
theorem deviceOp_stores {cfg : DiskConfig} {a : ScsiCmd} {op : UInt8}
    (hst : DiskType.staged s.dev.cfg = false) (h : Untouched (s.slot.pool.cmdMem c))
    (hcdb : (s.slot.pool.cmdMem c).scsiCmd.cdb = a.cdb) (hop : op = byte a.cdb 0) :
    ensures (deviceOp id c cfg a op) (fun _ s' => Stores id c s s') s := by
  have hnotes {x : Handler Int} (hx : Within (Notes id c) x) :
      ensures x (fun _ s' => Stores id c s s') s :=
    (hx.run s).mono fun _ _ hf => .of_filing (hf hst) (h.aimed _)
  have hread (n : Nat) : Within (Notes id c)
      (modifyScsi c fun a => { a with status := 0, fromdev := true, length := n }) :=
    notes_of_ledger (ledger_modifyScsi c fun _ => rfl)
  have hdisk (lba len : Nat) : Within (Notes id c) (diskRead c lba len) :=
    notes_of_ledger (ledger_diskRead lba len)
  have htracing (b : Bool) : Within (Notes id c) (modifyDev fun d => { d with tracing := b }) :=
    notes_of_ledger (ledger_onDev fun _ => ⟨rfl, rfl, rfl⟩)
  have hwrite : Within (Keeps ledger) (modifyCmd c fun t => { t with isWrite := true }) :=
    ledger_modifyCmd c fun _ => rfl
  unfold deviceOp
  -- one case for each opcode, in the order of the switch
  refine (wp_ite _ _ _).mpr ⟨fun _ => hnotes inferInstance, fun _ => ?_⟩
  refine (wp_ite _ _ _).mpr ⟨fun _ => hnotes (notes_finishReply (fun m => ?_) _), fun _ => ?_⟩
  · simp [inquiryReply]
  refine (wp_ite _ _ _).mpr ⟨fun _ => hnotes (notes_finishReply (fun m => ?_) _), fun _ => ?_⟩
  · simp [capacityReply]
  refine (wp_ite _ _ _).mpr ⟨fun h₁ => ?_, fun hne => ?_⟩
  · have hr : writeRange (s.slot.pool.cmdMem c).scsiCmd.cdb = some (lba6 a.cdb, len6 a.cdb) := by
      rw [hcdb]
      exact if_pos (hop ▸ h₁)
    rw [wp_bind]
    refine (deviceWrite_stores hst h hr).mono fun _ s₁ hs₁ => ?_
    rw [wp_bind]
    exact (hwrite.run s₁).mono fun _ s₂ hs₂ => hs₁.ledger hs₂
  refine (wp_ite _ _ _).mpr ⟨fun _ => hnotes (.bind (hdisk _ _) fun r => ?_), fun _ => ?_⟩
  · rcases r with _ | n
    · infer_instance
    · infer_instance
  refine (wp_ite _ _ _).mpr ⟨fun h₁ => ?_, fun _ => ?_⟩
  · have hr : writeRange (s.slot.pool.cmdMem c).scsiCmd.cdb = some (lba10 a.cdb, len10 a.cdb) := by
      rw [hcdb, writeRange, if_neg (by rwa [← hop]), if_pos (hop ▸ h₁)]
    rw [wp_bind, wp_modifyCmd, wp_bind]
    set s₁ := s.setCmd c { s.slot.pool.cmdMem c with isWrite := true } with hs₁
    have hk : Keeps ledger s s₁ := hwrite.run s
    have hself : s₁.slot.pool.cmdMem c = { s.slot.pool.cmdMem c with isWrite := true } :=
      Function.update_self ..
    refine (@deviceWrite_stores id c s₁ _ _ 2 hst ?_ ?_).mono fun _ s₂ hs₂ =>
      Stores.of_front (front_of_ledger hk) hs₂
    · rw [hself]
      exact ⟨h.scatterList, h.got, h.ready, h.done⟩
    · rw [hself]
      exact hr
  refine (wp_ite _ _ _).mpr ⟨fun _ => hnotes (.bind (hdisk _ _) fun r => ?_), fun _ => ?_⟩
  · rcases r with _ | n
    · infer_instance
    · infer_instance
  have hstatus : Within (Notes id c) (modifyScsi c fun a => { a with status := 0 }) :=
    notes_of_ledger (ledger_modifyScsi c fun _ => rfl)
  refine (wp_ite _ _ _).mpr ⟨fun _ => hnotes inferInstance, fun _ => ?_⟩
  refine (wp_ite _ _ _).mpr ⟨fun _ => hnotes (notes_finishReply (fun m => ?_) _), fun _ => ?_⟩
  · simp [modeSenseReply]
  have hluns (n : Nat) : Within (Notes id c) (modifyScsi c fun a =>
      { a with status := 0, transLen := n, length := n, fromdev := true }) :=
    notes_of_ledger (ledger_modifyScsi c fun _ => rfl)
  have hreply : Within (Notes id c) (onMem (reportLunsReply cfg a.transLen)) :=
    notes_of_ledger (ledger_onMem fun _ => media_reportLunsReply ..)
  refine (wp_ite _ _ _).mpr ⟨fun _ => hnotes inferInstance, fun _ => ?_⟩
  refine (wp_ite _ _ _).mpr ⟨fun _ => hnotes inferInstance, fun _ => ?_⟩
  refine (wp_ite _ _ _).mpr ⟨fun _ => hnotes inferInstance, fun _ => ?_⟩
  refine (wp_ite _ _ _).mpr ⟨fun _ => hnotes inferInstance, fun _ => ?_⟩
  refine (wp_ite _ _ _).mpr ⟨fun h₁ => ?_, fun _ => hnotes inferInstance⟩
  rw [wp_bind, wp_modifyDev, wp_bind]
  set s₁ := s.setDev { s.dev with tracing := true } with hs₁
  refine (@prepareWrite_stores id c s₁ 0 0 hst h (.inl (by rw [← h₁, hop, ← hcdb]; rfl))).mono
    ?_
  rintro rc s₂ ⟨hprep, hready⟩
  have hs₂ : Stores id c s s₂ := @Stores.of_front id c s s₁ s₂ rfl hprep
  refine (wp_ite _ _ _).mpr ⟨fun hrc => ?_, fun _ => ?_⟩
  · exact ((notes_finishWith 2).run s₂).mono fun _ s₃ hs₃ =>
      hs₂.filing (hready hrc) (hs₃ (hs₂.cfg ▸ hst))
  · have hlength : Within (Keeps ledger) (modifyScsi c fun a => { a with length := 0 }) :=
      ledger_modifyScsi c fun _ => rfl
    rw [wp_bind]
    exact (hlength.run s₂).mono fun _ s₃ hs₃ => hs₂.ledger hs₃

/-- What `device_command` does. -/
theorem deviceCommand_stores (hst : DiskType.staged s.dev.cfg = false)
    (h : Aimed s.dev.cfg (s.slot.pool.cmdMem c)) :
    ensures (deviceCommand id c)
      (fun _ s' => (s.slot.pool.cmdMem c).scatterList = [] ∧ Stores id c s s') s := by
  rw [deviceCommand, ensures, wp_bind, wp_getDev, wp_bind, wp_getCmd]
  refine (wp_ite _ _ _).mpr ⟨fun _ => trivial, fun hopen => ?_⟩
  simp only [Bool.or_eq_true, not_or, decide_eq_true_eq, not_not] at hopen
  have hlist : (s.slot.pool.cmdMem c).scatterList = [] := hopen.1.1.2
  have hun := h.untouched hlist
  have hnotes {x : Handler Int} (hx : Within (Notes id c) x) :
      ensures x (fun _ s' => (s.slot.pool.cmdMem c).scatterList = [] ∧ Stores id c s s') s :=
    (hx.run s).mono fun _ _ hf => ⟨hlist, .of_filing (hf hst) h⟩
  refine (wp_ite _ _ _).mpr ⟨fun _ => ?_, fun _ => ?_⟩
  · exact (deviceOp_stores hst hun rfl rfl).mono fun _ _ hs => ⟨hlist, hs⟩
  refine (wp_ite _ _ _).mpr ⟨fun _ => hnotes (notes_finishReply (fun m => ?_) _), fun _ => ?_⟩
  · simp [noDeviceReply]
  · have hfromdev : Within (Notes id c) (modifyScsi c fun a => { a with fromdev := false }) :=
      notes_of_ledger (ledger_modifyScsi c fun _ => rfl)
    exact hnotes inferInstance

/-- What the LUN worker does.  A command whose data are not all there is untouched before. -/
theorem lunWorker_stores (hst : DiskType.staged s.dev.cfg = false)
    (h : Aimed s.dev.cfg (s.slot.pool.cmdMem c)) :
    ensures (lunWorker id c) (fun _ s' => ((s.slot.pool.cmdMem c).done = false →
      (s.slot.pool.cmdMem c).scatterList = []) ∧ Stores id c s s') s := by
  rw [lunWorker, ensures, wp_bind, wp_getCmd]
  refine (wp_ite _ _ _).mpr ⟨fun hd => ?_, fun _ => ?_⟩
  · rw [wp_bind]
    exact (notes_commandDone.run s).mono fun _ _ hf =>
      ⟨fun hd' => absurd (hd.symm.trans hd') (by decide), .of_filing (hf hst) h⟩
  · rw [wp_bind]
    exact (deviceCommand_stores hst h).mono fun _ _ hs => ⟨fun _ => hs.1, hs.2⟩

end Ost.Disk
