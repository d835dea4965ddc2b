import Ost.Disk.Outcome
import Ost.Target.WriteRequest
import Ost.Util.Patch

/-!
# What the device does to the medium

On a disk whose buffers are the medium itself, in memory or mapped, the data of a write reach the
medium when they are received.  `Stores` says what the device does to the medium for a command: it
stores the data that it adds to those of the command, in the blocks that the command addresses.  All
other programs leave the medium and the data of all commands alone (`ledger`), or call the callback
besides (`Notes`).
-/

namespace Ost.Disk

open Ost.Iscsi Ost.Util Ost.Param Ost.Prog Ost.Target

/-! ## The place of the data -/

/-- The bytes of the medium that a write addresses, if its blocks are on the medium: the first one
and their number. -/
def writeSpan (cfg : DiskConfig) (cdb : Bytes) : Option (Nat × Nat) :=
  (writeRange cdb).bind fun r =>
    if pastEnd cfg r.1 r.2 then none else some (r.1 * cfg.blockLen, r.2 * cfg.blockLen)

/-- The medium after the data `ps` of a command have been stored. -/
def storeData (cfg : DiskConfig) (cdb : Bytes) (ps : List (Nat × Bytes)) (f : Nat → UInt8) :
    Nat → UInt8 :=
  (writeSpan cfg cdb).elim f fun r => patches r.1 ps f

/-- The data `ps` of a command have the place `x` of the medium. -/
def Reaches (cfg : DiskConfig) (cdb : Bytes) (ps : List (Nat × Bytes)) (x : Nat) : Prop :=
  ∃ r ∈ writeSpan cfg cdb, Hit r.1 ps x

/-- The data `ps` lie in the blocks that the command addresses. -/
def InSpan (cfg : DiskConfig) (cdb : Bytes) (ps : List (Nat × Bytes)) : Prop :=
  ∀ r ∈ writeSpan cfg cdb, ∀ p ∈ ps, p.1 + p.2.length ≤ r.2

section Places

variable {cfg : DiskConfig} {cdb : Bytes} {ps qs : List (Nat × Bytes)} {f g : Nat → UInt8} {x : Nat}

theorem storeData_none (h : writeSpan cfg cdb = none) : storeData cfg cdb ps f = f := by
  rw [storeData, h]
  rfl

/-- A write puts its pieces at the offset of its first block. -/
theorem storeData_some {r : Nat × Nat} (h : writeSpan cfg cdb = some r) :
    storeData cfg cdb ps f = patches r.1 ps f := by
  rw [storeData, h]
  rfl

@[simp] theorem storeData_nil : storeData cfg cdb [] f = f := by
  rcases h : writeSpan cfg cdb with _ | r
  · exact storeData_none h
  · exact storeData_some h

/-- Pieces that arrive later are put over those that arrived before. -/
theorem storeData_append :
    storeData cfg cdb (ps ++ qs) f = storeData cfg cdb qs (storeData cfg cdb ps f) := by
  rcases h : writeSpan cfg cdb with _ | r
  · rw [storeData_none h, storeData_none h, storeData_none h]
  · rw [storeData_some h, storeData_some h, storeData_some h, patches_append]

theorem reaches_some {r : Nat × Nat} (h : writeSpan cfg cdb = some r) :
    Reaches cfg cdb ps x ↔ Hit r.1 ps x := by
  simp [Reaches, h]

theorem not_reaches_nil : ¬Reaches cfg cdb [] x := fun ⟨_, _, h⟩ => not_hit_nil h

/-- Two lists of pieces reach what either reaches. -/
theorem reaches_append :
    Reaches cfg cdb (ps ++ qs) x ↔ Reaches cfg cdb ps x ∨ Reaches cfg cdb qs x := by
  simp only [Reaches, hit_append, and_or_left, exists_or]

/-- What is not reached stays as it was. -/
theorem storeData_of_not_reaches (h : ¬Reaches cfg cdb ps x) : storeData cfg cdb ps f x = f x := by
  rcases hr : writeSpan cfg cdb with _ | r
  · rw [storeData_none hr]
  · rw [storeData_some hr, patches_of_not_hit (mt (reaches_some hr).mpr h)]

/-- It does not matter what was where the data are stored. -/
theorem storeData_of_reaches (h : Reaches cfg cdb ps x) :
    storeData cfg cdb ps f x = storeData cfg cdb ps g x := by
  obtain ⟨r, hr, hx⟩ := h
  rw [storeData_some hr, storeData_some hr, patches_of_hit hx]

/-- What a piece covers does not depend on what was there; the rest is what was there. -/
theorem storeData_congr (h : f x = g x) : storeData cfg cdb ps f x = storeData cfg cdb ps g x := by
  rcases hr : writeSpan cfg cdb with _ | r
  · rw [storeData_none hr, storeData_none hr, h]
  · rw [storeData_some hr, storeData_some hr, patches_congr h]

/-- What is reached lies in the blocks of the command. -/
theorem Reaches.inSpan (h : Reaches cfg cdb ps x) (hps : InSpan cfg cdb ps) :
    ∃ r ∈ writeSpan cfg cdb, InPiece x r := by
  obtain ⟨r, hr, hx⟩ := h
  exact ⟨r, hr, hx.lt (hps r hr)⟩

theorem InSpan.append (h : InSpan cfg cdb ps) (h' : InSpan cfg cdb qs) :
    InSpan cfg cdb (ps ++ qs) := fun r hr p hp =>
  (List.mem_append.mp hp).elim (h r hr p) (h' r hr p)

theorem inSpan_nil : InSpan cfg cdb [] := fun _ _ _ hp => absurd hp List.not_mem_nil

end Places

theorem len6_lt (cdb : Bytes) : len6 cdb < 65536 := by
  have := (byte cdb 4).toNat_lt
  unfold len6
  split <;> omega

/-- A ten-byte CDB has at most 65535 blocks, and a six-byte CDB has 256. -/
theorem writeRange_lt {cdb : Bytes} {r : Nat × Nat} (h : writeRange cdb = some r) :
    r.2 < 65536 := by
  unfold writeRange at h
  split at h
  · obtain rfl := Option.some.inj h
    exact len6_lt cdb
  · split at h
    · obtain rfl := Option.some.inj h
      exact be16_lt cdb 7
    · exact absurd h (Option.some_ne_none r).symm

/-- A transfer of fewer than 65536 blocks has less than 2 GiB. -/
theorem blocks_lt {cfg : DiskConfig} {len : Nat} (h : len < 65536) :
    len * cfg.blockLen < 2147483648 := by
  have hbl : cfg.blockLen ≤ 4096 := by
    rcases cfg.blockLen_mem with h | h | h | h <;> omega
  have := Nat.mul_le_mul (Nat.le_of_lt_succ h) hbl
  omega

/-- The length of a write is an `int`. -/
theorem writeSpan_lt {cfg : DiskConfig} {cdb : Bytes} {r : Nat × Nat}
    (h : writeSpan cfg cdb = some r) : r.2 < 2147483648 := by
  obtain ⟨q, hq, h⟩ := Option.bind_eq_some_iff.mp h
  split at h
  · exact absurd h (Option.some_ne_none r).symm
  · obtain rfl := Option.some.inj h
    exact blocks_lt (writeRange_lt hq)

/-- The name of a trace file has no place on the medium. -/
theorem writeSpan_tracingSet {cfg : DiskConfig} {cdb : Bytes} (h : byte cdb 0 = opTracingSet) :
    writeSpan cfg cdb = none := by
  rw [writeSpan, writeRange, h, if_neg (by decide), if_neg (by decide)]
  rfl

/-! ## What stays -/

/-- The data of a command, and what says where they go. -/
def TargetCmd.load (t : TargetCmd) : Bytes × List (Nat × Bytes) × List Iov × Bool × Bool :=
  (t.scsiCmd.cdb, t.got, t.scatterList, t.ready, t.done)

/-- The medium, and the data of all commands. -/
def shelf (s : Local) : (Nat → UInt8) × DiskConfig ×
    (Nat → Bytes × List (Nat × Bytes) × List Iov × Bool × Bool) :=
  (s.dev.mem .media, s.dev.cfg, fun c => TargetCmd.load (s.slot.pool.cmdMem c))

/-- The same, and what happened to the commands. -/
def ledger (s : Local) : ((Nat → UInt8) × DiskConfig ×
    (Nat → Bytes × List (Nat × Bytes) × List Iov × Bool × Bool)) × List DevEvent :=
  (shelf s, s.dev.log)

section Ledger

variable (c : Nat)

/-- Nothing on a connection is part of the ledger. -/
theorem ledger_onConn {α : Type} (f : Conn → α × Conn) : Within (Keeps ledger) (onConn f) :=
  ⟨fun _ => rfl⟩

/-- The device, as long as the medium, the configuration and the log stay. -/
theorem ledger_onDev {α : Type} {f : Device → α × Device}
    (hf : ∀ d, (f d).2.mem .media = d.mem .media ∧ (f d).2.cfg = d.cfg ∧ (f d).2.log = d.log) :
    Within (Keeps ledger) (onDev f) where
  run s := Prod.ext (Prod.ext (hf s.dev).1 (Prod.ext (hf s.dev).2.1 rfl)) (hf s.dev).2.2

/-- A command, as long as its load stays. -/
theorem ledger_modifyCmd {f : TargetCmd → TargetCmd}
    (hf : ∀ t, TargetCmd.load (f t) = TargetCmd.load t) :
    Within (Keeps ledger) (modifyCmd c f) where
  run s := by
    refine Prod.ext (Prod.ext rfl (Prod.ext rfl (funext fun c' => ?_))) rfl
    by_cases hc : c' = c
    · subst hc
      simp [ledger, shelf, Local.setPool, hf]
    · simp [ledger, shelf, Local.setPool, Function.update_of_ne hc]

theorem ledger_modifyScsi {f : ScsiCmd → ScsiCmd} (hf : ∀ a, (f a).cdb = a.cdb) :
    Within (Keeps ledger) (modifyScsi c f) :=
  ledger_modifyCmd c fun t => by simp only [TargetCmd.load, hf]

instance ledger_nextIo : Within (Keeps ledger) nextIo := ledger_onDev fun _ => ⟨rfl, rfl, rfl⟩

instance ledger_modifySeq (f : SeqNums → SeqNums) : Within (Keeps ledger) (modifySeq f) :=
  ⟨fun _ => rfl⟩

instance ledger_lockSession : Within (Keeps ledger) lockSession := by
  have hconn (f : Conn → PUnit × Conn) : Within (Keeps ledger) (onConn f) := ledger_onConn f
  unfold lockSession
  infer_instance

/-- Sending, whether the lock is given back or not. -/
instance ledger_sendLeaky (pdu : TargetPdu) (data : Option Bytes) :
    Within (Keeps ledger) (sendLeaky pdu data) := by
  have hsend : Within (Keeps ledger) (sockSend pdu data) := ledger_onConn _
  have hunlock : Within (Keeps ledger) unlockSession := ledger_onConn _
  unfold sendLeaky
  infer_instance

instance ledger_gather (sg : List Iov) (len : Nat) : Within (Keeps ledger) (gather sg len) :=
  within_gets _

instance ledger_getCmd : Within (Keeps ledger) (getCmd c) := within_gets _

instance ledger_getSeq : Within (Keeps ledger) getSeq := within_gets _

instance ledger_getLogin : Within (Keeps ledger) getLogin := within_gets _

instance ledger_getDev : Within (Keeps ledger) getDev := within_gets _

instance ledger_sendR2ts (fuel transferred remaining : Nat) :
    Within (Keeps ledger) (sendR2ts c fuel transferred remaining) := by
  have hflag : Within (Keeps ledger) (modifyCmd c fun t => { t with r2tFlag := true }) :=
    ledger_modifyCmd c fun _ => rfl
  induction fuel generalizing transferred remaining with
  | zero => exact within_halt _
  | succ fuel ih =>
    unfold sendR2ts
    infer_instance

instance ledger_requestData : Within (Keeps ledger) (requestData c) := by
  unfold requestData
  infer_instance

/-! ### The callback -/

instance ledger_sendReadData (sg : List Iov) (len mdsl fuel offset : Nat) (dataSN : UInt32) :
    Within (Keeps ledger) (sendReadData c sg len mdsl fuel offset dataSN) := by
  have hcount (n : Nat) : Within (Keeps ledger)
      (modifyScsi c fun a => { a with bytesFromdev := w32 (a.bytesFromdev + n) }) :=
    ledger_modifyScsi c fun _ => rfl
  induction fuel generalizing offset dataSN with
  | zero => exact within_halt _
  | succ fuel ih =>
    unfold sendReadData
    split
    · dsimp only
      split <;> infer_instance
    · infer_instance

instance ledger_sendInput : Within (Keeps ledger) (sendInput c) := by
  unfold sendInput
  refine .bind inferInstance fun cmd => ?_
  dsimp only
  split <;> infer_instance

instance ledger_sendResponse (dataSN : UInt32) : Within (Keeps ledger) (sendResponse c dataSN) := by
  unfold sendResponse
  infer_instance

theorem ledger_onPool {α : Type} {f : Pool → α × Pool} (hf : ∀ p, (f p).2.cmdMem = p.cmdMem) :
    Within (Keeps ledger) (onPool f) where
  run s := by
    refine Prod.ext (Prod.ext rfl (Prod.ext rfl (funext fun c' => ?_))) rfl
    exact congrArg (fun m => TargetCmd.load (m c')) (hf s.slot.pool)

/-- A command that goes back to its pool keeps what it holds. -/
instance ledger_retire : Within (Keeps ledger) (retire c) := by
  have hremove (tag : UInt32) : Within (Keeps ledger) (removeOutstanding tag) := by
    unfold removeOutstanding
    refine .bind inferInstance fun _ => .ite _ (ledger_onPool fun p => ?_)
    split <;> rfl
  have hheader (i : Nat) : Within (Keeps ledger) (putHeader i) :=
    ledger_onPool fun p => by split <;> rfl
  have hcmd (i : Nat) : Within (Keeps ledger) (putCmd i) :=
    ledger_onPool fun p => by split <;> rfl
  unfold retire
  infer_instance

/-- The callback of the target. -/
instance ledger_deviceCommandDone : Within (Keeps ledger) (deviceCommandDone c) := by
  have hmark (cmd : TargetCmd) : Within (Keeps ledger) (modifyScsi c fun a =>
      { a with sendData := true, sendSgLen := cmd.gatherList.length, bytesFromdev := 0 }) :=
    ledger_modifyScsi c fun _ => rfl
  unfold deviceCommandDone
  refine .bind inferInstance fun cmd => .ite _ (.bind inferInstance fun _ => ?_)
  refine .bind inferInstance fun r => ?_
  split <;> infer_instance

instance ledger_openTraceFile (a : ScsiCmd) : Within (Keeps ledger) (openTraceFile a) := by
  unfold openTraceFile
  infer_instance

instance ledger_releaseBuffers : Within (Keeps ledger) (releaseBuffers c) := by
  have hput (v : Iov) : Within (Keeps ledger) (putStaging v) :=
    ledger_onDev fun d => by split <;> exact ⟨rfl, rfl, rfl⟩
  have hputs (l : List Iov) : Within (Keeps ledger) (l.forM putStaging) := by
    induction l with
    | nil => exact within_pure _
    | cons v l ih => exact within_bind (putStaging v) fun _ => l.forM putStaging
  have hunmap (l : List Iov) (type : MemType) : Within (Keeps ledger) (unmapBuffers l type) := by
    unfold unmapBuffers
    infer_instance
  unfold releaseBuffers
  infer_instance

end Ledger

/-! ## Calling the callback -/

/-- A command goes to the device, or its callback is called with the data of `t`. -/
def Reports (id c : Nat) (t : TargetCmd) (e : DevEvent) : Prop :=
  e = .queued id c ∨
    ∃ t', e = .callback id c t' ∧ t'.got = t.got ∧ t'.scsiCmd.cdb = t.scsiCmd.cdb

/-- The medium and the data of all commands stay, and only events of `c` are logged. -/
structure Filing (id c : Nat) (s s' : Local) : Prop where
  shelf : Keeps shelf s s'
  log : ∃ l, s'.dev.log = s.dev.log ++ l ∧ ∀ e ∈ l, Reports id c (s.slot.pool.cmdMem c) e

/-- The same, on a disk whose buffers are the medium. -/
def Notes (id c : Nat) (s s' : Local) : Prop :=
  DiskType.staged s.dev.cfg = false → Filing id c s s'

section Notes

variable {id c : Nat} {s s' s'' : Local} {α : Type} {x : Handler α}

theorem cfg_of_shelf (h : Keeps shelf s s') : s'.dev.cfg = s.dev.cfg := congrArg (fun f => f.2.1) h

theorem load_of_shelf (h : Keeps shelf s s') (c : Nat) :
    TargetCmd.load (s'.slot.pool.cmdMem c) = TargetCmd.load (s.slot.pool.cmdMem c) :=
  congrArg (fun f => f.2.2 c) h

theorem Reports.congr {t t' : TargetCmd} {e : DevEvent} (h : Reports id c t e)
    (ht : TargetCmd.load t' = TargetCmd.load t) : Reports id c t' e := by
  rcases h with rfl | ⟨u, rfl, hgot, hcdb⟩
  · exact .inl rfl
  · exact .inr ⟨u, rfl, hgot.trans (congrArg (fun l => l.2.1) ht).symm,
      hcdb.trans (congrArg (fun l => l.1) ht).symm⟩

instance instIsPreorderFiling : IsPreorder Local (Filing id c) where
  refl s := ⟨refl s, [], by simp, by simp⟩
  trans := by
    rintro s₁ s₂ s₃ ⟨h, l, hl, hall⟩ ⟨h', l', hl', hall'⟩
    refine ⟨Trans.trans h h', l ++ l', by rw [hl', hl, List.append_assoc], fun e he => ?_⟩
    rcases List.mem_append.mp he with he | he
    · exact hall e he
    · exact (hall' e he).congr (load_of_shelf h c).symm

instance instIsPreorderNotes : IsPreorder Local (Notes id c) where
  refl s _ := refl s
  trans s₁ s₂ s₃ h h' hst := by
    have h₁ := h hst
    exact Trans.trans h₁ (h' (by rwa [cfg_of_shelf h₁.shelf]))

/-- What leaves the ledger alone files nothing. -/
theorem Filing.of_ledger (h : Keeps ledger s s') : Filing id c s s' :=
  ⟨congrArg Prod.fst h, [], (congrArg Prod.snd h).trans (List.append_nil _).symm, by simp⟩

/-- And it notes nothing. -/
theorem notes_of_ledger (h : Within (Keeps ledger) x) : Within (Notes id c) x :=
  h.mono fun _ _ h _ => .of_ledger h

instance notes_getCmd (c' : Nat) : Within (Notes id c) (getCmd c') := within_gets _

/-- With buffers that are the medium there is nothing to write out. -/
theorem writeOut_direct (hst : DiskType.staged s.dev.cfg = false) :
    ensures (writeOut c) (fun _ s' => s' = s) s := by
  simp only [DiskType.staged, Bool.or_eq_false_iff, beq_eq_false_iff_ne] at hst
  obtain ⟨⟨⟨hraw, hsg⟩, -⟩, hsd⟩ := hst
  have hcond : (decide (s.dev.cfg.type = .raw) ||
      decide (s.dev.cfg.type = .sd) && s.dev.cfg.direct) = false := by
    rw [decide_eq_false hraw, Bool.false_or]
    exact hsd
  simp only [writeOut, ensures, wp_bind, wp_getCmd, wp_getDev, wp_ite, wp_pure, hcond, hsg]
  exact ⟨fun _ => trivial, fun _ => ⟨fun h => absurd h Bool.false_ne_true, fun _ =>
    ⟨fun h => h.elim, fun _ => trivial⟩⟩⟩

/-- With buffers that are the medium nothing is written out. -/
instance notes_writeOut : Within (Notes id c) (writeOut c) where
  run s := by
    rcases hst : DiskType.staged s.dev.cfg with _ | _
    · refine (writeOut_direct hst).mono ?_
      rintro _ _ rfl
      exact refl _
    · exact wp_mono (ensures_true _ _) (fun _ _ _ h => absurd (hst.symm.trans h) (by decide))
        fun _ _ _ => trivial

/-- The callback is called with the command as it is. -/
theorem notes_callback {k : Handler α} (hk : Within (Notes id c) k) : Within (Notes id c) (do
    logDev (.callback id c (← getCmd c))
    k) where
  run s := by
    rw [ensures, wp_bind, wp_getCmd, wp_bind, wp_logDev]
    have h : Notes id c s (s.setDev { s.dev with
        log := s.dev.log ++ [.callback id c (s.slot.pool.cmdMem c)] }) :=
      fun _ => ⟨rfl, [_], rfl, fun e he => .inr ⟨_, List.mem_singleton.mp he, rfl, rfl⟩⟩
    exact (hk.run _).mono fun _ _ h' => Trans.trans h h'

/-- `command_done` reports the command that it was called for. -/
instance notes_commandDone : Within (Notes id c) (commandDone id c) := by
  have htrace (a : ScsiCmd) : Within (Notes id c) (openTraceFile a) :=
    notes_of_ledger (ledger_openTraceFile a)
  have hdone : Within (Notes id c) (deviceCommandDone c) :=
    notes_of_ledger (ledger_deviceCommandDone c)
  have hrelease : Within (Notes id c) (releaseBuffers c) :=
    notes_of_ledger (ledger_releaseBuffers c)
  unfold commandDone
  refine .bind inferInstance fun cmd => .bind (htrace _) fun ok => ?_
  split
  · infer_instance
  · exact .bind inferInstance fun _ => .bind inferInstance fun _ => notes_callback inferInstance

/-! ### Commands that are not writes -/

theorem ledger_onMem {f : Memory → Memory} (hf : ∀ m, f m .media = m .media) :
    Within (Keeps ledger) (onMem f) := by
  unfold onMem modifyDev
  exact ledger_onDev fun d => ⟨hf d.mem, rfl, rfl⟩

theorem ledger_poke {r : Region} (hr : .media ≠ r) (off : Nat) (bs : Bytes) :
    Within (Keeps ledger) (poke r off bs) := ledger_onMem fun _ => Memory.write_of_ne hr

/-- The replies of the device are not on the medium. -/
theorem media_ne_reply : Region.media ≠ .reply := by decide

@[simp] theorem media_writeReply (m : Memory) (off : Nat) (bs : Bytes) :
    m.write .reply off bs .media = m .media := Memory.write_of_ne media_ne_reply

@[simp] theorem media_orReply (m : Memory) (i : Nat) (mask : UInt8) :
    orReply i mask m .media = m .media := media_writeReply ..

theorem media_reportLunsReply (cfg : DiskConfig) (n : Nat) (m : Memory) :
    reportLunsReply cfg n m .media = m .media := by
  have hfold (l : List Nat) (m : Memory) : (l.foldl
      (fun m i => m.write .reply (8 + 8 * i) [0, UInt8.ofNat i]) m) .media = m .media := by
    induction l generalizing m with
    | nil => rfl
    | cons i l ih => rw [List.foldl_cons, ih, media_writeReply]
  rw [reportLunsReply, hfold, media_writeReply, media_writeReply]

/-- The end of `device_command`. -/
instance notes_finish : Within (Notes id c) (finish id c) := by
  have hlist (n : Nat) : Within (Notes id c) (modifyCmd c fun t =>
      { t with gatherList := [⟨.reply, 0, n⟩], gatherType := .stack }) :=
    notes_of_ledger (ledger_modifyCmd c fun _ => rfl)
  unfold finish
  infer_instance

instance notes_finishWith (status : UInt8) : Within (Notes id c) (finishWith id c status) := by
  have hstatus : Within (Notes id c) (modifyScsi c fun a => { a with status, length := 0 }) :=
    notes_of_ledger (ledger_modifyScsi c fun _ => rfl)
  unfold finishWith
  infer_instance

/-- A command that is answered from the array of replies. -/
theorem notes_finishReply {reply : Memory → Memory} (hreply : ∀ m, reply m .media = m .media)
    (n : Nat) : Within (Notes id c) (finishReply id c reply n) := by
  have hmem : Within (Notes id c) (onMem reply) := notes_of_ledger (ledger_onMem hreply)
  have hlength : Within (Notes id c) (modifyScsi c fun a =>
      { a with fromdev := true, status := 0, length := n }) :=
    notes_of_ledger (ledger_modifyScsi c fun _ => rfl)
  unfold finishReply
  infer_instance

instance ledger_readAllocateSpace (lba len : Nat) :
    Within (Keeps ledger) (readAllocateSpace c lba len) := by
  have hprivate : Within (Keeps ledger) (modifyScsi c fun a => { a with lba, len }) :=
    ledger_modifyScsi c fun _ => rfl
  have htype (type : MemType) : Within (Keeps ledger) (modifyCmd c fun t =>
      { t with gatherType := type }) := ledger_modifyCmd c fun _ => rfl
  have hstaging : Within (Keeps ledger) takeStaging := by
    unfold takeStaging
    refine ledger_onDev fun d => ?_
    split <;> exact ⟨rfl, rfl, rfl⟩
  have hpoke (i : Nat) (bs : Bytes) : Within (Keeps ledger) (poke (.staging i) 0 bs) :=
    ledger_poke (by simp) 0 bs
  unfold readAllocateSpace
  dsimp only
  refine .bind inferInstance fun d => ?_
  split
  · infer_instance
  · infer_instance
  · infer_instance
  all_goals
    refine .bind inferInstance fun i => ?_
    split <;> infer_instance

instance ledger_diskRead (lba len : Nat) : Within (Keeps ledger) (diskRead c lba len) := by
  have hlist (l : List Iov) : Within (Keeps ledger) (modifyCmd c fun t =>
      { t with gatherList := l }) := ledger_modifyCmd c fun _ => rfl
  unfold diskRead
  refine .bind inferInstance fun d => ?_
  dsimp only
  split
  · infer_instance
  split
  · infer_instance
  split
  · infer_instance
  refine .bind inferInstance fun v => ?_
  split <;> infer_instance

end Notes

/-! ## Storing data -/

/-- A buffer in which a command takes its data: the blocks that it addresses, or the name of the
trace file. -/
def Buffer (cfg : DiskConfig) (cdb : Bytes) (v : Iov) : Prop :=
  (∃ r, writeSpan cfg cdb = some r ∧ v = ⟨.media, r.1, r.2⟩) ∨
    byte cdb 0 = opTracingSet ∧ v.base = .tracefile ∧ v.len < 2147483648

/-- A command has no buffer and no data, or the buffer for its data.  Only with a buffer it becomes
ready for data, and all its data are there only after it was ready. -/
structure Aimed (cfg : DiskConfig) (t : TargetCmd) : Prop where
  buffer : t.scatterList = [] ∧ t.got = [] ∨
    ∃ v, t.scatterList = [v] ∧ Buffer cfg t.scsiCmd.cdb v
  ready : t.ready = true → t.scatterList ≠ []
  done : t.done = true → t.ready = true

/-- What the device may do for the command `c`: store data of it, and call its callback with all
its data. -/
structure Stores (id c : Nat) (s s' : Local) : Prop where
  cfg : s'.dev.cfg = s.dev.cfg
  cdb : (s'.slot.pool.cmdMem c).scsiCmd.cdb = (s.slot.pool.cmdMem c).scsiCmd.cdb
  stored : ∃ ps, (s'.slot.pool.cmdMem c).got = (s.slot.pool.cmdMem c).got ++ ps ∧
    InSpan s.dev.cfg (s.slot.pool.cmdMem c).scsiCmd.cdb ps ∧
    s'.dev.mem .media =
      storeData s.dev.cfg (s.slot.pool.cmdMem c).scsiCmd.cdb ps (s.dev.mem .media)
  log : ∃ l, s'.dev.log = s.dev.log ++ l ∧ (∀ e ∈ l, Reports id c (s'.slot.pool.cmdMem c) e) ∧
    (l ≠ [] → (s'.slot.pool.cmdMem c).ready = (s.slot.pool.cmdMem c).ready)
  aimed : Aimed s.dev.cfg (s'.slot.pool.cmdMem c)

/-- What `Stores` looks at, but for the buffer. -/
def front (c : Nat) (s : Local) : (Nat → UInt8) × DiskConfig × List DevEvent × Bytes ×
    List (Nat × Bytes) × Bool × Bool :=
  (s.dev.mem .media, s.dev.cfg, s.dev.log, (s.slot.pool.cmdMem c).scsiCmd.cdb,
    (s.slot.pool.cmdMem c).got, (s.slot.pool.cmdMem c).ready, (s.slot.pool.cmdMem c).done)

section Stores

variable {id c : Nat} {s s₁ s' : Local} {cfg : DiskConfig} {t t' : TargetCmd}

/-- Where a command is aimed at depends on its load only. -/
theorem Aimed.congr (h : Aimed cfg t) (ht : TargetCmd.load t' = TargetCmd.load t) :
    Aimed cfg t' := by
  simp only [TargetCmd.load, Prod.mk.injEq] at ht
  obtain ⟨hcdb, hgot, hlist, hready, hdone⟩ := ht
  refine ⟨?_, ?_, ?_⟩
  · rw [hlist, hgot, hcdb]
    exact h.buffer
  · rw [hready, hlist]
    exact h.ready
  · rw [hdone, hready]
    exact h.done

theorem front_of_ledger (h : Keeps ledger s s') : front c s' = front c s := by
  have hshelf : Keeps shelf s s' := congrArg Prod.fst h
  have hload := load_of_shelf hshelf c
  simp only [TargetCmd.load, Prod.mk.injEq] at hload
  obtain ⟨hcdb, hgot, -, hready, hdone⟩ := hload
  have hmedia : s'.dev.mem .media = s.dev.mem .media := congrArg (fun f => f.1) hshelf
  have hlog : s'.dev.log = s.dev.log := congrArg Prod.snd h
  rw [front, front, hmedia, cfg_of_shelf hshelf, hlog, hcdb, hgot, hready, hdone]

namespace Stores

/-- Programs that come before. -/
theorem of_front (hf : front c s₁ = front c s) (h : Stores id c s₁ s') : Stores id c s s' := by
  simp only [front, Prod.mk.injEq] at hf
  obtain ⟨hmedia, hcfg, hlog, hcdb, hgot, hready, -⟩ := hf
  refine ⟨h.cfg.trans hcfg, h.cdb.trans hcdb, ?_, ?_, ?_⟩
  · rw [← hgot, ← hcfg, ← hcdb, ← hmedia]
    exact h.stored
  · rw [← hlog, ← hready]
    exact h.log
  · rw [← hcfg]
    exact h.aimed

/-- Nothing was stored. -/
theorem of_filing (h : Filing id c s s') (ha : Aimed s.dev.cfg (s.slot.pool.cmdMem c)) :
    Stores id c s s' := by
  have hload := load_of_shelf h.shelf c
  have ha' := ha.congr hload
  obtain ⟨l, hl, hall⟩ := h.log
  have hreports : ∀ e ∈ l, Reports id c (s'.slot.pool.cmdMem c) e := fun e he =>
    (hall e he).congr hload
  simp only [TargetCmd.load, Prod.mk.injEq] at hload
  obtain ⟨hcdb, hgot, -, hready, -⟩ := hload
  refine ⟨cfg_of_shelf h.shelf, hcdb, ⟨[], ?_, inSpan_nil, ?_⟩, ⟨l, hl, hreports, fun _ => hready⟩,
    ha'⟩
  · rw [hgot, List.append_nil]
  · rw [storeData_nil]
    exact congrArg (fun f => f.1) h.shelf

/-- The callback is called afterwards. -/
theorem filing (h : Stores id c s s₁)
    (hready : (s₁.slot.pool.cmdMem c).ready = (s.slot.pool.cmdMem c).ready)
    (hf : Filing id c s₁ s') : Stores id c s s' := by
  have hload := load_of_shelf hf.shelf c
  have ha := h.aimed.congr hload
  obtain ⟨l, hl, hall, -⟩ := h.log
  obtain ⟨l', hl', hall'⟩ := hf.log
  have hreports : ∀ e ∈ l ++ l', Reports id c (s'.slot.pool.cmdMem c) e := fun e he =>
    (List.mem_append.mp he).elim (fun he => (hall e he).congr hload)
      fun he => (hall' e he).congr hload
  obtain ⟨ps, hps, hin, hmedia⟩ := h.stored
  simp only [TargetCmd.load, Prod.mk.injEq] at hload
  obtain ⟨hcdb, hgot, -, hready', -⟩ := hload
  refine ⟨(cfg_of_shelf hf.shelf).trans h.cfg, hcdb.trans h.cdb, ⟨ps, hgot.trans hps, hin, ?_⟩,
    ⟨l ++ l', ?_, hreports, fun _ => hready'.trans hready⟩, ha⟩
  · exact (congrArg (fun f => f.1) hf.shelf).trans hmedia
  · rw [hl', hl, List.append_assoc]

/-- Programs that come afterwards. -/
theorem ledger (h : Stores id c s s₁) (hk : Keeps ledger s₁ s') : Stores id c s s' := by
  have hshelf : Keeps shelf s₁ s' := congrArg Prod.fst hk
  have hload := load_of_shelf hshelf c
  have ha := h.aimed.congr hload
  obtain ⟨l, hl, hall, hready⟩ := h.log
  have hreports : ∀ e ∈ l, Reports id c (s'.slot.pool.cmdMem c) e := fun e he =>
    (hall e he).congr hload
  obtain ⟨ps, hps, hin, hmedia⟩ := h.stored
  simp only [TargetCmd.load, Prod.mk.injEq] at hload
  obtain ⟨hcdb, hgot, -, hready', -⟩ := hload
  refine ⟨(cfg_of_shelf hshelf).trans h.cfg, hcdb.trans h.cdb, ⟨ps, hgot.trans hps, hin, ?_⟩,
    ⟨l, ?_, hreports, fun hne => hready'.trans (hready hne)⟩, ha⟩
  · exact (congrArg (fun f => f.1) hshelf).trans hmedia
  · exact (congrArg Prod.snd hk).trans hl

/-- Data are stored, and then others, before the callback is called. -/
theorem trans (h : Stores id c s s₁) (hlog : s₁.dev.log = s.dev.log)
    (hready : (s₁.slot.pool.cmdMem c).ready = (s.slot.pool.cmdMem c).ready)
    (h' : Stores id c s₁ s') : Stores id c s s' := by
  obtain ⟨ps, hps, hin, hmedia⟩ := h.stored
  obtain ⟨ps', hps', hin', hmedia'⟩ := h'.stored
  rw [h.cfg, h.cdb] at hin' hmedia'
  obtain ⟨l, hl, hall, hkeeps⟩ := h'.log
  refine ⟨h'.cfg.trans h.cfg, h'.cdb.trans h.cdb, ⟨ps ++ ps', ?_, hin.append hin', ?_⟩,
    ⟨l, hlog ▸ hl, hall, fun hne => (hkeeps hne).trans hready⟩, h.cfg ▸ h'.aimed⟩
  · rw [hps', hps, List.append_assoc]
  · rw [hmedia', hmedia, storeData_append]

/-- Data that are stored and added to those of the command. -/
theorem of_setCmd {m : Memory} {ps : List (Nat × Bytes)}
    (hcdb : t.scsiCmd.cdb = (s.slot.pool.cmdMem c).scsiCmd.cdb)
    (hgot : t.got = (s.slot.pool.cmdMem c).got ++ ps)
    (hin : InSpan s.dev.cfg (s.slot.pool.cmdMem c).scsiCmd.cdb ps)
    (hmedia : m .media =
      storeData s.dev.cfg (s.slot.pool.cmdMem c).scsiCmd.cdb ps (s.dev.mem .media))
    (haimed : Aimed s.dev.cfg t) :
    Stores id c s ((s.setDev { s.dev with mem := m }).setCmd c t) := by
  have hself : ((s.setDev { s.dev with mem := m }).setCmd c t).slot.pool.cmdMem c = t :=
    Function.update_self ..
  refine ⟨rfl, ?_, ⟨ps, ?_, hin, hmedia⟩, ⟨[], ?_, ?_, ?_⟩, ?_⟩
  · rw [hself, hcdb]
  · rw [hself, hgot]
  · exact (List.append_nil _).symm
  · exact fun e he => absurd he List.not_mem_nil
  · exact fun h => absurd rfl h
  · rw [hself]
    exact haimed

end Stores

theorem Buffer.len_lt {cdb : Bytes} {v : Iov} (h : Buffer cfg cdb v) : v.len < 2147483648 := by
  rcases h with ⟨r, hr, rfl⟩ | ⟨-, -, hlen⟩
  · exact writeSpan_lt hr
  · exact hlen

/-- Bytes that are stored in the buffer of a command are stored on the medium, if it is one. -/
theorem Buffer.write {cdb bs : Bytes} {v : Iov} {off : Nat} (h : Buffer cfg cdb v)
    (hle : off + bs.length ≤ v.len) (m : Memory) :
    m.write v.base (v.off + off) bs .media = storeData cfg cdb [(off, bs)] (m .media) ∧
      InSpan cfg cdb [(off, bs)] := by
  rcases h with ⟨r, hr, rfl⟩ | ⟨hop, hv, -⟩
  · refine ⟨?_, fun r' hr' p hp => ?_⟩
    · rw [storeData_some hr]
      exact Memory.write_self
    · obtain rfl := Option.some.inj (hr.symm.trans hr')
      obtain rfl := List.mem_singleton.mp hp
      exact hle
  · have hnone := @writeSpan_tracingSet cfg _ hop
    refine ⟨?_, fun r hr => ?_⟩
    · rw [storeData_none hnone, hv, Memory.write_of_ne (by decide)]
    · rw [hnone] at hr
      exact absurd hr.symm (Option.some_ne_none r)

end Stores

end Ost.Disk
