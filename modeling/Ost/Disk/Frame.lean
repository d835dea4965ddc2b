import Ost.Target.Frame

/-!
# The quiet parts of the device

Which programs of the device and of the completion callback are quiet: they complete
nothing and leave the identity of the command alone.
-/

namespace Ost.Disk

open Ost.Iscsi Ost.Util Ost.Param Ost.Prog Ost.Target

variable (c : Nat)

/-! ## Completion -/

/-- The read data PDUs take sequence numbers, and count what has been sent. -/
instance quiet_sendReadData (sg : List Iov) (len mdsl fuel offset : Nat) (dataSN : UInt32) :
    Within (Quiet c) (sendReadData c sg len mdsl fuel offset dataSN) := by
  induction fuel generalizing offset dataSN with
  | zero => exact within_halt _
  | succ fuel ih =>
    have hcount (n : Nat) : Within (Quiet c)
        (modifyScsi c fun a => { a with bytesFromdev := w32 (a.bytesFromdev + n) }) :=
      quiet_modifyScsi c fun _ => rfl
    unfold sendReadData
    split
    · dsimp only
      split <;> infer_instance
    · infer_instance

/-- So does the input of a bidirectional command. -/
instance quiet_sendInput : Within (Quiet c) (sendInput c) := by
  unfold sendInput
  refine .bind inferInstance fun cmd => ?_
  dsimp only
  split <;> infer_instance

/-- The response carries the number that the lock gave it. -/
instance quiet_sendResponse (dataSN : UInt32) : Within (Quiet c) (sendResponse c dataSN) where
  run s := by
    simp only [sendResponse, getCmd, getSeq, modifySeq, gather, ensures, wp_bind, wp_gets, wp_onSeq]
    refine wp_mono (sendLeaky_spec _ _ _) (fun ok s' h => ?_) fun _ _ _ => trivial
    have hq : Quiet c s s' := by
      obtain ⟨⟨d, n, b, rfl, _⟩, _⟩ := h
      exact .of_calm ⟨rfl, rfl, rfl, rfl, rfl, rfl, rfl, rfl, rfl, rfl,
        .status rfl rfl (congrArg some (TargetPdu.wireStatSN_scsiRsp _)) rfl⟩ rfl rfl rfl
    simp only [wp_ite, wp_pure]
    exact ⟨fun _ => hq, fun _ => hq⟩

instance quiet_openTraceFile (a : ScsiCmd) : Within (Quiet c) (openTraceFile a) := by
  unfold openTraceFile
  infer_instance

/-- Writing out the buffers of a file touches the medium only. -/
instance quiet_writeOut (c' : Nat) : Within (Quiet c) (writeOut c') := by
  unfold writeOut
  infer_instance

instance quiet_unmapBuffers (l : List Iov) (type : MemType) :
    Within (Quiet c) (unmapBuffers l type) := by
  unfold unmapBuffers
  infer_instance

/-- The buffers of a command go back to the device. -/
instance quiet_releaseBuffers (c' : Nat) : Within (Quiet c) (releaseBuffers c') := by
  unfold releaseBuffers
  infer_instance

/-! ## Space for data -/

/-- The block address and length that the device keeps with a command are not part of its identity.
-/
instance quiet_privateData (lba len : Nat) :
    Within (Quiet c) (modifyScsi c fun a => { a with lba, len }) := quiet_modifyScsi c fun _ => rfl

instance quiet_scatterType (type : MemType) :
    Within (Quiet c) (modifyCmd c fun t => { t with scatterType := type }) :=
  quiet_modifyCmd_of_key c fun _ => rfl

instance quiet_gatherType (type : MemType) :
    Within (Quiet c) (modifyCmd c fun t => { t with gatherType := type }) :=
  quiet_modifyCmd_of_key c fun _ => rfl

instance quiet_gatherList (l : List Iov) :
    Within (Quiet c) (modifyCmd c fun t => { t with gatherList := l }) :=
  quiet_modifyCmd_of_key c fun _ => rfl

/-- `write_allocate_space`, for each kind of memory. -/
instance quiet_writeAllocateSpace (lba len : Nat) :
    Within (Quiet c) (writeAllocateSpace c lba len) := by
  unfold writeAllocateSpace
  dsimp only
  refine .bind inferInstance fun d => ?_
  split
  · infer_instance
  · split
    · refine .bind inferInstance fun i => ?_
      split <;> infer_instance
    · infer_instance

/-- `read_allocate_space`, for each kind of memory. -/
instance quiet_readAllocateSpace (lba len : Nat) :
    Within (Quiet c) (readAllocateSpace c lba len) := by
  unfold readAllocateSpace
  dsimp only
  refine .bind inferInstance fun d => ?_
  split
  · infer_instance
  · infer_instance
  · infer_instance
  all_goals
    refine .bind inferInstance fun i => ?_
    split <;> infer_instance

instance quiet_diskRead (lba len : Nat) : Within (Quiet c) (diskRead c lba len) := by
  unfold diskRead
  refine .bind inferInstance fun d => ?_
  dsimp only
  split
  · infer_instance
  split
  · infer_instance
  split
  · infer_instance
  refine .bind inferInstance fun v => ?_
  split <;> infer_instance

/-! ## Requests for data -/

instance quiet_r2tFlag : Within (Quiet c) (modifyCmd c fun t => { t with r2tFlag := true }) :=
  quiet_modifyCmd c
    (fun _ => ⟨⟨rfl, rfl, rfl, rfl, fun _ => rfl, rfl, rfl, rfl, rfl, id⟩, rfl, rfl⟩) fun _ => rfl

/-- Requests for data go out one after the other. -/
instance quiet_sendR2ts (fuel transferred remaining : Nat) :
    Within (Quiet c) (sendR2ts c fuel transferred remaining) := by
  induction fuel generalizing transferred remaining with
  | zero => exact within_halt _
  | succ fuel ih =>
    unfold sendR2ts
    infer_instance

instance quiet_requestData : Within (Quiet c) (requestData c) := by
  unfold requestData
  infer_instance

end Ost.Disk
