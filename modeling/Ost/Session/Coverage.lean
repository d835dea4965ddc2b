import Ost.Session.Window
import Ost.Util.Tiling

/-!
# The bytes of a write

A target takes the data of a write wherever a `WRITE_DATA` PDU says that they belong, and finds
out by counting whether they are all there.  It does not compare the PDUs with one another, so that
a byte that comes twice stands for one that never came.  On runs where no PDU repeats a byte
(`CoverEvent`), a write that is complete has received every byte (`write_covered`).
-/

namespace Ost.Target

open Ost.Iscsi Ost.Util Ost.Param Ost.Prog Ost.Disk

/-! ## What has arrived -/

namespace TargetCmd

variable (t : TargetCmd)

/-- A write of blocks. -/
def IsWrite : Prop := (writeRange t.scsiCmd.cdb).isSome = true

/-- Where the data of a command that have arrived belong. -/
def pieces : List (Nat × Nat) := t.got.map fun x => (x.1, x.2.length)

/-- The byte at the position `x` has arrived. -/
def Has (x : Nat) : Prop := ∃ p ∈ t.pieces, InPiece x p

/-- Every byte of the transfer has arrived. -/
def Full : Prop := ∀ x < t.scsiCmd.transLen, t.Has x

/-- The target takes the data of a write for complete: all bytes are counted, or the command was
handed back to the device. -/
def Complete : Prop := t.scsiCmd.bytesTodev = t.scsiCmd.transLen ∨ t.done = true

/-- A write that is complete has received all its bytes. -/
def Covered : Prop := t.IsWrite → t.Complete → t.Full

instance : Decidable t.IsWrite := inferInstanceAs (Decidable (_ = _))

instance (x : Nat) : Decidable (t.Has x) := inferInstanceAs (Decidable (∃ p ∈ _, _))

instance : Decidable t.Full := inferInstanceAs (Decidable (∀ x < _, _))

instance : Decidable t.Complete := inferInstanceAs (Decidable (_ ∨ _))

instance : Decidable t.Covered := inferInstanceAs (Decidable (_ → _ → _))

end TargetCmd

/-! ## The condition -/

/-- The data of a PDU are some that its command has not received, within the transfer. -/
def Fits (t : TargetCmd) (data : WriteData) : Prop :=
  data.length ≠ 0 ∧ data.offset + data.length ≤ t.scsiCmd.transLen ∧
    ∀ p ∈ t.pieces, Apart p (data.offset, data.length)

/-- A PDU that does not spoil the count of its command. -/
def CountsRight (t : TargetCmd) (data : WriteData) : Prop :=
  t.IsWrite → ¬t.Full → w32 (t.scsiCmd.bytesTodev + data.length) ≤ t.scsiCmd.transLen → Fits t data

instance (t : TargetCmd) (data : WriteData) : Decidable (Fits t data) :=
  inferInstanceAs (Decidable (_ ∧ _ ∧ _))

instance (t : TargetCmd) (data : WriteData) : Decidable (CountsRight t data) :=
  inferInstanceAs (Decidable (_ → _ → _ → _))

/-- The `WRITE_DATA` PDU that the worker of a slot is about to serve, with its command. -/
def Slot.dataServed (s : Slot) : Option (WriteData × Nat) :=
  match s.waiting with
  | some (_, hdr, c) => some ((iscsiWriteDataDecap hdr).2, c)
  | none =>
    if iscsiOpcode s.nextHeader = opWriteData ∧ (iscsiWriteDataDecap s.nextHeader).1 = 0 then
      (s.pool.cmds.get (iscsiItt s.nextHeader)).map ((iscsiWriteDataDecap s.nextHeader).2, ·)
    else none

/-- The PDU that a slot is about to serve counts right, if it carries data for a command that is
ready. -/
def Slot.ServesRight (s : Slot) : Prop :=
  ∀ x ∈ s.dataServed, (s.pool.cmdMem x.2).ready = true → CountsRight (s.pool.cmdMem x.2) x.1

instance (s : Slot) : Decidable s.ServesRight := inferInstanceAs (Decidable (∀ x ∈ _, _))

/-- Every PDU with write data counts right. -/
def CoverEvent (w : World) : Event → Prop
  | .rx i => (w.slots i).ServesRight
  | .accept _ | .lun => True

instance (w : World) (e : Event) : Decidable (CoverEvent w e) :=
  match e with
  | .rx _ => inferInstanceAs (Decidable (Slot.ServesRight _))
  | .accept _ | .lun => inferInstanceAs (Decidable True)

/-! ## The invariant -/

/-- The data of a write that have arrived do not overlap, and are counted. -/
structure Tallies (t : TargetCmd) : Prop where
  scattered : Scattered t.scsiCmd.transLen t.pieces
  sum : (t.pieces.map Prod.snd).sum = t.scsiCmd.bytesTodev
  done : t.done = true → t.scsiCmd.bytesTodev = t.scsiCmd.transLen

/-- A write has received all its bytes, or its count is right. -/
def Sound (t : TargetCmd) : Prop :=
  t.IsWrite → t.scsiCmd.transLen < 4294967296 ∧ (t.Full ∨ Tallies t)

section Commands

variable {t t' : TargetCmd} {data : WriteData}

theorem Sound.covered (h : Sound t) : t.Covered := by
  intro hw hc
  rcases (h hw).2 with hfull | ht
  · exact hfull
  · intro x hx
    refine ht.scattered.covers (ht.sum.trans ?_) hx
    exact hc.elim id ht.done

theorem IsWrite.copies (h : t.IsWrite) : Copies t.scsiCmd.cdb := by
  obtain ⟨⟨lba, len⟩, hr⟩ := Option.isSome_iff_exists.mp h
  exact (copies_of_writeRange hr).1

/-- What counts for a command that keeps its identity. -/
theorem isWrite_of_kept (h : t.Kept t') : t'.IsWrite ↔ t.IsWrite := by
  rw [TargetCmd.IsWrite, TargetCmd.IsWrite, h.cdb]

theorem transLen_of_kept (h : t.Kept t') (hw : t.IsWrite) :
    t'.scsiCmd.transLen = t.scsiCmd.transLen := by
  refine h.transLen ?_
  rcases IsWrite.copies hw with hop | hop | hop <;> rw [hop] <;> decide

/-- Without new data the count stays right. -/
theorem Sound.same (h : Sound t) (hs : t.Same t') : Sound t' := by
  intro hw'
  have hw := (isWrite_of_kept hs.toKept).mp hw'
  have hlen := transLen_of_kept hs.toKept hw
  have hpieces : t'.pieces = t.pieces := by rw [TargetCmd.pieces, hs.got]; rfl
  obtain ⟨hlt, hall⟩ := h hw
  refine ⟨hlen ▸ hlt, hall.imp (fun hfull => ?_) fun ht => ⟨?_, ?_, ?_⟩⟩
  · intro x hx
    rw [TargetCmd.Has, hpieces]
    exact hfull x (hlen ▸ hx)
  · rw [hlen, hpieces]
    exact ht.scattered
  · rw [hpieces, hs.bytesTodev]
    exact ht.sum
  · rw [hs.bytesTodev, hs.done, hlen]
    exact ht.done

/-- The immediate data are counted from the beginning of the transfer. -/
theorem Sound.moved (h : Sound t) (hd : t.done = false) (hm : Moved t t') : Sound t' := by
  rcases hm.data with ⟨hgot, hbytes⟩ | ⟨_, hgot, hbytes⟩
  · exact h.same ⟨hm.toKept, hgot, hbytes⟩
  intro hw'
  have hw := (isWrite_of_kept hm.toKept).mp hw'
  have hlen := transLen_of_kept hm.toKept hw
  have hpieces : t'.pieces = [(0, t.scsiCmd.length)] := by
    simp [TargetCmd.pieces, hgot, immediateData]
  refine ⟨hlen ▸ (h hw).1, ?_⟩
  rcases Nat.lt_or_ge t'.scsiCmd.transLen t.scsiCmd.length with hlt | hle
  · refine .inl fun x hx => ?_
    rw [TargetCmd.Has, hpieces]
    exact ⟨_, List.mem_singleton_self _, Nat.zero_le _, by omega⟩
  · refine .inr ⟨?_, ?_, fun hdone => ?_⟩
    · rw [hpieces]
      exact .single hle
    · simp [hpieces, hbytes]
    · rw [hm.done, hd] at hdone
      exact absurd hdone (by decide)

/-- A command that has just arrived has no data. -/
theorem sound_of_core (hcore : t'.core = t.core) (hgot : t.got = []) (hd : t.done = false)
    (hbytes : t.scsiCmd.bytesTodev = 0) (hlt : t.scsiCmd.transLen < 4294967296) : Sound t' := by
  have hgot' : t'.pieces = [] := by
    have h := (congrArg TargetCmd.got hcore).trans hgot
    exact congrArg (List.map _) h
  have hlen : t'.scsiCmd.transLen = t.scsiCmd.transLen :=
    congrArg (fun t => t.scsiCmd.transLen) hcore
  have hbytes' : t'.scsiCmd.bytesTodev = 0 :=
    (congrArg (fun t => t.scsiCmd.bytesTodev) hcore).trans hbytes
  have hd' : t'.done = false := (congrArg TargetCmd.done hcore).trans hd
  refine fun _ => ⟨hlen ▸ hlt, .inr ⟨?_, ?_, fun hdone => ?_⟩⟩
  · rw [hgot']
    exact .nil
  · rw [hgot', hbytes']
    rfl
  · rw [hd'] at hdone
    exact absurd hdone (by decide)

/-- A command is handed back to the device when all its bytes are counted. -/
theorem Sound.finish (h : Sound t)
    (heq : Tallies t → t.scsiCmd.bytesTodev = t.scsiCmd.transLen) :
    Sound { t with done := true } := by
  intro hw
  obtain ⟨hlt, hall⟩ := h hw
  exact ⟨hlt, hall.imp id fun ht => ⟨ht.scattered, ht.sum, fun _ => heq ht⟩⟩

/-- The data of a PDU are stored and counted. -/
theorem Sound.store (h : Sound t) (hok : CountsRight t data)
    (hfits : w32 (t.scsiCmd.bytesTodev + data.length) ≤ t.scsiCmd.transLen) {bs : Bytes}
    (hbs : bs.length = data.length) :
    Sound { t with got := t.got ++ [(data.offset, bs)], scsiCmd := { t.scsiCmd with
      bytesTodev := w32 (t.scsiCmd.bytesTodev + data.length) } } := by
  intro hw
  obtain ⟨hlt, hall⟩ := h hw
  refine ⟨hlt, ?_⟩
  by_cases hfull : t.Full
  · refine .inl fun x hx => ?_
    obtain ⟨p, hp, hin⟩ := hfull x hx
    refine ⟨p, ?_, hin⟩
    rw [TargetCmd.pieces, List.map_append]
    exact List.mem_append_left _ hp
  have ht := hall.resolve_left hfull
  obtain ⟨h0, hin, hap⟩ := hok hw hfull hfits
  have hscattered := ht.scattered.concat (p := (data.offset, data.length)) hin hap
  have hsum : ((t.pieces ++ [(data.offset, data.length)]).map Prod.snd).sum =
      t.scsiCmd.bytesTodev + data.length := by
    simp [ht.sum]
  have hle := hscattered.sum_le
  rw [hsum] at hle
  have hw32 : w32 (t.scsiCmd.bytesTodev + data.length) = t.scsiCmd.bytesTodev + data.length :=
    Nat.mod_eq_of_lt (by omega)
  refine .inr ⟨?_, ?_, fun hdone => ?_⟩
  · simpa [TargetCmd.pieces, hbs] using hscattered
  · rw [hw32, ← hsum]
    simp [TargetCmd.pieces, hbs]
  · have hall := ht.done hdone
    omega

/-- A PDU without data only counts right when there is nothing left to come. -/
theorem Sound.skip (h : Sound t) (hok : CountsRight t data)
    (hfits : w32 (t.scsiCmd.bytesTodev + data.length) ≤ t.scsiCmd.transLen)
    (h0 : data.length = 0) (done : Bool) (bytesTodev : Nat) :
    Sound { t with done, scsiCmd := { t.scsiCmd with bytesTodev } } := by
  intro hw
  refine ⟨(h hw).1, .inl ?_⟩
  by_contra hfull
  exact (hok hw hfull hfits).1 h0

end Commands

/-! ## One step -/

/-- The counts of all commands of a slot are right. -/
def Slot.CountsSound (s : Slot) : Prop := ∀ c, Sound (s.pool.cmdMem c)

section Step

variable {env : Env} {i c : Nat} {s s' : Local}

/-- It is enough to look at the command that was touched. -/
theorem countsSound_of_others (h : s.slot.CountsSound)
    (hothers : ∀ c', c' ≠ c → s'.slot.pool.cmdMem c' = s.slot.pool.cmdMem c')
    (hc : Sound (s'.slot.pool.cmdMem c)) : s'.slot.CountsSound := by
  intro c'
  by_cases he : c' = c
  · exact he ▸ hc
  · rw [hothers c' he]
    exact h c'

theorem countsSound_touched (h : s.slot.CountsSound) (hd : (s.slot.pool.cmdMem c).done = false)
    (ht : Touched c s s') : s'.slot.CountsSound :=
  countsSound_of_others h ht.others ((h c).moved hd ht.cmd)

theorem countsSound_quiet (h : s.slot.CountsSound) (hq : Quiet c s s') : s'.slot.CountsSound :=
  countsSound_of_others h hq.others ((h c).same hq.cmd)

theorem countsSound_completed {M : TargetCmd → TargetCmd → Prop} (h : s.slot.CountsSound)
    (hM : ∀ {t}, M (s.slot.pool.cmdMem c) t → Sound t) (hr : Retires c M s s') :
    s'.slot.CountsSound := countsSound_of_others h hr.others (hM hr.cmd)

/-- A round of the LUN worker. -/
theorem countsSound_lunEnd (h : s.slot.CountsSound) (hl : LunEnd i c s s') :
    s'.slot.CountsSound := by
  cases hl with
  | answered hd hl => exact countsSound_completed h ((h c).moved hd) hl.toRetires
  | device hd _ _ hl =>
    cases hl with
    | completed hl => exact countsSound_completed h ((h c).moved hd) hl.toRetires
    | pending hl => exact countsSound_touched h hd hl
    | failed hl => exact countsSound_touched h hd hl
  | done _ hl => exact countsSound_completed h (h c).same hl.toRetires
  | noTrace _ hl => exact countsSound_quiet h hl

/-- A command structure was filled. -/
theorem Arrived.countsSound {t : TargetCmd} (h : s.slot.CountsSound) (ha : Arrived c t s s')
    (ht : ∀ t', t'.core = t.core → Sound t') : s'.slot.CountsSound :=
  countsSound_of_others h ha.others (ht _ ha.cmd)

/-- A SCSI command request. -/
theorem ScsiEnd.countsSound {h' : Nat} {hdr : Bytes} {rc : Int} (h : s.slot.CountsSound)
    (he : ScsiEnd i h' hdr rc s s') : s'.slot.CountsSound := by
  have hlt : (arrival h' hdr).scsiCmd.transLen < 4294967296 := UInt32.toNat_lt _
  have harrival : ∀ t', t'.core = (arrival h' hdr).core → Sound t' := fun t' hcore =>
    sound_of_core hcore rfl rfl rfl hlt
  have hdevice : ∀ t', t'.core = (arrival h' hdr).toDevice.core → Sound t' := fun t' hcore =>
    sound_of_core hcore rfl rfl rfl hlt
  cases he with
  | noCmd _ hs => exact hs ▸ h
  | refused ha _ hend =>
    have h₁ := ha.countsSound h harrival
    cases hend with
    | retired _ hr _ => exact countsSound_completed h₁ (h₁ _).same hr
    | stopped _ hs => exact countsSound_of_others h₁ hs.others ((h₁ _).same hs.cmd)
  | dropped _ ha => exact ha.countsSound h hdevice
  | @queued c s₁ s₂ _ _ ha _ _ _ hb hend =>
    have h₁ := ha.countsSound h hdevice
    have h₂ : s₂.slot.CountsSound := by
      obtain ⟨s₃, hh, rfl⟩ := hb.hashed
      cases hh with
      | taken _ hs => exact hs ▸ h₁
      | inserted _ _ hs => exact hs ▸ h₁
    cases hend with
    | enqueued _ he =>
      obtain ⟨_, _, _, rfl⟩ := he
      exact h₂
    | answered _ hr => exact countsSound_completed h₂ (h₂ c).same hr.toRetires

/-- A command that was handed back to the device. -/
theorem Finished.cmdMem (hf : Finished i c s s') : s'.slot.pool.cmdMem =
    Function.update s.slot.pool.cmdMem c { s.slot.pool.cmdMem c with done := true } := by
  obtain ⟨_, rfl, _, _, _, rfl⟩ := hf
  rfl

/-- Write data for a command that is ready. -/
theorem WriteEnd.countsSound {data : WriteData} {rc : Int} (h : s.slot.CountsSound)
    (hok : CountsRight (s.slot.pool.cmdMem c) data) (he : WriteEnd i c data rc s s') :
    s'.slot.CountsSound := by
  cases he with
  | refused _ hq => exact countsSound_quiet h hq
  | @taken s₁ s₂ hfits hplaced hcounted hend =>
    have h₂ : s₂.slot.CountsSound := by
      obtain rfl : s₂ = _ := hcounted
      rcases hplaced with ⟨h0, hf⟩ | ⟨_, henough, iov, _, rfl⟩
      · have hmem := hf.cmdMem
        refine countsSound_of_others (c := c) h (fun c' hc => ?_) ?_
        · simp [Local.setCmd, Local.setPool, hmem, hc]
        · simp only [Local.setCmd, Local.setPool, hmem, Function.update_self]
          exact (h c).skip hok hfits h0 true _
      · have hbs : (s.slot.conn.rx.take data.length).length = data.length := by
          have := le_pad4 data.length
          rw [List.length_take]
          omega
        refine countsSound_of_others (c := c) h (fun c' hc => ?_) ?_
        · simp [Local.setCmd, Local.setPool, Local.setConn, Local.setDev, hc]
        · simp only [Local.setCmd, Local.setPool, Local.setConn, Local.setDev, Function.update_self]
          exact (h c).store hok hfits hbs
    rcases hend with ⟨hmissing, _, hf⟩ | ⟨_, hq⟩
    · have hmem := hf.cmdMem
      refine countsSound_of_others (c := c) h₂ (fun c' hc => ?_) ?_
      · rw [hmem, Function.update_of_ne hc]
      · rw [hmem, Function.update_self]
        intro hw
        refine (h₂ c).finish (fun ht => ?_) hw
        have hlt := ((h₂ c) hw).1
        have hle := ht.scattered.sum_le
        rw [ht.sum] at hle
        unfold missing sub32 at hmissing
        omega
    · exact countsSound_quiet h₂ hq

theorem countsSound_of_aside (h : s.slot.CountsSound) (ha : Keeps aside s s') :
    s'.slot.CountsSound := by
  have hpool : s'.slot.pool = s.slot.pool := congrArg (fun a => a.1) ha
  rw [Slot.CountsSound, hpool]
  exact h

/-- The PDU that a round serves keeps the counts right. -/
theorem Executed.countsSound {hdr : Bytes} {h' : Nat} {r : Option Int} (hb : Books i s)
    (h : s.slot.CountsSound)
    (hok : ∀ c, iscsiOpcode hdr = opWriteData → (iscsiWriteDataDecap hdr).1 = 0 →
      s.slot.pool.cmds.get (iscsiItt hdr) = some c → (s.slot.pool.cmdMem c).ready = true →
        CountsRight (s.slot.pool.cmdMem c) (iscsiWriteDataDecap hdr).2)
    (hx : Executed env i h' hdr s s' r) : s'.slot.CountsSound := by
  cases hx with
  | outOfPhase ha => exact countsSound_of_aside h ha
  | task _ _ hrun => exact countsSound_of_aside h ((aside_taskCommandT hdr).of_ret hrun)
  | nop _ _ hrun => exact countsSound_of_aside h ((aside_nopOutT hdr).of_ret hrun)
  | login _ hrun =>
    exact countsSound_of_aside h ((loginCommandT_spec env i hdr s).of_ret hrun).aside
  | text _ _ hrun => exact countsSound_of_aside h ((aside_textCommandT hdr env).of_ret hrun)
  | logout _ hrun => exact countsSound_of_aside h ((aside_logoutCommandT hdr).of_ret hrun)
  | scsi _ _ hrun => exact ((scsiCommandT_spec i h' hdr s).of_ret hrun).countsSound h
  | data hop _ hrun =>
    cases (writeDataT_spec i h' hdr (fun k c hc => (hb.outstanding k c hc).1)
      fun c hc => hb.lun c (.inl hc)).of_ret hrun with
    | bad _ hs => exact hs ▸ h
    | waits _ _ _ _ hs => exact hs ▸ h
    | @ready c _ _ hc hready hpdu hend =>
      exact hend.countsSound h (hok c hop hpdu (TagHash.get_eq_some.mpr hc) hready)
  | unknown _ _ hrun => exact countsSound_of_aside h ((aside_rejectT hdr 0x04).of_ret hrun)

theorem Settled.cmdMem {h : Nat} {hdr : Bytes} {queued : Int} (hs : Settled h hdr s queued s') :
    s'.slot.pool.cmdMem = s.slot.pool.cmdMem := by
  cases hs <;> rfl

/-- A round of the worker. -/
theorem Round.countsSound (hb : Books i s) (h : s.slot.CountsSound) (hok : s.slot.ServesRight)
    (hr : Round env i s s') : s'.slot.CountsSound := by
  have hsettled {h' : Nat} {hdr : Bytes} {queued : Int} {s₁ : Local} (h₁ : s₁.slot.CountsSound)
      (hs : Settled h' hdr s₁ queued s') : s'.slot.CountsSound := by
    rw [Slot.CountsSound, hs.cmdMem]
    exact h₁
  have hexecuted {h' : Nat} {q : Fifo Nat} {r : Option Int} {s₁ : Local}
      (hw : s.slot.waiting = none)
      (hx : Executed env i h' s.nextHeader (s.setHeaderQ q).skipHeader s₁ r) :
      s₁.slot.CountsSound := by
    have hb₀ : Books i (s.setHeaderQ q).skipHeader := hb.congr rfl rfl rfl (.inl rfl) rfl rfl
    refine Executed.countsSound (s := (s.setHeaderQ q).skipHeader) hb₀ h ?_ hx
    intro c hop hpdu hget hready
    have hget : s.slot.pool.cmds.get (iscsiItt s.slot.nextHeader) = some c := hget
    refine hok ((iscsiWriteDataDecap s.slot.nextHeader).2, c) ?_ hready
    rw [Slot.dataServed, hw]
    dsimp only
    rw [if_pos ⟨hop, hpdu⟩, hget]
    rfl
  cases hr with
  | noHeader _ _ hs => exact hs ▸ h
  | short _ _ _ _ hs => exact hs ▸ h
  | waits hw _ _ hx => exact hexecuted hw hx
  | executed hw _ _ hx hs => exact hsettled (hexecuted hw hx) hs
  | stays _ _ hs => exact hs ▸ h
  | @resumed h' c hdr rc s₁ hw hready hx hs =>
    obtain ⟨hend, _⟩ := hb.resumed hw hready hx
    refine hsettled (hend.countsSound (s := s.setWaiting none) h ?_) hs
    exact hok ((iscsiWriteDataDecap hdr).2, c) (by rw [Slot.dataServed, hw]; rfl) hready

end Step

/-! ## Runs -/

section Runs

variable {env : Env} {w₀ w : World}

/-- The counts are right in every state of a run whose PDUs count right. -/
theorem countsSound_reachable (hw₀ : w₀.Starts) (h : Reach (step env) CoverEvent w₀ w) (i : Nat) :
    (w.slots i).CountsSound := by
  refine invariant_slots (P := fun _ s => s.CountsSound) (fun i => ?_) ?_ ?_ ?_ ?_ h i
  · rw [hw₀.slots i]
    exact fun c => sound_of_core (t := TargetCmd.zero) rfl rfl rfl rfl (by decide)
  · exact fun _ _ _ hk => hk
  · exact fun _ _ _ _ _ _ _ hk => hk
  · intro w i hreach hok _ hk
    exact (workerRound_spec env i _).mono fun _ _ hr =>
      hr.countsSound (books_reachable hw₀ hreach i) hk hok
  · intro w i c q _ _ _ hk
    exact (lunWorker_spec _).mono fun _ s hl => countsSound_lunEnd (s := (w.popped q).view i) hk hl

/-- In every run in which no PDU repeats a byte of its write, a write that is complete has received
every byte of its transfer. -/
theorem write_covered (hw₀ : w₀.Starts) (h : Reach (step env) CoverEvent w₀ w) (i c : Nat) :
    ((w.slots i).pool.cmdMem c).Covered := (countsSound_reachable hw₀ h i c).covered

end Runs

/-! ## Runs on a small daemon -/

/-- A write of one block without immediate data. -/
def smallWrite (tag : UInt32) : Bytes :=
  put8 (put8 (request 0x01 0xa0 0 tag 512 0) 32 opWrite10) 40 1

/-- Data of 256 bytes. -/
def smallData (b₁ : UInt8) (tag offset : UInt32) : Bytes :=
  put32 (request 0x05 b₁ 256 tag 0xffffffff 0) 40 offset ++ List.replicate 256 7

/-- Two PDUs that fill the block complete the write. -/
theorem write_covered_halves : ∃ w, Reach (step smallEnv) CoverEvent smallWorld w ∧
    ((w.slots 0).pool.cmdMem 0).IsWrite ∧ ((w.slots 0).pool.cmdMem 0).Complete ∧
      ((w.slots 0).pool.cmdMem 0).Full := by
  obtain ⟨w, h, hwrite, hcomplete⟩ : ∃ w, Reach (step smallEnv) CoverEvent smallWorld w ∧
      ((w.slots 0).pool.cmdMem 0).IsWrite ∧ ((w.slots 0).pool.cmdMem 0).Complete :=
    exists_reach [.accept (client (smallLogin ++ smallWrite 5 ++ smallData 0 5 256 ++
      smallData 0x80 5 0)), .rx 0, .rx 0, .lun, .rx 0, .rx 0] (by decide +kernel)
  exact ⟨w, h, hwrite, hcomplete, write_covered starts_smallWorld h 0 0 hwrite hcomplete⟩

/-- Two PDUs with the same half of the block complete it as well. -/
theorem write_uncovered : ∃ w, Reach (step smallEnv) (fun _ _ => True) smallWorld w ∧
    ¬((w.slots 0).pool.cmdMem 0).Covered :=
  exists_reach [.accept (client (smallLogin ++ smallWrite 5 ++ smallData 0 5 0 ++
    smallData 0x80 5 0)), .rx 0, .rx 0, .lun, .rx 0, .rx 0] (by decide +kernel)

end Ost.Target
