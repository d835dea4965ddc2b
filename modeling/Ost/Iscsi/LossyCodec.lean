import Ost.Iscsi.Codec

/-!
# Codecs that lose a field

The task management codec keeps one bit of the function code and not the one that is used, and
its response decoder tests a word at the wrong offset, which overlaps StatSN.  The login codec
reads the data length together with the AHS length in front of it.  Here is exactly when these
codecs give back what they were given.
-/

namespace Ost.Iscsi

/-! ## Task management -/

/-- A task management request arrives: the decoder accepts it and finds the function that was
asked for. -/
def TaskCmd.Arrives (buf : Bytes) (c : TaskCmd) : Prop :=
  let r := iscsiTaskCmdDecap ((iscsiTaskCmdEncap buf c).take iscsiHeaderLen)
  r.1 = 0 ∧ r.2.function = c.function

/-- A task management response arrives: the decoder accepts it and sets every field that it sets
to what was sent.  It does not touch the length, which is `len` where it stores. -/
def TaskRsp.Arrives (buf : Bytes) (len : UInt32) (r : TaskRsp) : Prop :=
  iscsiTaskRspDecap len ((iscsiTaskRspEncap buf r).take iscsiHeaderLen) =
    (0, { r with length := len })

/-- The header of an encapsulation that stores within it. -/
theorem StoresHeader.take {α : Type} {encap : Bytes → α → Bytes} {c : α}
    (h : StoresHeader encap c) (buf : Bytes) :
    (encap buf c).take iscsiHeaderLen = encap zeroHeader c := by
  rw [h.2, List.take_left' h.1]

theorem storesHeader_taskCmd (c : TaskCmd) : StoresHeader iscsiTaskCmdEncap c := by
  constructor <;> simp [iscsiTaskCmdEncap, clearHeader, iscsiHeaderLen]

theorem storesHeader_taskRsp (r : TaskRsp) : StoresHeader iscsiTaskRspEncap r := by
  constructor <;> simp [iscsiTaskRspEncap, clearHeader, iscsiHeaderLen]

/-- A function code is lost under the mask of the bit in front of it. -/
theorem function_masked {f : UInt8} (hf : f < 128) : f &&& 0x80 = 0 := by
  have hall : ∀ n : Fin 128, UInt8.ofNat n &&& 0x80 = 0 := by decide
  have h := hall ⟨f.toNat, hf⟩
  rwa [UInt8.ofNat_toNat] at h

/-- No task management request arrives. -/
theorem taskCmd_lost (buf : Bytes) (c : TaskCmd) (h : 1 ≤ c.function ∧ c.function ≤ 8) :
    ¬c.Arrives buf := by
  have hlt : c.function < 128 := UInt8.lt_of_le_of_lt h.2 (by decide)
  have hpos : c.function ≠ 0 := by
    intro h0
    rw [h0] at h
    exact absurd h.1 (by decide)
  intro ha
  rw [TaskCmd.Arrives, (storesHeader_taskCmd c).take] at ha
  have hfun : c.function &&& 0x80 = c.function := by
    simpa [iscsiTaskCmdDecap, iscsiTaskCmdEncap, UInt8.and_assoc] using ha.2
  exact hpos (hfun.symm.trans (function_masked hlt))

/-- The word that the response decoder tests overlaps StatSN. -/
theorem be32_taskRsp (r : TaskRsp) :
    be32 (iscsiTaskRspEncap zeroHeader r) 23 = 0 ↔ r.statSN < 256 := by
  have hword : be32 (iscsiTaskRspEncap zeroHeader r) 24 = r.statSN := by simp [iscsiTaskRspEncap]
  have hbyte : byte (iscsiTaskRspEncap zeroHeader r) 23 = 0 := by simp [iscsiTaskRspEncap]
  have hlast := (byte (iscsiTaskRspEncap zeroHeader r) 27).toNat_lt
  have hhigh := be32_toNat_be24 (iscsiTaskRspEncap zeroHeader r) 23
  have hlow := be32_toNat (iscsiTaskRspEncap zeroHeader r) 24
  rw [hbyte] at hhigh
  rw [hword] at hlow
  rw [← UInt32.toNat_inj, UInt32.lt_iff_toNat_lt, hhigh, hlow]
  change 0 * 16777216 + be24 _ 24 = 0 ↔ be24 _ 24 * 256 + (byte _ 27).toNat < 256
  omega

/-- A response without data arrives when its StatSN fits in a byte. -/
theorem taskRsp_arrives_iff (buf : Bytes) (len : UInt32) (r : TaskRsp) (h : r.length = 0) :
    r.Arrives buf len ↔ r.statSN < 256 := by
  rw [TaskRsp.Arrives, (storesHeader_taskRsp r).take, ← be32_taskRsp]
  constructor
  · intro ha
    by_contra hne
    have hrc := congrArg Prod.fst ha
    simp [iscsiTaskRspDecap, firstFailure, hne] at hrc
  · intro hz
    obtain ⟨response, length, tag, statSN, expCmdSN, maxCmdSN⟩ := r
    dsimp only at h
    subst h
    simp [iscsiTaskRspEncap] at hz
    simp [iscsiTaskRspDecap, iscsiTaskRspEncap, firstFailure, iscsiOpcode, opTaskRsp, hz]
    decide

/-- No task management request arrives, and a response without data does exactly when its StatSN
fits in a byte. -/
theorem taskManagement_arrives_iff (buf buf' : Bytes) (len : UInt32) (c : TaskCmd) (r : TaskRsp)
    (hc : 1 ≤ c.function ∧ c.function ≤ 8) (hr : r.length = 0) :
    ¬c.Arrives buf ∧ (r.Arrives buf' len ↔ r.statSN < 256) :=
  ⟨taskCmd_lost buf c hc, taskRsp_arrives_iff buf' len r hr⟩

/-- An abort request is lost, while a response with StatSN 255 arrives. -/
theorem taskRsp_arrives :
    ¬TaskCmd.Arrives [] ⟨false, 1, 0, 1, 2, 3, 4, 5, 6⟩ ∧
    TaskRsp.Arrives [] 0 ⟨0, 0, 1, 255, 3, 4⟩ := by
  have h := taskManagement_arrives_iff [] [] 0 ⟨false, 1, 0, 1, 2, 3, 4, 5, 6⟩
    ⟨0, 0, 1, 255, 3, 4⟩ (by decide) rfl
  exact ⟨h.1, h.2.mpr (by decide)⟩

/-- An abort request does not arrive, nor does a response with StatSN 256. -/
theorem taskManagement_lost :
    ¬TaskCmd.Arrives [] ⟨false, 1, 0, 1, 2, 3, 4, 5, 6⟩ ∧
    ¬TaskRsp.Arrives [] 0 ⟨0, 0, 1, 256, 3, 4⟩ := by
  constructor
  · exact fun h => absurd h.1 (by decide)
  · exact fun h => absurd (congrArg Prod.fst h) (by decide)

/-! ## Login -/

/-- What the header of a login request holds: stages of two bits, an ISID that the encoder can
increment within 48 bits, and a transition that the decoder admits. -/
structure LoginCmd.InFormat (c : LoginCmd) : Prop where
  csg : c.csg < 4
  nsg : c.nsg < 4
  length : c.length < 2 ^ 24
  isid : c.isid < 2 ^ 48 - 1
  tsih : c.tsih < 2 ^ 16
  cid : c.cid < 2 ^ 16
  transit : c.badTransit = false

/-- What the header of a login response holds: a next stage only with the transit bit. -/
structure LoginRsp.InFormat (r : LoginRsp) : Prop where
  csg : r.csg < 4
  nsg : r.nsg < 4
  length : r.length < 0x1000000
  tsih : r.tsih < 2 ^ 16
  transit : r.transit = false → r.nsg = 0

/-- What a target makes of a login request. -/
def LoginCmd.received (buf : Bytes) (c : LoginCmd) : Int × LoginCmd :=
  iscsiLoginCmdDecap ((iscsiLoginCmdEncap buf c).1.take iscsiHeaderLen)

/-- What an initiator makes of a login response. -/
def LoginRsp.received (buf : Bytes) (r : LoginRsp) : Int × LoginRsp :=
  iscsiLoginRspDecap ((iscsiLoginRspEncap buf r).take iscsiHeaderLen)

/-- A login request arrives with every field but the ISID, the structure of the initiator is as
before, and a response with the ISID that arrived comes back with that of the request. -/
def LoginArrives (buf buf' : Bytes) (c : LoginCmd) (r : LoginRsp) : Prop :=
  ((c.received buf).1 = 0 ∧ { (c.received buf).2 with isid := c.isid } = c) ∧
    (iscsiLoginCmdEncap buf c).2 = c ∧
    LoginRsp.received buf' { r with isid := (c.received buf).2.isid } =
      (0, { r with isid := c.isid })

theorem login_flags (t k : Bool) {g n : UInt8} (hg : g < 4) (hn : n < 4) :
    let b := flag t 0x80 ||| flag k 0x40 ||| ((g <<< 2) &&& 0x0c) ||| (n &&& 0x03)
    (b &&& 0x30) >>> 4 = 0 ∧ bit b 0x80 = t ∧ bit b 0x40 = k ∧ (b &&& 0x0c) >>> 2 = g ∧
      b &&& 0x03 = n := by
  have hall : ∀ (t k : Bool) (g n : Fin 4),
      let b := flag t 0x80 ||| flag k 0x40 ||| ((UInt8.ofNat g <<< 2) &&& 0x0c) |||
        (UInt8.ofNat n &&& 0x03)
      (b &&& 0x30) >>> 4 = 0 ∧ bit b 0x80 = t ∧ bit b 0x40 = k ∧
        (b &&& 0x0c) >>> 2 = UInt8.ofNat g ∧ b &&& 0x03 = UInt8.ofNat n := by decide
  have h := hall t k ⟨g.toNat, hg⟩ ⟨n.toNat, hn⟩
  rwa [UInt8.ofNat_toNat, UInt8.ofNat_toNat] at h

/-- The encoder gives the structure back as it was. -/
theorem loginCmdEncap_snd (buf : Bytes) {c : LoginCmd} (h : c.isid < 2 ^ 48 - 1) :
    (iscsiLoginCmdEncap buf c).2 = c := by
  obtain ⟨transit, cont, csg, nsg, versionMax, versionMin, ahsLength, length, isid, tsih, tag, cid,
    cmdSN, expStatSN⟩ := c
  dsimp only at h
  simp only [iscsiLoginCmdEncap, LoginCmd.mk.injEq, true_and, and_true]
  omega

theorem storesHeader_loginCmd (c : LoginCmd) :
    StoresHeader (fun h c => (iscsiLoginCmdEncap h c).1) c := by
  constructor <;> simp [iscsiLoginCmdEncap, clearHeader, put64, iscsiHeaderLen]

theorem storesHeader_loginRsp (r : LoginRsp) : StoresHeader iscsiLoginRspEncap r := by
  constructor <;> simp [iscsiLoginRspEncap, clearHeader, iscsiHeaderLen]

/-- What a target makes of a login request within the format. -/
theorem LoginCmd.received_eq (buf : Bytes) {c : LoginCmd} (hc : c.InFormat) :
    c.received buf = (0, { c with
      length := c.ahsLength.toNat * 16777216 + c.length, isid := c.isid + 1 }) := by
  have htake := (storesHeader_loginCmd c).take buf
  rw [LoginCmd.received, htake]
  obtain ⟨transit, cont, csg, nsg, versionMax, versionMin, ahsLength, length, isid, tsih, tag, cid,
    cmdSN, expStatSN⟩ := c
  obtain ⟨hcsg, hnsg, hlen, hisid, htsih, hcid, htransit⟩ := hc
  dsimp only at hcsg hnsg hlen hisid htsih hcid htransit
  have hmask := ofNat_and_length hlen
  obtain ⟨h30, h80, h40, h0c, h03⟩ := login_flags transit cont hcsg hnsg
  have hahs := ahsLength.toNat_lt
  have hop : (64 ||| 3) &&& 63 = (3 : UInt8) := by decide
  simp only [LoginCmd.badTransit] at htransit
  simp [iscsiLoginCmdDecap, iscsiLoginCmdEncap, put64, firstFailure, iscsiOpcode, iscsiCmdSN,
    opLoginCmd, LoginCmd.badTransit, *]
  omega

/-- What an initiator makes of a login response within the format. -/
theorem LoginRsp.received_eq (buf : Bytes) {r : LoginRsp} (hr : r.InFormat) {n : Nat}
    (hn : n + 1 < 2 ^ 48) (hisid : r.isid = n + 1) :
    r.received buf = (0, { r with
      length := UInt32.ofNat (r.ahsLength.toNat * 16777216 + r.length.toNat), isid := n }) := by
  rw [LoginRsp.received, (storesHeader_loginRsp r).take]
  obtain ⟨transit, cont, csg, nsg, versionMax, versionActive, ahsLength, length, isid, tsih, tag,
    statSN, expCmdSN, maxCmdSN, statusClass, statusDetail⟩ := r
  obtain ⟨hcsg, hnsg, hlen, htsih, htransit⟩ := hr
  dsimp only at hcsg hnsg hlen hisid htsih htransit
  subst hisid
  have hmask := and_length hlen
  have hmod : length.toNat % 16777216 = length.toNat := Nat.mod_eq_of_lt hlen
  obtain ⟨h30, h80, h40, h0c, h03⟩ := login_flags transit cont hcsg hnsg
  have hop : 35 &&& 63 = (35 : UInt8) := by decide
  have hstage : (if transit = true then nsg &&& 3 else 0) = nsg &&& 3 := by
    cases transit with
    | false => simp [htransit rfl]
    | true => rfl
  simp [iscsiLoginRspDecap, iscsiLoginRspEncap, firstFailure, iscsiOpcode, opLoginRsp, *]
  omega

/-- A length comes back with the AHS length in front of it. -/
theorem length_back_iff {a : UInt8} {n : Nat} : a.toNat * 16777216 + n = n ↔ a = 0 := by
  rw [← UInt8.toNat_inj]
  change a.toNat * 16777216 + n = n ↔ a.toNat = 0
  omega

/-- A login exchange within the format arrives exactly when neither of its headers announces an
AHS. -/
theorem loginArrives_iff (buf buf' : Bytes) (c : LoginCmd) (r : LoginRsp) (hc : c.InFormat)
    (hr : r.InFormat) : LoginArrives buf buf' c r ↔ c.ahsLength = 0 ∧ r.ahsLength = 0 := by
  have hcmd := c.received_eq buf hc
  have hr' : LoginRsp.InFormat { r with isid := c.isid + 1 } := ⟨hr.1, hr.2, hr.3, hr.4, hr.5⟩
  have hrsp := LoginRsp.received_eq buf' hr' (n := c.isid) (by have := hc.isid; omega) rfl
  have hlen : r.length.toNat < 16777216 := hr.length
  have hahs := r.ahsLength.toNat_lt
  rw [LoginArrives, hcmd, hrsp, loginCmdEncap_snd buf hc.isid, ← length_back_iff (n := c.length),
    ← length_back_iff (n := r.length.toNat)]
  constructor
  · rintro ⟨⟨_, hback⟩, _, hback'⟩
    refine ⟨congrArg LoginCmd.length hback, ?_⟩
    have h := congrArg (fun p => p.2.length.toNat) hback'
    dsimp only at h
    rw [UInt32.toNat_ofNat'] at h
    omega
  · rintro ⟨h, h'⟩
    rw [h, h']
    simp

/-- A login request that announces an AHS arrives with another data length. -/
theorem login_lost : ∃ c r, LoginCmd.InFormat c ∧ LoginRsp.InFormat r ∧
    ¬LoginArrives [] [] c r := by
  refine ⟨⟨false, false, 0, 0, 0, 0, 1, 4, 5, 0, 1, 0, 1, 0⟩, LoginRsp.zero, ?_, ?_, fun h => ?_⟩
  · constructor <;> decide
  · constructor <;> decide
  · exact absurd (congrArg LoginCmd.length h.1.2) (by decide)

/-- A login exchange without AHS. -/
theorem loginArrives_noAhs :
    LoginArrives [] [] ⟨true, false, 0, 1, 0, 0, 0, 4, 5, 0, 1, 0, 1, 0⟩ LoginRsp.zero := by
  refine (loginArrives_iff [] [] _ _ ?_ ?_).mpr ⟨rfl, rfl⟩
  · constructor <;> decide
  · constructor <;> decide

end Ost.Iscsi
