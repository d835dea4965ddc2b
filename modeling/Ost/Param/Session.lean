import Ost.Param.TextParse

/-!
# The parameters both sides register

The list `worker_proc_t` builds for every connection, the list `session_init_i` builds for
every session, and `set_session_parameters`, which copies the values that the data path
needs.
-/

namespace Ost.Param

open Ost.Iscsi Ost.Util

/-- The arguments of the `PARAM_LIST_ADD_ELSE` calls of `worker_proc_t`: type, key,
default, valid values. -/
def targetParamTable : List (ParamType × String × String × String) :=
  [(.list, "AuthMethod", "CHAP", "CHAP,None"),
   (.list, "CHAP_A", "5", "5"),
   (.declarative, "CHAP_N", "", ""),
   (.declarative, "CHAP_R", "", ""),
   (.declarative, "CHAP_I", "", ""),
   (.declarative, "CHAP_C", "", ""),
   (.declarative, "TargetPortalGroupTag", "1", "1"),
   (.list, "HeaderDigest", "None", "None"),
   (.list, "DataDigest", "None", "None"),
   (.numerical, "MaxConnections", "1", "1"),
   (.declarative, "SendTargets", "", ""),
   (.declarative, "TargetName", "", ""),
   (.declarative, "InitiatorName", "", ""),
   (.declarative, "TargetAlias", "", ""),
   (.declarative, "InitiatorAlias", "", ""),
   (.declarative, "TargetAddress", "", ""),
   (.binaryOr, "InitialR2T", "Yes", "Yes,No"),
   (.binaryAnd, "OFMarker", "No", "Yes,No"),
   (.binaryAnd, "IFMarker", "No", "Yes,No"),
   (.numericalZ, "OFMarkInt", "1", "65536"),
   (.numericalZ, "IFMarkInt", "1", "65536"),
   (.binaryAnd, "ImmediateData", "Yes", "Yes,No"),
   (.numericalZ, "MaxRecvDataSegmentLength", "8192", "1048576"),
   (.numericalZ, "FirstBurstLength", "65536", "1048576"),
   (.numericalZ, "MaxBurstLength", "262144", "1048576"),
   (.numerical, "DefaultTime2Wait", "2", "2"),
   (.numerical, "DefaultTime2Retain", "20", "20"),
   (.numerical, "MaxOutstandingR2T", "1", "1"),
   (.binaryOr, "DataPDUInOrder", "Yes", "Yes,No"),
   (.binaryOr, "DataSequenceInOrder", "Yes", "Yes,No"),
   (.numerical, "ErrorRecoveryLevel", "0", "0"),
   (.declarative, "SessionType", "Normal", "Normal,Discovery"),
   (.list, "AuthResult", "No", "Yes,No,Fail")]

/-- The parameter list of a new connection. -/
def targetParams (heap : Bytes) : Params :=
  targetParamTable.map fun (t, k, d, v) => paramListAdd heap t (cstr k) (cstr d) (cstr v)

/-- The arguments of the `PARAM_LIST_ADD_ELSE` calls of `session_init_i`.  The default of
`InitiatorName` is `g_hostname`. -/
def initiatorParamTable : List (ParamType × String × String × String) :=
  [(.list, "AuthMethod", "None", "None,CHAP"),
   (.list, "CHAP_A", "None", "5"),
   (.declarative, "CHAP_N", "", ""),
   (.declarative, "CHAP_R", "", ""),
   (.declarative, "CHAP_I", "", ""),
   (.declarative, "CHAP_C", "", ""),
   (.list, "HeaderDigest", "None", "None"),
   (.list, "DataDigest", "None", "None"),
   (.numerical, "MaxConnections", "1", "1"),
   (.declarative, "SendTargets", "", ""),
   (.declareMulti, "TargetName", "", ""),
   (.declarative, "InitiatorName", "", ""),
   (.declarative, "TargetAlias", "", ""),
   (.declarative, "InitiatorAlias", "", ""),
   (.declareMulti, "TargetAddress", "", ""),
   (.binaryOr, "InitialR2T", "Yes", "Yes,No"),
   (.binaryAnd, "ImmediateData", "Yes", "Yes,No"),
   (.numericalZ, "MaxBurstLength", "262144", "1048576"),
   (.numericalZ, "FirstBurstLength", "65536", "1048576"),
   (.numericalZ, "MaxRecvDataSegmentLength", "8192", "65536"),
   (.declarative, "TargetPortalGroupTag", "1", "65535"),
   (.numerical, "DefaultTime2Wait", "2", "2"),
   (.numerical, "DefaultTime2Retain", "20", "20"),
   (.numerical, "MaxOutstandingR2T", "1", "1"),
   (.binaryOr, "DataPDUInOrder", "Yes", "Yes,No"),
   (.binaryOr, "DataSequenceInOrder", "Yes", "Yes,No"),
   (.numerical, "ErrorRecoveryLevel", "0", "0"),
   (.declarative, "SessionType", "Normal", "Normal,Discovery")]

/-- The parameter list of a new session of the initiator. -/
def initiatorParams (heap : Bytes) (hostname : CStr) : Params :=
  initiatorParamTable.map fun (t, k, d, v) =>
    paramListAdd heap t (cstr k) (if k = "InitiatorName" then hostname else cstr d) (cstr v)

/-! ## Signatures -/

/-- What negotiation never changes of a parameter. -/
structure Sig where
  key : CStr
  type : ParamType
  valid : CStr
deriving DecidableEq, Repr

/-- The signature of a parameter. -/
def IscsiParameter.sig (p : IscsiParameter) : Sig := ⟨p.key, p.type, p.valid⟩

/-- The signatures in a table. -/
def tableSigs (table : List (ParamType × String × String × String)) : List Sig :=
  table.map fun (t, k, _, v) => ⟨cstr k, t, cstr v⟩

/-- The parameters of a new connection have the signatures of the table. -/
theorem targetParams_sigs (heap : Bytes) :
    (targetParams heap).map IscsiParameter.sig = tableSigs targetParamTable := by
  simp only [targetParams, tableSigs, List.map_map]
  rfl

/-- A lookup finds the signature the list has for the key. -/
theorem paramGet_sig (head : Params) (key : CStr) :
    (paramGet head key).map IscsiParameter.sig =
      (head.map IscsiParameter.sig).find? fun σ => σ.key == key := by
  rw [List.find?_map]
  rfl

/-! ## The values the data path needs -/

/-- `ISCSI_SESS_PARAM_T`. -/
structure SessParams where
  maxBurstLength : Nat
  firstBurstLength : Nat
  maxDataSegLength : Nat
  initialR2t : Bool
  immediateData : Bool
deriving DecidableEq, Repr

/-- The parameters of a session after `memset`. -/
def SessParams.zero : SessParams :=
  { maxBurstLength := 0, firstBurstLength := 0, maxDataSegLength := 0, initialR2t := false,
    immediateData := false }

/-- `set_session_parameters`. -/
def setSessionParameters (head : Params) : SessParams :=
  { maxBurstLength := (paramAtoi head (cstr "MaxBurstLength")).toNat
    firstBurstLength := (paramAtoi head (cstr "FirstBurstLength")).toNat
    maxDataSegLength := (paramAtoi head (cstr "MaxRecvDataSegmentLength")).toNat
    initialR2t := paramEquiv head (cstr "InitialR2T") (cstr "Yes") = 0
    immediateData := paramEquiv head (cstr "ImmediateData") (cstr "Yes") = 0 }

/-- The state of a new connection: no cookie yet, nothing received. -/
def ParamState.init (heap : Bytes) (heapCookie : Cookie) (rand : Nat → UInt8) : ParamState :=
  { params := targetParams heap, cookie := none, heapCookie, rand, randPos := 0
    received := [], log := [] }

example : setSessionParameters (targetParams []) =
    { maxBurstLength := 262144, firstBurstLength := 65536, maxDataSegLength := 8192
      initialR2t := true, immediateData := true } := by decide

end Ost.Param
