import Ost.Param.Hex
import Ost.Param.Steps

/-!
# The response to a challenge

`param_parse_security` decodes a received `CHAP_R` into the cookie, and then compares what is in the
cookie with the digest.  It does not ask what the decoder has returned.  So a string that the
decoder gives up on is accepted as well when the bytes in front of the fault are the first of the
digest, and the bytes that an earlier response has left behind are the others.
-/

namespace Ost.Param

open Ost.Iscsi Ost.Util Ost.Prog

/-! ## What is compared -/

/-- The same exchange with other bytes in the response buffer of the cookie. -/
def Parse.withRespdata (s : Parse) (r : Bytes) : Parse :=
  { s with cookie := some { s.theCookie with respdata := r } }

/-- The string that was received for a key. -/
def IscsiParameter.received (p : IscsiParameter) : CBuf :=
  if p.rxOffer then p.offerRx else p.answerRx

section Response

variable (env : Env) (u : Users) (p : IscsiParameter) (s : Parse)

/-- The digest of the identifier, the secret and the challenge. -/
def expected : Bytes :=
  env.md5 (s.theCookie.idData :: ((if p.rxOffer then u.initiatorPass else u.targetPass) ++
    s.theCookie.chapdata.take chapCDataLength))

/-- `param_parse_security` accepts the response. -/
def Accepts : Prop := ∃ s', paramParseSecurity env u p s = .ret 0 s'

variable {env u p s}

@[simp] theorem theCookie_withRespdata (r : Bytes) :
    (s.withRespdata r).theCookie = { s.theCookie with respdata := r } := rfl

/-- The digest does not depend on the response buffer. -/
theorem expected_withRespdata (r : Bytes) :
    expected env u p (s.withRespdata r) = expected env u p s := rfl

/-- What has been written, with what was there behind it. -/
theorem overlay_take {buf bs : Bytes} {n : Nat} (hbuf : buf.length = n) (hbs : bs.length ≤ n) :
    (overlay buf bs).take n = bs ++ buf.drop bs.length := by
  refine List.take_of_length_le ?_
  rw [overlay, List.length_append, List.length_drop]
  omega

/-- A response is accepted when the decoded bytes and the stale ones behind them are the digest. -/
theorem accepts_iff (hkey : p.key = cstr "CHAP_R")
    (hresp : s.theCookie.respdata.length = chapRDataLength) :
    Accepts env u p s ↔ (hexTextToData p.received chapRDataLength).2 ++
      s.theCookie.respdata.drop (hexTextToData p.received chapRDataLength).2.length =
        expected env u p s := by
  have htake := overlay_take hresp (length_hexTextToData_le p.received chapRDataLength)
  have hdigest : (expected env u p s).take chapRDataLength = expected env u p s :=
    List.take_of_length_le (Nat.le_of_eq (env.md5_length _))
  rw [← htake, ← hdigest, Accepts, paramParseSecurity, bind_apply, getCookie_eq]
  dsimp only
  rw [hkey, if_neg (by decide), if_neg (by decide), if_neg (by decide), if_neg (by decide),
    if_neg (by decide), if_pos rfl, securityChapR, bind_apply, getCookie_eq]
  by_cases heq : (overlay s.theCookie.respdata
      (hexTextToData p.received chapRDataLength).2).take chapRDataLength =
    (expected env u p s).take chapRDataLength
  · refine iff_of_true ⟨_, congrFun (if_neg (not_not.mpr heq)) _⟩ heq
  · refine iff_of_false (fun hacc => ?_) heq
    obtain ⟨s', hrun⟩ := hacc
    have hrej := (congrFun (if_pos heq) _).symm.trans hrun
    exact absurd (Outcome.ret.inj hrej).1 (by decide)

/-- A list in place of the end of another. -/
theorem append_eq_iff_prefix {w r d : Bytes} :
    w ++ r = d ↔ w <+: d ∧ r = d.drop w.length := by
  constructor
  · rintro rfl
    exact ⟨List.prefix_append _ _, by simp⟩
  · rintro ⟨⟨t, rfl⟩, rfl⟩
    simp

/-- The check of a `CHAP_R` accepts the encoding of the digest and nothing else, whatever is in the
response buffer, exactly when the string is that encoding, or when the bytes decoded from it are not
the first bytes of the digest. -/
theorem chapResponse_exact (hkey : p.key = cstr "CHAP_R")
    (hresp : s.theCookie.respdata.length = chapRDataLength) :
    ((Accepts env u p s ↔ HexText p.received.str (expected env u p s)) ∧
      ∀ r : Bytes, r.length = chapRDataLength →
        (Accepts env u p (s.withRespdata r) ↔ Accepts env u p s)) ↔
    (HexText p.received.str (expected env u p s) ∨
      ¬(hexTextToData p.received chapRDataLength).2 <+: expected env u p s) := by
  have hdigest : (expected env u p s).length = chapRDataLength := env.md5_length _
  have hwritten := length_hexTextToData_le p.received chapRDataLength
  have haccept (r : Bytes) (hr : r.length = chapRDataLength) :=
    (@accepts_iff env u p (s.withRespdata r) hkey hr).trans append_eq_iff_prefix
  simp only [theCookie_withRespdata, expected_withRespdata] at haccept
  have hself := (@accepts_iff env u p s hkey hresp).trans append_eq_iff_prefix
  generalize hw : (hexTextToData p.received chapRDataLength).2 = w at *
  generalize hd : expected env u p s = d at *
  by_cases henc : HexText p.received.str d
  · have hread := hexTextToData_hexText henc hdigest.le (by rw [hdigest]; decide)
    obtain rfl : d = w := by rw [← hw, hread]
    have hall (r : Bytes) (hr : r.length = chapRDataLength) :
        d <+: d ∧ r.drop d.length = d.drop d.length := by
      refine ⟨List.prefix_rfl, ?_⟩
      rw [List.drop_of_length_le (by omega), List.drop_length]
    exact iff_of_true ⟨iff_of_true (hself.mpr (hall _ hresp)) henc, fun r hr =>
      iff_of_true ((haccept r hr).mpr (hall r hr)) (hself.mpr (hall _ hresp))⟩ (.inl henc)
  · rw [or_iff_right henc, iff_false_right henc]
    constructor
    · rintro ⟨hreject, hsame⟩ hpre
      -- the missing bytes may have been left behind
      obtain ⟨r, hr, hrest⟩ : ∃ r : Bytes, r.length = chapRDataLength ∧
          r.drop w.length = d.drop w.length := ⟨d, hdigest, rfl⟩
      exact hreject ((hsame r hr).mp ((haccept r hr).mpr ⟨hpre, hrest⟩))
    · intro hpre
      have hreject : ¬Accepts env u p s := fun h => hpre (hself.mp h).1
      exact ⟨hreject, fun r hr => iff_of_false (fun h => hpre ((haccept r hr).mp h).1) hreject⟩

end Response

/-! ## A target that waits for a response -/

/-- An environment whose digest is zero whatever is digested. -/
def zeroEnv : Env :=
  { md5 := fun _ => List.replicate 16 0, md5_length := length_zeroDigest, hostname := []
    targetAddress := [], staleKey := [] }

/-- The credentials of an initiator alone. -/
def initiatorOnly : Users :=
  { initiatorUser := some (cstr "i"), initiatorPass := cstr "p",
    targetUser := [], targetPass := [] }

/-- A response that the target has received. -/
def chapR (text : CStr) : IscsiParameter :=
  { paramListAdd [] .declarative (cstr "CHAP_R") [] [] with rxOffer := true, offerRx := ⟨text, []⟩ }

/-- An exchange with some bytes in the response buffer. -/
def challenged (r : Bytes) : Parse :=
  { params := [], cookie := some ⟨0, List.replicate 1024 0, r⟩
    heapCookie := ⟨0, List.replicate 1024 0, List.replicate 16 0⟩, rand := fun _ => 0, randPos := 0
    received := [], log := [], textOut := [] }

/-- The encoding of the digest is accepted, whatever is in the buffer. -/
theorem chapResponse_exact_zeros :
    (Accepts zeroEnv initiatorOnly (chapR (hexDataToText (List.replicate 16 0)))
        (challenged (List.replicate 16 1)) ↔
      HexText (hexDataToText (List.replicate 16 0)) (List.replicate 16 0)) ∧
    ∀ r : Bytes, r.length = chapRDataLength →
      (Accepts zeroEnv initiatorOnly (chapR (hexDataToText (List.replicate 16 0)))
          ((challenged (List.replicate 16 1)).withRespdata r) ↔
        Accepts zeroEnv initiatorOnly (chapR (hexDataToText (List.replicate 16 0)))
          (challenged (List.replicate 16 1))) :=
  (@chapResponse_exact zeroEnv initiatorOnly (chapR (hexDataToText (List.replicate 16 0)))
    (challenged (List.replicate 16 1)) rfl rfl).mpr (.inl (hexText_hexDataToText _))

/-- The encoding of the digest and one byte more is accepted.  And `0x` alone is accepted or not,
depending on what has been left in the buffer. -/
theorem chapResponse_loose :
    (Accepts zeroEnv initiatorOnly (chapR (hexDataToText (List.replicate 17 0)))
        (challenged (List.replicate 16 1)) ∧
      ¬HexText (hexDataToText (List.replicate 17 0)) (List.replicate 16 0)) ∧
    Accepts zeroEnv initiatorOnly (chapR (cstr "0x")) (challenged (List.replicate 16 0)) ∧
      ¬Accepts zeroEnv initiatorOnly (chapR (cstr "0x")) (challenged (List.replicate 16 1)) := by
  refine ⟨⟨(accepts_iff rfl rfl).mpr (by decide), fun h => ?_⟩,
    (accepts_iff rfl rfl).mpr (by decide), fun h => ?_⟩
  · exact absurd h.length_eq (by decide)
  · exact absurd ((accepts_iff rfl rfl).mp h) (by decide)

end Ost.Param
