import Ost.Md5.Digest
import Ost.Param.Response

/-!
# MD5 in the authentication

The model of `param_parse_security` takes the digest for a function of the bytes that are digested.
In the program this function is the one of `md5.c`, to which the identifier, the secret and the
challenge are handed one after the other.  With it, a response made from a secret that is not the
right one is only accepted when two calls of the compression function collide, one for each secret
(`guess_collides`).
-/

namespace Ost.Md5

open Ost.Iscsi Ost.Util Ost.Param Ost.Prog

/-- A digest has 16 bytes. -/
theorem length_md5 (msg : Bytes) : (md5 msg).length = 16 := rfl

/-- An environment with the digest of the program. -/
def codeEnv (env : Env) : Env := { env with md5, md5_length := length_md5 }

/-- The secret that a response is checked against. -/
def secret (u : Users) (p : IscsiParameter) : CStr :=
  if p.rxOffer then u.initiatorPass else u.targetPass

/-- The challenge that it answers. -/
def challenge (s : Parse) : Bytes := s.theCookie.chapdata.take chapCDataLength

/-- What is digested with a secret. -/
def response (s : Parse) (pass : CStr) : Bytes := s.theCookie.idData :: (pass ++ challenge s)

section Chap

variable {env : Env} {u : Users} {p : IscsiParameter} {s : Parse} {guess : CStr}

/-- A response is compared with what the calls of `param_parse_security` compute. -/
theorem expected_codeEnv {ctx : Context} (hlen : ctx.input.length = 64)
    (hsecret : (secret u p).length < 4294967296) :
    expected (codeEnv env) u p s =
      md5Run ctx [[s.theCookie.idData], secret u p, challenge s] := by
  have hchallenge : (challenge s).length ≤ chapCDataLength := List.length_take_le ..
  rw [md5Run_eq hlen]
  · rw [List.flatten_cons, List.flatten_cons, List.flatten_singleton]
    rfl
  · simp only [List.forall_mem_cons, List.length_singleton]
    refine ⟨by decide, hsecret, ?_, nofun⟩
    exact Nat.lt_of_le_of_lt hchallenge (by decide)

/-- A response made from another secret is only accepted by a collision between the digest that the
other side has made and the one it is compared with. -/
theorem guess_collides (hkey : p.key = cstr "CHAP_R")
    (hresp : s.theCookie.respdata.length = chapRDataLength)
    (htext : HexText p.received.str (md5 (response s guess)))
    (hguess : guess.length < 1152921504606846976)
    (hsecret : (secret u p).length < 1152921504606846976) (hne : guess ≠ secret u p)
    (hacc : Accepts (codeEnv env) u p s) :
    Collide compress md5Start (md5Blocked (response s guess))
      (md5Blocked (response s (secret u p))) := by
  have hchallenge : (challenge s).length ≤ chapCDataLength := List.length_take_le ..
  have hread := hexTextToData_hexText (n := chapRDataLength) htext (length_md5 _).le
    (by rw [length_md5]; decide)
  have hdigest := (accepts_iff hkey hresp).mp hacc
  rw [hread, length_md5, List.drop_of_length_le (by rw [hresp]; decide), List.append_nil] at hdigest
  have h16 : chapCDataLength = 16 := rfl
  refine md5_collision ?_ ?_ (fun he => hne ?_) hdigest
  · simp only [response, List.length_cons, List.length_append]
    omega
  · simp only [response, List.length_cons, List.length_append]
    omega
  · exact List.append_cancel_right (List.cons.inj he).2

end Chap

/-- A secret. -/
def rightSecret : CStr :=
  [0x31, 0xdd, 0x02, 0xc5, 0xe6, 0xee, 0xc4, 0x69, 0x3d, 0x9a, 0x06, 0x98, 0xaf, 0xf9, 0x5c, 0x2f,
   0xca, 0xb5, 0x87, 0x12, 0x46, 0x7e, 0xab, 0x40, 0x04, 0x58, 0x3e, 0xb8, 0xfb, 0x7f, 0x89, 0x55,
   0xad, 0x34, 0x06, 0x09, 0xf4, 0xb3, 0x02, 0x83, 0xe4, 0x88, 0x83, 0x25, 0x71, 0x41, 0x5a, 0x08,
   0x51, 0x25, 0xe8, 0xf7, 0xcd, 0xc9, 0x9f, 0xd9, 0x1d, 0xbd, 0xf2, 0x80, 0x37, 0x3c, 0x5b, 0xd8,
   0x82, 0x3e, 0x31, 0x56, 0x34, 0x8f, 0x5b, 0xae, 0x6d, 0xac, 0xd4, 0x36, 0xc9, 0x19, 0xc6, 0xdd,
   0x53, 0xe2, 0xb4, 0x87, 0xda, 0x03, 0xfd, 0x02, 0x39, 0x63, 0x06, 0xd2, 0x48, 0xcd, 0xa0, 0xe9,
   0x9f, 0x33, 0x42, 0x0f, 0x57, 0x7e, 0xe8, 0xce, 0x54, 0xb6, 0x70, 0x80, 0xa8, 0x0d, 0x1e, 0xc6,
   0x98, 0x21, 0xbc, 0xb6, 0xa8, 0x83, 0x93, 0x96, 0xf9, 0x65, 0x2b, 0x6f, 0xf7, 0x2a, 0x70]

/-- Another one, that makes the same digest behind the identifier 209. -/
def wrongSecret : CStr :=
  [0x31, 0xdd, 0x02, 0xc5, 0xe6, 0xee, 0xc4, 0x69, 0x3d, 0x9a, 0x06, 0x98, 0xaf, 0xf9, 0x5c, 0x2f,
   0xca, 0xb5, 0x07, 0x12, 0x46, 0x7e, 0xab, 0x40, 0x04, 0x58, 0x3e, 0xb8, 0xfb, 0x7f, 0x89, 0x55,
   0xad, 0x34, 0x06, 0x09, 0xf4, 0xb3, 0x02, 0x83, 0xe4, 0x88, 0x83, 0x25, 0xf1, 0x41, 0x5a, 0x08,
   0x51, 0x25, 0xe8, 0xf7, 0xcd, 0xc9, 0x9f, 0xd9, 0x1d, 0xbd, 0x72, 0x80, 0x37, 0x3c, 0x5b, 0xd8,
   0x82, 0x3e, 0x31, 0x56, 0x34, 0x8f, 0x5b, 0xae, 0x6d, 0xac, 0xd4, 0x36, 0xc9, 0x19, 0xc6, 0xdd,
   0x53, 0xe2, 0x34, 0x87, 0xda, 0x03, 0xfd, 0x02, 0x39, 0x63, 0x06, 0xd2, 0x48, 0xcd, 0xa0, 0xe9,
   0x9f, 0x33, 0x42, 0x0f, 0x57, 0x7e, 0xe8, 0xce, 0x54, 0xb6, 0x70, 0x80, 0x28, 0x0d, 0x1e, 0xc6,
   0x98, 0x21, 0xbc, 0xb6, 0xa8, 0x83, 0x93, 0x96, 0xf9, 0x65, 0xab, 0x6f, 0xf7, 0x2a, 0x70]

/-- An exchange in which the target has issued the identifier 209. -/
def issued : Parse := { challenged (List.replicate 16 1) with
  cookie := some ⟨209, List.replicate 1024 0, List.replicate 16 1⟩ }

/-- The response made from the wrong secret. -/
def wrongResponse : IscsiParameter :=
  chapR (hexDataToText (md5 (response issued wrongSecret)))

theorem guess_collides_known : Collide compress md5Start (md5Blocked (response issued wrongSecret))
    (md5Blocked (response issued rightSecret)) := by
  refine @guess_collides zeroEnv { initiatorOnly with initiatorPass := rightSecret } wrongResponse
    issued wrongSecret rfl rfl (hexText_hexDataToText _) (by decide +kernel) (by decide +kernel)
    (by decide +kernel) ?_
  exact (accepts_iff rfl rfl).mpr (by decide +kernel)

end Ost.Md5
