import QuantaStream.Lib.Sha256
import QuantaStream.MySQL.Session
import Mathlib.Data.Set.Function

/-!
# Checking a password

A client proves that it knows a password by a token, the hash of the password covered by a hash of
the challenge and of the hash of that hash.  The server has the password itself or only a verifier,
the hash of the hash.
-/

namespace QuantaStream.MySQL

open List GoString Sha256

/-- A hash function with digests of one size. -/
structure Digest (size : ℕ) where
  sum : GoString → GoString
  length_sum : ∀ s, (sum s).length = size

open Digest

/-- The loops that put two texts on top of each other. -/
def xorBytes (a b : GoString) : GoString := zipWith (· ^^^ ·) a b

section

variable {size : ℕ} (hash : Digest size) (salted : GoString → GoString) (password : GoString)

/-- The token of a password; `salted` is the hash of the challenge and the hash of the hash. -/
def passwordToken : GoString :=
  if password = [] then [] else xorBytes (hash.sum password) (salted (hash.sum (hash.sum password)))

def passwordVerifier : GoString :=
  if password = [] then [] else encodeToString (hash.sum (hash.sum password))

/-- The value of a digit for `hex.DecodeString`. -/
def hexDigitValue (b : UInt8) : Option ℕ :=
  if 48 ≤ b ∧ b ≤ 57 then some (b.toNat - 48)
  else if 97 ≤ b ∧ b ≤ 102 then some (b.toNat - 87)
  else if 65 ≤ b ∧ b ≤ 70 then some (b.toNat - 55)
  else none

def decodeString : GoString → Option GoString
  | [] => some []
  | [_] => none
  | a :: b :: rest => do
    let high ← hexDigitValue a
    let low ← hexDigitValue b
    return UInt8.ofNat (16 * high + low) :: (← decodeString rest)

def decodeHexVerifier (value : GoString) (size : ℕ) : Option GoString :=
  if trimSpace value = [] then none
  else (decodeString (trimSpace value)).filter fun decoded => decoded.length = size

def verifierMatches (verifier token : GoString) : Bool :=
  match decodeHexVerifier verifier size with
  | none => false
  | some expected =>
    token.length = size && hash.sum (xorBytes token (salted expected)) = expected

end

variable (sha1 : Digest 20) (sha256 : Digest 32)

def mysqlNativePasswordToken (seed password : GoString) : GoString :=
  passwordToken sha1 (fun stage2 => sha1.sum (seed ++ stage2)) password

def mysqlNativeVerifier (password : GoString) : GoString := passwordVerifier sha1 password

def mysqlNativeVerifierMatches (verifier seed token : GoString) : Bool :=
  verifierMatches sha1 (fun stage2 => sha1.sum (seed ++ stage2)) verifier token

def cachingSHA2PasswordToken (seed password : GoString) : GoString :=
  passwordToken sha256 (fun message1Hash => sha256.sum (message1Hash ++ seed)) password

def cachingSHA2Verifier (password : GoString) : GoString := passwordVerifier sha256 password

def cachingSHA2VerifierMatches (verifier seed token : GoString) : Bool :=
  verifierMatches sha256 (fun message1Hash => sha256.sum (message1Hash ++ seed)) verifier token

/-- The secrets of `StaticAccount`. -/
structure StaticAccount where
  password : GoString := []
  mySQLNativePasswordVerifier : GoString := []
  cachingSHA2PasswordVerifier : GoString := []

def staticAccountWithPasswordVerifiers (password : GoString) : StaticAccount where
  mySQLNativePasswordVerifier := mysqlNativeVerifier sha1 password
  cachingSHA2PasswordVerifier := cachingSHA2Verifier sha256 password

def staticAuthPasswordMatches (account : StaticAccount) (plugin seed response : GoString) : Bool :=
  let plugin := if plugin = [] then defaultAuthPluginName else plugin
  if account.password = [] ∧ account.mySQLNativePasswordVerifier = [] ∧
      account.cachingSHA2PasswordVerifier = [] then
    response = []
  else if plugin = ascii "caching_sha2_password" then
    if account.password ≠ [] then response = cachingSHA2PasswordToken sha256 seed account.password
    else cachingSHA2VerifierMatches sha256 account.cachingSHA2PasswordVerifier seed response
  else if plugin = ascii "mysql_native_password" then
    if account.password ≠ [] then response = mysqlNativePasswordToken sha1 seed account.password
    else mysqlNativeVerifierMatches sha1 account.mySQLNativePasswordVerifier seed response
  else if plugin = ascii "mysql_clear_password" then
    account.password ≠ [] &&
      (if response.getLast? = some 0 then response.dropLast else response) = account.password
  else false

/-! ## Verifiers -/

theorem hexDigit_spec : ∀ n < 16, hexDigit n < 0x80 ∧ asciiSpace (hexDigit n) = false ∧
    hexDigitValue (hexDigit n) = some n := by
  decide

theorem decodeString_encodeToString (bytes : GoString) :
    decodeString (encodeToString bytes) = some bytes := by
  induction bytes with
  | nil => rfl
  | cons b bytes ih =>
    have hb := b.toNat_lt
    have hbyte : UInt8.ofNat (16 * (b.toNat / 16) + b.toNat % 16) = b := by
      rw [Nat.div_add_mod, UInt8.ofNat_toNat]
    rw [encodeToString, flatMap_cons, cons_append, cons_append, nil_append, decodeString,
      (hexDigit_spec _ (by omega)).2.2, (hexDigit_spec _ (by omega)).2.2]
    change (decodeString (encodeToString bytes)).bind _ = _
    simp [ih, hbyte]

theorem encodeToString_ne_nil {bytes : GoString} (hne : bytes ≠ []) : encodeToString bytes ≠ [] := by
  cases bytes with
  | nil => contradiction
  | cons b bytes => exact cons_ne_nil _ _

theorem decodeHexVerifier_encodeToString {bytes : GoString} (hne : bytes ≠ []) :
    decodeHexVerifier (encodeToString bytes) bytes.length = some bytes := by
  have htrim : trimSpace (encodeToString bytes) = encodeToString bytes := by
    refine trimSpace_of_forall fun c hc => ?_
    obtain ⟨b, -, hc⟩ := mem_flatMap.mp hc
    have hb := b.toNat_lt
    rcases mem_pair.mp hc with rfl | rfl
    · exact ⟨(hexDigit_spec _ (by omega)).1, (hexDigit_spec _ (by omega)).2.1⟩
    · exact ⟨(hexDigit_spec _ (by omega)).1, (hexDigit_spec _ (by omega)).2.1⟩
  rw [decodeHexVerifier, htrim, if_neg (encodeToString_ne_nil hne), decodeString_encodeToString]
  simp

theorem xorBytes_xorBytes {a b : GoString} (h : a.length = b.length) :
    xorBytes (xorBytes a b) b = a := by
  induction a generalizing b with
  | nil => rfl
  | cons x a ih =>
    cases b with
    | nil => cases h
    | cons y b => simpa [xorBytes, UInt8.xor_assoc] using ih (Nat.succ.inj h)

variable {size : ℕ} {hash : Digest size} {salted : GoString → GoString} {password : GoString}

/-- A verifier accepts the token of its password and no other. -/
theorem verifierMatches_eq (hinj : Set.InjOn hash.sum {s | s.length = size}) (hsize : 0 < size)
    (hsalted : ∀ s, (salted s).length = size) (hne : password ≠ []) (token : GoString) :
    verifierMatches hash salted (passwordVerifier hash password) token =
      decide (token = passwordToken hash salted password) := by
  set stage1 := hash.sum password with hstage1
  have hlen : stage1.length = size := hash.length_sum password
  have hlen2 : (hash.sum stage1).length = size := hash.length_sum stage1
  have hexpected := decodeHexVerifier_encodeToString (ne_nil_of_length_pos (hlen2.symm ▸ hsize))
  rw [hlen2] at hexpected
  rw [Bool.eq_iff_iff]
  simp only [verifierMatches, passwordVerifier, passwordToken, if_neg hne, ← hstage1, hexpected,
    Bool.and_eq_true, decide_eq_true_eq]
  have hmask := hsalted (hash.sum stage1)
  generalize salted (hash.sum stage1) = mask at hmask
  constructor
  · rintro ⟨htoken, hsum⟩
    have hxor : (xorBytes token mask).length = size := by
      rw [xorBytes, length_zipWith, htoken, hmask, min_self]
    rw [← hinj hxor hlen hsum, xorBytes_xorBytes (htoken.trans hmask.symm)]
  · rintro rfl
    rw [xorBytes_xorBytes (hlen.trans hmask.symm), xorBytes, length_zipWith, hlen, hmask, min_self]
    exact ⟨rfl, rfl⟩

/-- With either plugin an account with verifiers accepts what the account with the password
does: the token of the password, and nothing else. -/
theorem verifiers_accept_iff (hsha1 : Set.InjOn sha1.sum {s | s.length = 20})
    (hsha256 : Set.InjOn sha256.sum {s | s.length = 32}) (password seed response : GoString) :
    ∀ method ∈ [(ascii "mysql_native_password", mysqlNativePasswordToken sha1 seed password),
        (ascii "caching_sha2_password", cachingSHA2PasswordToken sha256 seed password)],
      staticAuthPasswordMatches sha1 sha256
          (staticAccountWithPasswordVerifiers sha1 sha256 password) method.1 seed response =
        staticAuthPasswordMatches sha1 sha256 { password } method.1 seed response ∧
      (staticAuthPasswordMatches sha1 sha256 { password } method.1 seed response = true ↔
        response = method.2) := by
  have hnative : ascii "mysql_native_password" ≠ [] ∧
      ascii "mysql_native_password" ≠ ascii "caching_sha2_password" := by decide
  have hcaching : ascii "caching_sha2_password" ≠ [] := by decide
  intro method hmethod
  by_cases hne : password = []
  · -- An account without a password takes the empty answer, which is its token.
    subst hne
    rcases mem_pair.mp hmethod with rfl | rfl <;>
      simp [staticAuthPasswordMatches, staticAccountWithPasswordVerifiers, mysqlNativeVerifier,
        cachingSHA2Verifier, passwordVerifier, mysqlNativePasswordToken, cachingSHA2PasswordToken,
        passwordToken]
  · have hverifier : passwordVerifier sha1 password ≠ [] := by
      rw [passwordVerifier, if_neg hne]
      exact encodeToString_ne_nil (ne_nil_of_length_pos (by rw [sha1.length_sum]; decide))
    have hstage2 := verifierMatches_eq hsha1 (by decide)
      (fun stage2 => sha1.length_sum (seed ++ stage2)) hne response
    have hmessage1 := verifierMatches_eq hsha256 (by decide)
      (fun message1Hash => sha256.length_sum (message1Hash ++ seed)) hne response
    rcases mem_pair.mp hmethod with rfl | rfl
    all_goals
      simp only [staticAuthPasswordMatches, staticAccountWithPasswordVerifiers, mysqlNativeVerifier,
        cachingSHA2Verifier, mysqlNativeVerifierMatches, cachingSHA2VerifierMatches,
        mysqlNativePasswordToken, cachingSHA2PasswordToken, hverifier, hne, hnative, hcaching,
        hstage2, hmessage1, false_and, and_false, if_false, if_true, ne_eq, not_true, not_false_iff]
      exact ⟨decide_eq_decide.mpr Iff.rfl, decide_eq_true_iff⟩

/-- A digest that keeps the first bytes of a text. -/
def Digest.leading (size : ℕ) : Digest size where
  sum s := (s ++ replicate size 0).take size
  length_sum s := by simp

theorem Digest.leading_injOn (size : ℕ) :
    Set.InjOn (leading size).sum {s | s.length = size} := by
  rintro s rfl t ht h
  simpa [leading, ← show t.length = s.length from ht] using h

/-- An account with verifiers takes the token of its password, but not the password. -/
theorem verifiers_accept_sample :
    let accepts := staticAuthPasswordMatches (leading 20) (leading 32)
      (staticAccountWithPasswordVerifiers (leading 20) (leading 32) (ascii "root"))
      (ascii "mysql_native_password") (ascii "seed")
    accepts (mysqlNativePasswordToken (leading 20) (ascii "seed") (ascii "root")) = true ∧
      accepts (ascii "root") = false := by
  have h response := verifiers_accept_iff (leading 20) (leading 32)
    (leading_injOn 20) (leading_injOn 32) (ascii "root") (ascii "seed")
    response _ mem_cons_self
  exact ⟨(h _).1.trans ((h _).2.mpr rfl), (h _).1.trans (by decide +kernel)⟩

end QuantaStream.MySQL
