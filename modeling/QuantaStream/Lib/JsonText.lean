import Mathlib.Algebra.Group.Int.Defs
import QuantaStream.Lib.JsonScanner

/-!
# Texts of JSON values

How the standard library writes strings and numbers and reads them back.  A string is written
rune by rune; what is not valid UTF-8 is written as the escape of the replacement character, and
characters that HTML or a line of text would mistake are escaped.
-/

namespace Json

open GoString List

/-! ## Strings -/

/-- The text of a character in ASCII. -/
def quoteAscii (n : ℕ) : GoString :=
  if n = 34 ∨ n = 92 then [92, n.toUInt8]
  else if n = 8 then [92, 98]
  else if n = 12 then [92, 102]
  else if n = 10 then [92, 110]
  else if n = 13 then [92, 114]
  else if n = 9 then [92, 116]
  else if n < 32 ∨ n = 60 ∨ n = 62 ∨ n = 38 then escapeU n
  else [n.toUInt8]

/-- The text of a rune. -/
def quoteRune (r : Option Char) : GoString :=
  match r with
  | none => escapeU 0xFFFD
  | some c =>
    if c.val.toNat ≤ 127 then quoteAscii c.val.toNat
    else if c.val.toNat = 0x2028 ∨ c.val.toNat = 0x2029 then escapeU c.val.toNat
    else String.utf8EncodeChar c

variable (s : GoString)

/-- `appendString` with HTML escaping. -/
def quote : GoString :=
  34 :: (runes s).flatMap (fun r => quoteRune r.1) ++ [34]

def hexValue (c : Char) : Option ℕ :=
  if '0' ≤ c ∧ c ≤ '9' then some (c.toNat - 48)
  else if 'a' ≤ c ∧ c ≤ 'f' then some (c.toNat - 87)
  else if 'A' ≤ c ∧ c ≤ 'F' then some (c.toNat - 55)
  else none

/-- `getu4`: the number after the start of an escape, and the rest. -/
def getu4 : List (Option Char) → Option (ℕ × List (Option Char))
  | some '\\' :: some 'u' :: some a :: some b :: some c :: some d :: rest => do
      let a ← hexValue a
      let b ← hexValue b
      let c ← hexValue c
      let d ← hexValue d
      some (((a * 16 + b) * 16 + c) * 16 + d, rest)
  | _ => none

/-- `utf16.DecodeRune`: the character of a surrogate pair. -/
def decodeSurrogates (high low : ℕ) : Option ℕ :=
  if 0xD800 ≤ high ∧ high < 0xDC00 ∧ 0xDC00 ≤ low ∧ low < 0xE000 then
    some ((high - 0xD800) * 1024 + (low - 0xDC00) + 0x10000)
  else none

def runeError : Char := Char.ofNat 0xFFFD

def simpleEscape (c : Char) : Option Char :=
  if c = '"' ∨ c = '\\' ∨ c = '/' ∨ c = '\'' then some c
  else if c = 'b' then some (Char.ofNat 8)
  else if c = 'f' then some (Char.ofNat 12)
  else if c = 'n' then some '\n'
  else if c = 'r' then some '\r'
  else if c = 't' then some '\t'
  else none

/-- The loop of `unquoteBytes` over the runes between the quotes.  The fuel is their number. -/
def unquoteRunes : ℕ → List (Option Char) → Option (List Char)
  | _, [] => some []
  | 0, _ => none
  | fuel + 1, none :: rest => (unquoteRunes fuel rest).map (runeError :: ·)
  | fuel + 1, some c :: rest =>
    if c = '\\' then
      match getu4 (some c :: rest) with
      | some (n, rest) =>
        if 0xD800 ≤ n ∧ n < 0xE000 then
          -- A surrogate needs its other half, or else it is replaced on its own.
          match (getu4 rest).bind (fun r => (decodeSurrogates n r.1).map (·, r.2)) with
          | some (m, rest) => (unquoteRunes fuel rest).map (Char.ofNat m :: ·)
          | none => (unquoteRunes fuel rest).map (runeError :: ·)
        else (unquoteRunes fuel rest).map (Char.ofNat n :: ·)
      | none =>
        match rest with
        | some e :: rest =>
          match simpleEscape e with
          | some e => (unquoteRunes fuel rest).map (e :: ·)
          | none => none
        | _ => none
    else if c = '"' ∨ c.toNat < 32 then none
    else (unquoteRunes fuel rest).map (c :: ·)

/-- `unquote`: the string of a literal with its quotes. -/
def unquote (literal : GoString) : Option GoString :=
  match literal with
  | [] => none
  | q :: rest =>
    if q = 34 ∧ rest.getLast? = some 34 then
      let body := (runes rest.dropLast).map Prod.fst
      (unquoteRunes body.length body).map (fun cs => cs.flatMap String.utf8EncodeChar)
    else none

/-! ## Numbers -/

def decimal (n : ℕ) : GoString := (Nat.toDigits 10 n).map (fun c => c.toNat.toUInt8)

def decimalInt (n : ℤ) : GoString := if n < 0 then 45 :: decimal n.natAbs else decimal n.natAbs

def parseDigits : Option ℕ :=
  if s ≠ [] ∧ s.all isDigit then some (s.foldl (fun n c => n * 10 + (c.toNat - 48)) 0) else none

/-- `ParseUint` with base 10 and 64 bits. -/
def parseUint : Option ℕ := (parseDigits s).filter (fun n => n < 2 ^ 64)

/-- `ParseInt` with base 10 and 64 bits. -/
def parseInt : Option ℤ :=
  match s with
  | 45 :: digits => ((parseDigits digits).filter (fun n => n ≤ 2 ^ 63)).map (fun n => -(n : ℤ))
  | digits => ((parseDigits digits).filter (fun n => n < 2 ^ 63)).map (fun n => (n : ℤ))

/-! ## One line -/

theorem toUInt8_ne_newline {n : ℕ} (h : 10 < n) (h' : n < 256) : (10 : UInt8) ≠ UInt8.ofNat n := by
  intro heq
  have htoNat : 10 = n % 256 := congrArg UInt8.toNat heq
  omega

/-- The bytes of a character outside ASCII are no newlines. -/
theorem utf8EncodeChar_no_newline {c : Char} (h : 127 < c.val.toNat) :
    10 ∉ String.utf8EncodeChar c := by
  have hne : ∀ n m k, 128 ≤ k ∧ k + m ≤ 256 ∧ 0 < m → (10 : UInt8) ≠ UInt8.ofNat (n % m + k) := by
    rintro n m k ⟨hk, hkm, hm⟩
    have := Nat.mod_lt n hm
    exact toUInt8_ne_newline (by omega) (by omega)
  have htail : ∀ n, (10 : UInt8) ≠ UInt8.ofNat (n % 64 + 128) := fun n => hne n 64 128 (by decide)
  have hsmall : ¬ c.val.toNat ≤ 127 := by omega
  rw [String.utf8EncodeChar.eq_1, if_neg hsmall]
  split_ifs <;> simp only [mem_cons, not_mem_nil, or_false, not_or]
  · exact ⟨hne _ 32 192 (by decide), htail _⟩
  · exact ⟨hne _ 16 224 (by decide), htail _, htail _⟩
  · exact ⟨hne _ 8 240 (by decide), htail _, htail _, htail _⟩

theorem quoteAscii_no_newline {n : ℕ} (h : n ≤ 127) : 10 ∉ quoteAscii n := by
  unfold quoteAscii
  split_ifs with h₁ h₂ h₃ h₄ h₅ h₆ h₇
  · rcases h₁ with rfl | rfl <;> decide
  · decide
  · decide
  · decide
  · decide
  · decide
  · exact escapeU_no_newline n
  · rw [mem_singleton]
    exact toUInt8_ne_newline (by omega) (by omega)

theorem quoteRune_no_newline (r : Option Char) : 10 ∉ quoteRune r := by
  unfold quoteRune
  cases r with
  | none => exact escapeU_no_newline _
  | some c =>
    dsimp only
    split_ifs with hascii hline
    · exact quoteAscii_no_newline hascii
    · exact escapeU_no_newline _
    · exact utf8EncodeChar_no_newline (by omega)

/-- A quoted string has one line. -/
theorem quote_no_newline : 10 ∉ quote s := by
  have hbody : 10 ∉ (runes s).flatMap (fun r => quoteRune r.1) := by
    intro h
    rcases mem_flatMap.mp h with ⟨r, -, hr⟩
    exact quoteRune_no_newline r.1 hr
  simp [quote, hbody]

theorem decimal_no_newline (n : ℕ) : 10 ∉ decimal n := by
  intro h
  rcases mem_map.mp h with ⟨c, hc, heq⟩
  have hdigit := Nat.isDigit_of_mem_toDigits (by decide) (by decide) hc
  have hrange : 48 ≤ c.toNat ∧ c.toNat ≤ 57 := by
    simpa [Char.isDigit, UInt32.le_iff_toNat_le] using hdigit
  exact toUInt8_ne_newline (by omega) (by omega) heq.symm

end Json
