import Mathlib.Algebra.Group.Nat.Defs
import Mathlib.Data.List.Basic

/-!
# Strings as bytes

A string of the source language is a sequence of bytes that need not be valid UTF-8.  A loop over
a string visits its runes; a byte that does not start a valid encoding is visited alone, as an
invalid rune.  This module models strings, their runes, and the trimming of white space.
-/

/-- A string, as its bytes. -/
abbrev GoString := List UInt8

namespace GoString

open List

def ascii (s : String) : GoString := s.toList.map (fun c => c.toNat.toUInt8)

def hexDigit (n : ℕ) : UInt8 := if n < 10 then (48 + n).toUInt8 else (87 + n).toUInt8

/-- The first rune of a string with its bytes, and the rest of the string. -/
def takeRune (s : GoString) : (Option Char × GoString) × GoString :=
  match s.toByteArray.utf8DecodeChar? 0 with
  | some c => ((some c, s.take c.utf8Size), s.drop c.utf8Size)
  | none => ((none, s.take 1), s.drop 1)

/-- The runes of a string with their bytes.  The fuel is the length of the string. -/
def runesAux : ℕ → GoString → List (Option Char × GoString)
  | 0, _ => []
  | _ + 1, [] => []
  | fuel + 1, s => (takeRune s).1 :: runesAux fuel (takeRune s).2

variable (s : GoString)

/-- The runes of a string with their bytes; an invalid rune has no character. -/
def runes : List (Option Char × GoString) := runesAux s.length s

def isSpace (c : Char) : Bool :=
  c.toNat ∈ [0x09, 0x0A, 0x0B, 0x0C, 0x0D, 0x20, 0x85, 0xA0, 0x1680, 0x2000, 0x2001, 0x2002, 0x2003,
    0x2004, 0x2005, 0x2006, 0x2007, 0x2008, 0x2009, 0x200A, 0x2028, 0x2029, 0x202F, 0x205F, 0x3000]

def isSpaceRune (r : Option Char × GoString) : Bool := r.1.any isSpace

/-- `bytes.TrimRightFunc` with `unicode.IsSpace`. -/
def trimRightFunc : GoString :=
  ((runes s).reverse.dropWhile isSpaceRune).reverse.flatMap Prod.snd

/-- `bytes.TrimFunc` with `unicode.IsSpace`. -/
def trimFunc : GoString :=
  trimRightFunc (((runes s).dropWhile isSpaceRune).flatMap Prod.snd)

def asciiSpace (b : UInt8) : Bool := b ∈ [9, 10, 11, 12, 13, 32]

/-- The end of `bytes.TrimSpace`: white space in ASCII is dropped from the end, and the first byte
outside ASCII leaves the rest to the loop over runes. -/
def trimSpaceRight : GoString :=
  match s.reverse.dropWhile asciiSpace with
  | [] => []
  | b :: rest => if b ≥ 0x80 then trimRightFunc (b :: rest).reverse else (b :: rest).reverse

/-- `bytes.TrimSpace` and `strings.TrimSpace`. -/
def trimSpace : GoString :=
  match s.dropWhile asciiSpace with
  | [] => []
  | b :: rest => if b ≥ 0x80 then trimFunc (b :: rest) else trimSpaceRight (b :: rest)

/-- A line between two bytes of ASCII that are no white space is what is left of it with its
newline. -/
theorem trimSpace_line {a b : UInt8} (ha : a < 0x80) (ha' : asciiSpace a = false) (hb : b < 0x80)
    (hb' : asciiSpace b = false) (mid : GoString) :
    trimSpace (a :: mid ++ [b, 10]) = a :: mid ++ [b] := by
  have hleft : (a :: mid ++ [b, 10]).dropWhile asciiSpace = a :: (mid ++ [b, 10]) := by
    rw [cons_append, dropWhile_cons_of_neg (by simp [ha'])]
  have hright : (a :: (mid ++ [b, 10])).reverse.dropWhile asciiSpace =
      b :: (a :: mid).reverse := by
    have hrev : (a :: (mid ++ [b, 10])).reverse = 10 :: b :: (a :: mid).reverse := by simp
    rw [hrev, dropWhile_cons_of_pos (by decide), dropWhile_cons_of_neg (by simp [hb'])]
  have ha₁ : ¬ a ≥ 0x80 := by simpa using ha
  have hb₁ : ¬ b ≥ 0x80 := by simpa using hb
  rw [trimSpace, hleft]
  simp only [ha₁, if_false, trimSpaceRight, hright, hb₁]
  simp

/-- Nothing is trimmed from a text in ASCII without white space. -/
theorem trimSpace_of_forall {s : GoString} (h : ∀ b ∈ s, b < 0x80 ∧ asciiSpace b = false) :
    trimSpace s = s := by
  have hdrop : ∀ {s : GoString}, (∀ b ∈ s, b < 0x80 ∧ asciiSpace b = false) →
      s.dropWhile asciiSpace = s := by
    intro s h
    cases s with
    | nil => rfl
    | cons b s => exact dropWhile_cons_of_neg (by simp [(h b mem_cons_self).2])
  cases s with
  | nil => rfl
  | cons b s =>
    have hb : ¬ b ≥ 0x80 := by simpa using (h b mem_cons_self).1
    have hlast : ∀ c ∈ (b :: s).reverse, c < 0x80 ∧ asciiSpace c = false :=
      fun c hc => h c (mem_reverse.mp hc)
    rw [trimSpace, hdrop h]
    simp only [hb, if_false, trimSpaceRight, hdrop hlast]
    cases hrev : (b :: s).reverse with
    | nil => simp at hrev
    | cons c rest =>
      have hc : ¬ c ≥ 0x80 := by simpa using (hlast c (hrev ▸ mem_cons_self)).1
      simp only [hc, if_false]
      rw [← hrev, reverse_reverse]

end GoString
