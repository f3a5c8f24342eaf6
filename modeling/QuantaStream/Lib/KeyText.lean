import Mathlib.Data.Int.Notation
import Mathlib.Data.Nat.Notation

/-!
# Keys made of names and numbers

Keys of maps are texts of names and decimal numbers with separators between them.  Two such keys
are equal only if their parts are.

Main results:

- `slash_notMem_toString`, `toString_int_injective`: numbers have no separator and different texts.
-/

namespace KeyText

open List

theorem repr_toList_injective {m n : ℕ} (h : m.repr.toList = n.repr.toList) : m = n := by
  have hvalue := congrArg (fun digits => Nat.ofDigitChars 10 digits 0) h
  simpa using hvalue

theorem isDigit_of_mem_repr {n : ℕ} {c : Char} (h : c ∈ n.repr.toList) : c.isDigit = true := by
  rw [Nat.toList_repr] at h
  exact Nat.isDigit_of_mem_toDigits (by decide) (by decide) h

theorem toList_toString_negSucc (n : ℕ) :
    (toString (Int.negSucc n)).toList = '-' :: (n + 1).repr.toList := by
  rw [Int.toString_eq_repr, Int.repr, String.toList_append]
  rfl

theorem slash_notMem_toString (n : ℤ) : '/' ∉ (toString n).toList := by
  have hnat : ∀ n : ℕ, '/' ∉ n.repr.toList := fun n h => absurd (isDigit_of_mem_repr h) (by decide)
  cases n with
  | ofNat n => exact hnat n
  | negSucc n =>
    rw [toList_toString_negSucc]
    exact not_mem_cons_of_ne_of_not_mem (by decide) (hnat _)

theorem toString_int_injective {m n : ℤ} (h : (toString m).toList = (toString n).toList) :
    m = n := by
  have hminus : ∀ {m n : ℕ}, m.repr.toList ≠ '-' :: n.repr.toList := by
    intro m n heq
    have hmem : '-' ∈ m.repr.toList := heq ▸ mem_cons_self
    exact absurd (isDigit_of_mem_repr hmem) (by decide)
  cases m with
  | ofNat m =>
    cases n with
    | ofNat n => exact congrArg Int.ofNat (repr_toList_injective h)
    | negSucc n =>
      rw [toList_toString_negSucc] at h
      exact absurd h hminus
  | negSucc m =>
    rw [toList_toString_negSucc] at h
    cases n with
    | ofNat n => exact absurd h.symm hminus
    | negSucc n =>
      rw [toList_toString_negSucc, cons.injEq] at h
      rw [Nat.succ.inj (repr_toList_injective h.2)]

/-- A list is split at the first separator in one way. -/
theorem append_separator_inj {α : Type} {c : α} {a a' b b' : List α} (ha : c ∉ a) (ha' : c ∉ a')
    (h : a ++ c :: b = a' ++ c :: b') : a = a' ∧ b = b' := by
  induction a generalizing a' with
  | nil =>
    cases a' with
    | nil => exact ⟨rfl, (cons.inj h).2⟩
    | cons x a' => exact absurd ((cons.inj h).1 ▸ mem_cons_self) ha'
  | cons x a ih =>
    cases a' with
    | nil => exact absurd ((cons.inj h).1 ▸ mem_cons_self) ha
    | cons x' a' =>
      rw [cons_append, cons_append, cons.injEq] at h
      rcases ih (not_mem_of_not_mem_cons ha) (not_mem_of_not_mem_cons ha') h.2 with
        ⟨htail, hrest⟩
      rw [h.1, htail]
      exact ⟨rfl, hrest⟩

end KeyText
