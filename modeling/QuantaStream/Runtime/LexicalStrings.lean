import Mathlib.Data.List.Shortlex
import Mathlib.Data.List.TakeWhile
import QuantaStream.Runtime.CellReading

/-!
# Texts in a lexical index

An inline lexical field stores the bytes of a text as one number: all of them, or a prefix of fixed
length that is filled up with zero bytes.  A literal is turned into such a number in the same way,
so what the index does not keep of two texts does not tell them apart.
-/

namespace QuantaStream.Runtime

open Bridge Server Outcome QuantaIntermediateLowerer List

/-! ## Numbers of byte strings -/

variable (xs : List UInt8)

theorem natOfBytes_eq_ofDigits : natOfBytes xs = Nat.ofDigits 256 (xs.reverse.map UInt8.toNat) := by
  induction xs using List.reverseRecOn with
  | nil => rfl
  | append_singleton xs b ih =>
    rw [natOfBytes_append, ih, reverse_concat', map_cons, Nat.ofDigits_cons]
    ring

theorem digit_lt {xs : List UInt8} : ∀ d ∈ xs.map UInt8.toNat, d < 256 := by
  intro d hd
  obtain ⟨b, -, rfl⟩ := mem_map.mp hd
  exact b.toNat_lt

theorem natOfBytes_concat (xs ys : List UInt8) :
    natOfBytes (xs ++ ys) = natOfBytes xs * 256 ^ ys.length + natOfBytes ys := by
  simp only [natOfBytes_eq_ofDigits, reverse_append, map_append, Nat.ofDigits_append, length_map,
    length_reverse]
  ring

theorem natOfBytes_lt : natOfBytes xs < 256 ^ xs.length := by
  have h := Nat.ofDigits_lt_base_pow_length (by decide) (@digit_lt xs.reverse)
  rwa [← natOfBytes_eq_ofDigits, length_map, length_reverse] at h

theorem natOfBytes_inj {xs ys : List UInt8} (hlen : xs.length = ys.length)
    (h : natOfBytes xs = natOfBytes ys) : xs = ys := by
  rw [natOfBytes_eq_ofDigits, natOfBytes_eq_ofDigits] at h
  have hdigits := Nat.ofDigits_inj_of_len_eq (by decide) (by simpa using hlen) digit_lt digit_lt h
  exact reverse_injective (map_injective_iff.mpr (fun _ _ => UInt8.toNat_inj.mp) hdigits)

theorem natOfBytes_replicate_zero (k : ℕ) : natOfBytes (replicate k 0) = 0 := by
  rw [natOfBytes_eq_ofDigits, reverse_replicate, map_replicate]
  exact Nat.ofDigits_replicate_zero

theorem natOfBytes_replicate_max (k : ℕ) : natOfBytes (replicate k 255) + 1 = 256 ^ k := by
  induction k with
  | zero => rfl
  | succ k ih =>
    rw [replicate_succ', natOfBytes_append, pow_succ, ← ih]
    simp
    ring

/-- The leading digits of a number. -/
theorem natOfBytes_take (n : ℕ) :
    natOfBytes xs / 256 ^ (xs.drop n).length = natOfBytes (xs.take n) := by
  have hconcat := natOfBytes_concat (xs.take n) (xs.drop n)
  rw [take_append_drop] at hconcat
  rw [hconcat, Nat.mul_comm, Nat.mul_add_div (by positivity),
    Nat.div_eq_of_lt (natOfBytes_lt _), Nat.add_zero]

/-! ## Stored texts -/

/-- `encodeStringLexBSI`: the number the mapper stores and the rest of the text; an empty text is
stored as NULL. -/
def encodeStringLexBSI (value : GoString) (prefixLength : ℕ) : Option ℤ × GoString :=
  if value = [] then (none, [])
  else (some (stringLexBSIValue value prefixLength),
    if prefixLength = 0 then [] else value.drop prefixLength)

/-- The bytes of a text that the index keeps: without a prefix length zero bytes at the start are
lost, and with one the text is cut off or filled up. -/
def cellText (prefixLength : ℕ) (text : GoString) : GoString :=
  if prefixLength = 0 then text.dropWhile (· = 0)
  else text.take prefixLength ++ replicate (prefixLength - text.length) 0

variable {p : ℕ} {t u : GoString}

theorem natOfBytes_dropWhile_zero (text : GoString) :
    natOfBytes (text.dropWhile (· = 0)) = natOfBytes text := by
  induction text with
  | nil => rfl
  | cons b text ih =>
    by_cases hb : b = 0
    · rw [dropWhile_cons_of_pos (by simpa using hb), ih, hb]
      simp [natOfBytes]
    · rw [dropWhile_cons_of_neg (by simpa using hb)]

theorem length_cellText (hp : p ≠ 0) : (cellText p t).length = p := by
  rw [cellText, if_neg hp, length_append, length_take, length_replicate]
  omega

theorem stringLexBSIValue_eq : stringLexBSIValue t p = natOfBytes (cellText p t) := by
  unfold stringLexBSIValue cellText
  split_ifs
  · rw [natOfBytes_dropWhile_zero]
    rfl
  · rfl

theorem digits_natOfBytes (xs : List UInt8) :
    Nat.digits 256 (natOfBytes xs) = (xs.dropWhile (· = 0)).reverse.map UInt8.toNat := by
  rw [← natOfBytes_dropWhile_zero, natOfBytes_eq_ofDigits]
  -- the digits of a number do not begin with zero
  refine Nat.digits_ofDigits 256 (by decide) _ digit_lt fun hne => ?_
  have hhead := head_dropWhile_not (fun b : UInt8 => decide (b = 0)) (w := by simpa using hne)
  simpa [← UInt8.toNat_inj] using hhead

/-- The index tells two texts apart by the bytes it keeps. -/
theorem stringLexBSIValue_inj :
    stringLexBSIValue t p = stringLexBSIValue u p ↔ cellText p t = cellText p u := by
  rw [stringLexBSIValue_eq, stringLexBSIValue_eq, Nat.cast_inj]
  refine ⟨fun h => ?_, fun h => by rw [h]⟩
  by_cases hp : p = 0
  · have hdigits := congrArg (Nat.digits 256) h
    simp only [cellText, hp, if_true, natOfBytes_dropWhile_zero, digits_natOfBytes] at hdigits ⊢
    exact reverse_injective (map_injective_iff.mpr (fun _ _ => UInt8.toNat_inj.mp) hdigits)
  · exact natOfBytes_inj ((length_cellText hp).trans (length_cellText hp).symm) h

/-! ## Prefix ranges -/

/-- The next text of the same length has the next number; there is none after the last one. -/
theorem natOfBytes_incrementLexPrefix (text : GoString) :
    match incrementLexPrefix text with
    | some upper => upper.length = text.length ∧ natOfBytes upper = natOfBytes text + 1
    | none => natOfBytes text + 1 = 256 ^ text.length := by
  have hmax : ∀ b ∈ text.reverse.takeWhile (· = 255), b = 255 := fun b hb => by
    simpa using mem_takeWhile_imp hb
  have hsplit := takeWhile_append_dropWhile (p := fun b : UInt8 => decide (b = 255))
    (l := text.reverse)
  rw [eq_replicate_of_mem hmax] at hsplit
  generalize (text.reverse.takeWhile (· = 255)).length = k at hsplit
  unfold incrementLexPrefix
  cases hdrop : text.reverse.dropWhile (· = 255) with
  | nil =>
    rw [hdrop, append_nil, eq_comm, reverse_eq_iff, reverse_replicate] at hsplit
    simp only [hsplit, length_replicate]
    exact natOfBytes_replicate_max k
  | cons b rest =>
    have hb : b ≠ 255 := by
      have hhead := head_dropWhile_not (fun b : UInt8 => decide (b = 255)) (l := text.reverse)
      simpa [hdrop] using hhead
    rw [hdrop, eq_comm, reverse_eq_iff, reverse_append, reverse_replicate, reverse_cons] at hsplit
    have hnext : (b + 1).toNat = b.toNat + 1 := by
      have : b.toNat ≠ 255 := fun h => hb (UInt8.toNat_inj.mp h)
      have := b.toNat_lt
      simp
      omega
    have hk : text.length - (rest.length + 1) = k := by simp [hsplit]; omega
    simp only [hk]
    refine ⟨by simp [hsplit], ?_⟩
    rw [hsplit, natOfBytes_concat (rest.reverse ++ [b + 1]), natOfBytes_concat (rest.reverse ++ [b]),
      natOfBytes_append, natOfBytes_append, hnext, natOfBytes_replicate_zero, length_replicate,
      length_replicate, Nat.add_assoc, natOfBytes_replicate_max]
    ring

section

variable {pre : GoString} {range : ℤ × ℤ} (h : stringLexBSIPrefixRange pre p = some range)

include h

/-- The range of a prefix: the numbers with its digits at the start. -/
theorem stringLexBSIPrefixRange_eq_some :
    p ≠ 0 ∧ pre.length ≤ p ∧
      range.1 = (natOfBytes pre * 256 ^ (p - pre.length) : ℕ) ∧
      range.2 = ((natOfBytes pre + 1) * 256 ^ (p - pre.length) : ℕ) - 1 := by
  unfold stringLexBSIPrefixRange at h
  split_ifs at h with hguard
  simp only [Bool.or_eq_true, decide_eq_true_eq, not_or, not_lt] at hguard
  obtain ⟨⟨-, hp⟩, hlen⟩ := hguard
  have hvalue : ∀ text : GoString, text.length = pre.length →
      stringLexBSIValue text p = (natOfBytes text * 256 ^ (p - pre.length) : ℕ) := by
    intro text htext
    rw [stringLexBSIValue_eq, cellText, if_neg hp, take_of_length_le (by omega),
      natOfBytes_concat, natOfBytes_replicate_zero, length_replicate, htext, Nat.add_zero]
  have hnext := natOfBytes_incrementLexPrefix pre
  cases hupper : incrementLexPrefix pre with
  | none =>
    simp only [hupper, Option.some_inj] at hnext h
    subst h
    refine ⟨hp, hlen, hvalue pre rfl, ?_⟩
    rw [hnext, ← pow_add, Nat.add_sub_of_le hlen, Nat.mul_comm, pow_mul]
    norm_num
  | some upper =>
    simp only [hupper, Option.some_inj] at hnext h
    subst h
    refine ⟨hp, hlen, hvalue pre rfl, ?_⟩
    rw [hvalue upper hnext.1, hnext.2]

/-- The texts in the range of a prefix are those that begin with it, as far as the index keeps
them. -/
theorem mem_prefixRange_iff :
    range.1 ≤ stringLexBSIValue t p ∧ stringLexBSIValue t p ≤ range.2 ↔
      pre <+: cellText p t := by
  obtain ⟨hp, hlen, hfirst, hlast⟩ := stringLexBSIPrefixRange_eq_some h
  have hdrop : ((cellText p t).drop pre.length).length = p - pre.length := by
    rw [length_drop, length_cellText hp]
  have htake : ((cellText p t).take pre.length).length = pre.length := by
    rw [length_take, length_cellText hp]
    omega
  have hdiv : natOfBytes (cellText p t) / 256 ^ (p - pre.length) = natOfBytes pre ↔
      pre <+: cellText p t := by
    rw [← hdrop, natOfBytes_take, prefix_iff_eq_take]
    exact ⟨fun h => (natOfBytes_inj htake h).symm, fun h => by rw [← h]⟩
  rw [← hdiv, Nat.div_eq_iff (by positivity), stringLexBSIValue_eq, hfirst, hlast,
    Nat.add_mul, Nat.one_mul]
  have hpos : 0 < 256 ^ (p - pre.length) := by positivity
  omega

end

/-! ## Predicates -/

section

variable {l : QuantaIntermediateLowerer} {parameters : ParameterBindingSet} {field : FieldRef}
  {pre : GoString} {us : List GoString}

/-- The LIKE predicate of a pattern that ends in its only wildcard. -/
def prefixPredicate (field : FieldRef) (pre : GoString) : Predicate where
  expr := .binary .like (.field field) (.literal (.string (pre ++ [37])))

theorem prefixRange_of_lowered (hindex : field.index ≠ .stringEnum)
    (hkind : field.encoding.kind = .stringLexBSI)
    (hinline : field.encoding.needsStringRemainderLookup = false) (hpre : 37 ∉ pre ∧ 95 ∉ pre)
    {f : QuantaQueryFragment} (h : l.lowerPredicate parameters (prefixPredicate field pre) = .ok f) :
    prefixRangeFragment field .intersect pre = some f := by
  have hpattern : simpleLikePattern (pre ++ [37]) = .leading := by
    simp [simpleLikePattern, hpre]
  have hattempt : firstAttempt (prefixPredicate field pre) (l.attempts parameters) =
      .ok (prefixRangeFragment field .intersect pre) := by
    cases hrange : prefixRangeFragment field .intersect pre <;>
      simp [firstAttempt, attempts, lowerTextSearchPredicate, lowerBetweenPredicate, betweenParts,
        lowerStringLexBSILikePredicate, likeParts, prefixPredicate, valueExpr, hkind, hinline, value,
        ok_bind, hpattern, equalityOperation, hrange, pure, Except.pure, lowerStringEnumInPredicate,
        inParts, lowerStringEnumLikePredicate, hindex, lowerStringEnumComparison, comparisonParts,
        supportedComparison, lowerInPredicate]
  cases hrange : prefixRangeFragment field .intersect pre with
  | none =>
    rw [hrange] at hattempt
    rw [lowerPredicate, lowerForm, hattempt, ok_bind] at h
    simp [lowerComparison, prefixPredicate, comparisonParts, supportedComparison, Except.map] at h
  | some g =>
    rw [hrange] at hattempt
    rw [lowerPredicate_of_attempt rfl (x := .ok g) hattempt] at h
    cases h
    rfl

theorem cellPasses_some {f : QuantaQueryFragment} {x : ℤ} (hnull : f.nullCheck = false)
    (hop : f.operation = .intersect) (hbsi : f.bsiOp ≠ .na) :
    CellPasses f (some x) ↔ selectsValue f x := by
  simp [CellPasses, CellSelected, hnull, hop, hbsi]

/-- A selection of more than holds is exact where it holds or is not selected. -/
theorem exact_iff_of_imp {selected holds : Prop} (h : holds → selected) :
    (selected ↔ holds) ↔ (holds ∨ ¬ selected) := by
  tauto

/-- Equality, IN and LIKE select a stored text exactly if they hold, as long as the index does not
take it for a text for which they do.  The LIKE pattern has no wildcard before its last byte and
no backslash. -/
theorem lexical_predicates_exact_iff (hindex : field.index ≠ .stringEnum)
    (hkind : field.encoding.kind = .stringLexBSI)
    (hinline : field.encoding.needsStringRemainderLookup = false) (ht : t ≠ [])
    (u pre : GoString) (us : List GoString) (hpre : 37 ∉ pre ∧ 92 ∉ pre ∧ 95 ∉ pre) :
    let p := field.encoding.prefixLength
    let stored := (encodeStringLexBSI t p).1
    (∃ f, l.lowerPredicate parameters (literalPredicate field false (.string u)) = .ok f ∧
      ((CellPasses f stored ↔ t = u) ↔ (t = u ∨ cellText p t ≠ cellText p u))) ∧
    (∃ f, l.lowerPredicate parameters (listPredicate field false (us.map .string)) = .ok f ∧
      ((CellPasses f stored ↔ t ∈ us) ↔ (t ∈ us ∨ ∀ u ∈ us, cellText p t ≠ cellText p u))) ∧
    ∀ f, l.lowerPredicate parameters (prefixPredicate field pre) = .ok f →
      ((CellPasses f stored ↔ pre <+: t) ↔ (pre <+: t ∨ ¬ pre <+: cellText p t)) := by
  intro p stored
  have hstored : stored = some (stringLexBSIValue t p) := by
    simp [stored, encodeStringLexBSI, ht]
  refine ⟨⟨_, lowerPredicate_text hindex hkind hinline, ?_⟩,
    ⟨_, lowerPredicate_texts hindex hkind hinline, ?_⟩, fun f hf => ?_⟩
  · rw [hstored, cellPasses_some rfl rfl (by simp)]
    change (stringLexBSIValue t p = stringLexBSIValue u p ↔ _) ↔ _
    rw [stringLexBSIValue_inj]
    exact exact_iff_of_imp (congrArg _)
  · rw [hstored, cellPasses_some rfl rfl (by simp)]
    have hlisted : stringLexBSIValue t p ∈ us.map (stringLexBSIValue · p) ↔
        ∃ u ∈ us, cellText p t = cellText p u := by
      simp [mem_map, eq_comm, stringLexBSIValue_inj]
    refine (iff_congr hlisted Iff.rfl).trans ((exact_iff_of_imp fun h => ⟨t, h, rfl⟩).trans ?_)
    simp
  · obtain ⟨range, hrange, rfl⟩ :=
      Option.map_eq_some_iff.mp (prefixRange_of_lowered hindex hkind hinline ⟨hpre.1, hpre.2.2⟩ hf)
    rw [hstored, cellPasses_some rfl rfl (by simp)]
    change (range.1 ≤ stringLexBSIValue t p ∧ stringLexBSIValue t p ≤ range.2 ↔ _) ↔ _
    rw [mem_prefixRange_iff hrange]
    refine exact_iff_of_imp fun h => ?_
    obtain ⟨hp, hlen, -⟩ := stringLexBSIPrefixRange_eq_some hrange
    rw [cellText, if_neg hp]
    exact (prefix_take_iff.mpr ⟨h, hlen⟩).trans (prefix_append _ _)

end

/-- A field of texts of at most four bytes. -/
def codeField : FieldRef :=
  listField .string .bsi { kind := .stringLexBSI, prefixLength := 4, maxLength := 4 }

theorem code_selected_exactly :
    let stored := (encodeStringLexBSI [97, 98] 4).1
    (∃ f, plainLowerer.lowerPredicate [] (literalPredicate codeField false (.string [97, 98])) =
      .ok f ∧ CellPasses f stored) ∧
    ∃ f, plainLowerer.lowerPredicate [] (prefixPredicate codeField [97]) = .ok f ∧
      CellPasses f stored := by
  have h := @lexical_predicates_exact_iff [97, 98] plainLowerer [] codeField (by decide) rfl rfl
    (by decide) [97, 98] [97] [] (by decide)
  obtain ⟨⟨f, hf, hequal⟩, -, hlike⟩ := h
  obtain ⟨g, hg⟩ : ∃ g, plainLowerer.lowerPredicate [] (prefixPredicate codeField [97]) = .ok g :=
    ⟨_, rfl⟩
  exact ⟨⟨f, hf, (hequal.mpr (.inl rfl)).mpr rfl⟩,
    g, hg, ((hlike g hg).mpr (.inl (by decide))).mpr (by decide)⟩

/-- A literal that is longer than the field selects the text it begins with. -/
theorem longLiteral_selects_code :
    ∃ f, plainLowerer.lowerPredicate []
        (literalPredicate codeField false (.string [97, 98, 99, 100, 101])) = .ok f ∧
      CellPasses f (encodeStringLexBSI [97, 98, 99, 100] 4).1 :=
  ⟨_, lowerPredicate_text (by decide) rfl rfl, (cellPasses_some rfl rfl (by simp)).mpr rfl⟩

/-! ## The order of stored texts -/

theorem natOfBytes_cons (b : UInt8) (xs : List UInt8) :
    natOfBytes (b :: xs) = b.toNat * 256 ^ xs.length + natOfBytes xs := by
  simpa [natOfBytes] using natOfBytes_concat [b] xs

/-- Texts that are cut off or filled up to one length keep their order. -/
theorem natOfBytes_filled_le {a b : GoString} (h : a ≤ b) (p : ℕ) :
    natOfBytes (a.take p ++ replicate (p - a.length) 0) ≤
      natOfBytes (b.take p ++ replicate (p - b.length) 0) := by
  induction p generalizing a b with
  | zero => simp
  | succ p ih =>
    cases a with
    | nil => simp [natOfBytes_replicate_zero]
    | cons x a =>
      cases b with
      | nil => cases le_nil.mp h
      | cons y b =>
        have hlength (c : GoString) : (c.take p ++ replicate (p - c.length) 0).length = p := by
          rw [length_append, length_take, length_replicate]
          omega
        simp only [take_succ_cons, length_cons, Nat.add_sub_add_right, cons_append,
          natOfBytes_cons, hlength]
        rcases cons_le_cons_iff.mp h with hlt | ⟨rfl, hle⟩
        · have hbound := natOfBytes_lt (a.take p ++ replicate (p - a.length) 0)
          rw [hlength] at hbound
          have hstep :=
            Nat.mul_le_mul_right (256 ^ p) (Nat.succ_le_of_lt (UInt8.lt_iff_toNat_lt.mp hlt))
          rw [Nat.succ_mul] at hstep
          omega
        · exact Nat.add_le_add_left (ih hle) _

theorem natOfBytes_lt_iff {xs ys : List UInt8} (hlen : xs.length = ys.length) :
    natOfBytes xs < natOfBytes ys ↔ xs < ys := by
  have hle {xs ys : List UInt8} (hlen : xs.length = ys.length) (h : xs ≤ ys) :
      natOfBytes xs ≤ natOfBytes ys := by
    have hfilled := natOfBytes_filled_le h xs.length
    rwa [take_length, Nat.sub_self, replicate_zero, append_nil, hlen, take_length, Nat.sub_self,
      replicate_zero, append_nil] at hfilled
  constructor
  · intro h
    by_contra hnot
    exact absurd (hle hlen.symm (List.not_lt.mp hnot)) (Nat.not_le_of_lt h)
  · intro h
    refine lt_of_le_of_ne (hle hlen (List.le_of_lt h)) fun heq => ?_
    exact List.lt_irrefl ys (natOfBytes_inj hlen heq ▸ h)

/-- Numbers without leading zeros are compared by their lengths first. -/
theorem natOfBytes_lt_iff_shortlex (a b : GoString) :
    natOfBytes (cellText 0 a) < natOfBytes (cellText 0 b) ↔
      Shortlex (· < ·) (cellText 0 a) (cellText 0 b) := by
  have hshorter {a b : GoString} (h : (cellText 0 a).length < (cellText 0 b).length) :
      natOfBytes (cellText 0 a) < natOfBytes (cellText 0 b) := by
    cases hb : cellText 0 b with
    | nil => simp [hb] at h
    | cons y ys =>
      have hy : y ≠ 0 := by
        have hhead := head?_dropWhile_not (fun x : UInt8 => decide (x = 0)) b
        rw [show b.dropWhile (· = 0) = y :: ys from hb] at hhead
        simpa using hhead
      rw [hb, length_cons, Nat.lt_succ_iff] at h
      calc natOfBytes (cellText 0 a) < 256 ^ (cellText 0 a).length := natOfBytes_lt _
        _ ≤ 256 ^ ys.length := Nat.pow_le_pow_right (by decide) h
        _ ≤ y.toNat * 256 ^ ys.length := Nat.le_mul_of_pos_left _ (UInt8.pos_iff_ne_zero.mpr hy)
        _ ≤ natOfBytes (y :: ys) := natOfBytes_cons y ys ▸ Nat.le_add_right _ _
  rw [shortlex_def]
  rcases lt_trichotomy (cellText 0 a).length (cellText 0 b).length with hlt | heq | hgt
  · simp [hlt, hshorter hlt]
  · simpa [heq] using natOfBytes_lt_iff heq
  · simp [hgt.not_gt, hgt.ne', (hshorter hgt).le]

/-- The number of a text is monotone in the text, exactly for a positive prefix length, or for texts
whose order is that of their lengths and then of their bytes; the empty text has no number. -/
theorem lexical_monotone_iff (p : ℤ) (a b : GoString) :
    (a ≤ b → ∀ m ∈ (encodeStringLexBSI a p.toNat).1, ∀ n ∈ (encodeStringLexBSI b p.toNat).1,
        m ≤ n) ↔
      a = [] ∨ b = [] ∨ 0 < p ∨ b < a ∨
        ¬ Shortlex (· < ·) (b.dropWhile (· = 0)) (a.dropWhile (· = 0)) := by
  by_cases ha : a = []
  · simp [ha, encodeStringLexBSI]
  by_cases hb : b = []
  · simp [hb, encodeStringLexBSI]
  have hle : (∀ m ∈ (encodeStringLexBSI a p.toNat).1, ∀ n ∈ (encodeStringLexBSI b p.toNat).1,
      m ≤ n) ↔ natOfBytes (cellText p.toNat a) ≤ natOfBytes (cellText p.toNat b) := by
    simp [encodeStringLexBSI, ha, hb, stringLexBSIValue_eq]
  rw [hle]
  by_cases hp : 0 < p
  · have hne : p.toNat ≠ 0 := by omega
    simp only [hp, true_or, or_true, iff_true, cellText, if_neg hne]
    exact fun h => natOfBytes_filled_le h p.toNat
  · rw [Int.toNat_of_nonpos (not_lt.mp hp)]
    have hshort := natOfBytes_lt_iff_shortlex b a
    simp only [ha, hb, hp, false_or]
    rw [← Nat.not_lt, hshort]
    exact ⟨fun h => (Classical.em (b < a)).imp_right h, fun h hab => h.resolve_left hab⟩

/-- Without a prefix length, the text "aa" comes before "b" and has the larger number. -/
theorem longer_text_overtakes :
    ([97, 97] : GoString) ≤ [98] ∧ (encodeStringLexBSI [97, 97] 0).1 = some 24929 ∧
      (encodeStringLexBSI [98] 0).1 = some 98 := by
  decide

/-! ## Texts in a batch

The mapper writes the number of a text to the values of a batch and the rest of the text to its
strings.  The values keep the last write of a column, the strings the first.
-/

/-- `decodeStringLexBSIPrefix`: the bytes of the number, up to the first zero. -/
def decodeStringLexBSIPrefix : Option ℤ → GoString
  | none => []
  | some value => ((Nat.digits 256 value.natAbs).reverse.map UInt8.ofNat).takeWhile (· ≠ 0)

/-- What the maps of a batch have for one column of a field: its entry in `batchValues`, whether it
is in `batchClearValues`, and its entry in `batchPartitionStr` under the path of the remainders. -/
structure ColumnBatch where
  value : Option ℤ := none
  cleared : Bool := false
  remainder : Option GoString := none

variable (prefixLength : ℕ)

/-- `StringLexBSIMapper.MapValue`: `SetPartitionedString` keeps an entry that is there, `SetValue`
replaces it, and an empty text goes to `ClearValue`. -/
def mapValue (b : ColumnBatch) (text : GoString) : ColumnBatch :=
  match encodeStringLexBSI text prefixLength with
  | (none, _) => { b with cleared := true }
  | (some value, remainder) =>
    { b with
      value := some value
      remainder := if prefixLength > 0 then b.remainder.or (some remainder) else b.remainder }

/-- The number a flush leaves: the values are sent before the cleared columns. -/
def ColumnBatch.flushed (b : ColumnBatch) : Option ℤ := if b.cleared then none else b.value

/-- The text is rebuilt from the number and the rest of it. -/
def ColumnBatch.rebuilt (b : ColumnBatch) : GoString :=
  decodeStringLexBSIPrefix b.flushed ++ b.remainder.getD []

/-- The bytes of a text that go into the number. -/
def storedBytes (text : GoString) : GoString :=
  if prefixLength = 0 then text else text.take prefixLength

variable {p : ℕ} {text : GoString}

theorem encodeStringLexBSI_snd (text : GoString) :
    (encodeStringLexBSI text p).2 = if p = 0 then [] else text.drop p := by
  unfold encodeStringLexBSI
  split_ifs <;> simp_all

theorem takeWhile_dropWhile_eq_iff {xs : List UInt8} (hne : xs ≠ []) (k : ℕ) :
    ((xs ++ replicate k 0).dropWhile (· = 0)).takeWhile (· ≠ 0) = xs ↔ 0 ∉ xs := by
  constructor
  · intro h hzero
    rw [← h] at hzero
    simpa using mem_takeWhile_imp hzero
  · intro h
    obtain ⟨b, rest, rfl⟩ := exists_cons_of_ne_nil hne
    have hall : ∀ x ∈ b :: rest, decide (x ≠ 0) = true := by
      intro x hx
      have hx0 : x ≠ 0 := fun hx0 => h (hx0 ▸ hx)
      simpa using hx0
    rw [cons_append, dropWhile_cons_of_neg (by simpa using hall b mem_cons_self), ← cons_append,
      takeWhile_append_of_pos hall, takeWhile_replicate]
    simp

/-- A text is read back from its number and its rest if no zero byte goes into the number. -/
theorem decode_encode_iff : decodeStringLexBSIPrefix (encodeStringLexBSI text p).1 ++
    (encodeStringLexBSI text p).2 = text ↔ 0 ∉ storedBytes p text := by
  by_cases ht : text = []
  · simp [ht, encodeStringLexBSI, decodeStringLexBSIPrefix, storedBytes]
  have hvalue : stringLexBSIValue text p =
      natOfBytes (storedBytes p text ++ replicate (p - text.length) 0) := by
    unfold stringLexBSIValue storedBytes
    split_ifs with hp
    · simp [hp, natOfBytes]
    · rfl
  have hstored : storedBytes p text ++ (encodeStringLexBSI text p).2 = text := by
    rw [encodeStringLexBSI_snd, storedBytes]
    split_ifs <;> simp
  have hne : storedBytes p text ≠ [] := by
    unfold storedBytes
    split_ifs with hp
    · exact ht
    · simp [ht, hp]
  have hbytes (xs : List UInt8) : (xs.map UInt8.toNat).map UInt8.ofNat = xs := by
    simp [Function.comp_def]
  nth_rewrite 3 [← hstored]
  rw [append_left_inj, encodeStringLexBSI, if_neg ht, decodeStringLexBSIPrefix, hvalue,
    Int.natAbs_natCast, digits_natOfBytes, ← map_reverse, reverse_reverse, hbytes]
  exact takeWhile_dropWhile_eq_iff hne _

/-- A batch remembers every empty text, and the rest of the first text that is not empty. -/
theorem foldl_mapValue (texts : List GoString) (b : ColumnBatch) :
    (texts.foldl (mapValue p) b).cleared = (b.cleared || [] ∈ texts) ∧
      (texts.foldl (mapValue p) b).remainder = b.remainder.or
        (if p = 0 then none else (texts.find? (· ≠ [])).map (·.drop p)) := by
  induction texts generalizing b with
  | nil => simp
  | cons text texts ih =>
    rw [foldl_cons, (ih _).1, (ih _).2]
    by_cases ht : text = []
    · simp [mapValue, encodeStringLexBSI, ht]
    · by_cases hp : p = 0
      · simp [mapValue, encodeStringLexBSI, ht, hp, Ne.symm ht]
      · simp [mapValue, encodeStringLexBSI, ht, hp, Nat.pos_of_ne_zero hp, Ne.symm ht]

/-- The writes of a batch to one column leave the number and the rest of the last text, from which
it is read back, exactly if no text is empty unless the last one is, the first text that is not
empty has the rest of the last one, and no zero byte goes into the number. -/
theorem flushed_is_last_iff (p : ℕ) (texts : List GoString) (last : GoString) :
    let b := (texts ++ [last]).foldl (mapValue p) {}
    (b.flushed = (encodeStringLexBSI last p).1 ∧
        b.remainder.getD [] = (encodeStringLexBSI last p).2 ∧ b.rebuilt = last) ↔
      (last = [] ∨ [] ∉ texts) ∧
        (∀ first, (texts ++ [last]).find? (· ≠ []) = some first →
          (encodeStringLexBSI first p).2 = (encodeStringLexBSI last p).2) ∧
        0 ∉ storedBytes p last := by
  intro b
  obtain ⟨hcleared, hremainder⟩ := foldl_mapValue (texts ++ [last]) {}
  have hprefix : b.flushed = (encodeStringLexBSI last p).1 ↔ last = [] ∨ [] ∉ texts := by
    rw [ColumnBatch.flushed, hcleared]
    by_cases hlast : last = []
    · simp [hlast, encodeStringLexBSI]
    · by_cases hempty : [] ∈ texts
      · simp [hlast, hempty, encodeStringLexBSI]
      · simp [b, hlast, hempty, Ne.symm hlast, mapValue, encodeStringLexBSI]
  have hrest : b.remainder.getD [] = (encodeStringLexBSI last p).2 ↔
      ∀ first, (texts ++ [last]).find? (· ≠ []) = some first →
        (encodeStringLexBSI first p).2 = (encodeStringLexBSI last p).2 := by
    rw [hremainder]
    simp only [encodeStringLexBSI_snd]
    cases hfind : (texts ++ [last]).find? (· ≠ []) with
    | none =>
      have hlast : last = [] := by simpa using find?_eq_none.mp hfind last (by simp)
      simp [hlast]
    | some first => by_cases hp : p = 0 <;> simp [hp]
  rw [← hprefix, ← hrest, ← decode_encode_iff]
  refine and_congr_right fun h₁ => and_congr_right fun h₂ => ?_
  rw [ColumnBatch.rebuilt, h₁, h₂]

/-- Two writes of texts that are longer than the prefix leave the number of the second and the rest
of the first. -/
theorem second_write_keeps_first_remainder :
    let b := [[97, 98], [99, 100]].foldl (mapValue 1) {}
    b.flushed = some 99 ∧ b.remainder = some [98] ∧ b.rebuilt = [99, 98] := by
  decide

/-! ## Prefixes in a machine word -/

/-- The loop of `encodeStringLexBSI` for a prefix of at most eight bytes: each byte is shifted to its
place in a machine word. -/
def encodeWord (value : GoString) (prefixLength : ℕ) : UInt64 :=
  (range (min value.length prefixLength)).foldl (fun encoded i =>
    encoded ||| (value.getD i 0).toUInt64 <<< UInt64.ofNat (8 * (prefixLength - i - 1))) 0

/-- A byte is put behind the bytes of a word. -/
theorem toNat_or_shiftLeft {word : UInt64} {k a : ℕ} (hk : k < 8)
    (hword : word.toNat = a * 256 ^ (k + 1)) (b : UInt8) :
    (word ||| b.toUInt64 <<< UInt64.ofNat (8 * k)).toNat = (a * 256 + b.toNat) * 256 ^ k := by
  have hpow : ∀ n, 256 ^ n = 2 ^ (8 * n) := fun n => by rw [Nat.pow_mul]
  have hbyte : b.toNat * 2 ^ (8 * k) < 2 ^ (8 * (k + 1)) := by
    rw [Nat.mul_succ, pow_add, Nat.mul_comm]
    exact Nat.mul_lt_mul_of_pos_left b.toNat_lt (by positivity)
  have hfits : 2 ^ (8 * (k + 1)) ≤ 2 ^ 64 := Nat.pow_le_pow_right (by decide) (by omega)
  have hshift : 8 * k % 2 ^ 64 % 64 = 8 * k := by omega
  rw [UInt64.toNat_or, UInt64.toNat_shiftLeft, UInt64.toNat_ofNat', hshift, UInt8.toNat_toUInt64,
    Nat.shiftLeft_eq, Nat.mod_eq_of_lt (hbyte.trans_le hfits), hword, hpow, hpow,
    Nat.mul_comm a, ← Nat.two_pow_add_eq_or_of_lt hbyte, Nat.mul_succ, pow_add]
  ring

/-- The machine word has the number of the filled prefix. -/
theorem toNat_encodeWord {p : ℕ} (hp : p ≤ 8) (text : GoString) :
    (encodeWord text p).toNat = natOfBytes (text.take p ++ replicate (p - text.length) 0) := by
  -- the bytes of the first positions stand above those that are still zero
  have hloop : ∀ i ≤ min text.length p, ((range i).foldl (fun encoded i =>
      encoded ||| (text.getD i 0).toUInt64 <<< UInt64.ofNat (8 * (p - i - 1))) 0).toNat =
        natOfBytes (text.take i) * 256 ^ (p - i) := by
    intro i hi
    induction i with
    | zero => simp [natOfBytes]
    | succ i ih =>
      have hlt : i < text.length := by omega
      have hget : text.getD i 0 = text[i] := by simp [hlt]
      obtain ⟨k, rfl⟩ : ∃ k, p = i + 1 + k := ⟨p - (i + 1), by omega⟩
      have hold := ih (by omega)
      rw [show i + 1 + k - i = k + 1 by omega] at hold
      rw [range_succ, foldl_append, foldl_cons, foldl_nil, Nat.add_sub_cancel_left,
        show i + 1 + k - i - 1 = k by omega, toNat_or_shiftLeft (by omega) hold,
        take_succ_eq_append_getElem hlt, natOfBytes_append, hget]
  rw [encodeWord, hloop _ le_rfl, natOfBytes_concat, natOfBytes_replicate_zero, length_replicate,
    Nat.add_zero]
  rcases Nat.le_total text.length p with hle | hle
  · rw [min_eq_left hle, take_length, take_of_length_le hle]
  · rw [min_eq_right hle, Nat.sub_self, Nat.sub_eq_zero_of_le hle]

/-- A text without zero bytes is read back from its number and its rest for every prefix length, and
a machine word has the same number as the bytes of the filled prefix. -/
theorem lexical_round_trip (text : GoString) (hzero : 0 ∉ text) (p : ℤ) :
    decodeStringLexBSIPrefix (encodeStringLexBSI text p.toNat).1 ++
        (encodeStringLexBSI text p.toNat).2 = text ∧
      (0 < p → p ≤ 8 →
        ((encodeWord text p.toNat).toNat : ℤ) = stringLexBSIValue text p.toNat) := by
  refine ⟨decode_encode_iff.mpr fun hstored => hzero ?_, fun hpos hle => ?_⟩
  · unfold storedBytes at hstored
    split_ifs at hstored
    · exact hstored
    · exact mem_of_mem_take hstored
  · rw [toNat_encodeWord (by omega), stringLexBSIValue, if_neg (by omega)]
    rfl

theorem lexical_round_trip_code :
    decodeStringLexBSIPrefix (encodeStringLexBSI [97, 98, 99] 2).1 ++ [99] = [97, 98, 99] ∧
      ((encodeWord [97, 98, 99] 2).toNat : ℤ) = stringLexBSIValue [97, 98, 99] 2 :=
  have h := lexical_round_trip [97, 98, 99] (by decide) 2
  ⟨h.1, h.2 (by decide) (by decide)⟩

end QuantaStream.Runtime
