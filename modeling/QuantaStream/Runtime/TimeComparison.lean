import QuantaStream.Runtime.ShardWindow

/-!
# Stored times and time literals

A time field stores one number of 64 bits for each row.  The mapper of
`core/builtins.go` computes it from the nanoseconds of an instant, and the lowerer of
`qsbridge/quanta_intermediate.go` computes a number from a literal, with one rounding for each
operator.  Both computations wrap around.
-/

namespace QuantaStream.Runtime

open Bridge QuantaIntermediateLowerer GoString Option

/-! ## Numbers of 64 bits -/

/-- `quantaIntermediateEncodeTimeValue` with a result of 64 bits. -/
def encodeTimeInt64 (granularity : TimeGranularity) (nanos : ℤ) : ℤ :=
  toInt64 (encodeTimeValue granularity nanos)

/-- The nanoseconds of one encoded unit. -/
def unitNanos : TimeGranularity → ℤ
  | .unknown => 1000000
  | .millisecond => 1000000
  | .second => 1000000000
  | .microsecond => 1000
  | .nanosecond => 1
  | .day => 86400000000000

theorem encodeTimeValue_eq_div (granularity : TimeGranularity) (nanos : ℤ) :
    encodeTimeValue granularity nanos = nanos / unitNanos granularity := by
  cases granularity <;> simp [encodeTimeValue, unitNanos]

def IsInt64 (x : ℤ) : Prop := -2 ^ 63 ≤ x ∧ x < 2 ^ 63

theorem isInt64_toInt64 (n : ℤ) : IsInt64 (toInt64 n) := by
  unfold IsInt64 toInt64
  omega

theorem toInt64_of_isInt64 {n : ℤ} (h : IsInt64 n) : toInt64 n = n := by
  unfold IsInt64 at h
  unfold toInt64
  omega

/-- A successor is lost only at the last number. -/
theorem toInt64_succ_iff (n : ℤ) : toInt64 (n + 1) = toInt64 n + 1 ↔ toInt64 n ≠ 2 ^ 63 - 1 := by
  unfold toInt64
  omega

theorem toInt64_toInt64_succ (n : ℤ) : toInt64 (toInt64 n + 1) = toInt64 (n + 1) := by
  unfold toInt64
  omega

/-! ## Comparisons with a literal -/

section

variable (l : QuantaIntermediateLowerer) (field : FieldRef)

/-- `quantaIntermediateDateOnlyLiteral`. -/
def dateOnlyLiteral : LiteralExpr → Option ℤ
  | .string text => l.dateOnly text
  | _ => none

/-- `quantaIntermediateNextEncodedTimeValue` with numbers of 64 bits. -/
def nextTimeInt64 (literal : LiteralExpr) (nanos : ℤ) : ℤ :=
  match dateOnlyLiteral l literal with
  | some date => encodeTimeInt64 field.encoding.granularity (date + 86400000000000)
  | none => toInt64 (encodeTimeInt64 field.encoding.granularity nanos + 1)

/-- The operator and the number a time comparison is lowered to
(`quantaIntermediateNormalizeDiscreteTimeComparison`). -/
def timeOperand (op : BinaryOp) (literal : LiteralExpr) (nanos : ℤ) : BinaryOp × ℤ :=
  match op with
  | .lessEqual => (.less, nextTimeInt64 l field literal nanos)
  | .greater => (.greaterEqual, nextTimeInt64 l field literal nanos)
  | op => (op, encodeTimeInt64 field.encoding.granularity nanos)

/-- The fragment of a comparison of a time field with an instant. -/
def timeFragment (op : BinaryOp) (literal : LiteralExpr) (nanos : ℤ) : QuantaQueryFragment :=
  { field.fragment .intersect with
    bsiOp := bsiOpOf (timeOperand l field op literal nanos).1
    value := some (timeOperand l field op literal nanos).2
    literal := some literal
    rangeCoalesceAllowed := true }

/-- The fragment of a BETWEEN predicate on a time field. -/
def timeRangeFragment (lower upper : LiteralExpr) (lowerNanos upperNanos : ℤ) :
    QuantaQueryFragment :=
  { field.fragment .intersect with
    bsiOp := .range
    beginValue := some (encodeTimeInt64 field.encoding.granularity lowerNanos)
    endValue := some (encodeTimeInt64 field.encoding.granularity upperNanos)
    literalRange := some (lower, upper) }

/-- Connects the fragments with operands of 64 bits to the lowerer with exact operands: while nothing
wraps around, they are its fragments. -/
theorem bsiComparisonFragment_eq_timeFragment {op : BinaryOp} {literal : LiteralExpr} {nanos : ℤ}
    (hop : op ∈ [.equal, .less, .lessEqual, .greater, .greaterEqual])
    (hindex : field.index = .dateTime) (hscale : field.encoding.scale = 0)
    (htype : field.type = .time) (hparse : l.parseTimeValue literal = some nanos)
    (hint : ∀ n, literal ≠ .int n)
    (hvalue : IsInt64 (encodeTimeValue field.encoding.granularity nanos))
    (hnext : IsInt64 (l.nextEncodedTimeValue field literal
      (encodeTimeValue field.encoding.granularity nanos))) :
    l.bsiComparisonFragment op field literal = .ok (timeFragment l field op literal nanos) := by
  have hencode : encodeTimeInt64 field.encoding.granularity nanos =
      encodeTimeValue field.encoding.granularity nanos := toInt64_of_isInt64 hvalue
  have hnormalize : l.normalizeTimeValue field literal =
      .ok (.int (encodeTimeValue field.encoding.granularity nanos)) := by
    unfold normalizeTimeValue
    split
    next n => exact absurd rfl (hint n)
    next => rw [hparse]
  have hnext' : nextTimeInt64 l field literal nanos = l.nextEncodedTimeValue field literal
      (encodeTimeValue field.encoding.granularity nanos) := by
    unfold nextTimeInt64
    unfold nextEncodedTimeValue at hnext ⊢
    cases literal with
    | string text =>
      simp only [dateOnlyLiteral, hencode] at hnext ⊢
      cases hdate : l.dateOnly text with
      | none | some date =>
        rw [hdate] at hnext
        exact toInt64_of_isInt64 hnext
    | _ =>
      simp only [dateOnlyLiteral, hencode] at hnext ⊢
      exact toInt64_of_isInt64 hnext
  unfold bsiComparisonFragment
    bsiComparisonValue
  simp only [List.mem_cons, List.not_mem_nil, or_false] at hop
  rcases hop with rfl | rfl | rfl | rfl | rfl <;>
    simp [hindex, hscale, htype, hnormalize, normalizeDiscreteTimeComparison,
      timeFragment, timeOperand, hencode, hnext', bigInt, equalityOperation, bind, Except.bind,
      pure, Except.pure, Except.map]

/-- The row with the stored number passes the comparison. -/
def timeHolds (op : BinaryOp) (literal : LiteralExpr) (x : ℤ) : Prop :=
  ∃ nanos, l.parseTimeValue literal = some nanos ∧
    selectsValue (timeFragment l field op literal nanos) x

/-- The row with the stored number passes the BETWEEN predicate. -/
def timeBetween (lower upper : LiteralExpr) (x : ℤ) : Prop :=
  ∃ lowerNanos upperNanos, l.parseTimeValue lower = some lowerNanos ∧
    l.parseTimeValue upper = some upperNanos ∧
    selectsValue (timeRangeFragment field lower upper lowerNanos upperNanos) x

/-- The comparisons of the stored numbers with a literal obey the laws of an order. -/
structure OrderLaws (literal : LiteralExpr) : Prop where
  exactlyOne : ∀ x, IsInt64 x →
    (timeHolds l field .less literal x ∧ ¬ timeHolds l field .equal literal x ∧
      ¬ timeHolds l field .greater literal x) ∨
    (¬ timeHolds l field .less literal x ∧ timeHolds l field .equal literal x ∧
      ¬ timeHolds l field .greater literal x) ∨
    (¬ timeHolds l field .less literal x ∧ ¬ timeHolds l field .equal literal x ∧
      timeHolds l field .greater literal x)
  lessEqual : ∀ x, IsInt64 x → (timeHolds l field .lessEqual literal x ↔
    timeHolds l field .less literal x ∨ timeHolds l field .equal literal x)
  greaterEqual : ∀ x, IsInt64 x → (timeHolds l field .greaterEqual literal x ↔
    timeHolds l field .greater literal x ∨ timeHolds l field .equal literal x)
  between : ∀ lower x, IsInt64 x → (timeBetween l field lower literal x ↔
    timeHolds l field .greaterEqual lower x ∧ timeHolds l field .lessEqual literal x)

/-- The literal is no date alone, unless the field stores days, and its number is not the last
one. -/
def ExactLiteral (literal : LiteralExpr) : Prop :=
  (dateOnlyLiteral l literal = none ∨ field.encoding.granularity = .day) ∧
    ∀ nanos, l.parseTimeValue literal = some nanos →
      encodeTimeInt64 field.encoding.granularity nanos ≠ 2 ^ 63 - 1

variable {l field} {literal : LiteralExpr} {nanos : ℤ}

theorem encodeTimeValue_add_day (granularity : TimeGranularity) (nanos : ℤ) :
    encodeTimeValue granularity (nanos + 86400000000000) =
      encodeTimeValue granularity nanos + 86400000000000 / unitNanos granularity := by
  cases granularity <;> simp only [encodeTimeValue, unitNanos] <;> omega

/-- The next number is the successor for exact literals only. -/
theorem nextTimeInt64_eq_succ_iff (hparse : l.parseTimeValue literal = some nanos)
    (hdate : ∀ date, dateOnlyLiteral l literal = some date → date = nanos) :
    nextTimeInt64 l field literal nanos =
      encodeTimeInt64 field.encoding.granularity nanos + 1 ↔ ExactLiteral l field literal := by
  simp only [ExactLiteral, hparse, some.injEq, forall_eq']
  unfold nextTimeInt64 encodeTimeInt64
  cases hcase : dateOnlyLiteral l literal with
  | none =>
    rw [toInt64_toInt64_succ, toInt64_succ_iff]
    simp
  | some date =>
    obtain rfl := hdate date hcase
    dsimp only
    rw [encodeTimeValue_add_day]
    generalize encodeTimeValue field.encoding.granularity date = n
    cases field.encoding.granularity <;>
      simp [unitNanos]
    case day => exact toInt64_succ_iff n
    all_goals
      unfold toInt64
      omega

theorem timeHolds_iff (hparse : l.parseTimeValue literal = some nanos) (x : ℤ) :
    (timeHolds l field .less literal x ↔ x < encodeTimeInt64 field.encoding.granularity nanos) ∧
      (timeHolds l field .equal literal x ↔
        x = encodeTimeInt64 field.encoding.granularity nanos) ∧
      (timeHolds l field .greater literal x ↔ nextTimeInt64 l field literal nanos ≤ x) ∧
      (timeHolds l field .lessEqual literal x ↔ x < nextTimeInt64 l field literal nanos) ∧
      (timeHolds l field .greaterEqual literal x ↔
        encodeTimeInt64 field.encoding.granularity nanos ≤ x) := by
  simp [timeHolds, hparse, selectsValue, timeFragment, timeOperand, bsiOpOf]

/-- The comparisons with a literal obey the laws of an order for exact literals only.  A text that
is read as a date alone stands for the same instant in every comparison. -/
theorem orderLaws_iff (l : QuantaIntermediateLowerer) (field : FieldRef) (literal : LiteralExpr)
    (nanos : ℤ) (hparse : l.parseTimeValue literal = some nanos)
    (hdate : ∀ date, dateOnlyLiteral l literal = some date → date = nanos) :
    OrderLaws l field literal ↔ ExactLiteral l field literal := by
  rw [← nextTimeInt64_eq_succ_iff hparse hdate]
  have hholds := @timeHolds_iff l field literal nanos hparse
  have hcurrent : IsInt64 (encodeTimeInt64 field.encoding.granularity nanos) := isInt64_toInt64 _
  have hnext : IsInt64 (nextTimeInt64 l field literal nanos) := by
    unfold nextTimeInt64
    split <;> exact isInt64_toInt64 _
  constructor
  · intro hlaws
    -- the number itself is not greater, and no number after it is left without a comparison
    have hlt : encodeTimeInt64 field.encoding.granularity nanos <
        nextTimeInt64 l field literal nanos := by
      simpa [hholds] using hlaws.exactlyOne _ hcurrent
    have hsucc := hlaws.exactlyOne (encodeTimeInt64 field.encoding.granularity nanos + 1) (by
      unfold IsInt64 at *
      omega)
    simp only [hholds] at hsucc
    omega
  · intro hsucc
    refine ⟨fun x _ => ?_, fun x _ => ?_, fun x _ => ?_, fun lower x _ => ?_⟩
    iterate 3
      · simp only [hholds, hsucc]
        omega
    · rw [(hholds x).2.2.2.1, hsucc]
      simp only [timeBetween, timeHolds, hparse, selectsValue, timeFragment, timeRangeFragment,
        timeOperand, bsiOpOf, getD_some]
      constructor
      · rintro ⟨lowerNanos, upperNanos, hlower, hupper, hrange⟩
        cases hupper
        exact ⟨⟨lowerNanos, hlower, hrange.1⟩, by omega⟩
      · rintro ⟨⟨lowerNanos, hlower, hbegin⟩, hend⟩
        exact ⟨lowerNanos, nanos, hlower, rfl, hbegin, by omega⟩

end

/-- A calendar that knows one day as a date alone and one point of it with a time of day. -/
def dayCalendar : QuantaIntermediateLowerer where
  dictionaries := none
  parseTimeString text :=
    if text = ascii "1970-01-02" then some 86400000000000
    else if text = ascii "1970-01-02T00:00:01" then some 86401000000000
    else none
  dateOnly text := if text = ascii "1970-01-02" then some 86400000000000 else none

def secondsField : FieldRef where
  table := { table := "orders" }
  name := "created"
  type := .time
  index := .dateTime
  encoding := { kind := .timeBSI, granularity := .second }

/-- The literal with a time of day obeys the laws. -/
theorem orderLaws_timeOfDay :
    OrderLaws dayCalendar secondsField (.string (ascii "1970-01-02T00:00:01")) :=
  (orderLaws_iff dayCalendar secondsField (.string (ascii "1970-01-02T00:00:01"))
    86401000000000 rfl (fun _ h => by cases h)).mpr
    ⟨.inl rfl, fun nanos h => by
      cases h
      decide⟩

/-- One second after midnight is neither before, at nor after the day. -/
theorem dateAlone_breaks_orderLaws :
    ¬ OrderLaws dayCalendar secondsField (.string (ascii "1970-01-02")) := by
  intro h
  have hone := h.exactlyOne 86401 ⟨by decide, by decide⟩
  have hparse : dayCalendar.parseTimeValue (.string (ascii "1970-01-02")) =
      some 86400000000000 := rfl
  simp only [timeHolds_iff hparse] at hone
  revert hone
  decide

/-! ## Timestamps of rows -/

/-- The keys of a mapper configuration that may name a granularity, in the order they are read. -/
def granularityKeys : List String := ["granularity", "precision", "unit"]

/-- The granularity that a trimmed text in lower case names. -/
def namedGranularity (text : String) : Option TimeGranularity :=
  if text ∈ ["s", "sec", "second", "seconds"] then some .second
  else if text ∈ ["ms", "milli", "millisecond", "milliseconds"] then some .millisecond
  else if text ∈ ["us", "micro", "microsecond", "microseconds"] then some .microsecond
  else if text ∈ ["ns", "nano", "nanosecond", "nanoseconds"] then some .nanosecond
  else none

/-- `timestampBSIGranularity`, which the mapper reads: a key with a blank text is passed over, and
without a text the mapper stores nanoseconds.  Texts are trimmed and in lower case. -/
def timestampBSIGranularity (conf : String → Option String) : Option TimeGranularity :=
  namedGranularity
    ((granularityKeys.findSome? fun key => (conf key).filter (· ≠ "")).getD "nanosecond")

/-- `LegacyTimeBSIGranularity` and `legacyTimeGranularityOrDefault`, which the lowerer reads: the
first key that is there counts, and the default is the millisecond. -/
def legacyTimeBSIGranularity (conf : String → Option String) : TimeGranularity :=
  ((granularityKeys.findSome? conf).bind namedGranularity).getD .millisecond

/-- The nanoseconds in a unit of the mapper. -/
def nanosPerValue : TimeGranularity → Option ℤ
  | .second => some 1000000000
  | .millisecond => some 1000000
  | .microsecond => some 1000
  | .nanosecond => some 1
  | _ => none

/-- An instant as the mapper gets it: a point in time, also one read from a text, or seconds and
nanoseconds. -/
inductive TimestampValue where
  | time (nanos : ℤ)
  | composite (seconds nanos : ℤ)

def TimestampValue.nanos : TimestampValue → ℤ
  | .time nanos => nanos
  | .composite seconds nanos => seconds * 1000000000 + nanos

/-- `TimestampBSIMapper.MapValue`: a point in time is divided towards zero, seconds and nanoseconds
are divided as a `big.Int`, towards minus infinity. -/
def mapTimestamp (unit : ℤ) : TimestampValue → ℤ
  | .time nanos => (toInt64 nanos).tdiv unit
  | .composite seconds nanos => toInt64 (seconds * 1000000000 + nanos) / unit

/-- The field stores nanoseconds, or the instant is one of 64 bits and a point in time before 1970
has no fraction of a unit. -/
def SameRounding (unit : ℤ) (v : TimestampValue) : Prop :=
  unit = 1 ∨ IsInt64 v.nanos ∧
    match v with
    | .time nanos => 0 ≤ nanos ∨ unit ∣ nanos
    | .composite _ _ => True

theorem unitNanos_of_nanosPerValue {granularity : TimeGranularity} {unit : ℤ}
    (h : nanosPerValue granularity = some unit) :
    unitNanos granularity = unit ∧
      (unit = 1 ∨ unit = 1000 ∨ unit = 1000000 ∨ unit = 1000000000) := by
  cases granularity <;> cases h <;> simp [unitNanos]

theorem nanosPerValue_injective {granularity granularity' : TimeGranularity} {unit : ℤ}
    (h : nanosPerValue granularity = some unit) (h' : nanosPerValue granularity' = some unit) :
    granularity = granularity' := by
  cases granularity <;> cases h <;> cases granularity' <;> simp [nanosPerValue] at h' ⊢

/-- The lowerer reads a granularity that the mapper has. -/
theorem nanosPerValue_legacyTimeBSIGranularity (conf : String → Option String) :
    ∃ unit, nanosPerValue (legacyTimeBSIGranularity conf) = some unit := by
  unfold legacyTimeBSIGranularity
  cases granularityKeys.findSome? conf with
  | none => exact ⟨_, rfl⟩
  | some text =>
    rw [bind_some]
    unfold namedGranularity
    split_ifs <;> exact ⟨_, rfl⟩

theorem isInt64_ediv {n unit : ℤ} (h : IsInt64 n) (hunit : 0 < unit) : IsInt64 (n / unit) := by
  have hlower : -2 ^ 63 ≤ n / unit := (Int.le_ediv_iff_mul_le hunit).mpr (by nlinarith [h.1])
  have hupper : n / unit < 2 ^ 63 := (Int.ediv_lt_iff_lt_mul hunit).mpr (by nlinarith [h.2])
  exact ⟨hlower, hupper⟩

/-- The quotient of a number that has wrapped around is far from the quotient of the number. -/
theorem isInt64_of_quotient {n unit c : ℤ} (hunit : unit = 1000 ∨ unit = 1000000 ∨ unit = 1000000000)
    (hc : c = 0 ∨ c = 1) (h : toInt64 n / unit + c = n / unit) : IsInt64 n ∧ c = 0 := by
  unfold IsInt64
  unfold toInt64 at h
  rcases hunit with rfl | rfl | rfl <;> omega

/-- An instant of 64 bits that is not a fraction of a unit before 1970. -/
def StoredExactly (unit instant : ℤ) : Prop :=
  IsInt64 instant ∧ (0 ≤ instant ∨ unit ∣ instant)

section

variable {unit : ℤ} (hunit : unit = 1 ∨ unit = 1000 ∨ unit = 1000000 ∨ unit = 1000000000)

include hunit

/-- A time value that is stored as its whole units is of this kind. -/
theorem storedExactly_of_time {x : ℤ}
    (h : mapTimestamp unit (.time x) = x / unit) : StoredExactly unit x := by
  rcases hunit with rfl | hthousand
  · refine ⟨?_, .inr (one_dvd x)⟩
    rw [mapTimestamp, Int.tdiv_one, Int.ediv_one] at h
    exact h ▸ isInt64_toInt64 x
  · rw [mapTimestamp, Int.tdiv_eq_ediv, Int.sign_eq_one_of_pos (by omega)] at h
    rcases isInt64_of_quotient hthousand (by split <;> simp) h with ⟨hrange, hzero⟩
    rw [toInt64_of_isInt64 hrange] at hzero
    exact ⟨hrange, by_contra fun hround => by simp [hround] at hzero⟩

/-- The mapper stores the number of the lowerer if both round in the same way, and only then if the
number of the lowerer does not wrap around. -/
theorem mapTimestamp_eq_iff (v : TimestampValue) :
    (SameRounding unit v → mapTimestamp unit v = toInt64 (v.nanos / unit)) ∧
      (IsInt64 (v.nanos / unit) → mapTimestamp unit v = toInt64 (v.nanos / unit) →
        SameRounding unit v) := by
  have hpos : 0 < unit := by omega
  cases v with
  | time nanos =>
    simp only [SameRounding, TimestampValue.nanos]
    constructor
    · rintro (rfl | ⟨hrange, hround⟩)
      · simp [mapTimestamp]
      · rw [mapTimestamp, Int.tdiv_eq_ediv, toInt64_of_isInt64 hrange, if_pos hround, add_zero,
          toInt64_of_isInt64 (isInt64_ediv hrange hpos)]
    · intro hquotient h
      rw [toInt64_of_isInt64 hquotient] at h
      exact .inr (storedExactly_of_time hunit h)
  | composite seconds nanos =>
    simp only [SameRounding, mapTimestamp, TimestampValue.nanos, and_true]
    constructor
    · rintro (rfl | hrange)
      · simp
      · rw [toInt64_of_isInt64 hrange, toInt64_of_isInt64 (isInt64_ediv hrange hpos)]
    · intro hquotient h
      rw [toInt64_of_isInt64 hquotient] at h
      exact hunit.imp_right fun hunit =>
        (isInt64_of_quotient hunit (.inl rfl) (by rwa [add_zero])).1

end

/-- Two seconds away from 1970, an instant has different numbers of different units. -/
theorem mapTimestamp_ne_of_units {unit unit' : ℤ} (hne : unit ≠ unit')
    (hunit : unit = 1 ∨ unit = 1000 ∨ unit = 1000000 ∨ unit = 1000000000)
    (hunit' : unit' = 1 ∨ unit' = 1000 ∨ unit' = 1000000 ∨ unit' = 1000000000)
    {v : TimestampValue} (hrange : IsInt64 v.nanos) (hfar : 2000000000 ≤ |v.nanos|) :
    mapTimestamp unit v ≠ toInt64 (v.nanos / unit') := by
  have hstored : mapTimestamp unit v = v.nanos / unit ∨ mapTimestamp unit v = v.nanos / unit + 1 := by
    cases v with
    | time nanos =>
      have hn : toInt64 nanos = nanos := toInt64_of_isInt64 hrange
      rw [mapTimestamp, hn, Int.tdiv_eq_ediv, Int.sign_eq_one_of_pos (by omega)]
      split_ifs <;> simp [TimestampValue.nanos]
    | composite seconds nanos => exact .inl (congrArg (· / unit) (toInt64_of_isInt64 hrange))
  rw [toInt64_of_isInt64 (isInt64_ediv hrange (by omega))]
  generalize v.nanos = n at *
  rcases abs_cases n with h | h <;> rcases hunit with rfl | rfl | rfl | rfl <;>
    rcases hunit' with rfl | rfl | rfl | rfl <;> omega

/-- Where the mapper and the lowerer read one granularity, a row is found by an equality with its
own timestamp if they round in the same way, and, for instants whose number of units has 64 bits,
only then.  Where they read two, it is not found two seconds away from 1970. -/
theorem ownTimestamp_found (l : QuantaIntermediateLowerer) (field : FieldRef)
    (conf : String → Option String) (unit : ℤ)
    (hmapper : (timestampBSIGranularity conf).bind nanosPerValue = some unit)
    (hlowerer : field.encoding.granularity = legacyTimeBSIGranularity conf) (v : TimestampValue) :
    (timestampBSIGranularity conf = some (legacyTimeBSIGranularity conf) →
      (SameRounding unit v →
        mapTimestamp unit v = encodeTimeInt64 field.encoding.granularity v.nanos ∧
          timeHolds l field .equal (.time v.nanos) (mapTimestamp unit v)) ∧
        (IsInt64 (encodeTimeValue field.encoding.granularity v.nanos) →
          timeHolds l field .equal (.time v.nanos) (mapTimestamp unit v) → SameRounding unit v)) ∧
      (timestampBSIGranularity conf ≠ some (legacyTimeBSIGranularity conf) →
        IsInt64 v.nanos → 2000000000 ≤ |v.nanos| →
        ¬ timeHolds l field .equal (.time v.nanos) (mapTimestamp unit v)) := by
  rcases bind_eq_some_iff.mp hmapper with ⟨granularity, hmapper, hunit⟩
  rcases unitNanos_of_nanosPerValue hunit with ⟨hnanos, hcases⟩
  have hencode := encodeTimeValue_eq_div field.encoding.granularity v.nanos
  have hequal : ∀ x, timeHolds l field .equal (.time v.nanos) x ↔
      x = toInt64 (v.nanos / unitNanos field.encoding.granularity) := by
    intro x
    rw [(timeHolds_iff rfl x).2.1, encodeTimeInt64, hencode]
  rw [hequal, hencode, encodeTimeInt64, hencode, hlowerer]
  refine ⟨fun hsame => ?_, fun hne hrange hfar => ?_⟩
  · rw [hmapper, some.injEq] at hsame
    rw [← hsame, hnanos]
    have hiff := mapTimestamp_eq_iff hcases v
    exact ⟨fun h => ⟨hiff.1 h, hiff.1 h⟩, hiff.2⟩
  · rcases nanosPerValue_legacyTimeBSIGranularity conf with ⟨unit', hunit'⟩
    rcases unitNanos_of_nanosPerValue hunit' with ⟨hnanos', hcases'⟩
    rw [hnanos']
    refine mapTimestamp_ne_of_units (fun h => hne ?_) hcases hcases' hrange hfar
    rw [hmapper, nanosPerValue_injective hunit (h ▸ hunit')]

/-- The configuration that names the second. -/
def secondsConfig (key : String) : Option String :=
  if key = "granularity" then some "second" else none

/-- A row after 1970 is found. -/
theorem ownTimestamp_found_seconds :
    timestampBSIGranularity secondsConfig = some .second ∧
      legacyTimeBSIGranularity secondsConfig = .second ∧
      timeHolds dayCalendar secondsField .equal (.time 1500000000)
        (mapTimestamp 1000000000 (.time 1500000000)) :=
  ⟨rfl, rfl, (((ownTimestamp_found dayCalendar secondsField secondsConfig 1000000000 rfl rfl
    (.time 1500000000)).1 rfl).1 (.inr ⟨⟨by decide, by decide⟩, .inl (by decide)⟩)).2⟩

/-- Half a second before 1970 is stored as the second zero and looked for as the second before. -/
theorem ownTimestamp_lost :
    timestampBSIGranularity secondsConfig = some .second ∧
      legacyTimeBSIGranularity secondsConfig = .second ∧
      ¬ timeHolds dayCalendar secondsField .equal (.time (-500000000))
        (mapTimestamp 1000000000 (.time (-500000000))) := by
  rw [(timeHolds_iff rfl _).2.1]
  decide

/-! ## Representations of an instant -/

/-- What the mapper accepts: a point in time or seconds and nanoseconds, a text, or an integer. -/
inductive TimestampInput where
  | value (v : TimestampValue)
  | text (s : GoString)
  | epoch (n : ℤ)

variable (parse : GoString → Option ℤ) (unit : ℤ)

/-- `TimestampBSIMapper.MapValue`, where `parse` is `parseTimestampMapperString`: no text and the
text NULL are stored as zero, and an integer is a number of units. -/
def mapTimestampInput : TimestampInput → Option ℤ
  | .value v => some (mapTimestamp unit v)
  | .text s =>
    if s = [] ∨ s = [78, 85, 76, 76] then some 0
    else (parse s).map fun nanos => mapTimestamp unit (.time nanos)
  | .epoch n => some n

/-- The input stands for an instant in nanoseconds. -/
def Denotes (instant : ℤ) : TimestampInput → Prop
  | .value v => v.nanos = instant
  | .text s => s ≠ [] ∧ s ≠ [78, 85, 76, 76] ∧ parse s = some instant
  | .epoch n => n * unit = instant

variable {unit}

theorem mapTimestampInput_of_storedExactly
    (hunit : unit = 1 ∨ unit = 1000 ∨ unit = 1000000 ∨ unit = 1000000000) {x : ℤ}
    (hx : StoredExactly unit x) {i : TimestampInput} (hi : Denotes parse unit x i) :
    mapTimestampInput parse unit i = some (x / unit) := by
  have hpos : 0 < unit := by omega
  have hmap : ∀ v : TimestampValue, v.nanos = x → mapTimestamp unit v = x / unit := by
    rintro v rfl
    rw [(mapTimestamp_eq_iff hunit v).1, toInt64_of_isInt64 (isInt64_ediv hx.1 hpos)]
    refine .inr ⟨hx.1, ?_⟩
    cases v with
    | time nanos => exact hx.2
    | composite seconds nanos => trivial
  cases i with
  | value v => exact congrArg some (hmap v hi)
  | text s => simp [mapTimestampInput, hi.1, hi.2.1, hi.2.2, hmap (.time x) rfl]
  | epoch n => simp [mapTimestampInput, ← show n * unit = x from hi, hpos.ne']

/-- Every representation of an instant is stored as its whole units since 1970 exactly if it is one
of 64 bits and not a fraction of a unit before 1970.  Instants of this kind have one stored number,
which is monotone in the instant. -/
theorem timestamps_stored_iff (granularity : TimeGranularity)
    (hunit : nanosPerValue granularity = some unit) :
    (∀ x, (∀ i, Denotes parse unit x i → mapTimestampInput parse unit i = some (x / unit)) ↔
      StoredExactly unit x) ∧
    ∀ x y, StoredExactly unit x → StoredExactly unit y → x ≤ y →
      ∀ i j, Denotes parse unit x i → Denotes parse unit y j → ∃ m n,
        mapTimestampInput parse unit i = some m ∧ mapTimestampInput parse unit j = some n ∧
          m ≤ n ∧ (x = y → m = n) := by
  have hcases := (unitNanos_of_nanosPerValue hunit).2
  have hpos : 0 < unit := by omega
  constructor
  · intro x
    refine ⟨fun h => ?_, fun hx i hi => mapTimestampInput_of_storedExactly parse hcases hx hi⟩
    exact storedExactly_of_time hcases (some.inj (h (.value (.time x)) rfl))
  · intro x y hx hy hle i j hi hj
    exact ⟨_, _, mapTimestampInput_of_storedExactly parse hcases hx hi,
      mapTimestampInput_of_storedExactly parse hcases hy hj, Int.ediv_le_ediv hpos hle,
      fun h => h ▸ rfl⟩

/-- The first second of 1970 as a time value. -/
theorem timestamps_stored_seconds :
    nanosPerValue .second = some 1000000000 ∧
      mapTimestampInput (fun _ => none) 1000000000 (.value (.time 1000000000)) = some 1 :=
  ⟨rfl, ((timestamps_stored_iff (fun _ => none) .second rfl).1 1000000000).2
    ⟨⟨by decide, by decide⟩, .inl (by decide)⟩ (.value (.time 1000000000)) rfl⟩

/-- Half a second before 1970 has two stored numbers, and the end of the year 9999 is stored before
1970 as a time value. -/
theorem timestamps_disagree :
    mapTimestampInput (fun _ => none) 1000000000 (.value (.time (-500000000))) = some 0 ∧
      mapTimestampInput (fun _ => none) 1000000000 (.value (.composite (-1) 500000000)) =
        some (-1) ∧
      mapTimestampInput (fun _ => none) 1000000000 (.value (.time (253402300799 * 1000000000))) =
        some (-4852116232) ∧
      mapTimestampInput (fun _ => none) 1000000000 (.epoch 253402300799) = some 253402300799 := by
  decide

end QuantaStream.Runtime
