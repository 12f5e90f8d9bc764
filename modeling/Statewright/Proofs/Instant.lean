import Mathlib
import Statewright.Instant.Reader
import Statewright.Proofs.Fallible
import Statewright.Proofs.Names

/-!
# Instants: reading what was written

The written form of an instant is read back as that instant, leap seconds and years of any number of
digits included.
-/

open Statewright.Fallible

namespace Statewright.Instant

/-! ## Digits -/

theorem decimal_eq (cs : List Char) : decimal cs = Nat.ofDigitChars 10 cs 0 := by
  rw [Nat.ofDigitChars_eq_foldl, decimal]
  congr 1
  funext n c
  rw [Nat.mul_comm]

theorem toList_padded (width n : Nat) :
    (padded width n).toList =
      List.replicate (width - (Nat.toDigits 10 n).length) '0' ++ Nat.toDigits 10 n :=
  String.toList_ofList

theorem decimal_padded (width n : Nat) : decimal (padded width n).toList = n := by
  rw [decimal_eq, toList_padded, Nat.ofDigitChars_append, Nat.ofDigitChars_replicate_zero,
    Nat.mul_zero, Nat.ofDigitChars_ten_toDigits]

theorem isDigit_padded (width n : Nat) : ∀ c ∈ (padded width n).toList, c.isDigit = true := by
  intro c hc
  rw [toList_padded, List.mem_append] at hc
  rcases hc with hc | hc
  · rw [List.eq_of_mem_replicate hc]
    rfl
  · exact Nat.isDigit_of_mem_toDigits (by decide) (by decide) hc

theorem padded_ne_nil (width n : Nat) : (padded width n).toList ≠ [] := by
  rw [toList_padded]
  exact List.append_ne_nil_of_right_ne_nil _ Nat.toDigits_ne_nil

theorem length_padded {width n : Nat} (hwidth : 0 < width) (h : n < 10 ^ width) :
    (padded width n).toList.length = width := by
  have hle := (Nat.length_toDigits_le_iff (b := 10) (by decide) hwidth).mpr h
  rw [toList_padded, List.length_append, List.length_replicate]
  omega

theorem not_isBlank_of_isDigit {c : Char} (h : c.isDigit = true) : Text.isBlank c = false := by
  rw [Text.isDigit_iff] at h
  simp only [Text.isBlank, Bool.or_eq_false_iff, Bool.and_eq_false_iff, decide_eq_false_iff_not,
    beq_eq_false_iff_ne]
  omega

/-! ## Fields -/

theorem takeWhile_append_of_stop {run rest : List Char} (hrun : ∀ c ∈ run, c.isDigit = true)
    (hstop : ∀ c cs, rest = c :: cs → c.isDigit = false) :
    (run ++ rest).takeWhile Char.isDigit = run := by
  rw [List.takeWhile_append_of_pos hrun]
  cases rest with
  | nil => rw [List.takeWhile_nil, List.append_nil]
  | cons c cs =>
    rw [List.takeWhile_cons_of_neg (by rw [hstop c cs rfl]; exact Bool.false_ne_true),
      List.append_nil]

theorem digits_none {run rest : List Char} (hrun : ∀ c ∈ run, c.isDigit = true) (hne : run ≠ [])
    (hstop : ∀ c cs, rest = c :: cs → c.isDigit = false) :
    digits none (run ++ rest) = .ok (run, rest) := by
  unfold digits
  dsimp only
  rw [takeWhile_append_of_stop hrun hstop, List.drop_left]
  cases run with
  | nil => exact absurd rfl hne
  | cons c run => rfl

theorem digits_some {run : List Char} (rest : List Char) (hrun : ∀ c ∈ run, c.isDigit = true)
    (hne : run ≠ []) :
    digits (some run.length) (run ++ rest) = .ok (run, rest) := by
  unfold digits
  dsimp only
  have hall : run.takeWhile Char.isDigit = run := by
    rw [← List.append_nil run, List.takeWhile_append_of_pos hrun]
    rfl
  rw [List.take_left, hall, List.drop_left]
  cases run with
  | nil => exact absurd rfl hne
  | cons c run => rfl

theorem skipBlanks_eq {c : Char} {cs : List Char} (h : Text.isBlank c = false) :
    skipBlanks (c :: cs) = .ok ((), c :: cs) := by
  show Except.ok ((), Text.trimLeft (c :: cs)) = _
  rw [Text.trimLeft, List.dropWhile_cons_of_neg (by rw [h]; exact Bool.false_ne_true)]

theorem skipBlanks_digits {run rest : List Char} (hrun : ∀ c ∈ run, c.isDigit = true)
    (hne : run ≠ []) : skipBlanks (run ++ rest) = .ok ((), run ++ rest) := by
  cases run with
  | nil => exact absurd rfl hne
  | cons c run => exact skipBlanks_eq (not_isBlank_of_isDigit (hrun c List.mem_cons_self))

theorem bounded_padded {n low high : Nat} (h : n < 100) (hlow : low ≤ n) (hhigh : n ≤ high)
    (rest : List Char) :
    bounded 2 low high ((padded 2 n).toList ++ rest) = .ok (n, rest) := by
  have hdigits := digits_some rest (isDigit_padded 2 n) (padded_ne_nil 2 n)
  rw [length_padded (by decide) h] at hdigits
  unfold bounded
  rw [read_bind (skipBlanks_digits (isDigit_padded 2 n) (padded_ne_nil 2 n)), read_bind hdigits,
    decimal_padded, if_pos ⟨hlow, hhigh⟩]
  rfl

theorem separator_eq {c : Char} (h : Text.isBlank c = false) (rest : List Char) :
    separator c (c :: rest) = .ok ((), rest) := by
  unfold separator
  rw [read_bind (skipBlanks_eq h), literal, if_pos rfl]

theorem ne_of_isDigit {c d : Char} (h : c.isDigit = true) (hd : d.isDigit = false) : c ≠ d := by
  rintro rfl
  rw [h] at hd
  cases hd

theorem get_eq (cs : List Char) : (get : Read (List Char)) cs = .ok (cs, cs) :=
  rfl

theorem set_eq (cs ds : List Char) : (set ds : Read PUnit) cs = .ok ((), ds) :=
  rfl

theorem year_minus (cs : List Char) :
    year ('-' :: cs) = (digits none >>= fun ds => pure (-(decimal ds : Int))) cs := by
  unfold year
  rw [read_bind (skipBlanks_eq rfl), read_bind (get_eq _)]
  exact read_bind (set_eq _ _)

theorem year_plus (cs : List Char) :
    year ('+' :: cs) = (digits none >>= fun ds => pure (decimal ds : Int)) cs := by
  unfold year
  rw [read_bind (skipBlanks_eq rfl), read_bind (get_eq _)]
  exact read_bind (set_eq _ _)

theorem year_digit {c : Char} (h : c.isDigit = true) (cs : List Char) :
    year (c :: cs) = (digits (some 4) >>= fun ds => pure (decimal ds : Int)) (c :: cs) := by
  unfold year
  rw [read_bind (skipBlanks_eq (not_isBlank_of_isDigit h)), read_bind (get_eq _)]
  -- A digit is neither of the signs, so the match falls through to the last case.
  apply congrFun (a := c :: cs)
  split
  · next heq => exact absurd (List.cons.inj heq).1 (ne_of_isDigit h rfl)
  · next heq => exact absurd (List.cons.inj heq).1 (ne_of_isDigit h rfl)
  · rfl

theorem digits_padded (width n : Nat) {c : Char} (hc : c.isDigit = false) (rest : List Char) :
    digits none ((padded width n).toList ++ c :: rest) =
      .ok ((padded width n).toList, c :: rest) := by
  apply digits_none (isDigit_padded width n) (padded_ne_nil width n)
  intro d cs h
  cases h
  exact hc

theorem toList_minus : "-".toList = ['-'] := by
  simp

theorem toList_plus : "+".toList = ['+'] := by
  simp

theorem toList_point : ".".toList = ['.'] := by
  simp

theorem year_yearText (y : Int) (rest : List Char) :
    year ((yearText y).toList ++ '-' :: rest) = .ok (y, '-' :: rest) := by
  unfold yearText
  by_cases hyear : 0 ≤ y ∧ y ≤ 9999
  · rw [if_pos hyear]
    have hdigits := digits_some ('-' :: rest) (isDigit_padded 4 y.toNat)
      (padded_ne_nil 4 y.toNat)
    rw [length_padded (by decide) (by omega)] at hdigits
    have hnum : ((decimal (padded 4 y.toNat).toList : Nat) : Int) = y := by
      rw [decimal_padded]
      omega
    -- The reader looks at the first character to tell a sign from a digit.
    cases hpadded : (padded 4 y.toNat).toList with
    | nil => exact absurd hpadded (padded_ne_nil 4 _)
    | cons c cs =>
      have hc : c.isDigit = true := by
        apply isDigit_padded 4 y.toNat
        rw [hpadded]
        exact List.mem_cons_self
      rw [hpadded] at hdigits hnum
      rw [List.cons_append] at hdigits ⊢
      rw [year_digit hc, read_bind hdigits, hnum]
      rfl
  · rw [if_neg hyear]
    by_cases hneg : y < 0
    · rw [if_pos hneg, String.toList_append, toList_minus, List.append_assoc, List.singleton_append,
        year_minus, read_bind (digits_padded 4 _ rfl rest), decimal_padded,
        show -(y.natAbs : Int) = y by omega]
      rfl
    · rw [if_neg hneg, String.toList_append, toList_plus, List.append_assoc, List.singleton_append,
        year_plus, read_bind (digits_padded 4 _ rfl rest), decimal_padded,
        show (y.natAbs : Int) = y by omega]
      rfl

theorem fraction_point (cs : List Char) :
    fraction ('.' :: cs) = (digits none >>= fun run =>
      pure (decimal (run.take 9) * 10 ^ (9 - (run.take 9).length))) cs := by
  unfold fraction
  rw [read_bind (get_eq _)]
  exact read_bind (set_eq _ _)

theorem fraction_digits {width k : Nat} (hwidth : 0 < width) (hle : width ≤ 9)
    (hk : k < 10 ^ width) :
    fraction ('.' :: ((padded width k).toList ++ ['Z'])) = .ok (k * 10 ^ (9 - width), ['Z']) := by
  have hlength := length_padded hwidth hk
  have hkept : (padded width k).toList.take 9 = (padded width k).toList :=
    List.take_of_length_le (by omega)
  rw [fraction_point, read_bind (digits_padded width k rfl []), hkept, decimal_padded, hlength]
  rfl

theorem fraction_fractionText {nanos : Nat} (h : nanos < 1000000000) :
    fraction ((fractionText nanos).toList ++ ['Z']) = .ok (nanos, ['Z']) := by
  unfold fractionText
  by_cases hzero : nanos = 0
  · rw [if_pos hzero, hzero]
    rfl
  rw [if_neg hzero]
  -- The text has as few digits as the fraction needs: three, six or nine.
  by_cases hmilli : nanos % 1000000 = 0
  · rw [if_pos hmilli, String.toList_append, toList_point, List.append_assoc, List.singleton_append,
      fraction_digits (by decide) (by decide) (by omega),
      show nanos / 1000000 * 10 ^ (9 - 3) = nanos by omega]
  rw [if_neg hmilli]
  by_cases hmicro : nanos % 1000 = 0
  · rw [if_pos hmicro, String.toList_append, toList_point, List.append_assoc, List.singleton_append,
      fraction_digits (by decide) (by decide) (by omega),
      show nanos / 1000 * 10 ^ (9 - 6) = nanos by omega]
  · rw [if_neg hmicro, String.toList_append, toList_point, List.append_assoc, List.singleton_append,
      fraction_digits (by decide) (by decide) (by omega),
      show nanos * 10 ^ (9 - 9) = nanos by omega]

theorem offset_zulu : offset ['Z'] = .ok (0, []) := by
  unfold offset
  rw [read_bind (skipBlanks_eq rfl), read_bind (get_eq _)]
  rfl

/-! ## The whole -/

/-- The fields that the written form of an instant shows. -/
def shown (t : Instant) : Fields where
  year := t.date.year
  month := t.date.month
  day := t.date.day
  hour := t.second / 3600
  minute := t.second / 60 % 60
  second := t.second % 60 + t.nanos / 1000000000
  nanos := t.nanos % 1000000000
  offset := 0

theorem daysInMonth_le (year : Int) (month : Nat) : daysInMonth year month ≤ 31 := by
  unfold daysInMonth
  split
  · split <;> decide
  all_goals decide

theorem date_bounds (d : Date) :
    -262143 ≤ d.year ∧ d.year ≤ 262142 ∧ 1 ≤ d.month ∧ d.month ≤ 12 ∧ 1 ≤ d.day ∧ d.day ≤ 31 := by
  have hvalid := d.valid
  have hdays := daysInMonth_le d.year d.month
  simp only [isDate, isYear, Bool.and_eq_true, decide_eq_true_eq] at hvalid
  omega

-- More than a second's worth of nanoseconds is a leap second, at the end of a minute.
theorem leap_cases (t : Instant) :
    t.nanos / 1000000000 = 0 ∨ (t.nanos / 1000000000 = 1 ∧ t.second % 60 = 59) := by
  have hfit := t.nanos_fit
  simp only [isFraction, Bool.or_eq_true, Bool.and_eq_true, decide_eq_true_eq, beq_iff_eq] at hfit
  omega

theorem toList_text (t : Instant) :
    t.text.toList = (yearText t.date.year).toList ++ '-' :: ((padded 2 t.date.month).toList ++
      '-' :: ((padded 2 t.date.day).toList ++ 'T' :: ((padded 2 (t.second / 3600)).toList ++
      ':' :: ((padded 2 (t.second / 60 % 60)).toList ++
      ':' :: ((padded 2 (t.second % 60 + t.nanos / 1000000000)).toList ++
      ((fractionText (t.nanos % 1000000000)).toList ++ ['Z'])))))) := by
  unfold text
  simp [String.toList_append, List.append_assoc]

theorem fields_text (t : Instant) : fields t.text.toList = .ok (t.shown, []) := by
  obtain ⟨hlow, hhigh, hmonth, hmonth', hday, hday'⟩ := date_bounds t.date
  have hsecond := t.second_lt
  have hleap := leap_cases t
  rw [toList_text]
  unfold fields
  rw [read_bind (year_yearText _ _)]
  dsimp only
  -- First the date, then the time of the day; every field is within its bounds.
  rw [if_neg (by omega), read_bind (separator_eq rfl _),
    read_bind (bounded_padded (by omega) hmonth hmonth' _), read_bind (separator_eq rfl _),
    read_bind (bounded_padded (by omega) hday hday' _)]
  rw [read_bind (show dateTimeSeparator ('T' :: _) = .ok ((), _) from rfl),
    read_bind (bounded_padded (by omega) (by omega) (by omega) _), read_bind (separator_eq rfl _),
    read_bind (bounded_padded (by omega) (by omega) (by omega) _), read_bind (separator_eq rfl _),
    read_bind (bounded_padded (by omega) (by omega) (by omega) _),
    read_bind (fraction_fractionText (Nat.mod_lt _ (by decide))), read_bind offset_zulu]
  rfl

theorem shift?_zero (t : Instant) : shift? t.date t.second t.nanos 0 = some t := by
  have hsecond := t.second_lt
  unfold shift?
  dsimp only
  rw [if_neg (by omega), if_pos (by omega), show ((t.second : Int) - 0).toNat = t.second by omega]
  exact dif_pos ⟨t.second_lt, t.nanos_fit⟩

theorem ofFields_shown (t : Instant) : ofFields t.shown = .ok t := by
  have hleap := leap_cases t
  have hdate : Date.of? t.shown.year t.shown.month t.shown.day = some t.date := dif_pos t.date.valid
  -- The second 60 stands for a leap second, which is held as a second's worth of nanoseconds.
  have hkept : t.shown.second / 60 = t.nanos / 1000000000 := by
    unfold shown
    dsimp only
    omega
  have hclock : t.shown.hour * 3600 + t.shown.minute * 60 +
      (t.shown.second - t.nanos / 1000000000) = t.second := by
    unfold shown
    dsimp only
    omega
  have hnanos : t.shown.nanos + t.nanos / 1000000000 * 1000000000 = t.nanos := by
    unfold shown
    dsimp only
    omega
  have hoffset : t.shown.offset.natAbs < 86400 := by
    unfold shown
    dsimp only
    omega
  unfold ofFields
  rw [hdate]
  dsimp only
  rw [hkept, hclock, hnanos, if_pos hoffset,
    show shift? _ _ _ t.shown.offset = some t from shift?_zero t]
  rfl

-- The written form of an instant is read as that instant.
theorem parse_text (t : Instant) : parse t.text = .ok t := by
  unfold parse
  rw [StateT.run, fields_text, ok_bind]
  dsimp only
  rw [if_neg (fun h => h rfl), ofFields_shown]

/-! ## Length -/

theorem length_padded_le {width k : Nat} (n : Nat) (hk : 0 < k) (hwidth : width ≤ k)
    (h : n < 10 ^ k) : (padded width n).toList.length ≤ k := by
  have hle := (Nat.length_toDigits_le_iff (b := 10) (by decide) hk).mpr h
  rw [toList_padded, List.length_append, List.length_replicate]
  omega

theorem length_yearText_le {y : Int} (hlow : -262143 ≤ y) (hhigh : y ≤ 262142) :
    (yearText y).toList.length ≤ 7 := by
  unfold yearText
  by_cases hyear : 0 ≤ y ∧ y ≤ 9999
  · rw [if_pos hyear]
    have : (padded 4 y.toNat).toList.length ≤ 4 :=
      length_padded_le y.toNat (by omega) (by omega) (by omega)
    omega
  · have : (padded 4 y.natAbs).toList.length ≤ 6 :=
      length_padded_le y.natAbs (by omega) (by omega) (by omega)
    rw [if_neg hyear, String.toList_append, List.length_append]
    by_cases hneg : y < 0
    · rw [if_pos hneg, toList_minus, List.length_singleton]
      omega
    · rw [if_neg hneg, toList_plus, List.length_singleton]
      omega

theorem length_fractionText_le {nanos : Nat} (h : nanos < 1000000000) :
    (fractionText nanos).toList.length ≤ 10 := by
  have hpoint : ∀ width k, width ≤ 9 → k < 1000000000 →
      ("." ++ padded width k).toList.length ≤ 10 := by
    intro width k hwidth hk
    have : (padded width k).toList.length ≤ 9 := length_padded_le k (by omega) hwidth (by omega)
    rw [String.toList_append, toList_point, List.length_append, List.length_singleton]
    omega
  unfold fractionText
  by_cases hzero : nanos = 0
  · rw [if_pos hzero]
    simp
  rw [if_neg hzero]
  by_cases hmilli : nanos % 1000000 = 0
  · rw [if_pos hmilli]
    exact hpoint 3 _ (by omega) (by omega)
  rw [if_neg hmilli]
  by_cases hmicro : nanos % 1000 = 0
  · rw [if_pos hmicro]
    exact hpoint 6 _ (by omega) (by omega)
  · rw [if_neg hmicro]
    exact hpoint 9 _ (by omega) (by omega)

theorem length_text_le (t : Instant) : t.text.toList.length ≤ 33 := by
  obtain ⟨hlow, hhigh, hmonth, hmonth', hday, hday'⟩ := date_bounds t.date
  have hsecond := t.second_lt
  have hleap := leap_cases t
  have hyear := length_yearText_le hlow hhigh
  have hfraction := length_fractionText_le (Nat.mod_lt t.nanos (by decide : 1000000000 > 0))
  rw [toList_text]
  simp only [List.length_append, List.length_cons, List.length_nil]
  -- All fields but the year and the fraction have two digits.
  have htwo : ∀ n, n < 100 → (padded 2 n).toList.length = 2 := fun n hn =>
    length_padded (by decide) hn
  rw [htwo _ (by omega), htwo _ (by omega), htwo _ (by omega), htwo _ (by omega),
    htwo _ (by omega)]
  omega

end Statewright.Instant
