import NameRegistry.Instant.Text
import NameRegistry.Proofs.Text.Decimal

/-! # Instants read back

Each reader takes off the front of a text what the writer of the same part has put there, whatever
follows, as long as that does not go on with a digit. So the text of an instant in a record stands
for that instant: in any year of the calendar, to the nanosecond, and also within a leap second.
-/
namespace NameRegistry.Instant

open Decimal (paddedDigits isDigit_of_mem_paddedDigits paddedDigits_ne_nil length_paddedDigits
  ofDigitChars_paddedDigits ne_of_isDigit)

/-- A text that does not begin with a digit. -/
def NoDigitFirst (cs : List Char) : Prop := ∀ c ∈ cs.head?, c.isDigit = false

variable {cs rest : List Char} {c : Char}

theorem noDigitFirst_cons (hc : c.isDigit = false) : NoDigitFirst (c :: cs) := by
  rintro d ⟨⟩
  exact hc

theorem NoDigitFirst.takeWhile (h : NoDigitFirst cs) : cs.takeWhile Char.isDigit = [] := by
  cases cs with
  | nil => rfl
  | cons c cs => rw [List.takeWhile_cons, h c rfl]; rfl

theorem NoDigitFirst.take (h : NoDigitFirst cs) (n : Nat) : NoDigitFirst (cs.take n) := by
  cases n with
  | zero => exact nofun
  | succ n =>
    cases cs with
    | nil => exact nofun
    | cons c cs => exact noDigitFirst_cons (h c rfl)

theorem isBlankChar_of_isDigit (h : c.isDigit = true) : Text.isBlankChar c = false := by
  rw [Char.isDigit, Bool.and_eq_true, decide_eq_true_eq, decide_eq_true_eq] at h
  have h1 : 48 ≤ c.toNat := UInt32.le_iff_toNat_le.1 h.1
  have h2 : c.toNat ≤ 57 := UInt32.le_iff_toNat_le.1 h.2
  simp [Text.isBlankChar, Text.blankRanges]
  omega

theorem skipBlanks_cons (hc : Text.isBlankChar c = false) : skipBlanks (c :: cs) = c :: cs := by
  rw [skipBlanks, List.dropWhile_cons, hc]
  rfl

theorem takeWhile_digits {ds : List Char} (hds : ∀ c ∈ ds, c.isDigit = true)
    (hrest : NoDigitFirst rest) : (ds ++ rest).takeWhile Char.isDigit = ds := by
  rw [List.takeWhile_append_of_pos hds, hrest.takeWhile, List.append_nil]

theorem skipBlanks_digits {width n : Nat} :
    skipBlanks (paddedDigits width n ++ rest) = paddedDigits width n ++ rest := by
  obtain ⟨c, ds, hds⟩ := List.exists_cons_of_ne_nil (paddedDigits_ne_nil width n)
  have hc := isDigit_of_mem_paddedDigits (hds ▸ List.mem_cons_self : c ∈ paddedDigits width n)
  rw [hds, List.cons_append, skipBlanks_cons (isBlankChar_of_isDigit hc)]

theorem readNumber_digits {most width n : Nat} (hlength : (paddedDigits width n).length ≤ most)
    (hrest : NoDigitFirst rest) :
    readNumber most (paddedDigits width n ++ rest) = some (n, rest) := by
  have hds : ∀ c ∈ paddedDigits width n, c.isDigit = true := fun _ => isDigit_of_mem_paddedDigits
  have htake : ((paddedDigits width n ++ rest).take most).takeWhile Char.isDigit =
      paddedDigits width n := by
    rw [List.take_append, List.take_of_length_le hlength]
    exact takeWhile_digits hds (hrest.take _)
  simp only [readNumber, htake, List.isEmpty_iff, paddedDigits_ne_nil, if_false,
    ofDigitChars_paddedDigits, List.drop_left]

theorem readField_digits {n : Nat} {separator : Char}
    (hseparator : Text.isBlankChar separator = false) (hn : n < 100) (hrest : NoDigitFirst rest) :
    readField separator (separator :: (paddedDigits 2 n ++ rest)) = some (n, rest) := by
  rw [readField, skipBlanks_cons hseparator, readChar, if_pos rfl, Option.bind_some,
    skipBlanks_digits]
  exact readNumber_digits (Nat.le_of_eq (length_paddedDigits (by decide) hn)) hrest

theorem readYear_yearText (year : Int) (hrest : NoDigitFirst rest) :
    readYear (skipBlanks (yearText year ++ rest)) = some (year, rest) := by
  rw [yearText]
  split
  · next hyear =>
    rw [skipBlanks_digits]
    have hread : readNumber 4 (paddedDigits 4 year.toNat ++ rest) = some (year.toNat, rest) :=
      readNumber_digits (Nat.le_of_eq (length_paddedDigits (by decide) (by omega))) hrest
    obtain ⟨c, ds, hds⟩ := List.exists_cons_of_ne_nil (paddedDigits_ne_nil 4 year.toNat)
    have hc :=
      isDigit_of_mem_paddedDigits (hds ▸ List.mem_cons_self : c ∈ paddedDigits 4 year.toNat)
    rw [readYear, hread]
    · exact congrArg (fun y => some (y, rest)) (Int.toNat_of_nonneg hyear.1)
    · rw [hds]
      exact fun _ h => ne_of_isDigit hc rfl (List.cons.inj h).1
    · rw [hds]
      exact fun _ h => ne_of_isDigit hc rfl (List.cons.inj h).1
  · have hread : readNumber (paddedDigits 4 year.natAbs ++ rest).length
        (paddedDigits 4 year.natAbs ++ rest) = some (year.natAbs, rest) :=
          readNumber_digits (by simp) hrest
    split
    · next hyear =>
      rw [List.cons_append, skipBlanks_cons rfl, readYear, hread]
      exact congrArg (fun y => some (y, rest)) (by omega)
    · next hyear =>
      rw [List.cons_append, skipBlanks_cons rfl, readYear, hread]
      exact congrArg (fun y => some (y, rest)) (by omega)

theorem readDate_dateText {d : Date} (hd : d.Valid) (hrest : NoDigitFirst rest) :
    readDate (dateText d ++ rest) = some (d, rest) := by
  obtain ⟨hmonth, hday, hlast⟩ := hd
  have hdays : d.day < 100 := by
    have : ∀ leap : Bool, ∀ month < 12, Date.monthLength leap month ≤ 31 := by decide
    have := this (Date.isLeap d.year) d.month hmonth
    omega
  have hblank : Text.isBlankChar '-' = false := rfl
  have hdash : ∀ cs, NoDigitFirst ('-' :: cs) := fun _ => noDigitFirst_cons rfl
  simp only [readDate, dateText, List.append_assoc, List.cons_append,
    readYear_yearText d.year (hdash _), Option.bind_eq_bind, Option.bind_some,
    readField_digits hblank (show d.month + 1 < 100 by omega) (hdash _),
    readField_digits hblank hdays hrest]
  exact if_pos ⟨Nat.le_add_left 1 _, hmonth, hday, hlast⟩

theorem readFraction_fractionText {nanos : Nat} (hnanos : nanos < 1000000000) :
    readFraction (fractionText nanos ++ 'Z' :: cs) = some (nanos, 'Z' :: cs) := by
  have hread : ∀ width n : Nat, 0 < width → width ≤ 9 → n < 10 ^ width →
      readFraction ('.' :: paddedDigits width n ++ 'Z' :: cs) =
        some (n * 10 ^ (9 - width), 'Z' :: cs) := by
    intro width n hpos hwidth hn
    have hlength := length_paddedDigits hpos hn
    rw [List.cons_append, readFraction,
      takeWhile_digits (fun _ => isDigit_of_mem_paddedDigits) (noDigitFirst_cons rfl),
      List.take_of_length_le (by omega), List.drop_left]
    simp [paddedDigits_ne_nil, ofDigitChars_paddedDigits, hlength]
  rw [fractionText]
  split
  · next h => rw [h]; rfl
  split
  · rw [hread 3 _ (by decide) (by decide) (by omega)]
    exact congrArg (fun n => some (n, _)) (by omega)
  split
  · rw [hread 6 _ (by decide) (by decide) (by omega)]
    exact congrArg (fun n => some (n, _)) (by omega)
  · rw [hread 9 _ (by decide) (by decide) (by omega)]
    exact congrArg (fun n => some (n, _)) (by omega)

theorem readTime_timeText {ticks : Int} (hpos : 0 ≤ ticks) (hday : ticks < 172800000000000)
    (hleap : 1000000000 ≤ ticks % 2000000000 → ticks / 2000000000 % 60 = 59) :
    readTime (timeText ticks ++ 'Z' :: cs) = some (ticks, 'Z' :: cs) := by
  obtain ⟨n, rfl⟩ := Int.eq_ofNat_of_zero_le hpos
  have hcolon : Text.isBlankChar ':' = false := rfl
  have hdigits : ∀ cs, NoDigitFirst (':' :: cs) := fun _ => noDigitFirst_cons rfl
  have hfraction : NoDigitFirst (fractionText (n % 2000000000 % 1000000000) ++ 'Z' :: cs) := by
    rw [fractionText]
    split
    · exact noDigitFirst_cons rfl
    split
    · exact noDigitFirst_cons rfl
    split <;> exact noDigitFirst_cons rfl
  simp only [readTime, timeText, Int.toNat_natCast, List.append_assoc, List.cons_append,
    skipBlanks_digits,
    readNumber_digits
      (Nat.le_of_eq (length_paddedDigits (by decide)
        (show n / 2000000000 / 3600 < 10 ^ 2 by omega))) (hdigits _),
    Option.bind_eq_bind, Option.bind_some,
    readField_digits hcolon (show n / 2000000000 / 60 % 60 < 100 by omega) (hdigits _),
    readField_digits hcolon
      (show n / 2000000000 % 60 + n % 2000000000 / 1000000000 < 100 by omega) hfraction,
    readFraction_fractionText (show n % 2000000000 % 1000000000 < 1000000000 by omega)]
  by_cases h : n % 2000000000 < 1000000000
  · rw [if_pos (by omega)]
    exact congrArg (fun t => some (t, _)) (by omega)
  · rw [if_neg (by omega), if_pos (by omega)]
    exact congrArg (fun t => some (t, _)) (by omega)

/-- The text of an instant in a record stands for it. -/
theorem ofText?_toRecord (t : Instant) : ofText? t.toRecord = some t := by
  have hpos : 0 ≤ t.timeOfDay := by
    rw [timeOfDay]
    omega
  have hday : t.timeOfDay < 172800000000000 := by
    rw [timeOfDay]
    omega
  have hleap : 1000000000 ≤ t.timeOfDay % 2000000000 → t.timeOfDay / 2000000000 % 60 = 59 := by
    have := t.leap_at
    rw [timeOfDay]
    omega
  have hT : ∀ cs, NoDigitFirst ('T' :: cs) := fun _ => noDigitFirst_cons rfl
  simp only [ofText?, toRecord, String.toList_ofList, List.append_assoc, List.cons_append,
    readDate_dateText t.date_valid (hT _), Option.bind_eq_bind, Option.bind_some,
    readTime_timeText hpos hday hleap, skipBlanks_cons (show Text.isBlankChar 'Z' = false from rfl),
    readZone, ofDate?_date]
  simp [skipBlanks, ofTicks?_eq_some]

end NameRegistry.Instant
