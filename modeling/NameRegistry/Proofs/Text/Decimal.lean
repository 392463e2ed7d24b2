import Mathlib.Data.List.TakeWhile
import NameRegistry.Decimal.Text

/-! # Decimals read back

A number is written in digits, with zeros in front where a width is asked for. Read again they give
the number back. So does the text of a decimal: it has the digits of the mantissa and the places of
the scale, and both fit while they are read. Only the sign of a zero is lost.
-/
namespace NameRegistry.Decimal

section

variable {width n : Nat} {c : Char} {ds : List Char}

theorem isDigit_of_mem_paddedDigits (h : c ∈ paddedDigits width n) : c.isDigit = true := by
  rcases List.mem_append.1 h with h | h
  · rw [List.eq_of_mem_replicate h]
    rfl
  · exact Nat.isDigit_of_mem_toDigits (by decide) (by decide) h

theorem paddedDigits_ne_nil (width n : Nat) : paddedDigits width n ≠ [] := by
  simp [paddedDigits]

/-- A number that the width suffices for has exactly as many digits. -/
theorem length_paddedDigits (hwidth : 0 < width) (hn : n < 10 ^ width) :
    (paddedDigits width n).length = width := by
  have hlength := (Nat.length_toDigits_le_iff (by decide) hwidth).2 hn
  simp only [paddedDigits, List.length_append, List.length_replicate]
  omega

theorem ofDigitChars_paddedDigits : Nat.ofDigitChars 10 (paddedDigits width n) 0 = n := by
  simp only [paddedDigits, Nat.ofDigitChars_append, Nat.ofDigitChars_replicate_zero, Nat.mul_zero,
    Nat.ofDigitChars_ten_toDigits]

theorem digit?_of_isDigit (h : c.isDigit = true) : digit? c = some (c.toNat - '0'.toNat) := if_pos h

theorem ne_of_isDigit {d : Char} (h : c.isDigit = true) (hd : d.isDigit = false) : c ≠ d := by
  rintro rfl
  rw [h] at hd
  cases hd

/-- Further digits never make a number smaller. -/
theorem le_ofDigitChars (m : Nat) (ds : List Char) : m ≤ Nat.ofDigitChars 10 ds m := by
  rw [Nat.ofDigitChars_eq_ofDigitChars_zero]
  exact Nat.le_trans (Nat.le_mul_of_pos_left m (Nat.pow_pos (by decide))) (Nat.le_add_right _ _)

end

section

variable {p : Partial} {ds rest : List Char}

theorem readDigits_digit {c : Char} {point : Bool} (hc : c.isDigit = true) :
    readDigits point p (c :: rest) =
      let m := p.mantissa * 10 + (c.toNat - '0'.toNat)
      if point then
        if p.places < 28 ∧ m < 2 ^ 96 then readDigits point ⟨m, p.places + 1, true⟩ rest
        else p.roundOff (c.toNat - '0'.toNat) rest
      else if m < 2 ^ 96 then readDigits point ⟨m, p.places, true⟩ rest
      else none := by
  rw [readDigits, digit?_of_isDigit hc]
  · exact ne_of_isDigit hc rfl
  · exact ne_of_isDigit hc rfl

/-- Whole digits are taken one by one while they fit. -/
theorem readDigits_whole (hds : ∀ c ∈ ds, c.isDigit = true)
    (hfits : Nat.ofDigitChars 10 ds p.mantissa < 2 ^ 96) :
    readDigits false p (ds ++ rest) =
      readDigits false ⟨Nat.ofDigitChars 10 ds p.mantissa, p.places,
        p.started || !ds.isEmpty⟩ rest := by
  induction ds generalizing p with
  | nil => simp
  | cons c ds ih =>
    rw [Nat.ofDigitChars_cons, Nat.mul_comm] at hfits
    have hm := Nat.lt_of_le_of_lt (le_ofDigitChars _ ds) hfits
    rw [List.cons_append, readDigits_digit (hds c List.mem_cons_self),
      if_neg Bool.false_ne_true, if_pos hm,
      ih (fun d hd => hds d (List.mem_cons_of_mem c hd)) hfits, Nat.ofDigitChars_cons, Nat.mul_comm]
    simp

/-- Digits after the point are places, while these fit too. -/
theorem readDigits_fraction (hds : ∀ c ∈ ds, c.isDigit = true) (hstarted : p.started = true)
    (hfits : Nat.ofDigitChars 10 ds p.mantissa < 2 ^ 96) (hplaces : p.places + ds.length ≤ 28) :
    readDigits true p ds = some (Nat.ofDigitChars 10 ds p.mantissa, p.places + ds.length) := by
  induction ds generalizing p with
  | nil => simp [readDigits, hstarted]
  | cons c ds ih =>
    rw [Nat.ofDigitChars_cons, Nat.mul_comm] at hfits
    have hm := Nat.lt_of_le_of_lt (le_ofDigitChars _ ds) hfits
    rw [List.length_cons] at hplaces
    rw [readDigits_digit (hds c List.mem_cons_self), if_pos rfl, if_pos ⟨by omega, hm⟩,
      ih (fun d hd => hds d (List.mem_cons_of_mem c hd)) rfl hfits (by simp only; omega),
      Nat.ofDigitChars_cons, Nat.mul_comm, List.length_cons, Nat.add_right_comm, Nat.add_assoc]

end

variable (d : Decimal)

theorem isDigit_of_mem_wholeDigits {d : Decimal} {c : Char} (h : c ∈ d.wholeDigits) :
    c.isDigit = true :=
  Nat.isDigit_of_mem_toDigits (by decide) (by decide) h

theorem isDigit_of_mem_fractionDigits {d : Decimal} {c : Char} (h : c ∈ d.fractionDigits) :
    c.isDigit = true := by
  rw [fractionDigits] at h
  split at h
  · cases h
  · exact isDigit_of_mem_paddedDigits h

theorem length_fractionDigits : d.fractionDigits.length = d.scale := by
  rw [fractionDigits]
  split
  · next h => rw [h, List.length_nil]
  · next h => exact length_paddedDigits (by omega) (Nat.mod_lt _ (Nat.pow_pos (by decide)))

theorem ofDigitChars_wholeDigits :
    Nat.ofDigitChars 10 d.wholeDigits 0 = d.mantissa / 10 ^ d.scale :=
  Nat.ofDigitChars_ten_toDigits

/-- The digits before and after the point are those of the mantissa. -/
theorem ofDigitChars_fractionDigits :
    Nat.ofDigitChars 10 d.fractionDigits (d.mantissa / 10 ^ d.scale) = d.mantissa := by
  rw [Nat.ofDigitChars_eq_ofDigitChars_zero, length_fractionDigits, fractionDigits]
  split
  · next h => simp [h]
  · rw [ofDigitChars_paddedDigits, Nat.div_add_mod]

theorem readDigits_joinPoint :
    readDigits false ⟨0, 0, false⟩ (joinPoint d.wholeDigits d.fractionDigits) =
      some (d.mantissa, d.scale) := by
  have hwhole : Nat.ofDigitChars 10 d.wholeDigits 0 < 2 ^ 96 := by
    rw [ofDigitChars_wholeDigits]
    exact Nat.lt_of_le_of_lt (Nat.div_le_self _ _) d.mantissa_lt
  have hstarted : (!d.wholeDigits.isEmpty) = true := by simp [wholeDigits]
  have hlength := d.length_fractionDigits
  have hmantissa := d.ofDigitChars_fractionDigits
  rw [joinPoint]
  split
  · next hnil =>
    rw [List.isEmpty_iff] at hnil
    rw [hnil, List.length_nil] at hlength
    have hwholeMantissa : d.mantissa / 10 ^ 0 = d.mantissa := Nat.div_one _
    rw [← d.wholeDigits.append_nil, readDigits_whole (fun _ => isDigit_of_mem_wholeDigits) hwhole,
      readDigits, ofDigitChars_wholeDigits]
    simp only [Bool.false_or, hstarted, if_true, ← hlength]
    exact congrArg (fun m => some (m, 0)) hwholeMantissa
  · rw [readDigits_whole (fun _ => isDigit_of_mem_wholeDigits) hwhole, readDigits,
      if_neg Bool.false_ne_true, readDigits_fraction (fun _ => isDigit_of_mem_fractionDigits)]
    · simp only [ofDigitChars_wholeDigits, hmantissa, hlength, Nat.zero_add]
    · simp only [hstarted, Bool.or_true]
    · simp only [ofDigitChars_wholeDigits, hmantissa]
      exact d.mantissa_lt
    · simp only [hlength, Nat.zero_add]
      exact d.scale_le

/-- The decimal without the sign of a zero. -/
def unsignedZero : Decimal := { d with negative := d.negative && d.mantissa ≠ 0 }

theorem same_unsignedZero : d.unsignedZero.Same d := by
  rw [Same, unsignedZero, units, units]
  by_cases h : d.mantissa = 0 <;> simp [h]

theorem readSign_text : readSign (d.signText ++ joinPoint d.wholeDigits d.fractionDigits) =
    (d.negative, joinPoint d.wholeDigits d.fractionDigits) := by
  cases hsign : d.negative with
  | true => simp [signText, hsign, readSign]
  | false =>
    obtain ⟨c, r, hcr⟩ : ∃ c r, joinPoint d.wholeDigits d.fractionDigits = c :: r ∧
        c.isDigit = true := by
      obtain ⟨c, r, hcr⟩ :=
        List.exists_cons_of_ne_nil (show d.wholeDigits ≠ [] from Nat.toDigits_ne_nil)
      have hc := isDigit_of_mem_wholeDigits (hcr ▸ List.mem_cons_self : c ∈ d.wholeDigits)
      rw [joinPoint, hcr]
      split
      · exact ⟨c, r, rfl, hc⟩
      · exact ⟨c, _, rfl, hc⟩
    rw [signText, hsign, if_neg Bool.false_ne_true, List.nil_append, hcr.1, readSign]
    · exact fun _ h => ne_of_isDigit hcr.2 rfl (List.cons.inj h).1
    · exact fun _ h => ne_of_isDigit hcr.2 rfl (List.cons.inj h).1

theorem isDigit_of_mem_text {d : Decimal} {c : Char}
    (h : c ∈ d.signText ++ joinPoint d.wholeDigits d.fractionDigits) :
    c.isDigit = true ∨ c = '-' ∨ c = '.' := by
  rcases List.mem_append.1 h with h | h
  · rw [signText] at h
    split at h
    · exact .inr (.inl (List.mem_singleton.1 h))
    · cases h
  · rw [joinPoint] at h
    split at h
    · exact .inl (isDigit_of_mem_wholeDigits h)
    · rcases List.mem_append.1 h with h | h
      · exact .inl (isDigit_of_mem_wholeDigits h)
      · rcases List.mem_cons.1 h with h | h
        · exact .inr (.inr h)
        · exact .inl (isDigit_of_mem_fractionDigits h)

/-- The text of a decimal stands for it, but that a zero loses its sign. -/
theorem ofText?_toText : ofText? d.toText = some d.unsignedZero := by
  have hpower : (d.signText ++ joinPoint d.wholeDigits d.fractionDigits).takeWhile
      (fun c => c ≠ 'e' && c ≠ 'E') = d.signText ++ joinPoint d.wholeDigits d.fractionDigits := by
    rw [List.takeWhile_eq_self_iff]
    intro c hc
    rcases isDigit_of_mem_text hc with h | rfl | rfl
    · simp [ne_of_isDigit h (d := 'e') rfl, ne_of_isDigit h (d := 'E') rfl]
    · rfl
    · rfl
  simp only [ofText?, toText, String.toList_ofList, hpower, List.drop_length, readPlain,
    readSign_text, readDigits_joinPoint, Option.bind_some]
  exact ofParts?_eq_some d.mantissa_lt d.scale_le

end NameRegistry.Decimal
