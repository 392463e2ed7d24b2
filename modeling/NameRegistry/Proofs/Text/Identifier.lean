import NameRegistry.Identifier

/-! # Identifiers read back

A UUID is written as 32 hexadecimal digits in groups. Taken apart again, the groups hold the same
digits, and these give the number back. No other notation fits the text, since the hyphens make it
longer.
-/
namespace NameRegistry.Uuid

variable {cs : List Char} {n : Nat}

theorem hexValue?_digitChar {n : Nat} (h : n < 16) : hexValue? (Nat.digitChar n) = some n := by
  have : ∀ n < 16, hexValue? (Nat.digitChar n) = some n := by decide
  exact this n h

theorem length_hexDigits (count n : Nat) : (hexDigits count n).length = count := by
  induction count generalizing n with
  | zero => rfl
  | succ count ih => rw [hexDigits, List.length_append, ih, List.length_singleton]

/-- Digits stand for the number they were taken from, as far as they go. -/
theorem exists_mapM_hexValue? (count n : Nat) : ∃ ds, (hexDigits count n).mapM hexValue? = some ds ∧
    ds.foldl (fun n d => 16 * n + d) 0 = n % 16 ^ count := by
  induction count generalizing n with
  | zero => exact ⟨[], rfl, (Nat.mod_one n).symm⟩
  | succ count ih =>
    obtain ⟨ds, hds, hvalue⟩ := ih (n / 16)
    refine ⟨ds ++ [n % 16], ?_, ?_⟩
    · simp [hexDigits, hds, hexValue?_digitChar (Nat.mod_lt n (by decide : 0 < 16))]
    · rw [List.foldl_append, hvalue, Nat.pow_succ', Nat.mod_mul]
      exact Nat.add_comm _ _

theorem ofDigits?_hexDigits (u : Uuid) : ofDigits? (hexDigits 32 u.bits.toNat) = some u := by
  obtain ⟨ds, hds, hvalue⟩ := exists_mapM_hexValue? 32 u.bits.toNat
  rw [ofDigits?, if_pos (length_hexDigits _ _), hds, Option.map_some, hvalue,
    Nat.mod_eq_of_lt (Nat.lt_of_lt_of_le u.bits.isLt (by decide))]
  exact congrArg (fun bits => some (Uuid.mk bits)) (by simp)

/-- A text of the groups' length in all is one hyphen longer for each group but the last, and falls
apart into them. -/
theorem readGroups_hyphenate {ns : List Nat} (hns : ns ≠ [])
    (hlength : cs.length = ns.foldr (· + ·) 0) :
    readGroups ns (hyphenate ns cs) = some cs ∧
    (hyphenate ns cs).length + 1 = cs.length + ns.length := by
  induction ns generalizing cs with
  | nil => exact absurd rfl hns
  | cons n ns ih =>
    cases ns with
    | nil =>
      have htake : cs.take n = cs := List.take_of_length_le (by simp_all)
      rw [hyphenate, htake, readGroups, if_pos (by simpa using hlength)]
      exact ⟨rfl, rfl⟩
    | cons m ns =>
      rw [List.foldr_cons] at hlength
      have htake : (cs.take n).length = n := List.length_take_of_le (by omega)
      have hdrop : (cs.drop n).length = (m :: ns).foldr (· + ·) 0 := by
        rw [List.length_drop]
        omega
      obtain ⟨hread, hrest⟩ := ih (List.cons_ne_nil m ns) hdrop
      rw [hyphenate, readGroups, List.drop_left' htake, List.take_left' htake]
      · constructor
        · show (readGroups (m :: ns) _).map _ = _
          rw [hread, Option.map_some, List.take_append_drop]
        · simp only [List.length_append, List.length_cons, htake, hdrop, hlength] at hrest ⊢
          omega
      · exact List.cons_ne_nil m ns
      · exact List.cons_ne_nil m ns

theorem length_digits (u : Uuid) : (hexDigits 32 u.bits.toNat).length = groups.foldr (· + ·) 0 :=
  length_hexDigits _ _

theorem readGroups_toChars (u : Uuid) :
    readGroups groups u.toChars = some (hexDigits 32 u.bits.toNat) :=
  (readGroups_hyphenate (by decide) u.length_digits).1

theorem length_toChars (u : Uuid) : u.toChars.length = 36 := by
  have htext := (readGroups_hyphenate (by decide) u.length_digits).2
  rw [length_hexDigits] at htext
  exact Nat.succ.inj htext

/-- The text of a UUID stands for it. -/
theorem ofText?_toText (u : Uuid) : ofText? u.toText = some u := by
  have hdigits : ofDigits? u.toChars = none := if_neg (by rw [length_toChars]; decide)
  have hhyphenated : ofHyphenated? u.toChars = some u := by
    rw [ofHyphenated?, readGroups_toChars, Option.bind_some, ofDigits?_hexDigits]
  rw [ofText?, toText, String.toList_ofList, ofChars?, hdigits, hhyphenated]
  rfl

end NameRegistry.Uuid
