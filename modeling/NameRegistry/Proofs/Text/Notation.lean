import Mathlib.Data.List.Induction
import NameRegistry.Proofs.Text.Identifier

/-! # Which texts are identifiers

A UUID has four notations: its digits alone, its digits with hyphens, and these in braces or as a
URN. A text is accepted if and only if it is one of them in some case of letters. No notation has a
hyphen where the tag of a kind would end, so no accepted text begins like a tagged one. An
identifier is therefore read in only one way, and one kind never reads what another has written.
-/
namespace NameRegistry

namespace Uuid

variable {c : Char} {cs ds : List Char} {u : Uuid} {n : Nat} {ns : List Nat}

theorem ascii_induction {P : Char → Prop} (hascii : ∀ n < 128, P (.ofNat n))
    (hother : ∀ c : Char, 128 ≤ c.toNat → P c) (c : Char) : P c := by
  by_cases hc : c.toNat < 128
  · simpa using hascii c.toNat hc
  · exact hother c (Nat.le_of_not_lt hc)

/-- Other characters are no digits and have no case. -/
theorem not_ascii (hc : 128 ≤ c.toNat) : hexValue? c = none ∧ c.toLower = c := by
  have hle : ∀ x : Char, x.toNat < 128 → ¬c ≤ x :=
    fun x hx h => Nat.not_le.2 (Nat.lt_of_lt_of_le hx hc) (UInt32.le_iff_toNat_le.1 h)
  constructor
  · rw [hexValue?, if_neg fun h => hle '9' (by decide) h.2, if_neg fun h => hle 'f' (by decide) h.2,
      if_neg fun h => hle 'F' (by decide) h.2]
  · exact dif_neg fun h => hle 'Z' (by decide) h.2

theorem toLower_eq_iff {x : Char} (hx : x.isAlpha = false) : c.toLower = x ↔ c = x := by
  have hletter : c.toLower = c ∨ c.isAlpha = true ∧ c.toLower.isAlpha = true := by
    induction c using ascii_induction with
    | hascii n hn =>
      revert n
      decide +kernel
    | hother c hc => exact .inl (not_ascii hc).2
  constructor
  · rintro rfl
    rcases hletter with h | ⟨-, h⟩
    · exact h.symm
    · cases hx.symm.trans h
  · rintro rfl
    rcases hletter with h | ⟨h, -⟩
    · exact h
    · cases hx.symm.trans h

theorem hexValue?_toLower (c : Char) : hexValue? c.toLower = hexValue? c := by
  induction c using ascii_induction with
  | hascii n hn =>
    revert n
    decide +kernel
  | hother c hc => rw [(not_ascii hc).2]

theorem toLower_of_hexValue? (h : hexValue? c = some n) : n < 16 ∧ c.toLower = Nat.digitChar n := by
  induction c using ascii_induction with
  | hascii k hk =>
    have hdigit : ∀ k < 128, ∀ n ∈ hexValue? (.ofNat k),
        n < 16 ∧ (Char.ofNat k).toLower = Nat.digitChar n := by
      decide +kernel
    exact hdigit k hk n h
  | hother c hc =>
    rw [(not_ascii hc).1] at h
    cases h

/-- A digit stands for its number in either case. -/
theorem hexValue?_eq_some_iff : hexValue? c = some n ↔ n < 16 ∧ c.toLower = Nat.digitChar n := by
  refine ⟨toLower_of_hexValue?, ?_⟩
  rintro ⟨hn, hc⟩
  rw [← hexValue?_toLower, hc, hexValue?_digitChar hn]

theorem mapM_hexValue?_eq_some_iff :
    cs.mapM hexValue? = some ns ↔ (∀ n ∈ ns, n < 16) ∧
      cs.map Char.toLower = ns.map Nat.digitChar := by
  induction cs generalizing ns with
  | nil => cases ns <;> simp
  | cons c cs ih =>
    rw [List.mapM_cons]
    simp only [Option.bind_eq_bind, Option.bind_eq_some_iff, ih, hexValue?_eq_some_iff]
    constructor
    · rintro ⟨n, ⟨hn, hc⟩, ns, ⟨hns, hcs⟩, ⟨⟩⟩
      exact ⟨List.forall_mem_cons.2 ⟨hn, hns⟩, by rw [List.map_cons, List.map_cons, hc, hcs]⟩
    · rintro ⟨hns, hmap⟩
      cases ns with
      | nil => cases hmap
      | cons n ns =>
        obtain ⟨hn, hns⟩ := List.forall_mem_cons.1 hns
        obtain ⟨hc, hcs⟩ := List.cons.inj hmap
        exact ⟨n, ⟨hn, hc⟩, ns, ⟨hns, hcs⟩, rfl⟩

/-- The number that digits stand for is no longer than they are, and has these digits. -/
theorem hexDigits_foldl (hns : ∀ n ∈ ns, n < 16) :
    ns.foldl (fun m n => 16 * m + n) 0 < 16 ^ ns.length ∧
    hexDigits ns.length (ns.foldl (fun m n => 16 * m + n) 0) = ns.map Nat.digitChar := by
  induction ns using List.reverseRecOn with
  | nil => exact ⟨Nat.one_pos, rfl⟩
  | append_singleton ns n ih =>
    have hn : n < 16 := hns n (by simp)
    obtain ⟨hlt, hdigits⟩ := ih fun k hk => hns k (by simp [hk])
    rw [List.foldl_append, List.length_append, List.length_singleton, List.map_append,
      ← hdigits, hexDigits, List.foldl_cons, List.foldl_nil, List.map_singleton, Nat.pow_succ]
    generalize ns.foldl (fun m n => 16 * m + n) 0 = m at hlt ⊢
    have hquotient : (16 * m + n) / 16 = m := by omega
    have hrest : (16 * m + n) % 16 = n := by omega
    rw [hquotient, hrest]
    exact ⟨by omega, rfl⟩

theorem toLower_hexDigits (count n : Nat) :
    (hexDigits count n).map Char.toLower = hexDigits count n := by
  induction count generalizing n with
  | zero => rfl
  | succ count ih =>
    have hdigit : ∀ d < 16, (Nat.digitChar d).toLower = Nat.digitChar d := by decide
    rw [hexDigits, List.map_append, ih, List.map_singleton, hdigit _ (Nat.mod_lt n (by decide))]

theorem ofDigits?_eq_some_iff :
    ofDigits? cs = some u ↔ cs.map Char.toLower = hexDigits 32 u.bits.toNat := by
  constructor
  · intro h
    rw [ofDigits?] at h
    split at h
    · next hlength =>
      obtain ⟨ns, hns, rfl⟩ := Option.map_eq_some_iff.1 h
      obtain ⟨hlt, hmap⟩ := mapM_hexValue?_eq_some_iff.1 hns
      have hcount : ns.length = 32 := by simpa [hlength] using (congrArg List.length hmap).symm
      obtain ⟨hbound, hdigits⟩ := hexDigits_foldl hlt
      rw [hcount] at hbound hdigits
      have hbits : (ofNat (ns.foldl (fun m n => 16 * m + n) 0)).bits.toNat =
          ns.foldl (fun m n => 16 * m + n) 0 :=
        Nat.mod_eq_of_lt hbound
      rw [hmap, hbits, hdigits]
    · cases h
  · intro h
    have hlength : cs.length = 32 := by simpa [length_hexDigits] using congrArg List.length h
    have hvalues : cs.mapM hexValue? = (hexDigits 32 u.bits.toNat).mapM hexValue? := by
      apply Option.ext
      intro ns
      rw [mapM_hexValue?_eq_some_iff, mapM_hexValue?_eq_some_iff, h, toLower_hexDigits]
    rw [← ofDigits?_hexDigits u, ofDigits?, ofDigits?, hvalues, hlength, length_hexDigits]

theorem readGroups_cons (n m : Nat) (ns : List Nat) (cs : List Char) :
    readGroups (n :: m :: ns) cs =
    match cs.drop n with
    | '-' :: r => (readGroups (m :: ns) r).map (cs.take n ++ ·)
    | _ => none := rfl

/-- The case of letters is no matter of the groups. -/
theorem readGroups_toLower (ns : List Nat) (cs : List Char) :
    readGroups ns (cs.map Char.toLower) = (readGroups ns cs).map (·.map Char.toLower) := by
  induction ns generalizing cs with
  | nil => cases cs <;> simp [readGroups]
  | cons n ns ih =>
    cases ns with
    | nil =>
      rw [readGroups, readGroups, List.length_map]
      split <;> rfl
    | cons m ns =>
      rw [readGroups_cons, readGroups_cons, ← List.map_drop]
      cases cs.drop n with
      | nil => rfl
      | cons c r =>
        have hhyphen : c.toLower = '-' ↔ c = '-' := toLower_eq_iff rfl
        by_cases hc : c = '-'
        · subst hc
          simp [ih, Function.comp_def]
        · simp [hhyphen, hc]

/-- Groups are read from the text that they are written as, and from no other. -/
theorem readGroups_eq_some_iff (hns : ns ≠ []) :
    readGroups ns cs = some ds ↔ ds.length = ns.foldr (· + ·) 0 ∧ cs = hyphenate ns ds := by
  constructor
  · induction ns generalizing cs ds with
    | nil => exact absurd rfl hns
    | cons n ns ih =>
      cases ns with
      | nil =>
        intro h
        rw [readGroups] at h
        split at h
        · next hlength =>
          cases h
          exact ⟨by simpa using hlength, (List.take_of_length_le (Nat.le_of_eq hlength)).symm⟩
        · cases h
      | cons m ns =>
        intro h
        rw [readGroups_cons] at h
        split at h
        · next r hdrop =>
          obtain ⟨ds, hds, rfl⟩ := Option.map_eq_some_iff.1 h
          obtain ⟨hlength, rfl⟩ := ih (List.cons_ne_nil m ns) hds
          have htake : (cs.take n).length = n := by
            have hrest := congrArg List.length hdrop
            rw [List.length_drop, List.length_cons] at hrest
            exact List.length_take_of_le (by omega)
          refine ⟨?_, ?_⟩
          · rw [List.length_append, htake, hlength]
            rfl
          · rw [hyphenate, List.take_left' htake, List.drop_left' htake, ← hdrop,
              List.take_append_drop]
            exact List.cons_ne_nil m ns
        · cases h
  · rintro ⟨hlength, rfl⟩
    exact (readGroups_hyphenate hns hlength).1

theorem ofHyphenated?_eq_some_iff :
    ofHyphenated? cs = some u ↔ cs.map Char.toLower = u.toChars := by
  calc ofHyphenated? cs = some u
      ↔ (readGroups groups cs).map (·.map Char.toLower) = some (hexDigits 32 u.bits.toNat) := by
        rw [ofHyphenated?, Option.bind_eq_some_iff, Option.map_eq_some_iff]
        simp only [ofDigits?_eq_some_iff]
    _ ↔ readGroups groups (cs.map Char.toLower) = some (hexDigits 32 u.bits.toNat) := by
      rw [readGroups_toLower]
    _ ↔ cs.map Char.toLower = u.toChars := by
        rw [readGroups_eq_some_iff (by decide), and_iff_right u.length_digits, toChars]

theorem toLower_toChars (u : Uuid) : u.toChars.map Char.toLower = u.toChars := by
  apply ofHyphenated?_eq_some_iff.1
  rw [ofHyphenated?, readGroups_toChars, Option.bind_some, ofDigits?_hexDigits]

def scheme : List Char := ['u', 'r', 'n', ':', 'u', 'u', 'i', 'd', ':']

/-- The ways to write a UUID in lower case. -/
def notations (u : Uuid) : List (List Char) :=
  [hexDigits 32 u.bits.toNat, u.toChars, '{' :: (u.toChars ++ ['}']), scheme ++ u.toChars]

/-- The text is a notation of the UUID, in some case of letters. -/
def WrittenAs (u : Uuid) (cs : List Char) : Prop := cs.map Char.toLower ∈ u.notations

instance (u : Uuid) (cs : List Char) : Decidable (u.WrittenAs cs) :=
  inferInstanceAs (Decidable (_ ∈ _))

theorem unbrace?_eq_some_iff : unbrace? cs = some ds ↔ cs = '{' :: (ds ++ ['}']) := by
  constructor
  · intro h
    rw [unbrace?.eq_def] at h
    split at h
    · split at h
      · next r hlast =>
        obtain ⟨front, rfl⟩ := List.getLast?_eq_some_iff.1 hlast
        cases h
        rw [List.dropLast_concat]
      · cases h
    · cases h
  · rintro rfl
    simp [unbrace?]

theorem braced_eq_some_iff :
    (unbrace? cs).bind ofHyphenated? = some u ↔
    cs.map Char.toLower = '{' :: (u.toChars ++ ['}']) := by
  rw [Option.bind_eq_some_iff]
  constructor
  · rintro ⟨ds, hds, h⟩
    rw [unbrace?_eq_some_iff.1 hds, List.map_cons, List.map_append, ofHyphenated?_eq_some_iff.1 h]
    rfl
  · intro h
    obtain ⟨c, rest, rfl, hc, hrest⟩ := List.map_eq_cons_iff.1 h
    obtain ⟨ds, last, rfl, hds, hlast⟩ := List.map_eq_append_iff.1 hrest
    obtain ⟨c', rfl, hc'⟩ := List.map_eq_singleton_iff.1 hlast
    rw [toLower_eq_iff rfl] at hc hc'
    subst hc hc'
    exact ⟨ds, unbrace?_eq_some_iff.2 rfl, ofHyphenated?_eq_some_iff.2 hds⟩

theorem afterScheme?_eq_some_iff :
    afterScheme? cs = some ds ↔ (cs.take 9).map Char.toLower = scheme ∧ cs.drop 9 = ds :=
  Option.ite_none_right_eq_some.trans (and_congr_right fun _ => Option.some_inj)

theorem urn_eq_some_iff :
    (afterScheme? cs).bind ofHyphenated? = some u ↔ cs.map Char.toLower = scheme ++ u.toChars := by
  rw [Option.bind_eq_some_iff]
  constructor
  · rintro ⟨ds, hds, h⟩
    obtain ⟨hscheme, rfl⟩ := afterScheme?_eq_some_iff.1 hds
    rw [← hscheme, ← ofHyphenated?_eq_some_iff.1 h, ← List.map_append, List.take_append_drop]
  · intro h
    refine ⟨cs.drop 9, afterScheme?_eq_some_iff.2 ⟨?_, rfl⟩, ofHyphenated?_eq_some_iff.2 ?_⟩
    · rw [List.map_take, h]
      exact List.take_left' rfl
    · rw [List.map_drop, h]
      exact List.drop_left' rfl

/-- The texts that are accepted are the notations. As these differ in length, none is taken for
another. -/
theorem ofChars?_eq_some_iff : ofChars? cs = some u ↔ u.WrittenAs cs := by
  rw [ofChars?, WrittenAs, notations]
  simp only [Option.or_eq_some_iff, ofDigits?_eq_some_iff, ofHyphenated?_eq_some_iff,
    braced_eq_some_iff, urn_eq_some_iff, List.mem_cons, List.not_mem_nil, or_false]
  constructor
  · rintro (h | ⟨-, h | ⟨-, h | ⟨-, h⟩⟩⟩)
    · exact .inl h
    · exact .inr (.inl h)
    · exact .inr (.inr (.inl h))
    · exact .inr (.inr (.inr h))
  · -- a notation is read only if those that are tried before it fail
    have hdigits : cs.length ≠ 32 → ofDigits? cs = none := fun h => if_neg h
    have hhyphenated : cs.length ≠ 36 → ofHyphenated? cs = none := by
      intro hne
      refine Option.eq_none_iff_forall_ne_some.2 fun v hv => hne ?_
      simpa [length_toChars] using congrArg List.length (ofHyphenated?_eq_some_iff.1 hv)
    have hbraced : cs.length ≠ 38 → (unbrace? cs).bind ofHyphenated? = none := by
      intro hne
      refine Option.eq_none_iff_forall_ne_some.2 fun v hv => hne ?_
      simpa [length_toChars] using congrArg List.length (braced_eq_some_iff.1 hv)
    rintro (h | h | h | h)
    · exact .inl h
    · have hlength : cs.length = 36 := by simpa [length_toChars] using congrArg List.length h
      exact .inr ⟨hdigits (by omega), .inl h⟩
    · have hlength : cs.length = 38 := by simpa [length_toChars] using congrArg List.length h
      exact .inr ⟨hdigits (by omega), .inr ⟨hhyphenated (by omega), .inl h⟩⟩
    · have hlength : cs.length = 45 := by
        simpa [length_toChars, scheme] using congrArg List.length h
      exact .inr ⟨hdigits (by omega), .inr ⟨hhyphenated (by omega), .inr ⟨hbraced (by omega), h⟩⟩⟩

theorem writtenAs_toChars (u : Uuid) : u.WrittenAs u.toChars := by
  rw [WrittenAs, toLower_toChars]
  exact List.mem_cons_of_mem _ List.mem_cons_self

theorem ne_hyphen_of_mem_hexDigits {count : Nat} (h : c ∈ hexDigits count n) : c ≠ '-' := by
  induction count generalizing n with
  | zero => cases h
  | succ count ih =>
    rw [hexDigits] at h
    rcases List.mem_append.1 h with h | h
    · exact ih h
    · have hdigit : ∀ d < 16, Nat.digitChar d ≠ '-' := by decide
      rw [List.mem_singleton.1 h]
      exact hdigit _ (Nat.mod_lt n (by decide))

/-- The first hyphen comes after eight digits. -/
theorem toChars_ne_hyphen (hn : n < 8) : u.toChars[n]? ≠ some '-' := by
  have hfirst : u.toChars[n]? = ((hexDigits 32 u.bits.toNat).take 8)[n]? := by
    apply List.getElem?_append_left
    simpa [length_hexDigits] using hn
  intro h
  rw [hfirst] at h
  exact ne_hyphen_of_mem_hexDigits (List.mem_of_mem_take (List.mem_of_getElem? h)) rfl

/-- No notation has a hyphen after two or three characters. -/
theorem notations_ne_hyphen (hcs : cs ∈ u.notations) (hn : n = 2 ∨ n = 3) : cs[n]? ≠ some '-' := by
  simp only [notations, List.mem_cons, List.not_mem_nil, or_false] at hcs
  rcases hcs with hcs | hcs | hcs | hcs <;> rw [hcs]
  · intro h
    have hmem : '-' ∈ hexDigits 32 u.bits.toNat := List.mem_of_getElem? h
    exact ne_hyphen_of_mem_hexDigits hmem rfl
  · exact toChars_ne_hyphen (by omega)
  · -- the brace moves the digits by one, still short of the first hyphen
    have hinside : ∀ k < 36, ('{' :: (u.toChars ++ ['}']))[k + 1]? = u.toChars[k]? := by
      intro k hk
      rw [List.getElem?_cons_succ, List.getElem?_append_left (by rwa [length_toChars])]
    rcases hn with rfl | rfl
    · rw [hinside 1 (by decide)]
      exact toChars_ne_hyphen (by decide)
    · rw [hinside 2 (by decide)]
      exact toChars_ne_hyphen (by decide)
  · rcases hn with rfl | rfl <;> simp [scheme]

/-- What is tagged is no notation, though a tag may begin with hexadecimal digits. -/
theorem not_writtenAs_tagged (kind : IdKind) (rest : List Char) :
    ¬u.WrittenAs (kind.tag ++ '-' :: rest) := by
  intro h
  have hlength : kind.tag.length = 2 ∨ kind.tag.length = 3 := by cases kind <;> simp [IdKind.tag]
  apply notations_ne_hyphen h hlength
  cases kind <;> rfl

theorem after?_eq_some_iff {start rest : List Char} :
    after? start cs = some rest ↔ cs = start ++ rest := by
  induction start generalizing cs with
  | nil => simp [after?]
  | cons a start ih =>
    cases cs with
    | nil => simp [after?]
    | cons c cs =>
      rw [after?]
      split
      · next h => simp [ih, h]
      · next h => simp [Ne.symm h]

end Uuid

namespace IdKind

variable {kind other : IdKind} {cs text rest : List Char}

/-- The text without the tag of the kind and its hyphen, if it begins with these. -/
def Untagged (kind : IdKind) (cs text : List Char) : Prop :=
  cs = kind.tag ++ '-' :: text ∨ text = cs ∧ ¬kind.tag ++ ['-'] <+: cs

theorem untagged_iff :
    kind.Untagged cs text ↔ text = (Uuid.after? (kind.tag ++ ['-']) cs).getD cs := by
  have htag : kind.tag ++ '-' :: text = kind.tag ++ ['-'] ++ text := by simp
  rw [Untagged, htag]
  cases hafter : Uuid.after? (kind.tag ++ ['-']) cs with
  | none =>
    have hnot : ¬kind.tag ++ ['-'] <+: cs := by
      rintro ⟨rest, rfl⟩
      rw [Uuid.after?_eq_some_iff.2 rfl] at hafter
      cases hafter
    constructor
    · rintro (rfl | ⟨rfl, -⟩)
      · exact absurd (List.prefix_append _ _) hnot
      · rfl
    · rintro rfl
      exact .inr ⟨rfl, hnot⟩
  | some rest =>
    rw [Uuid.after?_eq_some_iff.1 hafter, List.append_cancel_left_eq, Option.getD_some, eq_comm]
    exact or_iff_left fun h => h.2 (List.prefix_append _ _)

/-- A text begins with the tag of one kind only. -/
theorem eq_of_tagged (h : kind.tag ++ '-' :: text = other.tag ++ '-' :: rest) : kind = other := by
  cases kind <;> cases other <;> simp [tag] at h ⊢

end IdKind

namespace Id

variable {kind other : IdKind} {id : Id kind} {s : String}

/-- An identifier is read from the notations of its UUID, and from these after the tag of its
kind. -/
theorem ofText?_eq_some_iff :
    ofText? s = some id ↔ ∃ text, kind.Untagged s.toList text ∧ id.uuid.WrittenAs text := by
  simp only [ofText?, Option.map_eq_some_iff, Uuid.ofChars?_eq_some_iff, IdKind.untagged_iff,
    exists_eq_left]
  constructor
  · rintro ⟨u, hu, rfl⟩
    exact hu
  · exact fun h => ⟨id.uuid, h, rfl⟩

/-- Without a tag the notations are read by every kind. -/
theorem ofText?_of_writtenAs {u : Uuid} (h : u.WrittenAs s.toList) :
    ofText? s = some (⟨u⟩ : Id kind) := by
  refine ofText?_eq_some_iff.2 ⟨s.toList, .inr ⟨rfl, ?_⟩, h⟩
  rintro ⟨rest, hrest⟩
  rw [← hrest, List.append_assoc, List.singleton_append] at h
  exact Uuid.not_writtenAs_tagged kind rest h

theorem ofText?_toText (id : Id kind) : ofText? id.toText = some id := by
  refine ofText?_eq_some_iff.2 ⟨id.uuid.toChars, .inl ?_, id.uuid.writtenAs_toChars⟩
  rw [toText, String.toList_ofList]

/-- No kind reads what bears the tag of another. -/
theorem ofText?_of_other_tag (hother : other ≠ kind) (hs : other.tag ++ ['-'] <+: s.toList) :
    (ofText? s : Option (Id kind)) = none := by
  obtain ⟨rest, hrest⟩ := hs
  rw [List.append_assoc, List.singleton_append] at hrest
  refine Option.eq_none_iff_forall_ne_some.2 fun id hid => ?_
  obtain ⟨text, htagged | ⟨rfl, -⟩, hwritten⟩ := ofText?_eq_some_iff.1 hid
  · exact hother (IdKind.eq_of_tagged (hrest.trans htagged))
  · rw [← hrest] at hwritten
    exact Uuid.not_writtenAs_tagged other rest hwritten

/-- One tag is left out, not two. -/
theorem ofText?_of_two_tags (hs : kind.tag ++ '-' :: (other.tag ++ ['-']) <+: s.toList) :
    (ofText? s : Option (Id kind)) = none := by
  obtain ⟨rest, hrest⟩ := hs
  have htags : s.toList = kind.tag ++ '-' :: (other.tag ++ '-' :: rest) := by
    rw [← hrest]
    simp
  refine Option.eq_none_iff_forall_ne_some.2 fun id hid => ?_
  obtain ⟨text, htagged | ⟨rfl, -⟩, hwritten⟩ := ofText?_eq_some_iff.1 hid
  · rw [htags] at htagged
    obtain rfl := (List.cons.inj (List.append_cancel_left htagged)).2
    exact Uuid.not_writtenAs_tagged other rest hwritten
  · rw [htags] at hwritten
    exact Uuid.not_writtenAs_tagged kind _ hwritten

/-- Identifiers are written with the tag of their kind before their UUID in lower case, and read
from that and from the bare UUID. Whatever is read is a notation of the UUID, after at most one tag
of the kind, and the tag of no other kind. So what one kind writes is refused by the others, and no
two identifiers are written alike. -/
theorem read_unambiguously (kind : IdKind) :
    (∀ id : Id kind, id.toText.toList = kind.tag ++ '-' :: id.uuid.toText.toList ∧
      id.uuid.toText.toList.map Char.toLower = id.uuid.toText.toList ∧
      ofText? id.toText = some id ∧ ofText? id.uuid.toText = some id) ∧
    (∀ (s : String) (u : Uuid), Uuid.ofText? s = some u ↔ u.WrittenAs s.toList) ∧
    (∀ (s : String) (id : Id kind), ofText? s = some id ↔
      ∃ text, kind.Untagged s.toList text ∧ id.uuid.WrittenAs text) ∧
    (∀ (s : String) (u : Uuid), Uuid.ofText? s = some u → ofText? s = some (⟨u⟩ : Id kind)) ∧
    (∀ other, other ≠ kind → ∀ id : Id other, (ofText? id.toText : Option (Id kind)) = none) ∧
    (∀ (s : String) (other : IdKind), kind.tag ++ '-' :: (other.tag ++ ['-']) <+: s.toList →
      (ofText? s : Option (Id kind)) = none) ∧
    ∀ (other : IdKind) (id : Id kind) (id' : Id other), id.toText = id'.toText →
      other = kind ∧ id'.uuid = id.uuid := by
  have htext : ∀ {kind : IdKind} (id : Id kind),
      id.toText.toList = kind.tag ++ '-' :: id.uuid.toText.toList := by
    intro kind id
    rw [toText, Uuid.toText, String.toList_ofList, String.toList_ofList]
  have huuid : ∀ u : Uuid, u.toText.toList = u.toChars := fun u => String.toList_ofList
  refine ⟨fun id => ⟨htext id, ?lower, ofText?_toText id, ?bare⟩,
    fun s u => Uuid.ofChars?_eq_some_iff,
    fun s id => ofText?_eq_some_iff,
      fun s u h => ofText?_of_writtenAs (Uuid.ofChars?_eq_some_iff.1 h),
    fun other hother id => ofText?_of_other_tag hother ?_, fun s other hs => ofText?_of_two_tags hs,
    fun other id id' hsame => ?same⟩
  case lower => rw [huuid, Uuid.toLower_toChars]
  case bare =>
    apply ofText?_of_writtenAs
    rw [huuid]
    exact id.uuid.writtenAs_toChars
  case same =>
    obtain rfl : other = kind :=
      IdKind.eq_of_tagged ((htext id').symm.trans ((congrArg _ hsame.symm).trans (htext id)))
    have hread := ofText?_toText id
    rw [hsame, ofText?_toText] at hread
    cases hread
    exact ⟨rfl, rfl⟩
  · exact ⟨id.uuid.toText.toList, by simp [htext]⟩

namespace Sample

/-- Its digits begin like the tag of a billing event. -/
def billed : BillingEventId := ⟨.ofNat 0xbe000000000040008000000000000001⟩

end Sample

/-- The bare UUID is read though it begins like the tag, and in braces and upper case after the tag.
The identifier is not read as that of a grace period, nor after two tags. -/
theorem read_unambiguously_sample :
    ofText? "be000000-0000-4000-8000-000000000001" = some Sample.billed ∧
    ofText? "BE-{BE000000-0000-4000-8000-000000000001}" = some Sample.billed ∧
    ofText? "BE-be000000-0000-4000-8000-000000000001" = some Sample.billed ∧
    (ofText? Sample.billed.toText : Option GracePeriodId) = none ∧
    (ofText? "BE-BE-be000000-0000-4000-8000-000000000001" : Option BillingEventId) = none ∧
    ∀ id : BillingEventId, id.toText = Sample.billed.toText → Sample.billed.uuid = id.uuid := by
  obtain ⟨hwritten, haccepted, htagged, hbare, -, htwo, hsame⟩ := read_unambiguously .billingEvent
  obtain ⟨-, -, -, -, hother, -⟩ := read_unambiguously .gracePeriod
  have hdigits : Sample.billed.uuid.WrittenAs "be000000-0000-4000-8000-000000000001".toList := by
    decide +kernel
  have hbraced : Sample.billed.uuid.WrittenAs "{BE000000-0000-4000-8000-000000000001}".toList := by
    decide +kernel
  have htext : Sample.billed.toText = "BE-be000000-0000-4000-8000-000000000001" := by decide +kernel
  refine ⟨hbare _ _ ((haccepted _ _).2 hdigits), (htagged _ _).2 ⟨_, .inl ?_, hbraced⟩, ?_,
    hother .billingEvent (by decide) Sample.billed, htwo _ .billingEvent (by decide +kernel),
    fun id hid => (hsame _ _ _ hid).2⟩
  · decide +kernel
  · rw [← htext]
    exact (hwritten _).2.2.1

end Id
end NameRegistry
