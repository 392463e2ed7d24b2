/-! # Identifiers

Ledger and history records are named by UUIDs. Each kind of record shows its identifiers under a
tag of its own; when one is read the tag may be left out, but not be another kind's. A UUID is
accepted hyphenated, in braces, as a URN or as bare digits, in either case of letters.

Registrars, repository objects and top-level domains are named by codes that the registry hands out.
-/
namespace NameRegistry

structure Uuid where
  bits : BitVec 128
  deriving DecidableEq

namespace Uuid

instance : LT Uuid := ⟨fun a b => a.bits < b.bits⟩
instance (a b : Uuid) : Decidable (a < b) := inferInstanceAs (Decidable (a.bits < b.bits))

def ofNat (n : Nat) : Uuid := ⟨.ofNat 128 n⟩

/-- The last given count of hexadecimal digits of a number, in lower case. -/
def hexDigits : Nat → Nat → List Char
  | 0, _ => []
  | count + 1, n => hexDigits count (n / 16) ++ [Nat.digitChar (n % 16)]

def hexValue? (c : Char) : Option Nat :=
  if '0' ≤ c ∧ c ≤ '9' then some (c.toNat - '0'.toNat)
  else if 'a' ≤ c ∧ c ≤ 'f' then some (c.toNat - 'a'.toNat + 10)
  else if 'A' ≤ c ∧ c ≤ 'F' then some (c.toNat - 'A'.toNat + 10)
  else none

/-- The lengths of the groups of digits between hyphens. -/
def groups : List Nat := [8, 4, 4, 4, 12]

def hyphenate : List Nat → List Char → List Char
  | [], _ => []
  | [n], cs => cs.take n
  | n :: ns, cs => cs.take n ++ '-' :: hyphenate ns (cs.drop n)

/-- The digits of a text in groups, which has to end with the last one. -/
def readGroups : List Nat → List Char → Option (List Char)
  | [], cs => if cs.isEmpty then some [] else none
  | [n], cs => if cs.length = n then some cs else none
  | n :: ns, cs =>
    match cs.drop n with
    | '-' :: r => (readGroups ns r).map (cs.take n ++ ·)
    | _ => none

def toChars (u : Uuid) : List Char := hyphenate groups (hexDigits 32 u.bits.toNat)

/-- Lower case, with hyphens. -/
def toText (u : Uuid) : String := String.ofList u.toChars

def ofDigits? (cs : List Char) : Option Uuid :=
  if cs.length = 32 then (cs.mapM hexValue?).map fun ds =>
    ofNat (ds.foldl (fun n d => 16 * n + d) 0)
  else none

def ofHyphenated? (cs : List Char) : Option Uuid := (readGroups groups cs).bind ofDigits?

/-- The text after a start that it has to have. -/
def after? : List Char → List Char → Option (List Char)
  | [], cs => some cs
  | a :: l, c :: cs => if a = c then after? l cs else none
  | _ :: _, [] => none

/-- The text between braces. -/
def unbrace? : List Char → Option (List Char)
  | '{' :: r => if r.getLast? = some '}' then some r.dropLast else none
  | _ => none

/-- The text after the scheme of a URN, in either case of letters. -/
def afterScheme? (cs : List Char) : Option (List Char) :=
  let scheme := ['u', 'r', 'n', ':', 'u', 'u', 'i', 'd', ':']
  if (cs.take scheme.length).map Char.toLower = scheme then some (cs.drop scheme.length) else none

/-- Of the notations at most one fits a text: they differ in length. -/
def ofChars? (cs : List Char) : Option Uuid :=
  (ofDigits? cs).or <| (ofHyphenated? cs).or <| ((unbrace? cs).bind ofHyphenated?).or <|
    (afterScheme? cs).bind ofHyphenated?

def ofText? (s : String) : Option Uuid := ofChars? s.toList

end Uuid

inductive IdKind
  | billingEvent | gracePeriod | pollMessage | historyEntry
  deriving DecidableEq

namespace IdKind

def all : List IdKind := [billingEvent, gracePeriod, pollMessage, historyEntry]

/-- What stands before the hyphen in a displayed identifier. -/
def tag : IdKind → List Char
  | billingEvent => ['B', 'E']
  | gracePeriod => ['G', 'P']
  | pollMessage => ['P', 'M']
  | historyEntry => ['H', 'S', 'T']

end IdKind

/-- An identifier of one kind of record. -/
structure Id (kind : IdKind) where
  uuid : Uuid
  deriving DecidableEq

abbrev BillingEventId := Id .billingEvent
abbrev GracePeriodId := Id .gracePeriod
abbrev PollMessageId := Id .pollMessage
abbrev HistoryEntryId := Id .historyEntry

namespace Id

variable {kind : IdKind}

def toText (id : Id kind) : String := String.ofList (kind.tag ++ '-' :: id.uuid.toChars)

instance : ToString (Id kind) := ⟨toText⟩

/-- Reads a UUID after the kind's own tag, or without it. -/
def ofText? (s : String) : Option (Id kind) :=
  let cs := s.toList
  (Uuid.ofChars? ((Uuid.after? (kind.tag ++ ['-']) cs).getD cs)).map mk

instance : LT (Id kind) := ⟨fun a b => a.uuid < b.uuid⟩
instance (a b : Id kind) : Decidable (a < b) := inferInstanceAs (Decidable (a.uuid < b.uuid))

/-- Identifiers sort as numbers. -/
def key (id : Id kind) : Nat := id.uuid.bits.toNat

theorem key_inj {a b : Id kind} : a.key = b.key ↔ a = b := by
  constructor
  · intro h
    cases a with | mk a => cases b with | mk b =>
    cases a; cases b
    simpa [key, BitVec.toNat_inj] using h
  · rintro rfl
    rfl

end Id

/-- An identifier together with the kind of record that it names. Records of two kinds may bear one
UUID. -/
structure AnyId where
  kind : IdKind
  uuid : Uuid
  deriving DecidableEq

namespace Id

variable {kind : IdKind}

def any (id : Id kind) : AnyId := ⟨kind, id.uuid⟩

@[simp]
theorem mk_eq_any {id : Id kind} {u : Uuid} : AnyId.mk kind u = id.any ↔ u = id.uuid := by
  rw [any, AnyId.mk.injEq, eq_self, true_and]

end Id

inductive CodeKind
  | registrar | repository | tld
  deriving DecidableEq

structure Code (kind : CodeKind) where
  text : String
  deriving DecidableEq

abbrev RegistrarId := Code .registrar
abbrev RepoId := Code .repository
abbrev Tld := Code .tld

namespace Code

variable {kind : CodeKind}

def isEmpty (c : Code kind) : Bool := c.text.isEmpty

instance : ToString (Code kind) := ⟨text⟩

end Code

/-- A source of identifiers, as a machine: each draw names the kind of record it is for. -/
structure IdSource (σ : Type) where
  draw : IdKind → σ → Uuid × σ

namespace IdSource

/-- Numbers all records alike, from one more than the counter, which wraps at 64 bits. -/
def sequential : IdSource UInt64 := ⟨fun _ n => (.ofNat (n.toNat + 1), n + 1)⟩

/-- The identifiers of a run of draws and the state after it. -/
def drawIds {σ : Type} (source : IdSource σ) : List IdKind → σ → List AnyId × σ
  | [], s => ([], s)
  | k :: ks, s =>
    let (u, s) := source.draw k s
    let (ids, s) := source.drawIds ks s
    (⟨k, u⟩ :: ids, s)

/-- The UUIDs alone of a run of draws, and the state after it. -/
def drawAll {σ : Type} (source : IdSource σ) (ks : List IdKind) (s : σ) : List Uuid × σ :=
  let (ids, s) := source.drawIds ks s
  (ids.map (·.uuid), s)

end IdSource
end NameRegistry
