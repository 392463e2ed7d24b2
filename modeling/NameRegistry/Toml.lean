import NameRegistry.Toml.Scalar
import NameRegistry.Toml.Table

/-! # Settings files

A document of TOML 1.0 is read as the data tree it stands for. A document with a mistake in it,
such as a key given twice, has no value. Arrays and tables in braces nest at most 79 deep.
-/
namespace NameRegistry.Toml

/-- Splits a path into the names before its last one, and that one. -/
def splitLast (path : List String) : Option (List String × String) :=
  path.getLast?.map fun name => (path.dropLast, name)

-- The readers of values call each other. Each call has one step of fuel less; a value takes at most
-- two calls for each of its characters.
mutual

def readValue (fuel depth : Nat) (cs : List Char) : Option (Datum × List Char) :=
  match fuel with
  | 0 => none
  | fuel + 1 =>
    match depth, cs with
    | depth + 1, '[' :: r => (readItems fuel depth [] r).map fun (items, r) => (.list items, r)
    | depth + 1, '\x7b' :: r =>
      let r := skipSpace r
      if r.head? = some '\x7d' then some (.object [], r.tail)
      else (readPairs fuel depth [] r).map fun (entries, r) => (.object (entriesToData entries), r)
    | _, '"' :: _ | _, '\'' :: _ =>
      (quotedText cs).map fun (text, r) => (.text (String.ofList text), r)
    | _, _ => scalar cs

/-- The items of an array and its closing bracket. A comma may follow the last item. -/
def readItems (fuel depth : Nat) (items : List Datum) (cs : List Char) :
    Option (List Datum × List Char) :=
  match fuel with
  | 0 => none
  | fuel + 1 => do
    let r ← skipLines false cs
    if r.head? = some ']' then some (items, r.tail)
    else do
      let (item, r) ← readValue fuel depth r
      let r ← skipLines false r
      match r with
      | ',' :: r => readItems fuel depth (items ++ [item]) r
      | ']' :: r => some (items ++ [item], r)
      | _ => none

/-- The pairs of a table in braces, up to the closing one. They stand in one line, and no comma
follows the last pair. -/
def readPairs (fuel depth : Nat) (entries : Entries) (cs : List Char) :
    Option (Entries × List Char) :=
  match fuel with
  | 0 => none
  | fuel + 1 => do
    let (path, r) ← key cs
    let (parents, name) ← splitLast path
    match r with
    | '=' :: r => do
      let (d, r) ← readValue fuel depth (skipSpace r)
      let entries ← entries.assign name d parents
      match skipSpace r with
      | ',' :: r => readPairs fuel depth entries r
      | '\x7d' :: r => some (entries, r)
      | _ => none
    | _ => none

end

/-- What has been read: all tables, and the path of the one that keys now go to. -/
structure Document where
  entries : Entries
  current : List String

/-- A line of the form `key = value`. -/
def readPair (doc : Document) (cs : List Char) : Option (Document × List Char) := do
  let (path, r) ← key cs
  let (parents, name) ← splitLast path
  let (d, r) ← match r with
    | '=' :: r => readValue (2 * r.length + 2) 79 (skipSpace r)
    | _ => none
  let entries ← Entries.atHeader (Entries.assign name d parents) doc.current doc.entries
  let r ← endLine r
  some (⟨entries, doc.current⟩, r)

/-- A header in single brackets. -/
def readHeader (doc : Document) (cs : List Char) : Option (Document × List Char) := do
  let (path, r) ← key cs
  let (parents, name) ← splitLast path
  let r ← expect ']' r
  let entries ← doc.entries.openTable parents name
  let r ← endLine r
  some (⟨entries, path⟩, r)

/-- A header in double brackets. -/
def readElementHeader (doc : Document) (cs : List Char) : Option (Document × List Char) := do
  let (path, r) ← key cs
  let (parents, name) ← splitLast path
  let r ← (expect ']' r).bind (expect ']')
  let entries ← doc.entries.openElement parents name
  let r ← endLine r
  some (⟨entries, path⟩, r)

/-- A line that is not blank. -/
def readLine (doc : Document) : List Char → Option (Document × List Char)
  | '[' :: '[' :: r => readElementHeader doc r
  | '[' :: r => readHeader doc r
  | r => readPair doc r

/-- All lines. Each reads at least one character, so the length of the text bounds their number. -/
def readLines : (fuel : Nat) → Document → List Char → Option Document
  | 0, _, _ => none
  | fuel + 1, doc, cs => do
    let r ← skipLines false cs
    if r.isEmpty then some doc
    else
      let (doc, r) ← readLine doc r
      readLines fuel doc r

def skipMark : List Char → List Char
  | '\ufeff' :: r => r
  | r => r

/-- The entries of a document. -/
def ofText? (s : String) : Option (List (String × Datum)) :=
  let cs := skipMark s.toList
  (readLines (cs.length + 1) ⟨[], []⟩ cs).map fun doc => entriesToData doc.entries

end NameRegistry.Toml
