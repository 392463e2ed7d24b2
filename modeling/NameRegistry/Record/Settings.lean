import NameRegistry.Datum.Path
import NameRegistry.Record.Configuration
import NameRegistry.Toml

/-! # Configuration in settings files

A configuration that people write is read more leniently than a record: counts may be texts, truth
values or fractions, names of currencies may be in either case, a top-level domain may look like a
number, and lists of values may go on. A key at the top may be a path to the value that it sets.
Once read, the configuration is validated, and only a valid one is given out.
-/
namespace NameRegistry.Registration

open Record

namespace Settings

def lowerCase (s : String) : List Char := s.toList.map Char.toLower

/-- A text that means a number: a word for yes or no, or digits with an optional plus sign. -/
def countOfText? (s : String) : Option Nat :=
  if [['t', 'r', 'u', 'e'], ['o', 'n'], ['y', 'e', 's']].contains (lowerCase s) then some 1
  else if [['f', 'a', 'l', 's', 'e'], ['o', 'f', 'f'], ['n', 'o']].contains (lowerCase s) then
    some 0
  else
    let digits := match s.toList with
      | '+' :: r => r
      | r => r
    if digits.isEmpty || !digits.all Char.isDigit then none else some (Nat.ofDigitChars 10 digits 0)

/-- A count from anything that means a number. A whole number has to be one; a double is rounded, a
half going up, and counts as zero where it is negative. -/
def countOf? : Datum → Option Nat
  | .whole n => if 0 ≤ n then some n.toNat else none
  | .truth b => some b.toNat
  | .double x => x.toNat?
  | .text s => countOfText? s
  | _ => none

def loadCount (d : Datum) : Except LoadError UInt32 := do
  let n ← ofOption (countOf? d)
  if n < 2 ^ 32 then return .ofNat n else throw .malformed

/-- A text from anything that is written without brackets. -/
def loadText : Datum → Except LoadError String
  | .text s => .ok s
  | .whole n => .ok (toString n)
  | .truth b => .ok (if b then "true" else "false")
  | .double x => .ok x.toText
  | _ => .error .malformed

/-- A currency by its name, alone or before any value. -/
def loadCurrency : Datum → Except LoadError Currency
  | .text s | .object [(s, _)] =>
    ofOption (Currency.all.find? fun c => lowerCase c.code = lowerCase s)
  | _ => .error .malformed

def loadItems {α : Type} (read : Datum → Except LoadError α) : Datum → Except LoadError (List α)
  | .list items => items.mapM read
  | _ => .error .malformed

def loadPrice : Datum → Except LoadError PriceChange :=
  { PriceChange.layout with extensible := true }.load PriceChange.read

def loadTld : Datum → Except LoadError TldConfig :=
  { TldConfig.layout with extensible := true }.load fun es =>
    TldConfig.ofReadings (neededBy (fun d => (loadText d).map Code.mk) es "tld")
      (givenBy loadCurrency es "currency") (givenBy loadCount es)
      (givenBy (loadItems loadPrice) es "renew_prices")

/-- Puts a value where its key says. Keys are paths in either case; one that is none sets
nothing. -/
def assign (d : Datum) (key : String) (value : Datum) : Datum :=
  match Datum.path? (String.ofList (lowerCase key)) with
  | some path => d.putAt value path
  | none => d

end Settings

namespace RegistryConfig

/-- The configuration in a settings file, if it can be read and is valid. -/
def ofToml (text : String) : Except ConfigError RegistryConfig := do
  let entries ← match Toml.ofText? text with
    | some entries => pure entries
    | none => throw .unreadable
  let settings := entries.foldl (fun d p => Settings.assign d p.1 p.2) (.object [])
  match givenBy (Settings.loadItems Settings.loadTld) settings.entries "tlds" [] with
  | .value tlds => ofTlds tlds
  | .fault .. => throw .unreadable

/-- A settings file may begin with a byte order mark. One that does not exist configures nothing. -/
def ofFile (contents : Option String) : Except ConfigError RegistryConfig :=
  match contents with
  | some text => ofToml (String.ofList (Toml.skipMark text.toList))
  | none => .ok ⟨[]⟩

end RegistryConfig
end NameRegistry.Registration
