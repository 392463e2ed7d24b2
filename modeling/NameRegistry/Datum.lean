import NameRegistry.Binary64

/-! # Data trees

What records and settings are written in: texts, numbers, truth values, lists, and entries under
distinct names.
-/
namespace NameRegistry

inductive Datum
  | null
  | truth (b : Bool)
  | whole (n : Int)
  | double (x : Binary64)
  | text (s : String)
  | list (items : List Datum)
  | object (entries : List (String × Datum))
  deriving Inhabited

end NameRegistry
