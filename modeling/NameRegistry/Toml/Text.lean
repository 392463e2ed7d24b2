import NameRegistry.Identifier

/-! # Texts and keys of settings files

White space, comments, quoted texts and dotted keys of TOML. Each reader takes its part off the
front of the text and gives the rest back.
-/
namespace NameRegistry.Toml

def isSpace (c : Char) : Bool := c = ' ' || c = '\t'

def skipSpace (cs : List Char) : List Char := cs.dropWhile isSpace

/-- The characters that may stand in a line: tabs and all that are not control characters. -/
def isPlain (c : Char) : Bool := c = '\t' || (0x20 ≤ c.toNat && c.toNat ≠ 0x7f)

def newline? : List Char → Option (List Char)
  | '\n' :: r => some r
  | '\r' :: '\n' :: r => some r
  | _ => none

/-- Skips blanks, line ends and comments. -/
def skipLines (inComment : Bool) : List Char → Option (List Char)
  | [] => some []
  | '\n' :: r => skipLines false r
  | '\r' :: '\n' :: r => skipLines false r
  | c :: r =>
    if inComment then if isPlain c then skipLines true r else none
    else if isSpace c then skipLines false r
    else if c = '#' then skipLines true r
    else some (c :: r)

/-- What may follow in a line: blanks and a comment. -/
def endLine (cs : List Char) : Option (List Char) :=
  let r := skipSpace cs
  let r' := if r.head? = some '#' then r.dropWhile isPlain else r
  if r'.isEmpty then some [] else newline? r'

/-- The character with a code point in hexadecimal digits. -/
def codePoint? (digits : List Char) : Option Char := do
  let ds ← digits.mapM Uuid.hexValue?
  let n := ds.foldl (fun n d => 16 * n + d) 0
  if n.isValidChar then some (Char.ofNat n) else none

def escape? : Char → Option Char
  | 'b' => some '\x08'
  | 't' => some '\t'
  | 'n' => some '\n'
  | 'f' => some '\x0c'
  | 'r' => some '\r'
  | '"' => some '"'
  | '\\' => some '\\'
  | _ => none

/-- Puts a character in front of what else is read. -/
def before (c : Char) (r : Option (List Char × List Char)) : Option (List Char × List Char) :=
  r.map fun p => (c :: p.1, p.2)

/-- The rest of a text in double quotes. -/
def basicText : List Char → Option (List Char × List Char)
  | [] => none
  | '"' :: r => some ([], r)
  | '\\' :: 'u' :: a :: b :: c :: d :: r =>
    (codePoint? [a, b, c, d]).bind fun x => before x (basicText r)
  | '\\' :: 'U' :: a :: b :: c :: d :: e :: f :: g :: h :: r =>
    (codePoint? [a, b, c, d, e, f, g, h]).bind fun x => before x (basicText r)
  | '\\' :: e :: r => (escape? e).bind fun x => before x (basicText r)
  | c :: r => if isPlain c && c ≠ '\\' then before c (basicText r) else none

/-- The rest of a text in single quotes. -/
def literalText : List Char → Option (List Char × List Char)
  | [] => none
  | '\'' :: r => some ([], r)
  | c :: r => if isPlain c then before c (literalText r) else none

/-- Whether the line holds nothing else. -/
def atLineEnd (cs : List Char) : Bool := (newline? (skipSpace cs)).isSome

/-- The rest of a text in triple double quotes. One or two quotes may stand before the closing
three. A backslash at the end of a line skips the white space after it. -/
def basicLines (skipping : Bool) : List Char → Option (List Char × List Char)
  | [] => none
  | '"' :: '"' :: '"' :: '"' :: '"' :: r => some (['"', '"'], r)
  | '"' :: '"' :: '"' :: '"' :: r => some (['"'], r)
  | '"' :: '"' :: '"' :: r => some ([], r)
  | '\n' :: r => if skipping then basicLines true r else before '\n' (basicLines false r)
  | '\r' :: '\n' :: r => if skipping then basicLines true r else before '\n' (basicLines false r)
  | '\\' :: 'u' :: a :: b :: c :: d :: r =>
    (codePoint? [a, b, c, d]).bind fun x => before x (basicLines false r)
  | '\\' :: 'U' :: a :: b :: c :: d :: e :: f :: g :: h :: r =>
    (codePoint? [a, b, c, d, e, f, g, h]).bind fun x => before x (basicLines false r)
  | '\\' :: e :: r =>
    if isSpace e && atLineEnd r || e = '\n' || e = '\r' && r.head? = some '\n' then
      basicLines true r
    else (escape? e).bind fun x => before x (basicLines false r)
  | c :: r =>
    if skipping && isSpace c then basicLines true r
    else if isPlain c && c ≠ '\\' then before c (basicLines false r)
    else none

/-- The rest of a text in triple single quotes. -/
def literalLines : List Char → Option (List Char × List Char)
  | [] => none
  | '\'' :: '\'' :: '\'' :: '\'' :: '\'' :: r => some (['\'', '\''], r)
  | '\'' :: '\'' :: '\'' :: '\'' :: r => some (['\''], r)
  | '\'' :: '\'' :: '\'' :: r => some ([], r)
  | '\n' :: r => before '\n' (literalLines r)
  | '\r' :: '\n' :: r => before '\n' (literalLines r)
  | c :: r => if isPlain c then before c (literalLines r) else none

/-- A line end right after the opening quotes is left out. -/
def afterOpening (cs : List Char) : List Char := (newline? cs).getD cs

/-- A text in any of the four kinds of quotes. -/
def quotedText : List Char → Option (List Char × List Char)
  | '"' :: '"' :: '"' :: r => basicLines false (afterOpening r)
  | '\'' :: '\'' :: '\'' :: r => literalLines (afterOpening r)
  | '"' :: r => basicText r
  | '\'' :: r => literalText r
  | _ => none

def isKeyChar (c : Char) : Bool := c.isAlphanum || c = '_' || c = '-'

def simpleKey : List Char → Option (List Char × List Char)
  | '"' :: r => basicText r
  | '\'' :: r => literalText r
  | cs =>
    let name := cs.takeWhile isKeyChar
    if name.isEmpty then none else some (name, cs.drop name.length)

/-- A key as the names along its path, at most 79 of them. Blanks may stand around each. -/
def dottedKey : (fuel : Nat) → List Char → Option (List String × List Char)
  | 0, _ => none
  | fuel + 1, cs => do
    let (name, r) ← simpleKey (skipSpace cs)
    match skipSpace r with
    | '.' :: r => do
      let (names, r) ← dottedKey fuel r
      some (String.ofList name :: names, r)
    | r => some ([String.ofList name], r)

def key (cs : List Char) : Option (List String × List Char) := dottedKey 79 cs

end NameRegistry.Toml
