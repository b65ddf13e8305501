import QueryCompiler.Keyed.Sorted
import QueryCompiler.Decimal.Layout

/-!
# JSON values

A `Json` is a JSON value with the members of objects as they are written; an object also knows
whether a key of it is written with an escape. What has the form of a value and yet denotes none
is `unreadable`: a lone surrogate, a number beyond every float, brackets nested too deep.
`canonical?` is the value behind a tree, `compact` its shortest text.
-/

namespace QueryCompiler

inductive Json
  | null
  | bool (b : Bool)
  | int (n : Int)
  | float (x : Float)
  | text (s : String)
  | array (items : List Json)
  | object (escaped : Bool) (members : List (String × Json))
  | unreadable

namespace Json

/-! ## The value of a tree -/

/-- Writes a member at its place in a list by ascending key. -/
def insertMember (k : String) (v : Json) (ms : List (String × Json)) : List (String × Json) :=
  Sorted.insertEntry k v ms

mutual

/-- The tree with each key once, the last one, in ascending order; none if a part is
unreadable. -/
def canonical? : Json → Option Json
  | array items => (canonicalItems? items).map array
  | object _ members => (canonicalMembers? members []).map (object false)
  | unreadable => none
  | j => some j

def canonicalItems? : List Json → Option (List Json)
  | [] => some []
  | j :: js => do
    let j ← canonical? j
    let js ← canonicalItems? js
    return j :: js

/-- The members written so far, and the canonical ones of the rest on top of them. -/
def canonicalMembers? : List (String × Json) → List (String × Json) →
    Option (List (String × Json))
  | [], seen => some seen
  | (k, j) :: ms, seen => do
    let j ← canonical? j
    canonicalMembers? ms (insertMember k j seen)

end

/-! ## Texts -/

/-- A hexadecimal digit in lower case. -/
def hexDigit (n : Nat) : Char := (Nat.toDigits 16 (n % 16)).headD '0'

/-- A character between the quotes of a JSON text. -/
def quotedChar (c : Char) : List Char :=
  match c with
  | '"' => ['\\', '"']
  | '\\' => ['\\', '\\']
  | '\x08' => ['\\', 'b']
  | '\x0c' => ['\\', 'f']
  | '\n' => ['\\', 'n']
  | '\r' => ['\\', 'r']
  | '\t' => ['\\', 't']
  | c =>
    if c.toNat < 0x20 then ['\\', 'u', '0', '0', hexDigit (c.toNat / 16), hexDigit c.toNat]
    else [c]

/-- A text as a JSON value. -/
def quoted (s : String) : List Char := '"' :: s.toList.flatMap quotedChar ++ ['"']

mutual

/-- The characters of a value without white space. -/
def compactChars : Json → List Char
  | null => ['n', 'u', 'l', 'l']
  | bool true => ['t', 'r', 'u', 'e']
  | bool false => ['f', 'a', 'l', 's', 'e']
  | int n => (toString n).toList
  | float x => (Decimal.scientific.text x).toList
  | text s => quoted s
  | array items => '[' :: compactItems items ++ [']']
  | object _ members => '\x7b' :: compactMembers members ++ ['\x7d']
  | unreadable => ['n', 'u', 'l', 'l']

def compactItems : List Json → List Char
  | [] => []
  | [j] => compactChars j
  | j :: js => compactChars j ++ ',' :: compactItems js

def compactMembers : List (String × Json) → List Char
  | [] => []
  | [(k, j)] => quoted k ++ ':' :: compactChars j
  | (k, j) :: ms => quoted k ++ ':' :: compactChars j ++ ',' :: compactMembers ms

end

/-- The text of a value without white space. -/
def compact (j : Json) : String := String.ofList j.compactChars

end Json

end QueryCompiler
