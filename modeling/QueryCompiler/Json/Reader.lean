import QueryCompiler.Json.Number
import QueryCompiler.Text.Hexadecimal

/-!
# JSON texts

`read?` reads a text that is one JSON value, with white space around it and nothing else.
-/

namespace QueryCompiler.Json

/-- The blanks between the tokens of a value. -/
def isGap (c : Char) : Bool := c = ' ' || c = '\t' || c = '\n' || c = '\r'

def skipGap (cs : List Char) : List Char := cs.dropWhile isGap

/-! ## Texts -/

/-- A character as it stands, one behind a backslash, or a code unit in hexadecimal digits. -/
inductive Element
  | plain (c : Char)
  | escape (c : Char)
  | unit (n : Nat)

def Element.isPlain : Element → Bool
  | plain _ => true
  | _ => false

/-- The character that a letter after a backslash stands for. -/
def escape? : Char → Option Char
  | '"' => some '"'
  | '\\' => some '\\'
  | '/' => some '/'
  | 'b' => some '\x08'
  | 'f' => some '\x0c'
  | 'n' => some '\n'
  | 'r' => some '\r'
  | 't' => some '\t'
  | _ => none

/-- What stands before the closing quote, and the characters after it. -/
def elements : List Char → Option (List Element × List Char)
  | [] => none
  | '"' :: cs => some ([], cs)
  | '\\' :: 'u' :: a :: b :: c :: d :: cs => do
    let n ← Text.hexNumber? [a, b, c, d]
    let (es, rest) ← elements cs
    return (.unit n :: es, rest)
  | '\\' :: c :: cs => do
    let c ← escape? c
    let (es, rest) ← elements cs
    return (.escape c :: es, rest)
  | c :: cs =>
    if c.toNat < 0x20 then none
    else do
      let (es, rest) ← elements cs
      return (.plain c :: es, rest)

/-- The first unit of a pair. -/
def isLead (n : Nat) : Bool := 0xD800 ≤ n && n < 0xDC00

/-- The second unit of a pair. -/
def isTrail (n : Nat) : Bool := 0xDC00 ≤ n && n < 0xE000

/-- The characters of some elements; none if half a pair stands alone. -/
def characters? : List Element → Option (List Char)
  | [] => some []
  | .plain c :: es => (characters? es).map (c :: ·)
  | .escape c :: es => (characters? es).map (c :: ·)
  | .unit n :: .unit m :: es =>
    if isLead n then
      if isTrail m then
        (characters? es).map (Char.ofNat (0x10000 + (n - 0xD800) * 0x400 + (m - 0xDC00)) :: ·)
      else none
    else if isTrail n then none
    else (characters? (.unit m :: es)).map (Char.ofNat n :: ·)
  | .unit n :: es =>
    if isLead n || isTrail n then none else (characters? es).map (Char.ofNat n :: ·)

/-- The text of some elements. -/
def ofElements (es : List Element) : Json :=
  match characters? es with
  | some cs => text (String.ofList cs)
  | none => unreadable

/-! ## Values -/

/-- Takes a word off the front. -/
def word? (w : List Char) (j : Json) (cs : List Char) : Option (Json × List Char) :=
  if w.isPrefixOf cs then some (j, cs.drop w.length) else none

/-- Members as they are read: key, whether an escape occurs in it, value. -/
abbrev ReadMember := Option String × Bool × Json

/-- The object of some members; a key that is no text spoils it. -/
def ofMembers (ms : List ReadMember) : Json :=
  match ms.mapM fun m => m.1.map fun k => (k, m.2.2) with
  | some members => object (ms.any fun m => m.2.1) members
  | none => unreadable

/-- Brackets may be nested this deep. -/
def maxDepth : Nat := 127

/-- A value in brackets, where the nesting allows it. -/
def nested (levels : Nat) (j : Json) : Json := if levels = 0 then unreadable else j

mutual

/-- The value in front. `levels` more brackets may be nested; every step uses up `fuel`, of which
two for each character are enough. -/
def value? (fuel levels : Nat) (cs : List Char) : Option (Json × List Char) :=
  match fuel with
  | 0 => none
  | fuel + 1 =>
    match cs with
    | [] => none
    | '"' :: cs => do
      let (es, rest) ← elements cs
      return (ofElements es, rest)
    | '[' :: cs =>
      match skipGap cs with
      | ']' :: rest => some (nested levels (array []), rest)
      | rest => do
        let (items, rest) ← items? fuel (levels - 1) rest
        return (nested levels (array items), rest)
    | '\x7b' :: cs =>
      match skipGap cs with
      | '\x7d' :: rest => some (nested levels (object false []), rest)
      | rest => do
        let (members, rest) ← members? fuel (levels - 1) rest
        return (nested levels (ofMembers members), rest)
    | 'n' :: _ => word? ['n', 'u', 'l', 'l'] null cs
    | 't' :: _ => word? ['t', 'r', 'u', 'e'] (bool true) cs
    | 'f' :: _ => word? ['f', 'a', 'l', 's', 'e'] (bool false) cs
    | _ => number? cs

/-- The items up to the closing bracket; there is at least one. -/
def items? (fuel levels : Nat) (cs : List Char) : Option (List Json × List Char) :=
  match fuel with
  | 0 => none
  | fuel + 1 => do
    let (j, rest) ← value? fuel levels (skipGap cs)
    match skipGap rest with
    | ',' :: rest => do
      let (js, rest) ← items? fuel levels rest
      return (j :: js, rest)
    | ']' :: rest => return ([j], rest)
    | _ => none

/-- The members up to the closing brace; there is at least one. -/
def members? (fuel levels : Nat) (cs : List Char) : Option (List ReadMember × List Char) :=
  match fuel with
  | 0 => none
  | fuel + 1 =>
    match skipGap cs with
    | '"' :: cs => do
      let (es, rest) ← elements cs
      let escaped := es.any fun e => !e.isPlain
      let key := (characters? es).map String.ofList
      match skipGap rest with
      | ':' :: rest => do
        let (j, rest) ← value? fuel levels (skipGap rest)
        match skipGap rest with
        | ',' :: rest => do
          let (ms, rest) ← members? fuel levels rest
          return ((key, escaped, j) :: ms, rest)
        | '\x7d' :: rest => return ([(key, escaped, j)], rest)
        | _ => none
      | _ => none
    | _ => none

end

/-- The value that a text is. -/
def read? (s : String) : Option Json := do
  let cs := s.toList
  let (j, rest) ← value? (2 * cs.length + 2) maxDepth (skipGap cs)
  if skipGap rest = [] then some j else none

end QueryCompiler.Json
