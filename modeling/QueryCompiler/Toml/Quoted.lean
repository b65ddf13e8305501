import QueryCompiler.Text.Hexadecimal
import QueryCompiler.Toml.Gap

/-!
# Quoted texts and keys

Texts stand between double or single quotes, on one line or, between three quotes, over several;
behind a backslash stand escapes, but not between single quotes. A key is a quoted text on one
line or a run of plain characters.
-/

namespace QueryCompiler.Toml

/-! ## Texts -/

/-- The character of a code point. -/
def character? (n : Nat) : Option Char := if n.isValidChar then some (Char.ofNat n) else none

/-- The character that stands behind a backslash. -/
def escape? : List Char → Option (Char × List Char)
  | 'b' :: cs => some ('\x08', cs)
  | 't' :: cs => some ('\t', cs)
  | 'n' :: cs => some ('\n', cs)
  | 'f' :: cs => some ('\x0c', cs)
  | 'r' :: cs => some ('\r', cs)
  | '"' :: cs => some ('"', cs)
  | '\\' :: cs => some ('\\', cs)
  | 'u' :: cs => code? 4 cs
  | 'U' :: cs => code? 8 cs
  | _ => none
where
  /-- A code point in so many hexadecimal digits. -/
  code? (width : Nat) (cs : List Char) : Option (Char × List Char) := do
    if cs.length < width then none
    else
      let n ← Text.hexNumber? (cs.take width)
      let c ← character? n
      return (c, cs.drop width)

/-- The text up to a double quote on the same line. -/
def basicText (fuel : Nat) (cs : List Char) : Option (List Char × List Char) :=
  match fuel with
  | 0 => none
  | fuel + 1 =>
    match cs with
    | '"' :: cs => some ([], cs)
    | '\\' :: cs => do
      let (c, cs) ← escape? cs
      let (body, rest) ← basicText fuel cs
      return (c :: body, rest)
    | c :: cs =>
      if isVisible c then do
        let (body, rest) ← basicText fuel cs
        return (c :: body, rest)
      else none
    | [] => none

/-- The text up to a single quote on the same line. -/
def literalText : List Char → Option (List Char × List Char)
  | '\'' :: cs => some ([], cs)
  | c :: cs =>
    if isVisible c then do
      let (body, rest) ← literalText cs
      return (c :: body, rest)
    else none
  | [] => none

/-- A run of quotes in a text over several lines: three end it, and two more belong to it. -/
def quoteRun (quote : Char) (cs : List Char) : List Char × List Char :=
  (cs.takeWhile (· = quote), cs.dropWhile (· = quote))

/-- The line end behind a backslash, with the blanks after it. -/
def continuation? (cs : List Char) : Option (List Char) :=
  (newline? (skipSpace cs)).map skipBlankLines

/-- The text over several lines up to three quotes; escapes count where `escapes` says so. -/
def longText (quote : Char) (escapes : Bool) (fuel : Nat) (cs : List Char) :
    Option (List Char × List Char) :=
  match fuel with
  | 0 => none
  | fuel + 1 =>
    match cs with
    | [] => none
    | c :: tail =>
      if c = quote then
        let (run, rest) := quoteRun quote cs
        if run.length < 3 then do
          let (body, rest) ← longText quote escapes fuel rest
          return (run ++ body, rest)
        else if run.length ≤ 5 then some (run.drop 3, rest)
        else none
      else if escapes && c = '\\' then
        match continuation? tail with
        | some rest => longText quote escapes fuel rest
        | none => do
          let (c, rest) ← escape? tail
          let (body, rest) ← longText quote escapes fuel rest
          return (c :: body, rest)
      else
        match newline? cs with
        | some rest => do
          let (body, rest) ← longText quote escapes fuel rest
          return ('\n' :: body, rest)
        | none =>
          if isVisible c then do
            let (body, rest) ← longText quote escapes fuel tail
            return (c :: body, rest)
          else none

/-- The text behind an opening quote, of whichever of the four kinds it is. -/
def quoted? (quote : Char) (cs : List Char) : Option (String × List Char) := do
  let fuel := cs.length + 1
  let escapes := quote = '"'
  let (body, rest) ←
    if [quote, quote].isPrefixOf cs then
      let tail := cs.drop 2
      longText quote escapes fuel ((newline? tail).getD tail)
    else if escapes then basicText fuel cs
    else literalText cs
  return (String.ofList body, rest)

/-! ## Keys -/

/-- A letter or digit of ASCII, the low line or the hyphen. -/
def isBare (c : Char) : Bool := c.isAlphanum || c = '_' || c = '-'

def key? (cs : List Char) : Option (String × List Char) :=
  match cs with
  | '"' :: cs => (basicText (cs.length + 1) cs).map fun r => (String.ofList r.1, r.2)
  | '\'' :: cs => (literalText cs).map fun r => (String.ofList r.1, r.2)
  | cs =>
    if cs.takeWhile isBare = [] then none
    else some (String.ofList (cs.takeWhile isBare), cs.dropWhile isBare)

/-- Keys with points between them, and spaces around each. -/
def keys? (fuel : Nat) (cs : List Char) : Option (List String × List Char) :=
  match fuel with
  | 0 => none
  | fuel + 1 => do
    let (k, rest) ← key? (skipSpace cs)
    match skipSpace rest with
    | '.' :: rest => do
      let (ks, rest) ← keys? fuel rest
      return (k :: ks, rest)
    | rest => return ([k], rest)

/-- Brackets are nested, and keys are dotted, less deep than this. -/
def depthLimit : Nat := 80

/-- A dotted key within the limit. -/
def path? (cs : List Char) : Option (List String × List Char) := keys? (depthLimit - 1) cs

end QueryCompiler.Toml
