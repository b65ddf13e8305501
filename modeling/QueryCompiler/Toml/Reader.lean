import QueryCompiler.Toml.Assembly
import QueryCompiler.Toml.Number
import QueryCompiler.Toml.Quoted

/-!
# TOML texts

`read?` reads the text of a settings file: values, and the lines that `Assembly` puts together.
-/

namespace QueryCompiler.Toml

/-! ## Values -/

mutual

/-- The value in front. Fewer than `levels` brackets may be nested; every step uses up `fuel`, of
which two for each character are enough. -/
def value? (fuel levels : Nat) (cs : List Char) : Option (Toml × List Char) :=
  match fuel with
  | 0 => none
  | fuel + 1 =>
    match cs with
    | '"' :: cs => (quoted? '"' cs).map fun r => (text r.1, r.2)
    | '\'' :: cs => (quoted? '\'' cs).map fun r => (text r.1, r.2)
    | '[' :: cs =>
      if levels ≤ 1 then none
      else (items? fuel (levels - 1) cs).map fun r => (array r.1, r.2)
    | '\x7b' :: cs => do
      if levels ≤ 1 then none
      else
        match skipSpace cs with
        | '\x7d' :: rest => return (table [], rest)
        | rest =>
          let (pairs, rest) ← pairs? fuel (levels - 1) rest
          return (table (← ofPairs? pairs), rest)
    | 't' :: 'r' :: 'u' :: 'e' :: rest => some (bool true, rest)
    | 'f' :: 'a' :: 'l' :: 's' :: 'e' :: rest => some (bool false, rest)
    | cs => number? cs

/-- The items up to the closing bracket. -/
def items? (fuel levels : Nat) (cs : List Char) : Option (List Toml × List Char) :=
  match fuel with
  | 0 => none
  | fuel + 1 =>
    match skipLines cs.length cs with
    | ']' :: rest => some ([], rest)
    | cs => do
      let (t, rest) ← value? fuel levels cs
      match skipLines rest.length rest with
      | ',' :: rest => do
        let (ts, rest) ← items? fuel levels rest
        return (t :: ts, rest)
      | ']' :: rest => return ([t], rest)
      | _ => none

/-- The keys and values up to the closing brace; there is at least one. -/
def pairs? (fuel levels : Nat) (cs : List Char) :
    Option (List (List String × Toml) × List Char) :=
  match fuel with
  | 0 => none
  | fuel + 1 => do
    let (path, rest) ← path? cs
    match skipSpace rest with
    | '=' :: rest => do
      let (t, rest) ← value? fuel levels (skipSpace rest)
      match skipSpace rest with
      | ',' :: rest => do
        let (ps, rest) ← pairs? fuel levels rest
        return ((path, t) :: ps, rest)
      | '\x7d' :: rest => return ([(path, t)], rest)
      | _ => none
    | _ => none

end

/-! ## Files -/

/-- The header in front, without its closing bracket. -/
def header? (cs : List Char) : Option (Line × List Char) := do
  match cs with
  | '[' :: cs =>
    let (path, rest) ← path? cs
    match rest with
    | ']' :: ']' :: rest => return (.element path, rest)
    | _ => none
  | cs =>
    let (path, rest) ← path? cs
    match rest with
    | ']' :: rest => return (.table path, rest)
    | _ => none

/-- The key and value in front. -/
def pair? (cs : List Char) : Option (Line × List Char) := do
  let (path, rest) ← path? cs
  match rest with
  | '=' :: rest =>
    let (t, rest) ← value? (2 * rest.length + 2) depthLimit (skipSpace rest)
    return (.pair path t, rest)
  | _ => none

/-- The lines of a file that are not empty; each takes one step of `fuel`. -/
def lines? (fuel : Nat) (cs : List Char) : Option (List Line) :=
  match fuel with
  | 0 => none
  | fuel + 1 =>
    match skipSpace cs with
    | [] => some []
    | c :: tail =>
      if c = '#' ∨ c = '\n' ∨ c = '\r' then do lines? fuel (← lineEnd? (c :: tail))
      else do
        let (line, rest) ← if c = '[' then header? tail else pair? (c :: tail)
        let lines ← lines? fuel (← lineEnd? rest)
        return line :: lines

/-- A mark of the byte order may stand in front of a file. -/
def skipMark : List Char → List Char
  | '\uFEFF' :: cs => cs
  | cs => cs

/-- The table that the text of a file describes. -/
def read? (s : String) : Option (List (String × Toml)) :=
  (lines? (s.toList.length + 2) (skipMark s.toList)).bind ofLines?

end QueryCompiler.Toml
