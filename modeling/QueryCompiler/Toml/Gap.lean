/-!
# Blanks and comments

What stands between the parts of a settings file: spaces and tabs, ends of lines, and comments.
Main statement: `lineEnd?_comment` (a comment belongs to the end of its line).
-/

namespace QueryCompiler.Toml

def isSpace (c : Char) : Bool := c = ' ' || c = '\t'

def skipSpace (cs : List Char) : List Char := cs.dropWhile isSpace

/-- No control character but the tab. -/
def isVisible (c : Char) : Bool := c = '\t' || (0x20 ≤ c.toNat && c.toNat ≠ 0x7F)

/-- Takes the end of a line off the front. -/
def newline? : List Char → Option (List Char)
  | '\n' :: cs => some cs
  | '\r' :: '\n' :: cs => some cs
  | _ => none

/-- Takes a comment off the front, if there is one. -/
def skipComment : List Char → List Char
  | '#' :: cs => cs.dropWhile isVisible
  | cs => cs

/-- Takes the rest of a line off the front: spaces, a comment, and its end. -/
def lineEnd? (cs : List Char) : Option (List Char) :=
  match skipComment (skipSpace cs) with
  | [] => some []
  | cs => newline? cs

/-- Drops spaces and ends of lines. -/
def skipBlankLines : List Char → List Char
  | '\r' :: '\n' :: cs => skipBlankLines cs
  | c :: cs => if isSpace c || c = '\n' then skipBlankLines cs else c :: cs
  | [] => []

/-- Drops spaces, ends of lines and comments; `fuel` bounds the number of comments. -/
def skipLines (fuel : Nat) (cs : List Char) : List Char :=
  match fuel with
  | 0 => cs
  | fuel + 1 =>
    match skipBlankLines cs with
    | '#' :: cs => skipLines fuel (cs.dropWhile isVisible)
    | cs => cs

theorem lineEnd?_comment {cs : List Char} (h : ∀ c ∈ cs, isVisible c = true)
    (rest : List Char) : lineEnd? ('#' :: cs ++ '\n' :: rest) = some rest := by
  have hn : isVisible '\n' = false := by decide
  have hs : skipSpace ('#' :: cs ++ '\n' :: rest) = '#' :: (cs ++ '\n' :: rest) := by
    simp [skipSpace, isSpace]
  rw [lineEnd?, hs, skipComment, List.dropWhile_append_of_pos h, List.dropWhile_cons, hn]
  rfl

end QueryCompiler.Toml
