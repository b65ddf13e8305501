import QueryCompiler.Text.Blank

/-!
# Texts shown in quotes

`shown` writes a text between double quotes so that every character is visible: a quote, a
backslash and the common controls behind a backslash, any other unprintable character by its
code point. Main statement: `shownChar_of_printable` (all else stands for itself).
-/

namespace QueryCompiler.Text

/-- Code points that leave no mark: controls, formats, separators other than the space, private
use and those that no script can use, as closed ranges, ascending and apart. -/
def unprintableRanges : List (Nat × Nat) :=
  [(0x00, 0x1F), (0x7F, 0xA0), (0xAD, 0xAD), (0x600, 0x605), (0x61C, 0x61C), (0x6DD, 0x6DD),
   (0x70F, 0x70F), (0x890, 0x891), (0x8E2, 0x8E2), (0x1680, 0x1680), (0x180E, 0x180E),
   (0x2000, 0x200F), (0x2028, 0x202F), (0x205F, 0x206F), (0x3000, 0x3000), (0xD800, 0xF8FF),
   (0xFEFF, 0xFEFF), (0xFFF0, 0xFFFB), (0xFFFE, 0xFFFF), (0x110BD, 0x110BD), (0x110CD, 0x110CD),
   (0x13430, 0x1343F), (0x1BCA0, 0x1BCA3), (0x1D173, 0x1D17A), (0x323B0, 0xE00FF),
   (0xE01F0, 0x10FFFF)]

/-- The characters that a reader can see; the space is one of them. -/
def isPrintable (c : Char) : Bool := !inRanges unprintableRanges c.toNat

/-- A code point in lower-case hexadecimal digits without padding. -/
def hexDigits (n : Nat) : List Char := Nat.toDigits 16 n

/-- The visible spelling of one character between double quotes. -/
def shownChar (c : Char) : List Char :=
  match c with
  | '"' => ['\\', '"']
  | '\\' => ['\\', '\\']
  | '\n' => ['\\', 'n']
  | '\r' => ['\\', 'r']
  | '\t' => ['\\', 't']
  | '\x00' => ['\\', '0']
  | c =>
    if isPrintable c then [c] else ['\\', 'u', '\x7b'] ++ hexDigits c.toNat ++ ['\x7d']

/-- A text between double quotes, with every character visible. -/
def shown (s : String) : String :=
  String.ofList ('"' :: s.toList.flatMap shownChar ++ ['"'])

theorem shownChar_of_printable {c : Char} (h : isPrintable c = true) (hq : c ≠ '"')
    (hb : c ≠ '\\') : shownChar c = [c] := by
  unfold shownChar
  split <;> first | contradiction | simp_all [isPrintable, inRanges, unprintableRanges]

end QueryCompiler.Text
