import QueryCompiler.Catalog
import QueryCompiler.Scalar

/-!
# Literals

What stands for a value in a statement: a numeral, or a text in single quotes. `coerce` picks the
literal by the declared type of the field, `element` by the scalar itself, as in a list. Main
statements: `escapeChar_eq_self_iff` (which characters stand for themselves) and
`element_eq_error_iff` (only a float can fail in a list).
-/

namespace QueryCompiler

/-- A value in a statement. -/
inductive Literal
  | integer (n : Int64)
  | decimal (x : Float)
  | quoted (s : String)
deriving DecidableEq

namespace Literal

/-- A character between single quotes. -/
def escapeChar (c : Char) : List Char :=
  match c with
  | '\x00' => ['\\', '0']
  | '\n' => ['\\', 'n']
  | '\r' => ['\\', 'r']
  | '\\' => ['\\', '\\']
  | '\'' => ['\\', '\'']
  | '"' => ['\\', '"']
  | '\x1a' => ['\\', 'Z']
  | c => [c]

/-- The characters of a text between single quotes. -/
def escapeChars (cs : List Char) : List Char := cs.flatMap escapeChar

/-- A text as it stands between single quotes. -/
def escape (s : String) : String := String.ofList (escapeChars s.toList)

/-- A text in single quotes. -/
def quote (s : String) : String := "'" ++ escape s ++ "'"

theorem escapeChar_eq_self_iff (c : Char) :
    escapeChar c = [c]
      ↔ c ∉ ['\x00', '\n', '\r', '\\', '\'', '"', '\x1a'] := by
  unfold escapeChar
  split <;> simp_all

/-- The text of a literal. -/
def text : Literal → String
  | integer n => toString n.toInt
  | decimal x => Decimal.plain.text x
  | quoted s => quote s

/-- A float that has a numeral. -/
def ofFloat (x : Float) : Except Fault Literal :=
  if (Decimal.Binary.ofFloat x).isFinite then .ok (decimal x)
  else .error (.invalidValue (.notFinite x))

/-- The float of a scalar, or the fault of what has none. -/
def floatOf (s : Scalar) : Except Fault Float :=
  match s.toFloat? with
  | some x => .ok x
  | none => .error (.invalidValue .dateTimeAsFloat)

/-- The literal of a scalar for a field of a given type. -/
def coerce (type : DomainType) (s : Scalar) : Except Fault Literal :=
  match type with
  | .string | .json | .dateTime => .ok (quoted s.toText)
  | .float => do ofFloat (← floatOf s)
  | .integer | .timestamp | .other => .ok (integer s.toInteger)

/-- The literal of a scalar in a list. -/
def element : Scalar → Except Fault Literal
  | .bool b => .ok (integer (if b then 1 else 0))
  | .int n => .ok (integer n)
  | .float x => ofFloat x
  | .text s => .ok (quoted s)
  | .dateTime t => .ok (quoted t.text)

theorem ofFloat_eq_error_iff {x : Float} {e : Fault} :
    ofFloat x = .error e
      ↔ (Decimal.Binary.ofFloat x).isFinite = false ∧ e = .invalidValue (.notFinite x) := by
  unfold ofFloat
  split
  · rename_i h
    simp [h]
  · rename_i h
    simp only [Bool.not_eq_true] at h
    simpa [h] using eq_comm

theorem element_eq_error_iff {s : Scalar} {e : Fault} :
    element s = .error e ↔ ∃ x, s = .float x ∧ ofFloat x = .error e := by
  cases s <;> simp [element]

end Literal

end QueryCompiler
