import QueryCompiler.Json.Basic
import QueryCompiler.Decimal.Numeral

/-!
# Records in JSON

How typed data is taken out of a `Json`: texts, words, lists, maps, records whose fields are
named or listed in order, and tagged variants. Main statement: `asList?_map` (a list comes back if
its items do).
-/

namespace QueryCompiler.Json

open Decimal

def asText? : Json → Option String
  | text s => some s
  | _ => none

def asBool? : Json → Option Bool
  | bool b => some b
  | _ => none

/-- A number that is not negative. -/
def asNatural? : Json → Option Nat
  | int n => if 0 ≤ n then some n.toNat else none
  | _ => none

/-- A number that fits an unsigned word. -/
def asWord? : Json → Option UInt64
  | int n => if 0 ≤ n ∧ n < UInt64.size then some (UInt64.ofNat n.toNat) else none
  | _ => none

def asArray? : Json → Option (List Json)
  | array items => some items
  | _ => none

/-- The items of an array, each through `f`. -/
def asList? {α : Type} (f : Json → Option α) (j : Json) : Option (List α) :=
  j.asArray?.bind fun items => items.mapM f

theorem asList?_map {α : Type} {f : Json → Option α} {g : α → Json} {xs : List α}
    (h : ∀ x ∈ xs, f (g x) = some x) : asList? f (array (xs.map g)) = some xs := by
  simp only [asList?, asArray?, Option.bind_some]
  induction xs with
  | nil => rfl
  | cons x xs ih =>
    rw [List.map_cons, List.mapM_cons, h x List.mem_cons_self,
      ih fun y hy => h y (List.mem_cons_of_mem _ hy)]
    rfl

/-- The members of an object, each value through `f`. -/
def asMembers? {α : Type} (f : Json → Option α) : Json → Option (List (String × α))
  | object _ members => members.mapM fun m => (f m.2).map (m.1, ·)
  | _ => none

/-- A table index as a key: an unsigned word in digits without a useless zero. -/
def tableKey? (s : String) : Option Nat :=
  let ds := s.toList
  let n := ofDigits ds
  if ds ≠ [] ∧ ds.all isDigit ∧ (ds.head? ≠ some '0' ∨ ds.length = 1) ∧ n < UInt64.size then some n
  else none

/-- The members of an object whose keys are table indices, each value through `f`. No key is
written with an escape. -/
def asTables? {α : Type} (f : Json → Option α) : Json → Option (List (Nat × α))
  | object false members => members.mapM fun m => do return (← tableKey? m.1, ← f m.2)
  | _ => none

/-! ## Records -/

/-- The one value of a name, none if it does not occur; refused if it occurs twice. -/
def member? (name : String) (members : List (String × Json)) : Option (Option Json) :=
  match members.filter fun m => m.1 = name with
  | [] => some none
  | [m] => some (some m.2)
  | _ => none

/-- The fields of a record in the order of their names: an object with other members beside
them, or an array of the first fields. -/
def record? (names : List String) : Json → Option (List (Option Json))
  | object _ members => names.mapM fun name => member? name members
  | array items =>
    if items.length ≤ names.length then
      some (items.map some ++ List.replicate (names.length - items.length) none)
    else none
  | _ => none

/-- A field that must be there. -/
def required? {α : Type} (f : Json → Option α) : Option Json → Option α
  | none => none
  | some j => f j

/-- A field that may be left out. -/
def optional? {α : Type} (standard : α) (f : Json → Option α) : Option Json → Option α
  | none => some standard
  | some j => f j

/-- The tag of a variant and what it carries: a lone text, or an object with one member. -/
def variant? : Json → Option (String × Option Json)
  | text tag => some (tag, none)
  | object _ [(tag, body)] => some (tag, some body)
  | _ => none

/-- The tag of a variant that carries nothing. -/
def unitVariant? (j : Json) : Option String :=
  match j.variant? with
  | some (tag, none) => some tag
  | some (tag, some null) => some tag
  | _ => none

end QueryCompiler.Json
