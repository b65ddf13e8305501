import QueryCompiler.Fault
import QueryCompiler.Request.Basic

/-!
# Validity

A request is valid if its tables hang together: each link joins a table with a class to an
earlier table, and whatever else names a table names one that is joined. `validate` gives the
first fault. Main statements: `isAttached_iff`, `checkAttached_eq_ok_iff` and
`checkReference_eq_ok_iff`.
-/

namespace QueryCompiler.Request

/-- The class of a table. -/
def classOf (r : Request) (table : Nat) : Except Fault String :=
  match r.classes[table]? with
  | some name => .ok name
  | none => .error (.unknownTable table .noClass)

/-- The table has a class and is joined; the root is joined to nothing. -/
def isAttached (r : Request) (table : Nat) : Bool :=
  table < r.classes.length && (table = 0 || r.links.contains table)

theorem isAttached_iff {r : Request} {table : Nat} :
    r.isAttached table = true
      ↔ table < r.classes.length ∧ (table = 0 ∨ r.links.contains table = true) := by
  simp [isAttached]

def checkAttached (r : Request) (usage : Usage) (table : Nat) : Except Fault Unit :=
  if r.classes.length ≤ table then .error (.unknownTable table (.usedWithoutClass usage))
  else if r.isAttached table then .ok ()
  else .error (.unknownTable table (.usedWithoutLink usage))

theorem checkAttached_eq_ok_iff {r : Request} {usage : Usage} {table : Nat} :
    r.checkAttached usage table = .ok () ↔ r.isAttached table = true := by
  unfold checkAttached
  split
  · simp [isAttached]
    omega
  · split <;> simp_all

/-- Inside a join only the tables up to its own, `bound`, may be used. -/
def checkReference (r : Request) (usage : Usage) (bound : Option Nat) (table : Nat) :
    Except Fault Unit := do
  r.checkAttached usage table
  match bound with
  | some link => if link < table then .error (.unknownTable table (.usedTooEarly usage link)) else .ok ()
  | none => .ok ()

theorem checkReference_eq_ok_iff {r : Request} {usage : Usage} {bound : Option Nat}
    {table : Nat} :
    r.checkReference usage bound table = .ok ()
      ↔ r.isAttached table = true ∧ ∀ link ∈ bound, table ≤ link := by
  unfold checkReference
  rw [← @checkAttached_eq_ok_iff r usage table]
  rcases r.checkAttached usage table with _ | ⟨⟩ <;> cases bound <;>
    simp [bind, Except.bind]

/-- The table that an alias names. -/
def tableOf (r : Request) (aliasName : String) : Except Fault Nat :=
  match r.aliases.get? aliasName with
  | some table => .ok table
  | none => .error (.invalidValue (.unknownAlias aliasName))

/-- The tables of a comparison, its column on the right included. -/
def checkComparison (r : Request) (usage : Usage) (bound : Option Nat) (c : Comparison) :
    Except Fault Unit := do
  r.checkReference usage bound c.table
  match c.value with
  | .column aliasName _ => r.checkReference .columnReference bound (← r.tableOf aliasName)
  | _ => .ok ()

mutual

def checkPredicate (r : Request) (usage : Usage) (bound : Option Nat) :
    Predicate → Except Fault Unit
  | .comparison _ c => r.checkComparison usage bound c
  | .group _ [] => .error (.invalidValue .emptyGroup)
  | .group _ (p :: ps) => do
    checkPredicate r usage bound p
    checkPredicates r usage bound ps

def checkPredicates (r : Request) (usage : Usage) (bound : Option Nat) :
    List Predicate → Except Fault Unit
  | [] => .ok ()
  | p :: ps => do
    checkPredicate r usage bound p
    checkPredicates r usage bound ps

end

/-- A link belongs to a table with a class and leads to an earlier table that is joined. -/
def checkLink (r : Request) (table : Nat) (link : Link) : Except Fault Unit :=
  if r.classes.length ≤ table then .error (.unknownTable table .linkWithoutClass)
  else if table ≤ link.leftTable ∨ r.isAttached link.leftTable = false then
    .error (.unknownTable link.leftTable (.notEarlier table))
  else r.checkPredicates .joinCondition (some table) link.conditions

def checkAlias (r : Request) (aliasName : String) (table : Nat) : Except Fault Unit :=
  if r.classes.length ≤ table then .error (.unknownTable table (.aliasWithoutClass aliasName))
  else .ok ()

/-- The first fault of a request, if it has one. -/
def validate (r : Request) : Except Fault Unit :=
  if r.classes = [] then .error (.unknownTable 0 .noRootClass)
  else if r.links.contains 0 then .error (.unknownTable 0 .linkedRoot)
  else do
    r.links.entries.forM fun e => r.checkLink e.1 e.2
    r.fields.keys.forM (r.checkAttached .selectedField)
    r.checkPredicates .condition none r.conditions
    r.order.forM fun term => r.checkAttached .orderClause term.table
    r.aliases.entries.forM fun e => r.checkAlias e.1 e.2

end QueryCompiler.Request
