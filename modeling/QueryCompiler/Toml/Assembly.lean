import QueryCompiler.Toml.Basic

/-!
# Assembling tables

The lines of a settings file put tables together piece by piece: a header opens a table or a
further element of an array of tables, and a dotted key reaches into tables of its own. No table
is opened twice and no key is written twice. Main statements: `insert?_twice` and
`header?_twice`.
-/

namespace QueryCompiler.Toml

/-- How a table came about: by its own header, on the way to another header, or by a dotted
key. -/
inductive Origin
  | header
  | implied
  | dotted
deriving DecidableEq, Repr

/-- A finished value, a table that may still grow, or an array of tables whose last one may. -/
inductive Item
  | value (t : Toml)
  | table (origin : Origin) (entries : List (String × Item))
  | tables (closed : List Toml) (last : List (String × Item))

/-- A table in the making. -/
abbrev Items := List (String × Item)

mutual

/-- The value of an item as it is. -/
def Item.close : Item → Toml
  | .value t => t
  | .table _ entries => .table (closeAll entries)
  | .tables closed last => .array (closed ++ [.table (closeAll last)])

/-- The values of a table as it is. -/
def closeAll : Items → List (String × Toml)
  | [] => []
  | (k, i) :: es => (k, i.close) :: closeAll es

end

/-- Writes an item at a key; a new key comes last. -/
def setItem (k : String) (i : Item) : Items → Items
  | [] => [(k, i)]
  | e :: es => if e.1 = k then (k, i) :: es else e :: setItem k i es

/-- Writes a value under a dotted key. Only the table at hand and tables made by dotted keys take
values this way, as `takes` says for the table at hand. -/
def insert? (takes : Bool) : List String → Toml → Items → Option Items
  | [], _, _ => none
  | [k], t, es =>
    if takes && (es.lookup k).isNone then some (setItem k (.value t) es) else none
  | k :: ks, t, es =>
    match es.lookup k with
    | none => (insert? true ks t []).map fun sub => setItem k (.table .dotted sub) es
    | some (.table .header _) => none
    | some (.table origin sub) =>
      (insert? (origin = .dotted) ks t sub).map fun sub => setItem k (.table origin sub) es
    | some (.tables closed last) =>
      (insert? false ks t last).map fun last => setItem k (.tables closed last) es
    | some (.value _) => none

/-- Changes the item at the end of a path. Tables on the way are made where they are missing, and
an array of tables is entered at its last one. -/
def alter? (f : Option Item → Option Item) : List String → Items → Option Items
  | [], _ => none
  | [k], es => (f (es.lookup k)).map fun i => setItem k i es
  | k :: ks, es =>
    match es.lookup k with
    | none => (alter? f ks []).map fun sub => setItem k (.table .implied sub) es
    | some (.table origin sub) => (alter? f ks sub).map fun sub => setItem k (.table origin sub) es
    | some (.tables closed last) =>
      (alter? f ks last).map fun last => setItem k (.tables closed last) es
    | some (.value _) => none

/-- A table gets its header, once. -/
def openTable : Option Item → Option Item
  | none => some (.table .header [])
  | some (.table .implied es) => some (.table .header es)
  | _ => none

/-- An array of tables gets one more element. -/
def openElement : Option Item → Option Item
  | none => some (.tables [] [])
  | some (.tables closed last) => some (.tables (closed ++ [.table (closeAll last)]) [])
  | _ => none

/-- A value goes into the table of the last header. -/
def fill (path : List String) (t : Toml) : Option Item → Option Item
  | some (.table .header es) => (insert? true path t es).map (.table .header)
  | some (.tables closed last) => (insert? true path t last).map (.tables closed)
  | _ => none

/-- A line of a settings file that is not empty. -/
inductive Line
  | pair (path : List String) (t : Toml)
  | table (path : List String)
  | element (path : List String)

/-- The tables so far, and the path of the last header. -/
structure Assembly where
  root : Items
  path : List String

namespace Assembly

/-- Takes in one line. -/
def add? (a : Assembly) : Line → Option Assembly
  | .pair path t =>
    match a.path with
    | [] => (insert? true path t a.root).map fun root => { a with root := root }
    | _ => (alter? (fill path t) a.path a.root).map fun root => { a with root := root }
  | .table path => (alter? openTable path a.root).map fun root => ⟨root, path⟩
  | .element path => (alter? openElement path a.root).map fun root => ⟨root, path⟩

end Assembly

/-- The table of some lines. -/
def ofLines? (lines : List Line) : Option (List (String × Toml)) :=
  (lines.foldlM Assembly.add? ⟨[], []⟩).map fun a => closeAll a.root

/-- The table of some keys and values on one line. -/
def ofPairs? (pairs : List (List String × Toml)) : Option (List (String × Toml)) :=
  (pairs.foldlM (fun es p => insert? true p.1 p.2 es) []).map closeAll

theorem insert?_twice (k : String) (t u : Toml) :
    (insert? true [k] t []).bind (insert? true [k] u) = none := by
  simp [insert?, setItem]

theorem header?_twice (k : String) :
    (alter? openTable [k] []).bind (alter? openTable [k]) = none := by
  simp [alter?, openTable, setItem]

end QueryCompiler.Toml
