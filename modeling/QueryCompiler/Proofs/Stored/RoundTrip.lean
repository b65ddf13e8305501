import QueryCompiler.Proofs.Filter
import QueryCompiler.Proofs.Json.Record
import QueryCompiler.Stored.Request

/-!
# Requests written and read

What is read from a stored request is the request that was written, but for its date-times, which
have become texts: `stored` says so part by part, along the data. Two things get lost altogether: a
float that is no number, and the key of a table that no word counts; `Request.Storable` excludes
them.

1. `Scalar.ofJson?_toJson`: a scalar is kept bare, and no reader that is tried earlier takes it.
2. `Predicate.ofItems?_listToJson`: a filter comes back at every depth if its values do.
3. `Request.ofJson?_toJson`: a request comes back, maps in their order included.
4. `Request.stored_eq_self`: without date-times nothing has changed.

Main statement: `Request.ofJson?_toJson`.
-/

namespace QueryCompiler

open Json Decimal

/-! ## Scalars and values -/

namespace Scalar

/-- A scalar as it is kept: a date-time is a text. -/
def stored : Scalar → Scalar
  | dateTime t => text t.storedText
  | s => s

/-- Not a float that is no number. -/
def IsFinite : Scalar → Prop
  | float x => (Binary.ofFloat x).isFinite = true
  | _ => True

theorem ofJson?_toJson {s : Scalar} (h : s.IsFinite) : ofJson? s.toJson = some s.stored := by
  cases s with
  | bool b => rfl
  | int n => exact ofJson?_toJson_int n
  | float x =>
    have hx : (Binary.ofFloat x).isFinite = true := h
    rw [toJson, if_pos hx]
    rfl
  | text s => rfl
  | dateTime t => rfl

theorem stored_eq_self {s : Scalar} (h : ∀ t, s ≠ dateTime t) : s.stored = s := by
  cases s with
  | dateTime t => exact absurd rfl (h t)
  | _ => rfl

end Scalar

namespace Value

/-- The scalars of a value. -/
def scalars : Value → List Scalar
  | literal s => [s]
  | list items => items
  | _ => []

/-- A value as it is kept. -/
def stored : Value → Value
  | literal s => literal s.stored
  | list items => list (items.map Scalar.stored)
  | v => v

theorem ofJson?_toJson {v : Value} (h : ∀ s ∈ v.scalars, s.IsFinite) :
    ofJson? v.toJson = some v.stored := by
  cases v with
  | none => rfl
  | column aliasName field => rfl
  | literal s =>
    show (Scalar.ofJson? s.toJson).map literal = _
    rw [Scalar.ofJson?_toJson (h s List.mem_cons_self)]
    rfl
  | list items =>
    have hitems : (items.map Scalar.toJson).mapM Scalar.ofJson? = some (items.map Scalar.stored) :=
      mapM_map_of_forall fun s hs => Scalar.ofJson?_toJson (h s hs)
    show ((items.map Scalar.toJson).mapM Scalar.ofJson?).map list = _
    rw [hitems]
    rfl

theorem stored_eq_self {v : Value} (h : ∀ s ∈ v.scalars, ∀ t, s ≠ .dateTime t) :
    v.stored = v := by
  cases v with
  | none => rfl
  | column aliasName field => rfl
  | literal s => rw [stored, Scalar.stored_eq_self (h s List.mem_cons_self)]
  | list items =>
    have hitems : items.map Scalar.stored = items.map fun s => s :=
      List.map_congr_left fun s hs => Scalar.stored_eq_self (h s hs)
    rw [stored, hitems, List.map_id']

end Value

/-! ## Filters -/

/-- A comparison as it is kept. -/
def Comparison.stored (c : Comparison) : Comparison := { c with value := c.value.stored }

theorem Comparison.ofJson?_toJson {c : Comparison} (h : ∀ s ∈ c.value.scalars, s.IsFinite) :
    ofJson? c.toJson = some c.stored := by
  simp [ofJson?, toJson, record?, member?, required?, asNatural?, asText?, stored,
    Operator.ofJson?_toJson, Value.ofJson?_toJson h]

namespace Predicate

mutual

/-- A predicate as it is kept. -/
def stored : Predicate → Predicate
  | comparison connector c => comparison connector c.stored
  | group connector children => group connector (storedAll children)

/-- A sequence as it is kept. -/
def storedAll : List Predicate → List Predicate
  | [] => []
  | p :: ps => stored p :: storedAll ps

end

/-- The scalars that a sequence holds at every depth, under whatever operator. -/
def heldScalars (ps : List Predicate) : List Scalar :=
  (comparisons ps).flatMap fun c => c.value.scalars

variable {connector : Option Connector} {c : Comparison} {children ps : List Predicate}

theorem heldScalars_comparison_cons :
    heldScalars (.comparison connector c :: ps) = c.value.scalars ++ heldScalars ps := by
  simp [heldScalars]

theorem heldScalars_group_cons :
    heldScalars (.group connector children :: ps) = heldScalars children ++ heldScalars ps := by
  simp [heldScalars]

theorem ofJson?_toJson_comparison (h : ∀ s ∈ c.value.scalars, s.IsFinite) :
    ofJson? (toJson (.comparison connector c)) = some (.comparison connector c.stored) := by
  simp [toJson, ofJson?, ofVariant?, comparisonOfJson?, record?, member?, required?,
    Connector.optionOfJson?_optionToJson, Comparison.ofJson?_toJson h]

theorem ofJson?_toJson_group (h : ofItems? (listToJson children) = some (storedAll children)) :
    ofJson? (toJson (.group connector children))
      = some (.group connector (storedAll children)) := by
  simp [toJson, ofJson?, ofVariant?, ofMembers?, ofArray?, member?,
    Connector.optionOfJson?_optionToJson, h]

/-- A filter comes back at every depth. -/
theorem ofItems?_listToJson (h : ∀ s ∈ heldScalars ps, s.IsFinite) :
    ofItems? (listToJson ps) = some (storedAll ps) := by
  induction ps using sequenceInduction with
  | nil => rfl
  | comparison connector c ps ih =>
    rw [heldScalars_comparison_cons, List.forall_mem_append] at h
    rw [listToJson, ofItems?, ofJson?_toJson_comparison h.1, ih h.2]
    rfl
  | group connector children ps ihc ih =>
    rw [heldScalars_group_cons, List.forall_mem_append] at h
    rw [listToJson, ofItems?, ofJson?_toJson_group (ihc h.1), ih h.2]
    rfl

theorem storedAll_eq_self (h : ∀ s ∈ heldScalars ps, ∀ t, s ≠ .dateTime t) : storedAll ps = ps := by
  induction ps using sequenceInduction with
  | nil => rfl
  | comparison connector c ps ih =>
    rw [heldScalars_comparison_cons, List.forall_mem_append] at h
    rw [storedAll, stored, Comparison.stored, Value.stored_eq_self h.1, ih h.2]
  | group connector children ps ihc ih =>
    rw [heldScalars_group_cons, List.forall_mem_append] at h
    rw [storedAll, stored, ihc h.1, ih h.2]

end Predicate

/-! ## Links -/

theorem JoinKind.ofJson?_toJson (kind : JoinKind) : ofJson? kind.toJson = some kind := by
  cases kind <;> rfl

/-- A link as it is kept. -/
def Link.stored (l : Link) : Link := { l with conditions := Predicate.storedAll l.conditions }

theorem Link.ofJson?_toJson {l : Link} (h : ∀ s ∈ Predicate.heldScalars l.conditions, s.IsFinite) :
    ofJson? l.toJson = some l.stored := by
  simp [ofJson?, toJson, record?, member?, required?, asNatural?, asText?, stored,
    JoinKind.ofJson?_toJson, Predicate.ofArray?, Predicate.ofItems?_listToJson h]

/-! ## Requests -/

namespace Request

/-- A request as it is kept. -/
def stored (r : Request) : Request :=
  { r with links := r.links.map Link.stored, conditions := Predicate.storedAll r.conditions }

/-- The scalars that a request holds in its filter and its links. -/
def heldScalars (r : Request) : List Scalar :=
  Predicate.heldScalars r.conditions ++
    r.links.entries.flatMap fun e => Predicate.heldScalars e.2.conditions

/-- Every float is a number, and words count the tables of the selected fields and of the links. -/
structure Storable (r : Request) : Prop where
  finite : ∀ s ∈ r.heldScalars, s.IsFinite
  field : ∀ table ∈ r.fields.keys, table < UInt64.size
  link : ∀ table ∈ r.links.keys, table < UInt64.size

variable {r : Request}

theorem asWord?_toNat (w : UInt64) : asWord? (.int w.toNat) = some w := by
  have hw : (w.toNat : Int) < UInt64.size := Int.ofNat_lt.2 w.toNat_lt_size
  rw [asWord?, if_pos ⟨Int.natCast_nonneg _, hw⟩, Int.toNat_natCast, UInt64.ofNat_toNat]

theorem fields_ofJson?_toJson (h : ∀ table ∈ r.fields.keys, table < UInt64.size) :
    ((object false (r.fields.entries.map fun e =>
      (toString e.1, array (e.2.map text)))).asTables? (asList? asText?)).map Ordered.ofList
        = some r.fields := by
  have hkey : ∀ e ∈ r.fields.entries, e.1 < UInt64.size := fun e he => h _ (List.mem_map_of_mem he)
  have hnames : ∀ e ∈ r.fields.entries, asList? asText? (array (e.2.map text)) = some e.2 :=
    fun e _ => asList?_map fun name _ => rfl
  have hentries := asTables?_map (g := fun names => array (names.map text)) (h := id) hkey hnames
  rw [hentries, Option.map_some]
  show some (Ordered.ofList (r.fields.entries.map id)) = _
  rw [List.map_id, Ordered.ofList_entries]

theorem links_ofJson?_toJson (h : r.Storable) :
    ((object false (r.links.entries.map fun e => (toString e.1, e.2.toJson))).asTables?
      Link.ofJson?).map Sorted.ofList = some (r.links.map Link.stored) := by
  have hkey : ∀ e ∈ r.links.entries, e.1 < UInt64.size := fun e he =>
    h.link _ (List.mem_map_of_mem he)
  have hlink : ∀ e ∈ r.links.entries, Link.ofJson? e.2.toJson = some e.2.stored := fun e he =>
    Link.ofJson?_toJson fun s hs =>
      h.finite s (List.mem_append_right _ (List.mem_flatMap.2 ⟨e, he, hs⟩))
  rw [asTables?_map hkey hlink, Option.map_some]
  exact congrArg some (Sorted.ofList_entries (r.links.map Link.stored))

theorem aliases_ofJson?_toJson (aliases : Sorted String Nat) :
    ((object false (aliases.entries.map fun e => (e.1, int e.2))).asMembers? asNatural?).map
      Sorted.ofList = some aliases := by
  have htable : ∀ e ∈ aliases.entries, asNatural? (int e.2) = some e.2 := fun e _ => by
    rw [asNatural?, if_pos (Int.natCast_nonneg _), Int.toNat_natCast]
  have hentries := asMembers?_map (g := fun table : Nat => int table) (h := id) htable
  rw [hentries, Option.map_some]
  show some (Sorted.ofList (aliases.entries.map id)) = _
  rw [List.map_id, Sorted.ofList_entries]

/-- What is read is what was written, with date-times as texts. -/
theorem ofJson?_toJson (h : r.Storable) : ofJson? r.toJson = some r.stored := by
  have hclasses : asList? asText? (array (r.classes.map text)) = some r.classes :=
    asList?_map fun name _ => rfl
  have hfilter : Predicate.ofItems? (Predicate.listToJson r.conditions)
      = some (Predicate.storedAll r.conditions) :=
    Predicate.ofItems?_listToJson fun s hs => h.finite s (List.mem_append_left _ hs)
  have horder : asList? OrderTerm.ofJson? (array (r.order.map OrderTerm.toJson)) = some r.order :=
    asList?_map fun term _ => OrderTerm.ofJson?_toJson term
  simp [-Nat.toString_eq_repr, ofJson?, toJson, record?, member?, required?, Predicate.ofArray?,
    asBool?, asWord?_toNat, hclasses, fields_ofJson?_toJson h.field, links_ofJson?_toJson h,
    hfilter, horder, aliases_ofJson?_toJson, stored]

theorem stored_eq_self (h : ∀ s ∈ r.heldScalars, ∀ t, s ≠ .dateTime t) : r.stored = r := by
  have hfilter : Predicate.storedAll r.conditions = r.conditions :=
    Predicate.storedAll_eq_self fun s hs => h s (List.mem_append_left _ hs)
  have hlinks : r.links.map Link.stored = r.links := Sorted.map_eq_self fun e he => by
    have hconditions : Predicate.storedAll e.2.conditions = e.2.conditions :=
      Predicate.storedAll_eq_self fun s hs =>
        h s (List.mem_append_right _ (List.mem_flatMap.2 ⟨e, he, hs⟩))
    rw [Link.stored, hconditions]
  rw [stored, hfilter, hlinks]

end Request

end QueryCompiler
