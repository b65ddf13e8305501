import QueryCompiler.Proofs.Json.Written
import QueryCompiler.Stored.Catalog

/-!
# Catalogs written and read

A catalog comes back from its text: the table of each class, and its fields with the types that
their names stand for. The keys of the text are names of classes and fields, so any of them may have
to be written with escapes; the readers do not look at that.

1. `textual_toJson`: a catalog is kept in texts and objects, three levels deep.
2. `Entity.ofJson?_reread`: an entity comes back, however its keys had to be written.

Main statement: `Catalog.ofJson?_read?`.
-/

namespace QueryCompiler

open Json

namespace Entity

theorem textual_toJson (levels : Nat) (e : Entity) : Textual (levels + 2) e.toJson := by
  refine .object ?_
  rw [List.forall_mem_cons, List.forall_mem_singleton]
  refine ⟨.text e.table, .object ?_⟩
  intro m hm
  obtain ⟨f, -, rfl⟩ := List.mem_map.1 hm
  exact .text f.2.name

theorem fieldsOfJson?_object (e : Entity) (escaped : Bool) :
    fieldsOfJson? (.object escaped (e.fields.entries.map fun f => (f.1, f.2.toJson)))
      = some e.fields := by
  have hmembers : asMembers? DomainType.ofJson?
      (.object false (e.fields.entries.map fun f => (f.1, f.2.toJson)))
        = some (e.fields.entries.map fun f => (f.1, id f.2)) :=
    asMembers?_map fun f _ => DomainType.ofJson?_toJson f.2
  show (asMembers? DomainType.ofJson? (.object false _)).map Sorted.ofList = _
  rw [hmembers]
  simp only [id, List.map_id', Option.map_some, Sorted.ofList_entries]

theorem reread_toJson (e : Entity) : e.toJson.reread
    = .object false [("table", .text e.table),
      ("fields", .object (e.fields.entries.any fun f => isEscaped f.1)
        (e.fields.entries.map fun f => (f.1, f.2.toJson)))] := by
  have hnames : isEscaped "table" = false ∧ isEscaped "fields" = false := by decide
  have hfields : (e.fields.entries.map fun f => (f.1, f.2.toJson)).map
      (fun m => (m.1, m.2.reread)) = e.fields.entries.map fun f => (f.1, f.2.toJson) := by
    rw [List.map_map]
    exact List.map_congr_left fun _ _ => rfl
  rw [toJson, reread, rereadMembers_eq_map, List.map_cons, List.map_singleton, reread,
    rereadMembers_eq_map, hfields, List.any_map, List.any_cons, List.any_cons, hnames.1, hnames.2]
  rfl

theorem ofJson?_reread (e : Entity) : ofJson? e.toJson.reread = some e := by
  rw [reread_toJson]
  simp [ofJson?, record?, member?, required?, optional?, asText?, fieldsOfJson?_object]

end Entity

namespace Catalog

theorem textual_toJson (levels : Nat) (c : Catalog) : Textual (levels + 3) c.toJson := by
  refine .object ?_
  intro m hm
  obtain ⟨e, -, rfl⟩ := List.mem_map.1 hm
  exact e.2.textual_toJson levels

theorem ofJson?_reread (c : Catalog) : ofJson? c.toJson.reread = some c := by
  have hmembers : asMembers? Entity.ofJson?
      (.object false (c.entities.entries.map fun e => (e.1, e.2.toJson.reread)))
        = some (c.entities.entries.map fun e => (e.1, id e.2)) :=
    asMembers?_map (g := fun e : Entity => e.toJson.reread) fun e _ => e.2.ofJson?_reread
  rw [toJson, reread, rereadMembers_eq_map, List.map_map]
  show (asMembers? Entity.ofJson? (.object false
    (c.entities.entries.map fun e => (e.1, e.2.toJson.reread)))).map _ = _
  rw [hmembers]
  simp only [id, List.map_id', Option.map_some, Sorted.ofList_entries]

/-- A catalog comes back from its text. -/
theorem ofJson?_read? (c : Catalog) : (read? c.toJson.compact).bind ofJson? = some c := by
  rw [read?_compact (c.textual_toJson 124), Option.bind_some, ofJson?_reread]

end Catalog

end QueryCompiler
