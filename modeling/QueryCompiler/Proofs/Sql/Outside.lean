import QueryCompiler.Proofs.Sql.Nesting

/-!
# Statements and quotes

Nothing that a compiler writes on its own account contains a quote, if the names of tables and
fields are identifiers. A scanner is therefore outside at each of these characters, whatever the
literals are.

1. `keeps_append`: parts put together keep a scanner outside.
2. `keeps_of_tidy`: so do tidy pieces, one after the other.

Main statements: `keeps_select` and `keeps_count`.
-/

namespace QueryCompiler

open Text

/-! ## Parts that keep a scanner outside -/

/-- The piece is the same whatever the values of a request. -/
def Piece.isFixed : Piece → Bool
  | .literal _ => false
  | _ => true

namespace Sql

/-- The characters of some pieces, each with the note whether it is fixed. -/
def marked (q : Sql) : List (Char × Bool) :=
  q.flatMap fun p => p.text.toList.map (·, p.isFixed)

/-- A scanner that comes to some pieces is outside at their fixed characters and at their end. -/
def KeepsFrom (m : Mode) (q : Sql) : Prop :=
  OutsideAt m q.marked ∧ (m.scan q.toText.toList).inLiteral = false

/-- The same for every scanner that comes from outside. After a literal it need not be over it. -/
def Keeps (q : Sql) : Prop := ∀ m : Mode, m.inLiteral = false → q.KeepsFrom m

theorem marked_append (q q' : Sql) : marked (q ++ q') = marked q ++ marked q' :=
  List.flatMap_append

theorem map_fst_marked (q : Sql) : q.marked.map (·.1) = q.toText.toList := by
  induction q with
  | nil => rfl
  | cons p q ih =>
    have hcons : marked (p :: q) = p.text.toList.map (·, p.isFixed) ++ marked q :=
      List.flatMap_cons
    rw [hcons, List.map_append, ih, toText_cons, String.toList_append, List.map_map]
    simp [Function.comp_def]

theorem keeps_append {q q' : Sql} (h : q.Keeps) (h' : q'.Keeps) : (q ++ q').Keeps := by
  intro m hm
  obtain ⟨houtside, hend⟩ := h m hm
  obtain ⟨houtside', hend'⟩ := h' _ hend
  constructor
  · rw [marked_append, outsideAt_append, map_fst_marked]
    exact ⟨houtside, houtside'⟩
  · rw [toText_append, String.toList_append, Mode.scan_append]
    exact hend'

theorem keeps_nil : Keeps [] := fun _ hm => ⟨trivial, hm⟩

theorem marked_singleton (p : Piece) : marked [p] = p.text.toList.map (·, p.isFixed) := by
  simp [marked]

theorem keeps_singleton {p : Piece} (hp : p.isFixed = true) (h : IsPlain p.text.toList) :
    Keeps [p] := by
  intro m hm
  unfold KeepsFrom
  rw [marked_singleton, toText_singleton, hp]
  exact ⟨outsideAt_of_plain hm h, Mode.scan_of_plain hm h⟩

theorem keeps_literal {l : Literal} (h : IsLiteral l.text.toList) : Keeps [.literal l] := by
  intro m hm
  unfold KeepsFrom
  rw [marked_singleton, toText_singleton, Mode.inLiteral_scan_congr hm]
  exact ⟨outsideAt_loose _ _, scan_of_isLiteral h⟩

theorem keeps_of_tidy {q : Sql} (h : ∀ p ∈ q, p.IsTidy) : q.Keeps := by
  induction q with
  | nil => exact keeps_nil
  | cons p q ih =>
    obtain ⟨hp, hq⟩ := List.forall_mem_cons.1 h
    have hpiece : Keeps [p] := by
      cases p with
      | literal l => exact keeps_literal hp
      | words _ | table _ _ | column _ _ | label _ _ => exact keeps_singleton rfl hp
    exact keeps_append hpiece (ih hq)

end Sql

/-! ## Statements -/

namespace Compiler

variable {k : Compiler} {r : Request} {q : Sql}
  (hk : ∀ name ∈ k.catalog.tableNames, isIdentifier name = true)
  (hr : ∀ field ∈ r.fieldNames, isIdentifier field = true)

include hk hr

theorem keeps_select (h : k.select r = .ok q) : q.Keeps :=
  Sql.keeps_of_tidy (nests_select (fun name hname => isBare_of_isIdentifier (hk name hname))
    (fun field hfield => isBare_of_isIdentifier (hr field hfield)) h).tidy

theorem keeps_count (h : k.count r = .ok q) : q.Keeps :=
  Sql.keeps_of_tidy (nests_count (fun name hname => isBare_of_isIdentifier (hk name hname))
    (fun field hfield => isBare_of_isIdentifier (hr field hfield)) h).tidy

end Compiler

end QueryCompiler
