import QueryCompiler.Proofs.Sql.Dependence
import QueryCompiler.Proofs.Sql.Outside
import QueryCompiler.Proofs.Sql.Rendering

/-!
# Values and the structure of a statement

A statement is a template whose holes are filled with literals. The template of a statement
depends on the request without its values, the `outline`: requests of one outline are written by
filling one template.

1. `spread_template`: a statement is its own template, filled with its own literals.
2. `conditions_outline`: a filter and its outline have one template, by induction into the groups.
3. `body_outline`: so have tables and filter.
4. `isFilled_of_keeps`: a statement that keeps a scanner outside fills its template.

Main statement: `fill_one_template`.
-/

namespace QueryCompiler

open Outcome Text Predicate

/-! ## Templates -/

/-- A part of a template: fixed text, or a hole for a literal. -/
inductive Slot
  | fixed (s : String)
  | hole
deriving DecidableEq

/-- A text with holes. -/
abbrev Template := List Slot

namespace Template

def holes (t : Template) : Nat := t.countP (· = .hole)

/-- The characters of a filled template, each with the note whether it belongs to the template. -/
def spread : Template → List String → List (Char × Bool)
  | [], _ => []
  | .fixed s :: t, fillings => s.toList.map (·, true) ++ spread t fillings
  | .hole :: t, [] => spread t []
  | .hole :: t, filling :: fillings => filling.toList.map (·, false) ++ spread t fillings

/-- A text is a template filled for some scalars: there is one hole for each scalar, the filling is
what the scalar is written as, a numeral or a literal in single quotes, and a scanner is outside
before and after every character of the template. -/
structure IsFilled (t : Template) (scalars : List Scalar) (fillings : List String)
    (text : String) : Prop where
  holes : t.holes = scalars.length
  renders : List.Forall₂ (fun s filling => ∃ l, Literal.Renders s l ∧ filling = l.text)
    scalars fillings
  literal : ∀ filling ∈ fillings, IsLiteral filling.toList
  fills : text.toList = (t.spread fillings).map (·.1)
  outside : ∀ before c after, t.spread fillings = before ++ (c, true) :: after →
    (Mode.outside.scan (before.map (·.1))).inLiteral = false ∧
      Mode.outside.scan (before.map (·.1) ++ [c]) = .outside
  ended : (Mode.outside.scan text.toList).inLiteral = false

end Template

/-- The slot of a piece. -/
def Piece.slot : Piece → Slot
  | .literal _ => .hole
  | p => .fixed p.text

namespace Sql

/-- A statement without its literals. -/
def template (q : Sql) : Template := q.map Piece.slot

theorem template_append (q q' : Sql) : template (q ++ q') = template q ++ template q' :=
  List.map_append

theorem holes_template (q : Sql) : (template q).holes = (literals q).length := by
  induction q with
  | nil => rfl
  | cons p q ih =>
    cases p <;> simpa [template, Template.holes, literals, Piece.slot] using ih

/-- A statement is its own template, filled with its own literals. -/
theorem spread_template (q : Sql) :
    (template q).spread ((literals q).map Literal.text) = marked q := by
  induction q with
  | nil => rfl
  | cons p q ih =>
    have hcons : marked (p :: q) = p.text.toList.map (·, p.isFixed) ++ marked q :=
      List.flatMap_cons
    rw [hcons, ← ih]
    cases p <;> rfl

theorem isFilled_of_keeps {q : Sql} {ss : List Scalar} (h : q.Keeps)
    (hs : List.Forall₂ Literal.Renders ss q.literals) :
    (template q).IsFilled ss (q.literals.map Literal.text) q.toText := by
  obtain ⟨houtside, hended⟩ := h .outside rfl
  refine ⟨?_, ?_, ?_, ?_, ?_, hended⟩
  · rw [holes_template, hs.length_eq]
  · rw [List.forall₂_map_right_iff]
    exact hs.imp fun s l hl => ⟨l, hl, rfl⟩
  · intro filling hfilling
    obtain ⟨l, hl, rfl⟩ := List.mem_map.1 hfilling
    exact Literal.forall_isLiteral hs l hl
  · rw [spread_template, map_fst_marked]
  · intro before c after hsplit
    rw [spread_template] at hsplit
    rw [hsplit] at houtside
    exact outsideAt_split houtside

/-- Parts with one template each have one template between fixed words. -/
theorem template_separated (s : String) (qs : List Sql) :
    template (separated s qs) = List.intercalate [.fixed s] (qs.map template) := by
  induction qs with
  | nil => rfl
  | cons q qs ih =>
    cases qs with
    | nil => simp [separated]
    | cons q' qs =>
      rw [separated_cons_cons, template_append]
      show template q ++ .fixed s :: template (separated s (q' :: qs)) = _
      rw [ih]
      simp [List.intercalate_cons_cons]

end Sql

/-! ## Outlines -/

/-- A value without its scalars, which all become the same one. -/
def Value.outline : Value → Value
  | .literal _ => .literal (.bool false)
  | .list items => .list (items.map fun _ => .bool false)
  | v => v

def Comparison.outline (c : Comparison) : Comparison := { c with value := c.value.outline }

namespace Predicate

mutual

/-- A predicate without its scalars. -/
def outlineOf : Predicate → Predicate
  | comparison connector c => comparison connector c.outline
  | group connector children => group connector (outline children)

/-- A sequence without its scalars. -/
def outline : List Predicate → List Predicate
  | [] => []
  | p :: ps => outlineOf p :: outline ps

end

end Predicate

def Link.outline (l : Link) : Link := { l with conditions := Predicate.outline l.conditions }

/-- A request without its scalars. Requests of one outline differ in their scalars alone. -/
def Request.outline (r : Request) : Request :=
  { r with
    links := r.links.map Link.outline
    conditions := Predicate.outline r.conditions }

/-! ## The template of a condition -/

/-- Operands that are the same up to their literals. -/
inductive Operand.Alike : Operand → Operand → Prop
  | none : Alike none none
  | single {q q' : Sql} (h : q.template = q'.template) : Alike (single q) (single q')
  | list {items items' : List Sql} (h : items.map Sql.template = items'.map Sql.template) :
      Alike (list items) (list items')

namespace Compiler

open Sql

variable {k : Compiler} {r : Request} {c : Comparison} {q : Sql}

/-- The scalar of all outlines can be written for every type. -/
theorem exists_coerce_false (type : DomainType) :
    ∃ l, Literal.coerce type (.bool false) = .ok l := by
  have hfinite : (Decimal.Binary.ofFloat 0.0).isFinite = true := by decide +kernel
  cases type with
  | float =>
    refine ⟨.decimal 0.0, ?_⟩
    show Literal.ofFloat 0.0 = _
    unfold Literal.ofFloat
    rw [if_pos hfinite]
  | string | json | dateTime | integer | timestamp | other => exact ⟨_, rfl⟩

theorem template_literals (ls : List Literal) :
    (ls.map fun l => [Piece.literal l]).map Sql.template = ls.map fun _ => [.hole] := by
  rw [List.map_map]
  rfl

/-- Whatever operand a comparison has, its outline has the same one up to literals. -/
theorem operand_outline {o : Operand} (h : k.operand r c = .ok o) :
    ∃ o', k.operand r c.outline = .ok o' ∧ o.Alike o' := by
  obtain ⟨table, field, op, value⟩ := c
  unfold operand at h ⊢
  unfold Comparison.outline
  by_cases ht : op.takesValue = true
  · rw [if_pos ht] at h ⊢
    cases value with
    | none =>
      cases h
      exact ⟨_, rfl, .none⟩
    | literal s =>
      simp only [bind_eq_ok_iff, pure_eq_ok] at h
      obtain ⟨name, hname, type, htype, l, -, ho⟩ := h
      cases ho
      obtain ⟨l', hl'⟩ := exists_coerce_false type
      refine ⟨.single [.literal l'], ?_, .single rfl⟩
      simp only [Value.outline, bind_eq_ok_iff, pure_eq_ok]
      exact ⟨name, hname, type, htype, l', hl', rfl⟩
    | column aliasName field =>
      refine ⟨o, h, ?_⟩
      obtain ⟨table, -, hq⟩ := bind_eq_ok_iff.1 h
      split at hq
      · cases hq
        exact .single rfl
      · cases hq
    | list items =>
      simp only [bind_eq_ok_iff, pure_eq_ok] at h
      obtain ⟨ls, hls, ho⟩ := h
      cases ho
      have hls' : (items.map fun _ => Scalar.bool false).mapM Literal.element =
          .ok (ls.map fun _ => Literal.integer 0) := by
        rw [mapM_eq_ok_iff, List.forall₂_map_left_iff, List.forall₂_map_right_iff]
        exact (mapM_eq_ok_iff.1 hls).imp fun _ _ _ => rfl
      refine ⟨.list ((ls.map fun _ => .integer 0).map fun l => [.literal l]), ?_, .list ?_⟩
      · simp only [Value.outline, bind_eq_ok_iff, pure_eq_ok]
        exact ⟨_, hls', rfl⟩
      · rw [template_literals, template_literals, List.map_map]
        rfl
  · rw [if_neg ht] at h ⊢
    cases h
    exact ⟨_, rfl, .none⟩

theorem template_listBody {items items' : List Sql}
    (h : items.map Sql.template = items'.map Sql.template) :
    (k.listBody items).template = (k.listBody items').template := by
  have hnil : items = [] ↔ items' = [] := by
    rw [← List.map_eq_nil_iff (f := Sql.template), h, List.map_eq_nil_iff]
  unfold listBody
  by_cases hitems : items = []
  · rw [if_pos hitems, if_pos (hnil.1 hitems)]
  · rw [if_neg hitems, if_neg (mt hnil.2 hitems), template_separated, template_separated, h]

theorem fragment_alike {column : Sql} {op : Operator} {o o' : Operand} (ho : o.Alike o')
    (h : k.fragment column op o = .ok q) :
    ∃ q', k.fragment column op o' = .ok q' ∧ q.template = q'.template := by
  have hsingle {s : Sql} (hs : o.single? op = .ok s) :
      ∃ s', o'.single? op = .ok s' ∧ s.template = s'.template := by
    cases ho with
    | none | list _ => cases hs
    | single htemplate =>
      cases hs
      exact ⟨_, rfl, htemplate⟩
  have hlist {items : List Sql} (hs : o.list? op = .ok items) :
      ∃ items', o'.list? op = .ok items' ∧
        (k.listBody items).template = (k.listBody items').template := by
    cases ho with
    | none | single _ => cases hs
    | list htemplate =>
      cases hs
      exact ⟨_, rfl, template_listBody htemplate⟩
  cases op with
  | isNull | isNotNull => exact ⟨q, h, rfl⟩
  | greater | less | greaterEqual | lessEqual | equal | notEqual | like | likeAnyCase =>
    obtain ⟨s, hs, hq⟩ := bind_eq_ok_iff.1 h
    cases hq
    obtain ⟨s', hs', htemplate⟩ := hsingle hs
    refine ⟨_, bind_eq_ok_iff.2 ⟨s', hs', rfl⟩, ?_⟩
    simp only [template, List.map_append, List.map_cons] at htemplate ⊢
    rw [htemplate]
  | isIn | isNotIn =>
    obtain ⟨items, hs, hq⟩ := bind_eq_ok_iff.1 h
    cases hq
    obtain ⟨items', hs', htemplate⟩ := hlist hs
    refine ⟨_, bind_eq_ok_iff.2 ⟨items', hs', rfl⟩, ?_⟩
    simp only [template, List.map_append, List.map_cons] at htemplate ⊢
    rw [htemplate]

theorem comparison_outline (h : k.comparison r c = .ok q) :
    ∃ q', k.comparison r c.outline = .ok q' ∧ q.template = q'.template := by
  obtain ⟨o, ho, hq⟩ := bind_eq_ok_iff.1 h
  obtain ⟨o', ho', halike⟩ := operand_outline ho
  obtain ⟨q', hq', htemplate⟩ := fragment_alike halike hq
  exact ⟨q', bind_eq_ok_iff.2 ⟨o', ho', hq'⟩, htemplate⟩

/-- A filter and its outline have one template. -/
theorem conditions_outline {ps : List Predicate} (h : k.conditions r ps = .ok q) :
    ∃ q', k.conditions r (outline ps) = .ok q' ∧ q.template = q'.template := by
  induction ps using sequenceInduction generalizing q with
  | nil => exact ⟨q, h, rfl⟩
  | comparison connector c ps ih =>
    obtain ⟨q₁, q₂, h₁, h₂, rfl⟩ := conditions_comparison_eq_ok_iff.1 h
    obtain ⟨q₁', h₁', ht₁⟩ := comparison_outline h₁
    obtain ⟨q₂', h₂', ht₂⟩ := ih h₂
    refine ⟨_, conditions_comparison_eq_ok_iff.2 ⟨q₁', q₂', h₁', h₂', rfl⟩, ?_⟩
    simp only [template_append, ht₁, ht₂]
  | group connector children ps ihc ih =>
    obtain ⟨q₁, q₂, h₁, h₂, rfl⟩ := conditions_group_eq_ok_iff.1 h
    obtain ⟨q₁', h₁', ht₁⟩ := ihc h₁
    obtain ⟨q₂', h₂', ht₂⟩ := ih h₂
    refine ⟨_, conditions_group_eq_ok_iff.2 ⟨q₁', q₂', h₁', h₂', rfl⟩, ?_⟩
    simp only [template_append, ht₁, ht₂]

/-! ## The template of tables and filter -/

/-- Scalars have no part in how a request is looked up. -/
theorem conditions_of_outline (k : Compiler) (r : Request) (ps : List Predicate) :
    k.conditions r.outline ps = k.conditions r ps :=
  conditions_congr fun _ _ => ⟨rfl, fun _ _ _ => rfl⟩

theorem outline_eq_nil_iff {ps : List Predicate} : outline ps = [] ↔ ps = [] := by
  cases ps with
  | nil => exact Iff.rfl
  | cons p ps =>
    constructor
    · rintro ⟨⟩
    · rintro ⟨⟩

theorem linkConditions_outline {link : Link} (h : k.linkConditions r link = .ok q) :
    ∃ q', k.linkConditions r.outline link.outline = .ok q' ∧ q.template = q'.template := by
  rcases linkConditions_eq_ok_iff.1 h with ⟨hnil, rfl⟩ | ⟨hne, q₁, h₁, rfl⟩
  · exact ⟨[], linkConditions_eq_ok_iff.2 (.inl ⟨outline_eq_nil_iff.2 hnil, rfl⟩), rfl⟩
  · obtain ⟨q₁', h₁', htemplate⟩ := conditions_outline h₁
    rw [← conditions_of_outline] at h₁'
    refine ⟨_, linkConditions_eq_ok_iff.2
      (.inr ⟨mt outline_eq_nil_iff.1 hne, q₁', h₁', rfl⟩), ?_⟩
    simp only [template_append, htemplate]

theorem joinLine_outline {table : Nat} {link : Link} (h : k.joinLine r table link = .ok q) :
    ∃ q', k.joinLine r.outline table link.outline = .ok q' ∧ q.template = q'.template := by
  obtain ⟨name, q₁, hname, h₁, rfl⟩ := joinLine_eq_ok_iff.1 h
  obtain ⟨q₁', h₁', htemplate⟩ := linkConditions_outline h₁
  refine ⟨_, joinLine_eq_ok_iff.2 ⟨name, q₁', hname, h₁', rfl⟩, ?_⟩
  simp only [template_append, htemplate]
  rfl

theorem joinLines_outline {es : List (Nat × Link)} (h : k.joinLines r es = .ok q) :
    ∃ q', k.joinLines r.outline (es.map fun e => (e.1, e.2.outline)) = .ok q' ∧
      q.template = q'.template := by
  induction es generalizing q with
  | nil => exact ⟨q, h, rfl⟩
  | cons e es ih =>
    obtain ⟨q₁, q₂, h₁, h₂, rfl⟩ := joinLines_cons_eq_ok_iff.1 h
    obtain ⟨q₁', h₁', ht₁⟩ := joinLine_outline h₁
    obtain ⟨q₂', h₂', ht₂⟩ := ih h₂
    refine ⟨_, joinLines_cons_eq_ok_iff.2 ⟨q₁', q₂', h₁', h₂', rfl⟩, ?_⟩
    simp only [template_append, ht₁, ht₂]

theorem filterLine_outline (h : k.filterLine r = .ok q) :
    ∃ q', k.filterLine r.outline = .ok q' ∧ q.template = q'.template := by
  rcases filterLine_eq_ok_iff.1 h with ⟨hnil, rfl⟩ | ⟨hne, q₁, h₁, rfl⟩
  · exact ⟨[], filterLine_eq_ok_iff.2 (.inl ⟨outline_eq_nil_iff.2 hnil, rfl⟩), rfl⟩
  · obtain ⟨q₁', h₁', htemplate⟩ := conditions_outline h₁
    rw [← conditions_of_outline] at h₁'
    refine ⟨_, filterLine_eq_ok_iff.2
      (.inr ⟨mt outline_eq_nil_iff.1 hne, q₁', h₁', rfl⟩), ?_⟩
    simp only [template_append, htemplate]

/-- Tables and filter of a request and of its outline have one template. -/
theorem body_outline (h : k.body r = .ok q) :
    ∃ q', k.body r.outline = .ok q' ∧ q.template = q'.template := by
  obtain ⟨source, line, hs, hl, rfl⟩ := body_eq_ok_iff.1 h
  obtain ⟨name, lines, hname, hlines, rfl⟩ := source_eq_ok_iff.1 hs
  obtain ⟨lines', hlines', htlines⟩ := joinLines_outline hlines
  obtain ⟨line', hl', htline⟩ := filterLine_outline hl
  have hs' : k.source r.outline = .ok ([.words "FROM ", .table name 0] ++ lines') :=
    source_eq_ok_iff.2 ⟨name, lines', hname, hlines', rfl⟩
  refine ⟨_, body_eq_ok_iff.2 ⟨_, line', hs', hl', rfl⟩, ?_⟩
  simp only [template_append, htlines, htline]

/-! ## Statements -/

section

variable {r' : Request} (houtline : r.outline = r'.outline)

include houtline

/-- Requests of one outline have one template for tables and filter. -/
theorem body_template_eq {b b' : Sql} (h : k.body r = .ok b) (h' : k.body r' = .ok b') :
    b.template = b'.template := by
  obtain ⟨b₁, hb₁, htemplate⟩ := body_outline h
  obtain ⟨b₂, hb₂, htemplate'⟩ := body_outline h'
  rw [houtline, hb₂] at hb₁
  cases hb₁
  exact htemplate.trans htemplate'.symm

theorem select_template_eq {q' : Sql} (h : k.select r = .ok q) (h' : k.select r' = .ok q') :
    q.template = q'.template := by
  obtain ⟨-, -, b, hb, rfl⟩ := select_eq_ok_iff.1 h
  obtain ⟨-, -, b', hb', rfl⟩ := select_eq_ok_iff.1 h'
  have hdistinct : distinctWords r = distinctWords r' := by
    show distinctWords r.outline = distinctWords r'.outline
    rw [houtline]
  have hselect : selectList r = selectList r' := by
    show selectList r.outline = selectList r'.outline
    rw [houtline]
  have horder : orderLine r = orderLine r' := by
    show orderLine r.outline = orderLine r'.outline
    rw [houtline]
  have hlimit : limitLine r = limitLine r' := by
    show limitLine r.outline = limitLine r'.outline
    rw [houtline]
  simp only [template_append, hdistinct, hselect, horder, hlimit,
    body_template_eq houtline hb hb']

theorem count_template_eq {q' : Sql} (h : k.count r = .ok q) (h' : k.count r' = .ok q') :
    q.template = q'.template := by
  obtain ⟨-, b, hb, rfl⟩ := count_eq_ok_iff.1 h
  obtain ⟨-, b', hb', rfl⟩ := count_eq_ok_iff.1 h'
  have hdistinct : distinctWords r = distinctWords r' := by
    show distinctWords r.outline = distinctWords r'.outline
    rw [houtline]
  simp only [template_append, hdistinct, body_template_eq houtline hb hb']

end

theorem comparisons_outline (ps : List Predicate) :
    comparisons (outline ps) = (comparisons ps).map Comparison.outline := by
  induction ps using sequenceInduction with
  | nil => rfl
  | comparison connector c ps ih =>
    rw [comparisons_comparison_cons, List.map_cons, ← ih]
    rfl
  | group connector children ps ihc ih =>
    rw [comparisons_group_cons, List.map_append, ← ihc, ← ih]
    rfl

theorem fieldNames_outline (r : Request) : r.outline.fieldNames = r.fieldNames := by
  have hfields (ps : List Predicate) :
      (comparisons (outline ps)).map (·.field) = (comparisons ps).map (·.field) := by
    rw [comparisons_outline, List.map_map]
    rfl
  have hlink (l : Link) : l.outline.fieldNames = l.fieldNames := by
    unfold Link.fieldNames Link.outline
    rw [hfields]
  have hlinks : r.outline.links.entries.flatMap (fun e => e.2.fieldNames) =
      r.links.entries.flatMap fun e => e.2.fieldNames := by
    show (r.links.entries.map fun e => (e.1, e.2.outline)).flatMap _ = _
    rw [List.flatMap_map]
    simp only [hlink]
  have hconditions : (comparisons r.outline.conditions).map (·.field) =
      (comparisons r.conditions).map (·.field) := hfields r.conditions
  unfold Request.fieldNames
  rw [hlinks, hconditions]
  rfl

/-- The values of a request cannot change the structure of its statements: two requests that
differ in their scalars alone are written by filling one template, for the rows as for their
number. -/
theorem fill_one_template (k : Compiler) (r r' : Request)
    (hk : ∀ name ∈ k.catalog.tableNames, isIdentifier name = true)
    (hr : ∀ field ∈ r.fieldNames, isIdentifier field = true)
    (houtline : r.outline = r'.outline) :
    (∀ q q', k.select r = .ok q → k.select r' = .ok q' →
      ∃ (t : Template) (fillings fillings' : List String),
        t.IsFilled r.scalars fillings q.toText ∧ t.IsFilled r'.scalars fillings' q'.toText) ∧
    ∀ q q', k.count r = .ok q → k.count r' = .ok q' →
      ∃ (t : Template) (fillings fillings' : List String),
        t.IsFilled r.scalars fillings q.toText ∧ t.IsFilled r'.scalars fillings' q'.toText := by
  have hr' : ∀ field ∈ r'.fieldNames, isIdentifier field = true := by
    rw [← fieldNames_outline, ← houtline, fieldNames_outline]
    exact hr
  constructor
  · intro q q' h h'
    have hfilled := isFilled_of_keeps (keeps_select hk hr h) (renders_select h)
    have hfilled' := isFilled_of_keeps (keeps_select hk hr' h') (renders_select h')
    rw [← select_template_eq houtline h h'] at hfilled'
    exact ⟨_, _, _, hfilled, hfilled'⟩
  · intro q q' h h'
    have hfilled := isFilled_of_keeps (keeps_count hk hr h) (renders_count h)
    have hfilled' := isFilled_of_keeps (keeps_count hk hr' h') (renders_count h')
    rw [← count_template_eq houtline h h'] at hfilled'
    exact ⟨_, _, _, hfilled, hfilled'⟩

/-- The sample with other values, which try to end their literals. -/
def hostile : Request :=
  { Request.sample with
    links := ⟨[
      (1, ⟨.left, 0, "id", "user_id", [
        .comparison none ⟨1, "status", .equal, .literal (.text "' OR '1'='1")⟩,
        .group (some .and) [.comparison none ⟨1, "total", .greater, .column "user" "credit"⟩]]⟩),
      (2, ⟨.inner, 1, "id", "order_id", []⟩)], by decide⟩
    conditions := [
      .comparison none ⟨0, "id", .isIn, .list [.text "\\'); --", .bool true]⟩,
      .group (some .or) [
        .comparison none ⟨2, "price", .lessEqual, .literal (.int (-5))⟩,
        .comparison (some .and) ⟨0, "name", .likeAnyCase, .literal (.text "\\")⟩]] }

/-- The sample and its hostile variant are compiled to fillings of one template. -/
theorem fill_one_template_hostile :
    ∃ q q' : Sql, shop.select .sample = .ok q ∧ shop.select hostile = .ok q' ∧
      ∃ (t : Template) (fillings fillings' : List String),
        t.IsFilled Request.sample.scalars fillings q.toText ∧
          t.IsFilled hostile.scalars fillings' q'.toText := by
  obtain ⟨q, hq⟩ : ∃ q, shop.select .sample = .ok q := ⟨_, rfl⟩
  obtain ⟨q', hq'⟩ : ∃ q', shop.select hostile = .ok q' := ⟨_, rfl⟩
  have hfill := fill_one_template shop .sample hostile (by decide) (by decide) rfl
  exact ⟨q, q', hq, hq', hfill.1 q q' hq hq'⟩

end Compiler

end QueryCompiler
