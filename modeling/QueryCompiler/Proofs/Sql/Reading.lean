import QueryCompiler.Proofs.Draft.Connected
import QueryCompiler.Proofs.Sql.Fragment

/-!
# Reading a filter back from its text

The text of a well-connected filter is an expression: items with connectors between them, where an
item is the text of a comparison or an expression in brackets. There is one way only to read it.
Brackets of groups, connectors and the texts of comparisons are found in it whatever the literals
hold, because a comparison begins neither with a bracket nor with a blank and ends in front of what
can follow it (`IsFragment.unique`).

1. `derives_conditions`: a well-connected filter is written as an expression.
2. `matches_of_append`: the start of a text is read as one filter at most, by induction into its
   groups, where a group ends at the bracket that the sequence in it leaves over.
3. `Matches.toText_eq`: filters that match are written alike.

Main statement: `conditions_readable`.
-/

namespace QueryCompiler

open Outcome Predicate Text

/-! ## Expressions -/

/-- What the parts of a filter are read as. -/
inductive Phrase
  | expression
  | rest
  | item

/-- `expression ::= item rest`, where `rest` is empty or `connector item rest`, and
`item ::= fragment | ( expression )`. -/
inductive Derives (Fragment : String → Prop) : Phrase → String → Prop
  | expression {s s' : String} (h : Derives Fragment .item s) (h' : Derives Fragment .rest s') :
      Derives Fragment .expression (s ++ s')
  | nothing : Derives Fragment .rest ""
  | further (connector : Connector) {s s' : String} (h : Derives Fragment .item s)
      (h' : Derives Fragment .rest s') :
      Derives Fragment .rest (" " ++ connector.keyword ++ " " ++ s ++ s')
  | fragment {s : String} (h : Fragment s) : Derives Fragment .item s
  | brackets {s : String} (h : Derives Fragment .expression s) :
      Derives Fragment .item ("(" ++ s ++ ")")

/-- A sequence is read as an expression, what follows its first elements as the rest of one. -/
def Phrase.ofSequence (first : Bool) : Phrase := if first then expression else rest

namespace Compiler

open Sql

variable {k : Compiler} {r : Request} {c : Comparison} {q q₁ q₂ q' : Sql}
  {first : Bool} {connector connector' : Option Connector} {children ps ps' : List Predicate}
  {rest rest' : List Char}

/-- The texts of the comparisons of a filter. -/
def FragmentOf (k : Compiler) (r : Request) (ps : List Predicate) (s : String) : Prop :=
  ∃ c ∈ comparisons ps, ∃ q, k.comparison r c = .ok q ∧ q.toText = s

theorem derives_cons {F : String → Prop} {s s' : String}
    (hconnector : connector = none ↔ first = true) (hitem : Derives F .item s)
    (hrest : Derives F .rest s') :
    Derives F (.ofSequence first) ((connectorSql connector).toText ++ s ++ s') := by
  cases first with
  | true =>
    obtain rfl := hconnector.2 rfl
    have hexpression : Derives F .expression (s ++ s') := .expression hitem hrest
    rw [connectorSql, toText_nil, String.empty_append]
    exact hexpression
  | false =>
    cases connector with
    | none => exact absurd (hconnector.1 rfl) Bool.false_ne_true
    | some connector =>
      rw [connectorSql, toText_singleton]
      exact .further connector hitem hrest

theorem derives_conditions {F : String → Prop} (hps : Linked first ps)
    (hF : ∀ c ∈ comparisons ps, ∀ q, k.comparison r c = .ok q → F q.toText)
    (h : k.conditions r ps = .ok q) : Derives F (.ofSequence first) q.toText := by
  induction ps using sequenceInduction generalizing first q with
  | nil =>
    obtain rfl := linked_nil.1 hps
    cases h
    exact .nothing
  | comparison connector c ps ih =>
    obtain ⟨hconnector, hps⟩ := linked_comparison_cons.1 hps
    rw [comparisons_comparison_cons, List.forall_mem_cons] at hF
    obtain ⟨q₁, q₂, h₁, h₂, rfl⟩ := conditions_comparison_eq_ok_iff.1 h
    have hitem : Derives F .item q₁.toText := .fragment (hF.1 q₁ h₁)
    rw [toText_append, toText_append]
    exact derives_cons hconnector hitem (ih hps hF.2 h₂)
  | group connector children ps ihc ih =>
    obtain ⟨hconnector, hchildren, hps⟩ := linked_group_cons.1 hps
    rw [comparisons_group_cons, List.forall_mem_append] at hF
    obtain ⟨q₁, q₂, h₁, h₂, rfl⟩ := conditions_group_eq_ok_iff.1 h
    have hitem : Derives F .item ("(" ++ q₁.toText ++ ")") := .brackets (ihc hchildren hF.1 h₁)
    have htext := derives_cons hconnector hitem (ih hps hF.2 h₂)
    simpa only [toText_append, toText_singleton, Piece.text, String.append_assoc] using htext

/-! ## Reading -/

/-- Two filters are grouped alike and have the same connectors, and where one has a comparison, the
other has one with the same text. -/
inductive Matches (k : Compiler) (r : Request) : List Predicate → List Predicate → Prop
  | nil : Matches k r [] []
  | comparison (connector : Option Connector) {c c' : Comparison} {q q' : Sql}
      {ps ps' : List Predicate} (h : k.comparison r c = .ok q) (h' : k.comparison r c' = .ok q')
      (htext : q.toText = q'.toText) (hps : Matches k r ps ps') :
      Matches k r (.comparison connector c :: ps) (.comparison connector c' :: ps')
  | group (connector : Option Connector) {children children' ps ps' : List Predicate}
      (hchildren : Matches k r children children') (hps : Matches k r ps ps') :
      Matches k r (.group connector children :: ps) (.group connector children' :: ps')

/-- What comes behind a sequence. -/
def EndsSequence (rest : List Char) : Prop := rest = [] ∨ ∃ rest', rest = ')' :: rest'

theorem toList_connectorSql (connector : Connector) :
    ∃ c ∈ ['A', 'O'], ∃ cs, (connectorSql (some connector)).toText.toList = ' ' :: c :: cs := by
  cases connector with
  | and => exact ⟨'A', by decide, ['N', 'D', ' '], by decide⟩
  | or => exact ⟨'O', by decide, ['R', ' '], by decide⟩

/-- What follows the first elements of a sequence begins with a connector. -/
theorem toList_conditions_cons {p : Predicate} (hps : Linked false (p :: ps))
    (h : k.conditions r (p :: ps) = .ok q) :
    ∃ c ∈ ['A', 'O'], ∃ cs, q.toText.toList = ' ' :: c :: cs := by
  have hconnector : ∃ connector q', connector ≠ none ∧ q = connectorSql connector ++ q' := by
    cases p with
    | comparison connector c =>
      obtain ⟨q₁, q₂, -, -, rfl⟩ := conditions_comparison_eq_ok_iff.1 h
      refine ⟨connector, q₁ ++ q₂, fun hnone => ?_, List.append_assoc ..⟩
      exact Bool.false_ne_true ((linked_comparison_cons.1 hps).1.1 hnone)
    | group connector children =>
      obtain ⟨q₁, q₂, -, -, rfl⟩ := conditions_group_eq_ok_iff.1 h
      refine ⟨connector, [.words "("] ++ q₁ ++ [.words ")"] ++ q₂, fun hnone => ?_, by simp⟩
      exact Bool.false_ne_true ((linked_group_cons.1 hps).1.1 hnone)
  obtain ⟨connector, q', hsome, rfl⟩ := hconnector
  obtain ⟨connector, rfl⟩ := Option.ne_none_iff_exists'.1 hsome
  obtain ⟨c, hc, cs, hcs⟩ := toList_connectorSql connector
  refine ⟨c, hc, cs ++ q'.toText.toList, ?_⟩
  rw [toText_append, String.toList_append, hcs]
  rfl

/-- A sequence that is over has no further elements. -/
theorem append_ne_of_endsSequence {p : Predicate} (hps : Linked false (p :: ps))
    (h : k.conditions r (p :: ps) = .ok q) (hrest : EndsSequence rest) :
    q.toText.toList ++ rest' ≠ rest := by
  obtain ⟨c, -, cs, hcs⟩ := toList_conditions_cons hps h
  rw [hcs]
  intro heq
  rcases hrest with rfl | ⟨_, rfl⟩
  · cases heq
  · cases heq

/-- What is written behind a comparison can follow it. -/
theorem followsFragment_conditions (hps : Linked false ps) (h : k.conditions r ps = .ok q)
    (hrest : EndsSequence rest) : FollowsFragment (q.toText.toList ++ rest) := by
  cases ps with
  | nil =>
    cases h
    rcases hrest with rfl | ⟨rest', rfl⟩
    · exact .nothing
    · exact .bracket rest'
  | cons p ps =>
    obtain ⟨c, hc, cs, hcs⟩ := toList_conditions_cons hps h
    rw [hcs]
    exact .connector c hc (cs ++ rest)

theorem connector_unique (h : connector = none ↔ first = true)
    (h' : connector' = none ↔ first = true)
    (heq : (connectorSql connector).toText.toList ++ rest
      = (connectorSql connector').toText.toList ++ rest') :
    connector = connector' ∧ rest = rest' := by
  have hand : (connectorSql (some .and)).toText.toList = [' ', 'A', 'N', 'D', ' '] := by decide
  have hor : (connectorSql (some .or)).toText.toList = [' ', 'O', 'R', ' '] := by decide
  cases first with
  | true =>
    obtain rfl := h.2 rfl
    obtain rfl := h'.2 rfl
    exact ⟨rfl, List.append_cancel_left heq⟩
  | false =>
    rcases connector with _ | (_ | _)
    · exact absurd (h.1 rfl) Bool.false_ne_true
    all_goals
      rcases connector' with _ | (_ | _)
      · exact absurd (h'.1 rfl) Bool.false_ne_true
      all_goals
        simp only [hand, hor] at heq
        cases heq <;> exact ⟨rfl, rfl⟩

theorem toList_comparison_append :
    (connectorSql connector ++ q₁ ++ q₂).toText.toList ++ rest
      = (connectorSql connector).toText.toList ++
        (q₁.toText.toList ++ (q₂.toText.toList ++ rest)) := by
  simp only [toText_append, String.toList_append, List.append_assoc]

theorem toList_group_append :
    (toText (connectorSql connector ++ [.words "("] ++ q₁ ++ [.words ")"] ++ q₂)).toList ++ rest
      = (connectorSql connector).toText.toList ++
        '(' :: (q₁.toText.toList ++ ')' :: (q₂.toText.toList ++ rest)) := by
  simp only [toText_append, String.toList_append, List.append_assoc]
  rfl

/-- No comparison begins with a bracket. -/
theorem fragment_append_ne_group (h : IsFragment q.toText.toList) :
    q.toText.toList ++ rest ≠ '(' :: rest' := by
  intro heq
  have hstart := h.start
  cases hq : q.toText.toList with
  | nil =>
    rw [hq] at hstart
    exact absurd hstart (by decide)
  | cons c cs =>
    rw [hq] at hstart heq
    cases heq
    rw [List.head?_cons] at hstart
    exact absurd hstart (by decide)

/-- Where a comparison is read first, it is with this connector and this text, and what follows it
is left over. -/
theorem exists_comparison_of_append (hps : Linked first (.comparison connector c :: ps))
    (hps' : Linked first ps') (hc : isIdentifier c.field = true)
    (hc' : ∀ c ∈ comparisons ps', isIdentifier c.field = true) (h₁ : k.comparison r c = .ok q₁)
    (h₂ : k.conditions r ps = .ok q₂) (h' : k.conditions r ps' = .ok q')
    (hrest : EndsSequence rest) (hrest' : EndsSequence rest')
    (heq : (connectorSql connector ++ q₁ ++ q₂).toText.toList ++ rest
      = q'.toText.toList ++ rest') :
    ∃ c' later q₁' q₂', ps' = .comparison connector c' :: later ∧ k.comparison r c' = .ok q₁' ∧
      k.conditions r later = .ok q₂' ∧ q₁.toText = q₁'.toText ∧
      q₂.toText.toList ++ rest = q₂'.toText.toList ++ rest' := by
  have hfragment := isFragment_comparison hc h₁
  obtain ⟨hconnector, hlater⟩ := linked_comparison_cons.1 hps
  rcases ps' with _ | ⟨⟨connector', c'⟩ | ⟨connector', children⟩, later⟩
  · obtain rfl := linked_nil.1 hps'
    cases h'
    have h : k.conditions r (.comparison connector c :: ps) = .ok _ :=
      conditions_comparison_eq_ok_iff.2 ⟨q₁, q₂, h₁, h₂, rfl⟩
    exact absurd heq (append_ne_of_endsSequence hps h hrest')
  · obtain ⟨hconnector', hlater'⟩ := linked_comparison_cons.1 hps'
    obtain ⟨q₁', q₂', h₁', h₂', rfl⟩ := conditions_comparison_eq_ok_iff.1 h'
    rw [comparisons_comparison_cons, List.forall_mem_cons] at hc'
    rw [toList_comparison_append, toList_comparison_append] at heq
    obtain ⟨rfl, hbehind⟩ := connector_unique hconnector hconnector' heq
    obtain ⟨htext, hlast⟩ := hfragment.unique (isFragment_comparison hc'.1 h₁')
      (followsFragment_conditions hlater h₂ hrest)
      (followsFragment_conditions hlater' h₂' hrest') hbehind
    exact ⟨c', later, q₁', q₂', rfl, h₁', h₂', String.toList_injective htext, hlast⟩
  · obtain ⟨hconnector', -, -⟩ := linked_group_cons.1 hps'
    obtain ⟨q₁', q₂', -, -, rfl⟩ := conditions_group_eq_ok_iff.1 h'
    rw [toList_comparison_append, toList_group_append] at heq
    obtain ⟨-, hbehind⟩ := connector_unique hconnector hconnector' heq
    exact absurd hbehind (fragment_append_ne_group hfragment)

/-- Where a group is read first, it is with this connector, and the sequence in it is followed by
the bracket that closes it. -/
theorem exists_group_of_append (hps : Linked first (.group connector children :: ps))
    (hps' : Linked first ps') (hc' : ∀ c ∈ comparisons ps', isIdentifier c.field = true)
    (h₁ : k.conditions r children = .ok q₁) (h₂ : k.conditions r ps = .ok q₂)
    (h' : k.conditions r ps' = .ok q') (hrest' : EndsSequence rest')
    (heq : (toText (connectorSql connector ++ [.words "("] ++ q₁ ++ [.words ")"] ++ q₂)).toList
      ++ rest = q'.toText.toList ++ rest') :
    ∃ children' later q₁' q₂', ps' = .group connector children' :: later ∧
      k.conditions r children' = .ok q₁' ∧ k.conditions r later = .ok q₂' ∧
      q₁.toText.toList ++ ')' :: (q₂.toText.toList ++ rest)
        = q₁'.toText.toList ++ ')' :: (q₂'.toText.toList ++ rest') := by
  obtain ⟨hconnector, -, -⟩ := linked_group_cons.1 hps
  rcases ps' with _ | ⟨⟨connector', c'⟩ | ⟨connector', children'⟩, later⟩
  · obtain rfl := linked_nil.1 hps'
    cases h'
    have h : k.conditions r (.group connector children :: ps) = .ok _ :=
      conditions_group_eq_ok_iff.2 ⟨q₁, q₂, h₁, h₂, rfl⟩
    exact absurd heq (append_ne_of_endsSequence hps h hrest')
  · obtain ⟨hconnector', -⟩ := linked_comparison_cons.1 hps'
    obtain ⟨q₁', q₂', h₁', -, rfl⟩ := conditions_comparison_eq_ok_iff.1 h'
    rw [comparisons_comparison_cons, List.forall_mem_cons] at hc'
    rw [toList_group_append, toList_comparison_append] at heq
    obtain ⟨-, hbehind⟩ := connector_unique hconnector hconnector' heq
    exact absurd hbehind.symm (fragment_append_ne_group (isFragment_comparison hc'.1 h₁'))
  · obtain ⟨hconnector', -, -⟩ := linked_group_cons.1 hps'
    obtain ⟨q₁', q₂', h₁', h₂', rfl⟩ := conditions_group_eq_ok_iff.1 h'
    rw [toList_group_append, toList_group_append] at heq
    obtain ⟨rfl, hbehind⟩ := connector_unique hconnector hconnector' heq
    exact ⟨children', later, q₁', q₂', rfl, h₁', h₂', (List.cons.inj hbehind).2⟩

/-- The start of a text is read as one sequence at most, which also tells what is left over. -/
theorem matches_of_append (hps : Linked first ps) (hps' : Linked first ps')
    (hc : ∀ c ∈ comparisons ps, isIdentifier c.field = true)
    (hc' : ∀ c ∈ comparisons ps', isIdentifier c.field = true)
    (h : k.conditions r ps = .ok q) (h' : k.conditions r ps' = .ok q')
    (hrest : EndsSequence rest) (hrest' : EndsSequence rest')
    (heq : q.toText.toList ++ rest = q'.toText.toList ++ rest') :
    k.Matches r ps ps' ∧ rest = rest' := by
  induction ps using sequenceInduction generalizing first ps' q q' rest rest' with
  | nil =>
    obtain rfl := linked_nil.1 hps
    cases h
    cases ps' with
    | nil =>
      cases h'
      exact ⟨.nil, heq⟩
    | cons p' ps' => exact absurd heq.symm (append_ne_of_endsSequence hps' h' hrest)
  | comparison connector c ps ih =>
    obtain ⟨q₁, q₂, h₁, h₂, rfl⟩ := conditions_comparison_eq_ok_iff.1 h
    rw [comparisons_comparison_cons, List.forall_mem_cons] at hc
    obtain ⟨c', later, q₁', q₂', rfl, h₁', h₂', htext, hlast⟩ :=
      exists_comparison_of_append hps hps' hc.1 hc' h₁ h₂ h' hrest hrest' heq
    rw [comparisons_comparison_cons, List.forall_mem_cons] at hc'
    obtain ⟨hmatches, hend⟩ := ih (linked_comparison_cons.1 hps).2 (linked_comparison_cons.1 hps').2
      hc.2 hc'.2 h₂ h₂' hrest hrest' hlast
    exact ⟨.comparison connector h₁ h₁' htext hmatches, hend⟩
  | group connector children ps ihc ih =>
    obtain ⟨q₁, q₂, h₁, h₂, rfl⟩ := conditions_group_eq_ok_iff.1 h
    rw [comparisons_group_cons, List.forall_mem_append] at hc
    obtain ⟨children', later, q₁', q₂', rfl, h₁', h₂', hbehind⟩ :=
      exists_group_of_append hps hps' hc' h₁ h₂ h' hrest' heq
    rw [comparisons_group_cons, List.forall_mem_append] at hc'
    obtain ⟨-, hchildren, hlater⟩ := linked_group_cons.1 hps
    obtain ⟨-, hchildren', hlater'⟩ := linked_group_cons.1 hps'
    -- The sequence in the brackets is over at the bracket that closes them.
    obtain ⟨hinner, hrests⟩ := ihc hchildren hchildren' hc.1 hc'.1 h₁ h₁' (.inr ⟨_, rfl⟩)
      (.inr ⟨_, rfl⟩) hbehind
    rw [List.cons.injEq] at hrests
    obtain ⟨hmatches, hend⟩ := ih hlater hlater' hc.2 hc'.2 h₂ h₂' hrest hrest' hrests.2
    exact ⟨.group connector hinner hmatches, hend⟩

theorem Matches.toText_eq (hmatches : k.Matches r ps ps') (h : k.conditions r ps = .ok q)
    (h' : k.conditions r ps' = .ok q') : q.toText = q'.toText := by
  induction hmatches generalizing q q' with
  | nil =>
    cases h
    cases h'
    rfl
  | comparison connector hc hc' htext _ ih =>
    obtain ⟨q₁, q₂, h₁, h₂, rfl⟩ := conditions_comparison_eq_ok_iff.1 h
    obtain ⟨q₁', q₂', h₁', h₂', rfl⟩ := conditions_comparison_eq_ok_iff.1 h'
    rw [hc] at h₁
    rw [hc'] at h₁'
    cases h₁
    cases h₁'
    simp only [toText_append, htext, ih h₂ h₂']
  | group connector _ _ ihc ih =>
    obtain ⟨q₁, q₂, h₁, h₂, rfl⟩ := conditions_group_eq_ok_iff.1 h
    obtain ⟨q₁', q₂', h₁', h₂', rfl⟩ := conditions_group_eq_ok_iff.1 h'
    simp only [toText_append, ihc h₁ h₁', ih h₂ h₂']

/-- The tree of a node list is well-connected if the list has a connector at every node but the
first one, and only then. A well-connected filter whose fields are identifiers is written as an
expression, and two of them are written alike if and only if they match: each text is read in one
way only. -/
theorem conditions_readable (k : Compiler) (r : Request) :
    (∀ policy aliases nodes ps, ofNodes policy aliases nodes = .ok ps →
      (WellConnected ps ↔
        ∃ node later, nodes = node :: later ∧ Text.trim node.connector = "" ∧
          ∀ node' ∈ later, Text.trim node'.connector ≠ "")) ∧
      ∀ ps q, WellConnected ps → (∀ c ∈ comparisons ps, isIdentifier c.field = true) →
        k.conditions r ps = .ok q →
          Derives (k.FragmentOf r ps) .expression q.toText ∧
            ∀ ps' q', WellConnected ps' → (∀ c ∈ comparisons ps', isIdentifier c.field = true) →
              k.conditions r ps' = .ok q' → (q.toText = q'.toText ↔ k.Matches r ps ps') := by
  refine ⟨fun _ _ _ _ h => wellConnected_iff_of_ofNodes h, fun ps q hps hc h => ?_⟩
  have hlinked := wellConnected_iff_linked.1 hps
  have hfragment : ∀ c ∈ comparisons ps, ∀ q, k.comparison r c = .ok q →
      k.FragmentOf r ps q.toText := fun c hc q hq => ⟨c, hc, q, hq, rfl⟩
  refine ⟨derives_conditions hlinked hfragment h, fun ps' q' hps' hc' h' => ?_⟩
  constructor
  · intro htext
    have heq : q.toText.toList ++ [] = q'.toText.toList ++ [] := by rw [htext]
    exact (matches_of_append hlinked (wellConnected_iff_linked.1 hps') hc hc' h h' (.inl rfl)
      (.inl rfl) heq).1
  · intro hmatches
    exact hmatches.toText_eq h h'

/-- The filter of the sample, with a number in place of the text that is read as one. -/
def retyped : List Predicate := [
  .comparison none ⟨0, "id", .isIn, .list [.int 7, .text "8'"]⟩,
  .group (some .or) [
    .comparison none ⟨2, "price", .lessEqual, .literal (.int 12)⟩,
    .comparison (some .and) ⟨0, "name", .likeAnyCase, .literal (.text "a\\")⟩]]

/-- Both filters are written alike, hence they match. The nodes are those of the sample without the
last one, whose connector is blank. -/
theorem conditions_readable_sample :
    (∃ ps, ofNodes .autoClose Node.sampleNames (Node.sample.take 4) = .ok ps ∧ WellConnected ps) ∧
      ∃ q, shop.conditions .sample Request.sample.conditions = .ok q ∧
        Derives (shop.FragmentOf .sample Request.sample.conditions) .expression q.toText ∧
          shop.Matches .sample Request.sample.conditions retyped := by
  have hconnected : WellConnected Request.sample.conditions :=
    wellConnected_iff_linked.2 (by simp [Linked, LinkedOf, Request.sample])
  have hconnected' : WellConnected retyped :=
    wellConnected_iff_linked.2 (by simp [Linked, LinkedOf, retyped])
  have htree : ofNodes .autoClose Node.sampleNames (Node.sample.take 4) = .ok _ := rfl
  have hq : shop.conditions .sample Request.sample.conditions = .ok _ := rfl
  have hq' : shop.conditions .sample retyped = .ok _ := rfl
  obtain ⟨hnodes, hconditions⟩ := conditions_readable shop .sample
  obtain ⟨hderives, hmatches⟩ := hconditions _ _ hconnected (by decide) hq
  have htext := hmatches _ _ hconnected' (by decide) hq'
  have hsample : Node.sample.take 4 = _ :: _ := rfl
  have hblank := (hnodes _ _ _ _ htree).2 ⟨_, _, hsample, by decide, by decide⟩
  exact ⟨⟨_, htree, hblank⟩, _, hq, hderives, htext.1 (by decide)⟩

end Compiler

end QueryCompiler
