import QueryCompiler.Draft.Request
import QueryCompiler.Proofs.Draft.Expressible
import QueryCompiler.Proofs.Stored.RoundTrip
import QueryCompiler.Proofs.ValidRequest

/-!
# What typing a draft establishes

Before a request is checked, its filters have been read from nodes. What the nodes leave behind is
more than the types say: no group is empty, and whatever is said to be a column is named by an
alias. Of the faults that the check can find, only those about tables are left.

1. `exists_typed_iff`: a draft can be typed exactly if each of its tokens and filters can be read.
2. `typed_of_comparison`, `typed_of_ofNodes`: what one node establishes, and so what a list of them
   does.
3. `failsOnly_checkPredicates`, `failsOnly_validate`: how the check can still fail.

Main statement: `toRequest_of_readable`.
-/

namespace QueryCompiler

open Outcome Predicate

/-! ## Maps -/

namespace Sorted

variable {κ : Type} [Ord κ] [Std.TransOrd κ] [Std.LawfulEqOrd κ] {ε α β : Type}
  {f : κ → α → Except ε β} {s : Sorted κ α} {t : Sorted κ β}

/-- To write each result at once is to find them all and write them then. -/
theorem foldlM_insert_eq (es : List (κ × α)) (t : Sorted κ β) :
    es.foldlM (fun t e => do return t.insert e.1 (← f e.1 e.2)) t
      = (fun es' : List (κ × β) => es'.foldl (fun t e => t.insert e.1 e.2) t) <$>
          es.mapM fun e => do return (e.1, ← f e.1 e.2) := by
  induction es generalizing t with
  | nil => rfl
  | cons e es ih =>
    rw [List.foldlM_cons, List.mapM_cons]
    cases hf : f e.1 e.2 with
    | error fault => rfl
    | ok b =>
      have htail := ih (t.insert e.1 b)
      simp only [ok_bind, pure_eq_ok] at htail ⊢
      rw [htail]
      cases es.mapM fun e => do Except.ok (e.1, ← f e.1 e.2) <;> rfl

theorem traverse_eq_map (f : κ → α → Except ε β) (s : Sorted κ α) :
    s.traverse f = ofList <$> s.entries.mapM fun e => do return (e.1, ← f e.1 e.2) :=
  foldlM_insert_eq s.entries ∅

theorem exists_traverse_iff :
    (∃ t, s.traverse f = .ok t) ↔ ∀ e ∈ s.entries, ∃ b, f e.1 e.2 = .ok b := by
  rw [traverse_eq_map, exists_map_iff, exists_mapM_iff]
  simp only [exists_bind_pure_iff]

/-- What a map holds after a step, the step has given for an entry of the map before. -/
theorem exists_of_mem_traverse (h : s.traverse f = .ok t) {e : κ × β} (he : e ∈ t.entries) :
    ∃ a, (e.1, a) ∈ s.entries ∧ f e.1 a = .ok e.2 := by
  rw [traverse_eq_map] at h
  obtain ⟨es, hes, rfl⟩ := map_eq_ok_iff.1 h
  obtain ⟨⟨key, a⟩, hmem, hread⟩ := exists_of_mem_of_mapM hes (mem_entries_ofList he)
  obtain ⟨b, hb, rfl⟩ := bind_pure_eq_ok_iff.1 hread
  exact ⟨a, hmem, hb⟩

end Sorted

/-! ## Readable drafts -/

variable {policy : Policy} {aliases : Sorted String Nat}

namespace Draft

/-- All tokens of a draft and all its node lists can be read. -/
structure Readable (policy : Policy) (d : Draft) : Prop where
  kind : ∀ e ∈ d.links.entries, ∃ kind, JoinKind.read e.2.kind = .ok kind
  link : ∀ e ∈ d.links.entries, ∃ ps, ofNodes policy d.aliases e.2.conditions = .ok ps
  filter : ∃ ps, ofNodes policy d.aliases d.conditions = .ok ps
  part : ∀ o ∈ d.order, ∃ part, DatePart.read o.part = .ok part
  direction : ∀ o ∈ d.order, ∃ direction, Direction.read o.direction = .ok direction

end Draft

theorem LinkDraft.exists_toLink_iff {link : LinkDraft} :
    (∃ l, link.toLink policy aliases = .ok l) ↔
      (∃ kind, JoinKind.read link.kind = .ok kind) ∧
        ∃ ps, ofNodes policy aliases link.conditions = .ok ps :=
  exists_bind_bind_pure_iff

theorem LinkDraft.conditions_of_toLink {link : LinkDraft} {l : Link}
    (h : link.toLink policy aliases = .ok l) :
    ofNodes policy aliases link.conditions = .ok l.conditions := by
  obtain ⟨kind, ps, -, hps, rfl⟩ := bind_bind_pure_eq_ok_iff.1 h
  exact hps

theorem OrderDraft.exists_toTerm_iff {o : OrderDraft} :
    (∃ term, o.toTerm = .ok term) ↔
      (∃ part, DatePart.read o.part = .ok part) ∧
        ∃ direction, Direction.read o.direction = .ok direction :=
  exists_bind_bind_pure_iff

namespace Draft

variable {d : Draft} {r : Request}

theorem typed_eq_ok_iff :
    d.typed policy = .ok r ↔
      ∃ links conditions order,
        d.links.traverse (fun _ link => link.toLink policy d.aliases) = .ok links ∧
        ofNodes policy d.aliases d.conditions = .ok conditions ∧
        d.order.mapM OrderDraft.toTerm = .ok order ∧
        r = ⟨d.classes, d.fields, links, conditions, order, d.lines, d.offset, d.distinct,
          d.aliases⟩ := by
  unfold typed
  simp only [bind_eq_ok_iff, pure_eq_ok, Except.ok.injEq]
  constructor
  · rintro ⟨links, hl, conditions, hc, order, ho, rfl⟩
    exact ⟨links, conditions, order, hl, hc, ho, rfl⟩
  · rintro ⟨links, conditions, order, hl, hc, ho, rfl⟩
    exact ⟨links, hl, conditions, hc, order, ho, rfl⟩

/-- A draft can be typed exactly if all of it can be read. -/
theorem exists_typed_iff : (∃ r, d.typed policy = .ok r) ↔ d.Readable policy := by
  have hparts : (∃ r, d.typed policy = .ok r) ↔
      (∃ links, d.links.traverse (fun _ link => link.toLink policy d.aliases) = .ok links) ∧
        (∃ ps, ofNodes policy d.aliases d.conditions = .ok ps) ∧
        ∃ order, d.order.mapM OrderDraft.toTerm = .ok order := by
    simp only [typed_eq_ok_iff]
    constructor
    · rintro ⟨r, links, ps, order, hl, hc, ho, -⟩
      exact ⟨⟨links, hl⟩, ⟨ps, hc⟩, order, ho⟩
    · rintro ⟨⟨links, hl⟩, ⟨ps, hc⟩, order, ho⟩
      exact ⟨_, links, ps, order, hl, hc, ho, rfl⟩
  rw [hparts, Sorted.exists_traverse_iff, exists_mapM_iff]
  simp only [LinkDraft.exists_toLink_iff, OrderDraft.exists_toTerm_iff]
  constructor
  · rintro ⟨hlinks, hfilter, horder⟩
    exact ⟨fun e he => (hlinks e he).1, fun e he => (hlinks e he).2, hfilter,
      fun o ho => (horder o ho).1, fun o ho => (horder o ho).2⟩
  · rintro ⟨hkind, hlink, hfilter, hpart, hdirection⟩
    exact ⟨fun e he => ⟨hkind e he, hlink e he⟩, hfilter,
      fun o ho => ⟨hpart o ho, hdirection o ho⟩⟩

end Draft

/-! ## What nodes establish -/

/-- What is known of a comparison that comes from a node: a value only where the operator takes one,
columns only under the names of tables, and no date-times. -/
structure Comparison.Typed (aliases : Sorted String Nat) (c : Comparison) : Prop where
  unary : c.operator = .isNull ∨ c.operator = .isNotNull → c.value = .none
  named : ∀ aliasName field, c.value = .column aliasName field → aliases.contains aliasName = true
  dateless : ∀ t, .dateTime t ∉ c.value.scalars

/-- At every depth the comparisons are typed and the groups are filled. -/
structure Predicate.Typed (aliases : Sorted String Nat) (ps : List Predicate) : Prop where
  comparison : ∀ connector c, Occurs (.comparison connector c) ps → c.Typed aliases
  group : ∀ connector children, Occurs (.group connector children) ps → children ≠ []

variable {c : Comparison} {ps : List Predicate}

theorem Predicate.Typed.tail {p : Predicate} (h : Predicate.Typed aliases (p :: ps)) :
    Predicate.Typed aliases ps :=
  ⟨fun _ _ hq => h.comparison _ _ hq.cons, fun _ _ hq => h.group _ _ hq.cons⟩

theorem Predicate.Typed.children {connector : Option Connector} {children : List Predicate}
    (h : Predicate.Typed aliases (.group connector children :: ps)) :
    Predicate.Typed aliases children :=
  ⟨fun _ _ hq => h.comparison _ _ (.inside List.mem_cons_self hq),
    fun _ _ hq => h.group _ _ (.inside List.mem_cons_self hq)⟩

theorem Scalar.ne_dateTime_of_ofJson {j : Json} {s : Scalar} (h : ofJson j = .ok s) (t : DateTime) :
    s ≠ dateTime t := by
  rintro rfl
  cases j with
  | int n =>
    simp only [ofJson, Except.ok.injEq] at h
    cases hn : word? n with
    | none => rw [hn] at h; cases h
    | some w => rw [hn] at h; cases h
  | _ => cases h

/-- The forms of a value and what each is typed as. -/
inductive ValueCase (aliases : Sorted String Nat) : Json → Value → Prop
  | null : ValueCase aliases .null .none
  | no : ValueCase aliases (.bool false) .none
  | column {aliasName field : String} (h : aliases.contains aliasName = true) :
      ValueCase aliases (.array [.text aliasName, .text field]) (.column aliasName field)
  | list {items : List Json} {ss : List Scalar} (h : items.mapM Scalar.ofJson = .ok ss) :
      ValueCase aliases (.array items) (.list ss)
  | literal {j : Json} {s : Scalar} (h : Scalar.ofJson j = .ok s) : ValueCase aliases j (.literal s)

theorem valueCase_of_ofJson {j : Json} {v : Value} (h : Value.ofJson aliases j = .ok v) :
    ValueCase aliases j v := by
  unfold Value.ofJson at h
  split at h
  · cases h
    exact .null
  · cases h
    exact .no
  · split at h
    · cases h
      exact .column ‹_›
    · cases h
      exact .list rfl
  · obtain ⟨ss, hss, rfl⟩ := map_eq_ok_iff.1 h
    exact .list hss
  · obtain ⟨s, hs, rfl⟩ := map_eq_ok_iff.1 h
    exact .literal hs

theorem contains_of_ofJson {j : Json} {aliasName field : String}
    (h : Value.ofJson aliases j = .ok (.column aliasName field)) :
    aliases.contains aliasName = true := by
  cases valueCase_of_ofJson h with
  | column hname => exact hname

theorem dateTime_notMem_scalars_of_ofJson {j : Json} {v : Value}
    (h : Value.ofJson aliases j = .ok v) (t : DateTime) : .dateTime t ∉ v.scalars := by
  cases valueCase_of_ofJson h with
  | null | no | column => exact List.not_mem_nil
  | literal hs =>
    intro hmem
    exact Scalar.ne_dateTime_of_ofJson hs t (List.mem_singleton.1 hmem).symm
  | list hss =>
    intro hmem
    obtain ⟨j, -, hj⟩ := exists_of_mem_of_mapM hss hmem
    exact Scalar.ne_dateTime_of_ofJson hj t rfl

theorem typed_of_comparison {node : Node} (h : node.comparison aliases = .ok c) :
    c.Typed aliases := by
  obtain ⟨operator, -, h⟩ := bind_eq_ok_iff.1 h
  by_cases ht : operator.takesValue = true
  · rw [if_pos ht] at h
    obtain ⟨value, hvalue, rfl⟩ := bind_pure_eq_ok_iff.1 h
    refine ⟨?_, ?_, dateTime_notMem_scalars_of_ofJson hvalue⟩
    · rintro (rfl | rfl) <;> cases ht
    · rintro aliasName field rfl
      exact contains_of_ofJson hvalue
  · rw [if_neg ht] at h
    cases h
    exact ⟨fun _ => rfl, nofun, fun _ => List.not_mem_nil⟩

/-- Its groups are filled since each begins with a comparison. -/
theorem typed_of_ofNodes {nodes : List Node} (h : ofNodes policy aliases nodes = .ok ps) :
    Predicate.Typed aliases ps := by
  refine ⟨fun connector c hc => ?_, fun connector children hg => ?_⟩
  · obtain ⟨node, hnode⟩ := ((exists_ofNodes_iff policy aliases ps).1 ⟨nodes, h⟩).2 c
      (mem_comparisons_iff.2 ⟨connector, hc⟩)
    exact typed_of_comparison hnode
  · obtain ⟨c, rest, rfl⟩ := (expressible_of_ofNodes h).begins children
      (mem_groups_iff.2 ⟨connector, hg⟩)
    exact List.cons_ne_nil _ _

/-- The filters of a request, that of each link included, are typed by its names. -/
structure Request.Typed (r : Request) : Prop where
  link : ∀ table link, r.links.get? table = some link → Predicate.Typed r.aliases link.conditions
  filter : Predicate.Typed r.aliases r.conditions

theorem Request.typed_of_draft {d : Draft} {r : Request} (h : d.typed policy = .ok r) :
    r.Typed := by
  obtain ⟨links, conditions, order, hlinks, hconditions, -, rfl⟩ := Draft.typed_eq_ok_iff.1 h
  refine ⟨fun table link hget => ?_, typed_of_ofNodes hconditions⟩
  obtain ⟨draft, -, hlink⟩ := Sorted.exists_of_mem_traverse hlinks (Sorted.get?_eq_some_iff.1 hget)
  exact typed_of_ofNodes (LinkDraft.conditions_of_toLink hlink)

/-! ## What the check can still find -/

/-- A fault about a table. -/
def Fault.AboutTable (fault : Fault) : Prop := ∃ table cause, fault = .unknownTable table cause

namespace Request

variable {r : Request} {usage : Usage} {bound : Option Nat}

theorem failsOnly_checkAttached (r : Request) (usage : Usage) (table : Nat) :
    FailsOnly Fault.AboutTable (r.checkAttached usage table) := by
  unfold checkAttached
  split
  · exact .error ⟨_, _, rfl⟩
  · split
    · exact .ok _
    · exact .error ⟨_, _, rfl⟩

theorem failsOnly_checkReference (r : Request) (usage : Usage) (bound : Option Nat) (table : Nat) :
    FailsOnly Fault.AboutTable (r.checkReference usage bound table) := by
  refine (failsOnly_checkAttached r usage table).bind fun _ _ => ?_
  cases bound with
  | none => exact .ok _
  | some link =>
    dsimp only
    split
    · exact .error ⟨_, _, rfl⟩
    · exact .ok _

theorem failsOnly_checkComparison (h : c.Typed r.aliases) :
    FailsOnly Fault.AboutTable (r.checkComparison usage bound c) := by
  refine (failsOnly_checkReference r usage bound c.table).bind fun _ _ => ?_
  cases hv : c.value with
  | none | literal s | list items => exact .ok _
  | column aliasName field =>
    obtain ⟨table, htable⟩ := Option.isSome_iff_exists.1 (h.named aliasName field hv)
    simp only [tableOf_eq_ok_iff.2 htable, ok_bind]
    exact failsOnly_checkReference r .columnReference bound table

/-- No group is found empty, and no name unknown. -/
theorem failsOnly_checkPredicates (h : Predicate.Typed r.aliases ps) :
    FailsOnly Fault.AboutTable (r.checkPredicates usage bound ps) := by
  induction ps using sequenceInduction with
  | nil => exact .ok _
  | comparison connector c ps ih =>
    have hc : c.Typed r.aliases := h.comparison connector c (.here List.mem_cons_self)
    exact (failsOnly_checkComparison hc).bind fun _ _ => ih h.tail
  | group connector children ps ihc ih =>
    have hne : children ≠ [] := h.group connector children (.here List.mem_cons_self)
    obtain ⟨p, rest, rfl⟩ := List.exists_cons_of_ne_nil hne
    exact (ihc h.children).bind fun _ _ => ih h.tail

theorem failsOnly_checkLink {table : Nat} {link : Link}
    (h : Predicate.Typed r.aliases link.conditions) :
    FailsOnly Fault.AboutTable (r.checkLink table link) := by
  unfold checkLink
  split
  · exact .error ⟨_, _, rfl⟩
  · split
    · exact .error ⟨_, _, rfl⟩
    · exact failsOnly_checkPredicates h

theorem failsOnly_checkAlias (r : Request) (aliasName : String) (table : Nat) :
    FailsOnly Fault.AboutTable (r.checkAlias aliasName table) := by
  unfold checkAlias
  split
  · exact .error ⟨_, _, rfl⟩
  · exact .ok _

theorem failsOnly_validate (h : r.Typed) : FailsOnly Fault.AboutTable r.validate := by
  unfold validate
  split
  · exact .error ⟨_, _, rfl⟩
  · split
    · exact .error ⟨_, _, rfl⟩
    · refine .bind (.forM fun e he => failsOnly_checkLink ?_) fun _ _ => ?_
      · exact h.link e.1 e.2 (Sorted.get?_eq_some_iff.2 he)
      refine .bind (.forM fun table _ => failsOnly_checkAttached r _ table) fun _ _ => ?_
      refine .bind (failsOnly_checkPredicates h.filter) fun _ _ => ?_
      refine .bind (.forM fun term _ => failsOnly_checkAttached r _ term.table) fun _ _ => ?_
      exact .forM fun e _ => failsOnly_checkAlias r e.1 e.2

end Request

namespace Draft

/-- A draft that can be read becomes a request, or its tables do not hang together: no other fault
is left. Whatever request a draft becomes, its comparisons are typed by its names and its groups
are filled, at every depth of its filter and of each link; it is valid, and the draft could be
read. -/
theorem toRequest_of_readable (policy : Policy) (d : Draft) :
    (d.Readable policy →
      (∃ r, d.toRequest policy = .ok r) ∨
        ∃ table cause, d.toRequest policy = .error (.unknownTable table cause)) ∧
    ∀ r, d.toRequest policy = .ok r →
      r.Typed ∧ r.validate = .ok () ∧ d.Readable policy := by
  constructor
  · intro hd
    obtain ⟨r, hr⟩ := exists_typed_iff.2 hd
    have hfails : FailsOnly Fault.AboutTable r.validate :=
      Request.failsOnly_validate (Request.typed_of_draft hr)
    rw [toRequest, hr, ok_bind]
    cases hvalid : r.validate with
    | ok _ => exact .inl ⟨r, rfl⟩
    | error fault =>
      obtain ⟨table, cause, rfl⟩ := hfails fault hvalid
      exact .inr ⟨table, cause, rfl⟩
  · intro r h
    have hvalid := validate_of_toRequest h
    obtain ⟨r', htyped, h⟩ := bind_eq_ok_iff.1 h
    obtain ⟨-, h⟩ := check_bind_eq_ok_iff.1 h
    cases h
    exact ⟨Request.typed_of_draft htyped, hvalid, exists_typed_iff.1 ⟨_, htyped⟩⟩

/-- Users and their orders, with a column of a user in the condition of the join. -/
def sample : Draft where
  classes := ["User", "Order"]
  fields := ⟨[(0, ["id"])], by decide⟩
  links := ⟨[(1, ⟨" left", 0, "id", "user_id", [
    ⟨1, "total", ">", .array [.text "user", .text "credit"], true, false, ""⟩,
    ⟨1, "status", "IS NOT NULL", .text "x", false, false, "or"⟩]⟩)], by decide⟩
  conditions := Node.sample
  order := [⟨1, "placed", "year", "desc"⟩]
  lines := 10
  offset := 0
  distinct := false
  aliases := Node.sampleNames

/-- The sample becomes a request. Without a class for its second table it can be read all the same,
and that table is what it is refused for. -/
theorem toRequest_of_readable_sample :
    let rootOnly := { sample with classes := ["User"] }
    sample.Readable .autoClose ∧
      (∃ r, sample.toRequest .autoClose = .ok r ∧ r.Typed ∧ r.validate = .ok ()) ∧
      rootOnly.Readable .autoClose ∧
      ∃ table cause, rootOnly.toRequest .autoClose = .error (.unknownTable table cause) := by
  intro rootOnly
  obtain ⟨-, hestablished⟩ := toRequest_of_readable .autoClose sample
  obtain ⟨hfault, -⟩ := toRequest_of_readable .autoClose rootOnly
  have hsample : sample.toRequest .autoClose = .ok _ := rfl
  have hrootOnly : rootOnly.Readable .autoClose := exists_typed_iff.1 ⟨_, rfl⟩
  obtain ⟨htyped, hvalid, hreadable⟩ := hestablished _ hsample
  refine ⟨hreadable, ⟨_, hsample, htyped, hvalid⟩, hrootOnly, (hfault hrootOnly).resolve_left ?_⟩
  rintro ⟨r, hr⟩
  cases hr

end Draft

end QueryCompiler
