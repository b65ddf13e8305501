import QueryCompiler.Proofs.Coherence
import QueryCompiler.Proofs.Sql.Dependence
import QueryCompiler.Proofs.Sql.StatementText

/-!
# One more join

A join adds a class, a link and an alias, and keeps all there is. `Request.Extends` says that a
request keeps what another one has: then whatever the smaller one names means the same in the
larger one, at any depth of a filter.

1. `extends_join`: a join extends a coherent request if its alias is new, since a coherent request
   has no link beyond its classes.
2. `Extends.names` and `conditions_of_extends`: a filter that names attached tables stays good and
   is written alike.
3. `coherent_join`: the new link is as good as the old ones.
4. `source_join`: the new link has the largest key, so its line comes last.

Main statement: `join_extends`.
-/

namespace QueryCompiler

open Outcome Predicate

namespace Request

/-- A request that has the classes, links and aliases of another one, and perhaps more. -/
structure Extends (r' r : Request) : Prop where
  classes : r.classes <+: r'.classes
  link : ∀ i link, r.links.get? i = some link → r'.links.get? i = some link
  aliased : ∀ aliasName table, r.aliases.get? aliasName = some table →
    r'.aliases.get? aliasName = some table

variable {r r' : Request}

namespace Extends

theorem refl (r : Request) : r.Extends r where
  classes := List.prefix_refl _
  link _ _ h := h
  aliased _ _ h := h

theorem classOf (h : r'.Extends r) {table : Nat} (ht : table < r.classes.length) :
    r'.classOf table = r.classOf table := by
  obtain ⟨more, hmore⟩ := h.classes
  unfold Request.classOf
  rw [← hmore, List.getElem?_append_left ht]

theorem attached (h : r'.Extends r) {table : Nat} (ht : r.Attached table) : r'.Attached table := by
  refine ⟨Nat.lt_of_lt_of_le ht.1 h.classes.length_le, ?_⟩
  rcases ht.2 with h0 | ⟨link, hlink⟩
  · exact .inl h0
  · exact .inr ⟨link, h.link table link hlink⟩

/-- A filter names in the larger request what it names in the smaller one. -/
theorem names (h : r'.Extends r) {allowed allowed' : Nat → Prop} {ps : List Predicate}
    (hn : r.Names allowed ps) (hallowed : ∀ table, allowed table → allowed' table) :
    r'.Names allowed' ps where
  table connector c hc := hallowed _ (hn.table connector c hc)
  column connector c aliasName field hc hv := by
    obtain ⟨table, ha, ht⟩ := hn.column connector c aliasName field hc hv
    exact ⟨table, h.aliased aliasName table ha, hallowed table ht⟩
  filled := hn.filled

end Extends

/-! ## The joined request -/

variable {name aliasName : String} {link : Link}

theorem get?_links_join (i : Nat) :
    (r.join name aliasName link).links.get? i =
      if i = r.nextTable then some link else r.links.get? i :=
  Sorted.get?_insert ..

theorem get?_aliases_join (a : String) :
    (r.join name aliasName link).aliases.get? a =
      if a = aliasName then some r.nextTable else r.aliases.get? a :=
  Sorted.get?_insert ..

theorem length_classes_join :
    (r.join name aliasName link).classes.length = r.nextTable + 1 := by
  simp [join, nextTable]

/-- The tables that may be named after a join are those from before and the new one. -/
theorem attached_join_iff {table : Nat} :
    (r.join name aliasName link).Attached table ↔ r.Attached table ∨ table = r.nextTable := by
  unfold Attached
  rw [length_classes_join, get?_links_join]
  by_cases ht : table = r.nextTable
  · simp [ht]
  · rw [if_neg ht]
    have hlt : table < r.nextTable + 1 ↔ table < r.classes.length := by
      show table < r.classes.length + 1 ↔ _
      have : table ≠ r.classes.length := ht
      omega
    simp [ht, hlt]

theorem extends_join (hr : r.Coherent) (ha : r.aliases.get? aliasName = none) :
    (r.join name aliasName link).Extends r where
  classes := List.prefix_append _ _
  link i l hl := by
    rw [get?_links_join, if_neg, hl]
    have hlt : i < r.nextTable := (hr.link i l hl).1
    omega
  aliased a table h := by
    rw [get?_aliases_join, if_neg, h]
    rintro rfl
    rw [ha] at h
    cases h

/-- A join keeps a request coherent: the link leads back to an attached table, and its conditions
name attached tables or the new one. -/
theorem coherent_join (hr : r.Coherent) (ha : r.aliases.get? aliasName = none)
    (hleft : r.Attached link.leftTable)
    (hnames : (r.join name aliasName link).Names
      (fun table => r.Attached table ∨ table = r.nextTable) link.conditions) :
    (r.join name aliasName link).Coherent := by
  have hext : (r.join name aliasName link).Extends r := extends_join hr ha
  have hfilter {ps : List Predicate} (hps : r.Names r.Attached ps) :
      (r.join name aliasName link).Names (r.join name aliasName link).Attached ps :=
    hext.names hps fun _ => hext.attached
  -- A link of the joined request is the new one or an old one.
  have hlinks {i : Nat} {l : Link} (hl : (r.join name aliasName link).links.get? i = some l) :
      i = r.nextTable ∧ l = link ∨ r.links.get? i = some l := by
    rw [get?_links_join] at hl
    by_cases hi : i = r.nextTable
    · rw [if_pos hi, Option.some.injEq] at hl
      exact .inl ⟨hi, hl.symm⟩
    · rw [if_neg hi] at hl
      exact .inr hl
  exact {
    root := by simp [join]
    root_unlinked := by
      have hpos : 0 < r.nextTable := List.length_pos_iff.2 hr.root
      rw [get?_links_join, if_neg (by omega), hr.root_unlinked]
    link := fun i l hl => by
      rw [length_classes_join]
      rcases hlinks hl with ⟨rfl, rfl⟩ | hl
      · exact ⟨Nat.lt_succ_self _, hleft.1, hext.attached hleft⟩
      · obtain ⟨hi, hlt, hleft⟩ := hr.link i l hl
        exact ⟨Nat.lt_succ_of_lt hi, hlt, hext.attached hleft⟩
    link_filter := fun i l hl => by
      rcases hlinks hl with ⟨rfl, rfl⟩ | hl
      · refine (Extends.refl _).names hnames fun table ht => ⟨attached_join_iff.2 ht, ?_⟩
        rcases ht with ht | rfl
        · exact Nat.le_of_lt ht.1
        · exact Nat.le_refl _
      · exact hext.names (hr.link_filter i l hl) fun table ht => ⟨hext.attached ht.1, ht.2⟩
    filter := hfilter hr.filter
    field := fun table ht => hext.attached (hr.field table ht)
    order := fun term ht => hext.attached (hr.order term ht)
    aliased := fun a table h => by
      rw [length_classes_join]
      rw [get?_aliases_join] at h
      by_cases ha : a = aliasName
      · rw [if_pos ha, Option.some.injEq] at h
        omega
      · rw [if_neg ha] at h
        exact Nat.lt_succ_of_lt (hr.aliased a table h) }

end Request

namespace Compiler

variable {k : Compiler} {r r' : Request} {name aliasName : String} {link : Link}

/-! ## What is written for a larger request -/

/-- A filter that names tables with classes is written for a larger request as for the smaller
one. -/
theorem conditions_of_extends (h : r'.Extends r) {allowed : Nat → Prop} {ps : List Predicate}
    (hn : r.Names allowed ps) (hclass : ∀ table, allowed table → table < r.classes.length) :
    k.conditions r' ps = k.conditions r ps := by
  refine conditions_congr fun c hc => ?_
  obtain ⟨connector, hoccurs⟩ := mem_comparisons_iff.1 hc
  refine ⟨h.classOf (hclass _ (hn.table connector c hoccurs)), fun aliasName field hv => ?_⟩
  obtain ⟨table, ha, -⟩ := hn.column connector c aliasName field hoccurs hv
  unfold Request.tableOf
  rw [ha, h.aliased aliasName table ha]

theorem tableName_of_extends (h : r'.Extends r) {table : Nat} (ht : table < r.classes.length) :
    k.tableName r' table = k.tableName r table := by
  unfold tableName
  rw [h.classOf ht]

theorem joinLine_of_extends (h : r'.Extends r) (hr : r.Coherent) {i : Nat} {l : Link}
    (hl : r.links.get? i = some l) : k.joinLine r' i l = k.joinLine r i l := by
  have hconditions : k.conditions r' l.conditions = k.conditions r l.conditions :=
    conditions_of_extends h (hr.link_filter i l hl) fun _ ht => ht.1.1
  unfold joinLine linkConditions
  rw [tableName_of_extends h (hr.link i l hl).1, hconditions]

theorem joinLines_concat {es : List (Nat × Link)} {e : Nat × Link} {q line : Sql}
    (hes : k.joinLines r es = .ok q) (he : k.joinLine r e.1 e.2 = .ok line) :
    k.joinLines r (es ++ [e]) = .ok (q ++ line) := by
  induction es generalizing q with
  | nil =>
    cases hes
    refine joinLines_cons_eq_ok_iff.2 ⟨line, [], he, rfl, ?_⟩
    rw [List.append_nil, List.nil_append]
  | cons e' es ih =>
    obtain ⟨q₁, q₂, h₁, h₂, rfl⟩ := joinLines_cons_eq_ok_iff.1 hes
    refine joinLines_cons_eq_ok_iff.2 ⟨q₁, q₂ ++ line, h₁, ih h₂, ?_⟩
    rw [List.append_assoc]

/-! ## The line of the new join -/

theorem entries_join (hr : r.Coherent) :
    (r.join name aliasName link).links.entries = r.links.entries ++ [(r.nextTable, link)] := by
  refine Sorted.insertEntry_of_forall_lt fun e he => ?_
  have hlt : e.1 < r.classes.length := (hr.link e.1 e.2 (Sorted.get?_eq_some_iff.2 he)).1
  exact Nat.compare_eq_lt.2 hlt

/-- The tables of the joined request are those from before and one more line. -/
theorem source_join (hr : r.Coherent) (ha : r.aliases.get? aliasName = none)
    {source q : Sql} {table : String} (hs : k.source r = .ok source)
    (ht : k.catalog.tableName name = .ok table)
    (hq : k.conditions (r.join name aliasName link) link.conditions = .ok q) :
    ∃ line, k.source (r.join name aliasName link) = .ok (source ++ line) ∧
      line.toText = joinText table r.nextTable link q := by
  have hext : (r.join name aliasName link).Extends r := Request.extends_join hr ha
  have hnew : k.tableName (r.join name aliasName link) r.nextTable = .ok table := by
    unfold tableName Request.classOf
    rw [Request.join_classes]
    exact ht
  obtain ⟨line, hline, htext⟩ := joinLine_eq_ok hnew hq
  obtain ⟨root, lines, hroot, hlines, rfl⟩ := source_eq_ok_iff.1 hs
  refine ⟨line, source_eq_ok_iff.2 ⟨root, lines ++ line, ?_, ?_, ?_⟩, htext⟩
  · rw [tableName_of_extends hext (List.length_pos_iff.2 hr.root), hroot]
  · rw [entries_join hr]
    refine joinLines_concat ?_ hline
    rw [← hlines]
    exact joinLines_congr <| List.forall₂_same.2 fun e he =>
      joinLine_of_extends hext hr (Sorted.get?_eq_some_iff.2 he)
  · rw [List.append_assoc]

/-- Joining a class under a new alias to an attached table, on conditions that name attached tables
or the new one, leaves a valid request valid. If its tables can be written and the new join can,
the text of the tables is the old one with one more line behind it, and every filter that was good
before is written as before, the one of the request among them. -/
theorem join_extends (k : Compiler) (r : Request) (name aliasName : String) (link : Link)
    (hv : r.validate = .ok ()) (ha : r.aliases.get? aliasName = none)
    (hleft : r.Attached link.leftTable)
    (hnames : (r.join name aliasName link).Names
      (fun table => r.Attached table ∨ table = r.nextTable) link.conditions) :
    (r.join name aliasName link).validate = .ok () ∧
    (∀ source table q, k.source r = .ok source → k.catalog.tableName name = .ok table →
      k.conditions (r.join name aliasName link) link.conditions = .ok q →
        ∃ source', k.source (r.join name aliasName link) = .ok source' ∧
          source'.toText = source.toText ++ joinText table r.nextTable link q) ∧
    (∀ usage bound ps, r.checkPredicates usage bound ps = .ok () →
      k.conditions (r.join name aliasName link) ps = k.conditions r ps) ∧
    k.filterLine (r.join name aliasName link) = k.filterLine r := by
  have hr : r.Coherent := (Request.validate_eq_ok_iff_coherent r).1 hv
  have hext : (r.join name aliasName link).Extends r := Request.extends_join hr ha
  refine ⟨?_, ?_, ?_, ?_⟩
  · exact (Request.validate_eq_ok_iff_coherent _).2 (Request.coherent_join hr ha hleft hnames)
  · intro source table q hs ht hq
    obtain ⟨line, hline, htext⟩ := source_join hr ha hs ht hq
    refine ⟨source ++ line, hline, ?_⟩
    rw [Sql.toText_append, htext]
  · intro usage bound ps hps
    have hn : r.Names (r.Usable bound) ps :=
      (Request.names_iff fun _ => Iff.rfl).2 (Request.checkPredicates_eq_ok_iff.1 hps)
    refine conditions_of_extends hext hn fun table ht => ?_
    exact (Request.isAttached_iff.1 ht.1).1
  · have hfilter : k.conditions (r.join name aliasName link) r.conditions =
        k.conditions r r.conditions := conditions_of_extends hext hr.filter fun _ ht => ht.1
    unfold filterLine
    show (if _ then _ else (do let q ← k.conditions _ r.conditions; _)) = _
    rw [hfilter]
    rfl

/-- The sample with its buyer joined to the orders, on a condition that speaks of both. -/
theorem join_extends_sample :
    let buyer : Link := ⟨.left, 1, "buyer_id", "id", [
      .comparison none ⟨3, "name", .equal, .column "buyer" "nick"⟩,
      .group (some .or) [.comparison none ⟨1, "status", .like, .literal (.text "'")⟩]]⟩
    Request.sample.validate = .ok () ∧ Request.sample.aliases.get? "buyer" = none ∧
      Request.sample.Attached buyer.leftTable ∧
      (Request.sample.join "User" "buyer" buyer).validate = .ok () ∧
      ∃ source q source', shop.source .sample = .ok source ∧
        shop.source (Request.sample.join "User" "buyer" buyer) = .ok source' ∧
          source'.toText = source.toText ++ joinText "users" 3 buyer q := by
  intro buyer
  have hleft : Request.sample.Attached buyer.leftTable := Request.isAttached_iff_attached.1 rfl
  have hpass : (Request.sample.join "User" "buyer" buyer).checkPredicates .condition none
      buyer.conditions = .ok () := rfl
  have hnames : (Request.sample.join "User" "buyer" buyer).Names
      (fun table => Request.sample.Attached table ∨ table = Request.sample.nextTable)
      buyer.conditions :=
    (Request.names_iff fun table => Request.attached_join_iff.symm.trans Request.usable_none_iff).2
      (Request.checkPredicates_eq_ok_iff.1 hpass)
  obtain ⟨hv, hsource, -⟩ :=
    join_extends shop .sample "User" "buyer" buyer rfl rfl hleft hnames
  obtain ⟨source', hs, htext⟩ := hsource _ "users" _ rfl rfl rfl
  exact ⟨rfl, rfl, hleft, hv, _, _, source', rfl, hs, htext⟩

end Compiler

end QueryCompiler
