import QueryCompiler.Proofs.Sql.Parts

/-!
# What a statement depends on

Two compilers, or one compiler at two requests, write the same where they find the same. This is
said from the comparisons upwards.

1. `comparison_congr`: a comparison asks for the class of its table and for its alias.
2. `conditions_mapComparisons`: a filter is written alike if its comparisons are, even where these
   were changed throughout the filter.
3. `body_mapComparisons`, and `body_of_same` where nothing is changed: so are tables and filter, if
   the tables of root and links have the same names. `statements_congr`: then both statements are.
-/

namespace QueryCompiler

open Predicate

/-- A link with every comparison of its conditions through a function. -/
def Link.mapComparisons (f : Comparison → Comparison) (l : Link) : Link :=
  { l with conditions := Predicate.mapComparisons f l.conditions }

namespace Request

/-- The comparisons of a request: those of its links, table by table, and those of its filter. -/
def allComparisons (r : Request) : List Comparison :=
  r.links.entries.flatMap (fun e => comparisons e.2.conditions) ++ comparisons r.conditions

/-- A request with every comparison through a function. -/
def mapComparisons (f : Comparison → Comparison) (r : Request) : Request :=
  { r with
    links := r.links.map (Link.mapComparisons f)
    conditions := Predicate.mapComparisons f r.conditions }

theorem mapComparisons_id (r : Request) : r.mapComparisons id = r := by
  have hlinks : r.links.map (Link.mapComparisons id) = r.links := by
    refine Sorted.map_eq_self fun e _ => ?_
    unfold Link.mapComparisons
    rw [Predicate.mapComparisons_id]
  unfold mapComparisons
  rw [hlinks, Predicate.mapComparisons_id]

end Request

namespace Compiler

variable {k k' : Compiler} {r r' : Request}

/-! ## Conditions -/

/-- A comparison is written alike for requests that agree on its class and on its alias. -/
theorem comparison_congr {c : Comparison} (hclass : r.classOf c.table = r'.classOf c.table)
    (halias : ∀ aliasName field, c.value = .column aliasName field →
      r.tableOf aliasName = r'.tableOf aliasName) :
    k.comparison r c = k.comparison r' c := by
  unfold comparison operand
  cases hv : c.value with
  | column aliasName field => simp only [halias aliasName field hv]
  | none | literal _ | list _ => simp only [hclass]

/-- A filter is written alike for compilers and requests for which its comparisons are, whatever is
done to these. -/
theorem conditions_mapComparisons {f : Comparison → Comparison} {ps : List Predicate}
    (h : ∀ c ∈ comparisons ps, k'.comparison r' (f c) = k.comparison r c) :
    k'.conditions r' (mapComparisons f ps) = k.conditions r ps := by
  induction ps using sequenceInduction with
  | nil => rfl
  | comparison connector c ps ih =>
    rw [comparisons_comparison_cons, List.forall_mem_cons] at h
    simp only [mapComparisons_comparison_cons, conditions, condition]
    rw [h.1, ih h.2]
  | group connector children ps ihc ih =>
    rw [comparisons_group_cons, List.forall_mem_append] at h
    simp only [mapComparisons_group_cons, conditions, condition]
    rw [ihc h.1, ih h.2]

theorem conditions_congr {ps : List Predicate}
    (h : ∀ c ∈ comparisons ps, r.classOf c.table = r'.classOf c.table ∧
      ∀ aliasName field, c.value = .column aliasName field →
        r.tableOf aliasName = r'.tableOf aliasName) :
    k.conditions r ps = k.conditions r' ps := by
  have hsame : k.conditions r (mapComparisons id ps) = k.conditions r' ps :=
    conditions_mapComparisons fun c hc => comparison_congr (h c hc).1 (h c hc).2
  rwa [Predicate.mapComparisons_id] at hsame

/-! ## Tables and filter -/

theorem joinLines_congr {es es' : List (Nat × Link)}
    (h : List.Forall₂ (fun e' e => k'.joinLine r' e'.1 e'.2 = k.joinLine r e.1 e.2) es' es) :
    k'.joinLines r' es' = k.joinLines r es := by
  induction h with
  | nil => rfl
  | cons he _ ih => rw [joinLines, joinLines, he, ih]

/-- Tables and filter are written alike if the tables of root and links have the same names and the
comparisons are written alike, whatever is done to these. -/
theorem body_mapComparisons {f : Comparison → Comparison}
    (hlinks : r'.links = (r.mapComparisons f).links)
    (hconditions : r'.conditions = (r.mapComparisons f).conditions)
    (htable : ∀ i, i = 0 ∨ r.links.contains i = true → k'.tableName r' i = k.tableName r i)
    (hcomparison : ∀ c ∈ r.allComparisons, k'.comparison r' (f c) = k.comparison r c) :
    k'.body r' = k.body r := by
  unfold Request.allComparisons at hcomparison
  rw [List.forall_mem_append, List.forall_mem_flatMap] at hcomparison
  obtain ⟨hlink, hfilter⟩ := hcomparison
  have hline (e : Nat × Link) (he : e ∈ r.links.entries) :
      k'.joinLine r' e.1 (e.2.mapComparisons f) = k.joinLine r e.1 e.2 := by
    have hkey : r.links.contains e.1 = true :=
      Sorted.mem_keys_iff.1 (List.mem_map_of_mem he)
    unfold joinLine linkConditions Link.mapComparisons
    rw [htable e.1 (.inr hkey), isEmpty_mapComparisons, conditions_mapComparisons (hlink e he)]
  have hlines : k'.joinLines r' r'.links.entries = k.joinLines r r.links.entries := by
    rw [hlinks]
    exact joinLines_congr (List.forall₂_map_left_iff.2 (List.forall₂_same.2 hline))
  unfold body source filterLine
  rw [htable 0 (.inl rfl), hlines, hconditions]
  unfold Request.mapComparisons
  rw [isEmpty_mapComparisons, conditions_mapComparisons hfilter]

/-- Tables and filter are written alike for the same links and the same filter. -/
theorem body_of_same (hlinks : r'.links = r.links) (hconditions : r'.conditions = r.conditions)
    (htable : ∀ i, i = 0 ∨ r.links.contains i = true → k'.tableName r' i = k.tableName r i)
    (hcomparison : ∀ c ∈ r.allComparisons, k'.comparison r' c = k.comparison r c) :
    k'.body r' = k.body r := by
  have hsame : r.mapComparisons id = r := r.mapComparisons_id
  refine body_mapComparisons (f := id) ?_ ?_ htable hcomparison
  · rw [hsame, hlinks]
  · rw [hsame, hconditions]

/-- The body depends on the classes, the names, the links and the filter. -/
theorem body_congr (hclasses : r.classes = r'.classes) (haliases : r.aliases = r'.aliases)
    (hlinks : r.links = r'.links) (hconditions : r.conditions = r'.conditions) :
    k.body r = k.body r' := by
  have hclass (table : Nat) : r.classOf table = r'.classOf table := by
    unfold Request.classOf
    rw [hclasses]
  have htable (aliasName : String) : r.tableOf aliasName = r'.tableOf aliasName := by
    unfold Request.tableOf
    rw [haliases]
  refine body_of_same hlinks hconditions (fun i _ => ?_) fun c _ => ?_
  · unfold tableName
    rw [hclass]
  · exact comparison_congr (hclass c.table) fun aliasName _ _ => htable aliasName

/-! ## Statements -/

/-- Two requests that differ in classes, links, filter and names only have the same statements if
they are valid alike and have the same body. -/
theorem statements_congr {classes : List String} {links : Sorted Nat Link}
    {conditions : List Predicate} {aliases : Sorted String Nat}
    (hr : r' = { r with
      classes := classes, links := links, conditions := conditions, aliases := aliases })
    (hv : r'.validate = r.validate) (hb : k'.body r' = k.body r) :
    k'.select r' = k.select r ∧ k'.count r' = k.count r := by
  unfold select count
  rw [hv, hb, hr]
  exact ⟨rfl, rfl⟩

end Compiler

end QueryCompiler
