import QueryCompiler.Proofs.Outcome
import QueryCompiler.Proofs.Toml.Lines
import QueryCompiler.Settings

/-!
# Sections that are left out

A section that a settings file leaves out counts as its standard, and so does each entry that a
section leaves out. The two standards are written down apart from each other: they agree for the
compiler and for the entities, and disagree on how many connections are kept.

1. `ofLines?_append_header`: a header below a file adds an empty table behind all others.
2. `addsSection_append`: so every file can be written on with a section that it leaves out.
3. `ofTable?_insert`: of the settings, only those of the database can change.

Main statement: `read_addsSection`.
-/

namespace QueryCompiler

namespace Toml

variable {k : String} {es : List (String × Toml)}

theorem lookup_closeAll (k : String) (es : Items) :
    (closeAll es).lookup k = (es.lookup k).map Item.close := by
  induction es with
  | nil => rfl
  | cons e es ih =>
    obtain ⟨k', i⟩ := e
    rw [closeAll, List.lookup_cons, List.lookup_cons, ih]
    split <;> rfl

theorem closeAll_append (es es' : Items) : closeAll (es ++ es') = closeAll es ++ closeAll es' := by
  induction es with
  | nil => rfl
  | cons e es ih => rw [List.cons_append, closeAll, closeAll, ih, List.cons_append]

/-- A new key comes last. -/
theorem setItem_of_lookup_eq_none {es : Items} (h : es.lookup k = none) (i : Item) :
    setItem k i es = es ++ [(k, i)] := by
  induction es with
  | nil => rfl
  | cons e es ih =>
    rw [List.lookup_cons] at h
    split at h
    · cases h
    · rename_i hne
      rw [setItem, if_neg fun heq => beq_eq_false_iff_ne.1 hne heq.symm, ih h, List.cons_append]

theorem ofLines?_append_header {lines : List Line} (h : ofLines? lines = some es)
    (hk : es.lookup k = none) : ofLines? (lines ++ [.table [k]]) = some (es ++ [(k, table [])]) := by
  obtain ⟨a, ha, rfl⟩ := Option.map_eq_some_iff.1 h
  have hroot : a.root.lookup k = none := by
    rwa [lookup_closeAll, Option.map_eq_none_iff] at hk
  have hadd : a.add? (.table [k]) = some ⟨a.root ++ [(k, .table .header [])], [k]⟩ := by
    rw [Assembly.add?, alter?, hroot, openTable, Option.map_some, setItem_of_lookup_eq_none hroot]
    rfl
  rw [ofLines?, List.foldlM_append, ha, Option.bind_eq_bind, Option.bind_some, List.foldlM_cons,
    hadd, Option.bind_eq_bind, Option.bind_some, List.foldlM_nil, Option.pure_def, Option.map_some,
    closeAll_append]
  rfl

theorem skipMark_lineEnd (cs tail : List Char) :
    skipMark (cs ++ '\n' :: tail) = skipMark cs ++ '\n' :: tail := by
  refine skips_of_words (fun cs => ?_) cs tail
  unfold skipMark
  split
  · exact .inr ⟨['\uFEFF'], _, by decide, rfl, fun _ => rfl⟩
  · exact .inl rfl

theorem read?_append_header {text header : String} (h : read? text = some es)
    (hk : es.lookup k = none)
    (hheader : lines? header.toList.length header.toList = some [.table [k]]) :
    read? (text ++ "\n" ++ header) = some (es ++ [(k, table [])]) := by
  obtain ⟨lines, hlines, hes⟩ := Option.bind_eq_some_iff.1 h
  have htext : (text ++ "\n" ++ header).toList = text.toList ++ '\n' :: header.toList := by
    simp
  have hfuel : text.toList.length + 2 + header.toList.length
      < (text.toList ++ '\n' :: header.toList).length + 2 := by
    rw [List.length_append, List.length_cons]
    omega
  rw [read?, htext, skipMark_lineEnd, lines?_append hlines hheader hfuel, Option.bind_some,
    ofLines?_append_header hes hk]

end Toml

namespace Settings

open Outcome

/-- A file that leaves a section out, and one that says the same and has the section somewhere, with
nothing in it. -/
def AddsSection (name text text' : String) : Prop :=
  ∃ before after, Toml.read? text = some (before ++ after) ∧ (before ++ after).lookup name = none ∧
    Toml.read? text' = some (before ++ (name, .table []) :: after)

/-- A section is added below a file that leaves it out. -/
theorem addsSection_append {name text : String} {es : List (String × Toml)}
    (hname : name = "compiler" ∨ name = "database" ∨ name = "entities")
    (h : Toml.read? text = some es) (hk : es.lookup name = none) :
    AddsSection name text (text ++ "\n" ++ ("[" ++ name ++ "]\n")) := by
  refine ⟨es, [], by rwa [List.append_nil], by rwa [List.append_nil], ?_⟩
  refine Toml.read?_append_header h hk ?_
  rcases hname with rfl | rfl | rfl <;> rfl

/-- Only the look-up of the new key changes. -/
theorem lookup_insert {name : String} {before after : List (String × Toml)}
    (h : (before ++ after).lookup name = none) (t : Toml) (k : String) :
    (before ++ (name, t) :: after).lookup k
      = if k = name then some t else (before ++ after).lookup k := by
  rw [List.lookup_append, Option.or_eq_none_iff] at h
  rw [List.lookup_append, List.lookup_append, List.lookup_cons]
  split
  · rename_i heq
    obtain rfl := beq_iff_eq.1 heq
    rw [if_pos rfl, h.1, Option.none_or]
  · rename_i hne
    rw [if_neg (beq_eq_false_iff_ne.1 hne)]

theorem ofTable?_eq_some_iff {es : List (String × Toml)} {settings : Settings} :
    ofTable? es = some settings ↔
      Toml.optional? .standard CompilerSettings.ofToml? (es.lookup "compiler") = some settings.compiler ∧
      Toml.optional? .standard DatabaseSettings.ofToml? (es.lookup "database") = some settings.database ∧
      Toml.optional? ∅ Catalog.ofToml? (es.lookup "entities") = some settings.catalog := by
  simp only [ofTable?, Option.bind_eq_bind, Option.bind_eq_some_iff]
  constructor
  · rintro ⟨compiler, hc, database, hd, catalog, he, h⟩
    cases h
    exact ⟨hc, hd, he⟩
  · rintro ⟨hc, hd, he⟩
    exact ⟨_, hc, _, hd, _, he, rfl⟩

theorem read_eq_ok_iff {text : String} {settings : Settings} :
    read text = .ok settings ↔
      ∃ es, Toml.read? text = some es ∧ ofTable? es = some settings := by
  rw [read, ← Option.bind_eq_some_iff]
  split
  · rename_i heq
    rw [heq, Except.ok.injEq, Option.some.injEq]
  · rename_i heq
    rw [heq]
    exact ⟨nofun, nofun⟩

/-- Of the settings, only those of the database depend on whether an empty section is there. -/
theorem ofTable?_insert {name : String} {before after : List (String × Toml)} {settings : Settings}
    (h : ofTable? (before ++ after) = some settings)
    (hk : (before ++ after).lookup name = none) :
    ofTable? (before ++ (name, .table []) :: after) = some { settings with
      database := if name = "database" then ⟨none, 5⟩ else settings.database } := by
  rw [ofTable?_eq_some_iff] at h ⊢
  obtain ⟨hc, hd, he⟩ := h
  simp only [lookup_insert hk]
  refine ⟨?compiler, ?database, ?entities⟩
  case compiler =>
    split
    · rename_i heq
      rw [heq, hk] at hc
      exact hc
    · exact hc
  case database =>
    by_cases heq : "database" = name
    · rw [if_pos heq, if_pos heq.symm]
      rfl
    · rw [if_neg heq, if_neg (Ne.symm heq)]
      exact hd
  case entities =>
    split
    · rename_i heq
      rw [heq, hk] at he
      exact he
    · exact he

/-- A section with nothing in it means what no section means, but for the database: without its
section no connections are kept, and with it five. -/
theorem read_addsSection {text : String} {settings : Settings} (h : read text = .ok settings) :
    (∀ text', AddsSection "compiler" text text' → read text' = .ok settings) ∧
    (∀ text', AddsSection "entities" text text' → read text' = .ok settings) ∧
    (∀ text', AddsSection "database" text text' → settings.database = ⟨none, 0⟩ ∧
      read text' = .ok { settings with database := ⟨none, 5⟩ }) ∧
    ∀ es, Toml.read? text = some es → ∀ name, name = "compiler" ∨ name = "database" ∨
      name = "entities" → es.lookup name = none →
        AddsSection name text (text ++ "\n" ++ ("[" ++ name ++ "]\n")) := by
  obtain ⟨es, hes, hsettings⟩ := read_eq_ok_iff.1 h
  have hinsert {name text' : String} (hadds : AddsSection name text text') :
      es.lookup name = none ∧ read text' = .ok { settings with
        database := if name = "database" then ⟨none, 5⟩ else settings.database } := by
    obtain ⟨before, after, htext, hk, htext'⟩ := hadds
    obtain rfl : before ++ after = es := Option.some.inj (htext.symm.trans hes)
    exact ⟨hk, read_eq_ok_iff.2 ⟨_, htext', ofTable?_insert hsettings hk⟩⟩
  refine ⟨fun text' hadds => (hinsert hadds).2, fun text' hadds => (hinsert hadds).2,
    fun text' hadds => ?_, fun es hes name hname hk => addsSection_append hname hes hk⟩
  obtain ⟨hk, hread⟩ := hinsert hadds
  have hdatabase := (ofTable?_eq_some_iff.1 hsettings).2.1
  rw [hk] at hdatabase
  exact ⟨(Option.some.inj hdatabase).symm, hread⟩

/-- A file with all sections but that of the database. -/
def shopText : String :=
  "[compiler]\nparenthesis = \"strict\"\nempty_set_sentinel = -7\n\n" ++
    "[entities.User]\ntable = \"users\"\nfields = \x7b name = \"String\" \x7d\n"

/-- With the section of the database below it the file still says the same of the other two. -/
theorem read_addsSection_shop : ∃ settings, read shopText = .ok settings ∧
    settings.compiler = ⟨.strict, -7⟩ ∧ settings.catalog.tableName "User" = .ok "users" ∧
      settings.catalog.fieldType "User" "name" = .ok .string ∧ settings.database = ⟨none, 0⟩ ∧
        AddsSection "database" shopText (shopText ++ "\n" ++ ("[" ++ "database" ++ "]\n")) ∧
          read (shopText ++ "\n" ++ ("[" ++ "database" ++ "]\n"))
            = .ok { settings with database := ⟨none, 5⟩ } := by
  have hrun : ((fun s => (s.compiler, (s.catalog.tableName "User").toOption,
      (s.catalog.fieldType "User" "name").toOption)) <$> read shopText).toOption
        = some (⟨.strict, -7⟩, some "users", some .string) := by decide +kernel
  have hlookup : (Toml.read? shopText).map (fun es => (es.lookup "database").isNone)
      = some true := by decide +kernel
  obtain ⟨settings, hread, hparts⟩ := map_eq_ok_iff.1 (toOption_eq_some_iff.1 hrun)
  simp only [Prod.mk.injEq, toOption_eq_some_iff] at hparts
  obtain ⟨hcompiler, htable, htype⟩ := hparts
  obtain ⟨es, hes, hnone⟩ := Option.map_eq_some_iff.1 hlookup
  obtain ⟨-, -, hdatabase, hadds⟩ := read_addsSection hread
  have hadded := hadds es hes "database" (.inr (.inl rfl)) (Option.isNone_iff_eq_none.1 hnone)
  obtain ⟨hstandard, hfive⟩ := hdatabase _ hadded
  exact ⟨settings, hread, hcompiler, htable, htype, hstandard, hadded, hfive⟩

/-- A section with nothing in it does not always mean what no section means. -/
theorem exists_section_matters : ∃ text text' settings settings',
    AddsSection "database" text text' ∧ read text = .ok settings ∧ read text' = .ok settings' ∧
      settings.database.maxConnections ≠ settings'.database.maxConnections :=
  ⟨"", "\n[database]\n", standard, { standard with database := ⟨none, 5⟩ },
    ⟨[], [], rfl, rfl, rfl⟩, rfl, rfl, by decide⟩

end Settings

end QueryCompiler
