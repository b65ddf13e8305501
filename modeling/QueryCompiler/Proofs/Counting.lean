import QueryCompiler.Count
import QueryCompiler.Proofs.Decimal.IntegerPrefix
import QueryCompiler.Proofs.Sql.Parts

/-!
# The one cell of a count

A count asks its source for the rows of one statement and reads a single cell of them. `CountsTo`
says, apart from the scanner, which cells hold which numbers.

1. `strip_append`, `exists_eq_append_strip`: what is left when the blanks around a text are taken
   off.
2. `integer?_eq_some_iff`: a text is scanned as an integer exactly if it is a sign and digits.
3. `cellInteger?_eq_some_iff`: so a cell is read as the word that it counts to.
4. `countCase`, `countOf_congr`: what becomes of rows, by column `C` of the first one alone.

Main statement: `runCount_reads_one_cell`.
-/

namespace QueryCompiler

open Text Decimal

/-! ## Blanks around a text -/

namespace Text

variable {lead trail cs : List Char}

theorem exists_eq_append_dropBlank (cs : List Char) :
    ∃ lead, (∀ c ∈ lead, isBlank c = true) ∧ cs = lead ++ dropBlank cs :=
  ⟨cs.takeWhile isBlank, fun _ => isBlank_of_mem_takeWhile,
    List.takeWhile_append_dropWhile.symm⟩

theorem exists_eq_append_strip (cs : List Char) :
    ∃ lead trail, (∀ c ∈ lead, isBlank c = true) ∧ (∀ c ∈ trail, isBlank c = true) ∧
      cs = lead ++ strip cs ++ trail := by
  obtain ⟨lead, hlead, hcs⟩ := exists_eq_append_dropBlank cs
  obtain ⟨trail, htrail, hrest⟩ := exists_eq_append_dropBlank (dropBlank cs).reverse
  refine ⟨lead, trail.reverse, hlead, fun c hc => htrail c (List.mem_reverse.1 hc), ?_⟩
  have hbody : dropBlank cs = strip cs ++ trail.reverse := by
    rw [strip, ← List.reverse_append, ← hrest, List.reverse_reverse]
  rw [List.append_assoc, ← hbody]
  exact hcs

theorem strip_append (hlead : ∀ c ∈ lead, isBlank c = true)
    (htrail : ∀ c ∈ trail, isBlank c = true)
    (hhead : ∀ rest, ∀ c ∈ (cs ++ rest).head?, isBlank c = false)
    (hlast : ∀ c ∈ cs.reverse.head?, isBlank c = false) : strip (lead ++ cs ++ trail) = cs := by
  have hfront : dropBlank (lead ++ cs ++ trail) = cs ++ trail := by
    rw [List.append_assoc, dropBlank_append hlead (hhead trail)]
  have hblank : ∀ c ∈ trail.reverse, isBlank c = true := fun c hc =>
    htrail c (List.mem_reverse.1 hc)
  rw [strip, hfront, List.reverse_append, dropBlank_append hblank hlast, List.reverse_reverse]

end Text

/-! ## Texts that are integers -/

namespace Decimal

variable {cs : List Char} {n : Int}

theorem isBlank_last_of_isInteger (h : IsInteger cs) :
    ∀ c ∈ cs.reverse.head?, isBlank c = false := by
  obtain @⟨sign, ds, hs, hd⟩ := h
  intro c hc
  obtain ⟨d, ds', hds⟩ := List.exists_cons_of_ne_nil (List.reverse_ne_nil_iff.2 hd.1)
  rw [List.reverse_append, hds] at hc
  cases hc
  have hmem : c ∈ ds := by
    rw [← List.mem_reverse, hds]
    exact List.mem_cons_self
  exact isBlank_of_isDigit (hd.2 c hmem)

theorem integer?_eq_some_iff : integer? cs = some n ↔ IsInteger cs ∧ valueOf cs = n := by
  constructor
  · intro h
    simp only [integer?] at h
    split at h
    · rename_i hall
      have hd : IsDigits (cs.drop (signOf cs).length) :=
        ⟨hall.1, List.all_eq_true.1 hall.2⟩
      have hs := isSign_signOf cs
      have hform := IsInteger.intro hs hd
      have hvalue := valueOf_append hs hd
      rw [signOf_append_drop] at hform hvalue
      refine ⟨hform, ?_⟩
      rw [hvalue]
      exact Option.some.inj h
    · cases h
  · rintro ⟨@⟨sign, ds, hs, hd⟩, rfl⟩
    have hsign : signOf (sign ++ ds) = sign := by
      have hhead {c : Char} (hc : c.isDigit = false) : ds.head? ≠ some c := by
        have hne := head?_ne_of_isDigits hd hc []
        rwa [List.append_nil] at hne
      exact signOf_append hs ⟨hhead rfl, hhead rfl⟩
    simp only [integer?, hsign, List.drop_left]
    rw [if_pos ⟨hd.1, List.all_eq_true.2 hd.2⟩, valueOf_append hs hd]

end Decimal

/-! ## Cells -/

/-- A number counts itself; a text counts what it denotes if it is a sign and digits,
`[+-]?[0-9]+`, between blanks. No other cell counts anything. -/
inductive CountsTo : Json → Int → Prop
  | number (n : Int) : CountsTo (.int n) n
  | text {lead p trail : List Char} (hlead : ∀ c ∈ lead, isBlank c = true)
      (htrail : ∀ c ∈ trail, isBlank c = true) (hp : IsInteger p) :
      CountsTo (.text (String.ofList (lead ++ p ++ trail))) (valueOf p)

theorem countsTo_text_iff {s : String} {n : Int} :
    CountsTo (.text s) n ↔ Decimal.integer? (trim s).toList = some n := by
  rw [trim, String.toList_ofList, integer?_eq_some_iff]
  constructor
  · rintro ⟨⟩
    rename_i lead p trail hlead htrail hp
    rw [String.toList_ofList, strip_append hlead htrail (isBlank_head?_of_isInteger hp)
      (isBlank_last_of_isInteger hp)]
    exact ⟨hp, rfl⟩
  · rintro ⟨hp, rfl⟩
    obtain ⟨lead, trail, hlead, htrail, hs⟩ := exists_eq_append_strip s.toList
    have hcounts := CountsTo.text hlead htrail hp
    rwa [← hs, String.ofList_toList] at hcounts

theorem cellInteger?_eq_some_iff {cell : Json} {n : Int64} :
    cellInteger? cell = some n ↔ CountsTo cell n.toInt := by
  cases cell with
  | int m =>
    rw [cellInteger?, word?_eq_some_iff]
    constructor
    · intro h
      rw [h]
      exact .number m
    · rintro ⟨⟩
      rfl
  | text s =>
    rw [cellInteger?, Option.bind_eq_some_iff, countsTo_text_iff]
    constructor
    · rintro ⟨m, hm, hn⟩
      rw [hm, word?_eq_some_iff.1 hn]
    · intro h
      exact ⟨_, h, word?_toInt n⟩
  | null | bool | float | array | object | unreadable =>
    constructor
    · intro h
      cases h
    · intro h
      cases h

/-! ## Rows -/

/-- The cell that a count reads. -/
def countCell? : List Row → Option (Option Json)
  | [] => none
  | row :: _ => some (row.get? "C")

theorem countOf_congr {rows rows' : List Row} (h : countCell? rows = countCell? rows') :
    countOf rows = countOf rows' := by
  cases rows with
  | nil =>
    cases rows' with
    | nil => rfl
    | cons row' rows' => cases h
  | cons row rows =>
    cases rows' with
    | nil => cases h
    | cons row' rows' =>
      have hcell : row.get? "C" = row'.get? "C" := Option.some.inj h
      rw [countOf, countOf, hcell]

/-- What becomes of the rows of a count. -/
inductive CountCase : List Row → Except Fault Int64 → Prop
  | noRows : CountCase [] (.error (.invalidValue .noRows))
  | noColumn {row : Row} {rest : List Row} (hcell : row.get? "C" = none) :
      CountCase (row :: rest) (.error (.invalidValue .noCountColumn))
  | notCount {row : Row} {rest : List Row} {cell : Json} (hcell : row.get? "C" = some cell)
      (h : ∀ n : Int64, ¬ CountsTo cell n.toInt) :
      CountCase (row :: rest) (.error (.invalidValue (.notCount cell)))
  | counts {row : Row} {rest : List Row} {cell : Json} {n : Int64}
      (hcell : row.get? "C" = some cell) (h : CountsTo cell n.toInt) :
      CountCase (row :: rest) (.ok n)

theorem countCase (rows : List Row) : CountCase rows (countOf rows) := by
  cases rows with
  | nil => exact .noRows
  | cons row rest =>
    rw [countOf]
    cases hcell : row.get? "C" with
    | none => exact .noColumn hcell
    | some cell =>
      simp only
      cases hn : cellInteger? cell with
      | some n => exact .counts hcell (cellInteger?_eq_some_iff.1 hn)
      | none =>
        refine .notCount hcell ?_
        intro n h
        rw [cellInteger?_eq_some_iff.2 h] at hn
        cases hn

theorem countOf_eq_ok_iff {rows : List Row} {n : Int64} :
    countOf rows = .ok n ↔
      ∃ row rest cell, rows = row :: rest ∧ row.get? "C" = some cell ∧ CountsTo cell n.toInt := by
  constructor
  · intro h
    have hcase := countCase rows
    rw [h] at hcase
    cases hcase with
    | counts hcell hn => exact ⟨_, _, _, rfl, hcell, hn⟩
  · rintro ⟨row, rest, cell, rfl, hcell, hn⟩
    rw [countOf, hcell]
    simp only [cellInteger?_eq_some_iff.2 hn]

/-- Rows without a number make an invalid value, whatever it is that they lack. -/
theorem countOf_eq_error {rows : List Row} {e : Fault} (h : countOf rows = .error e) :
    ∃ refusal, e = .invalidValue refusal := by
  have hcase := countCase rows
  rw [h] at hcase
  cases hcase with
  | noRows | noColumn | notCount => exact ⟨_, rfl⟩

/-! ## Asking -/

namespace Compiler

/-- If the statement cannot be written, nothing is asked. Else the source is asked that statement
and no other; what it fails for is passed on, and of its rows only column `C` of the first one
matters. The count succeeds with a word exactly if that cell counts to it, and all else is an
invalid value. -/
theorem runCount_reads_one_cell (k : Compiler) (source : RowSource) (r : Request) :
    (∀ e, k.count r = .error e → k.runCount source r = ⟨[], .error e⟩) ∧
      ∀ q, k.count r = .ok q →
        (k.runCount source r).log = [q.toText] ∧
        (∀ e, source q.toText = .error e → (k.runCount source r).outcome = .error e) ∧
        ∀ rows, source q.toText = .ok rows →
          (∀ n, (k.runCount source r).outcome = .ok n ↔
            ∃ row rest cell, rows = row :: rest ∧ row.get? "C" = some cell ∧
              CountsTo cell n.toInt) ∧
          (∀ e, (k.runCount source r).outcome = .error e → ∃ refusal, e = .invalidValue refusal) ∧
          ∀ (source' : RowSource) (rows' : List Row), source' q.toText = .ok rows' →
            countCell? rows = countCell? rows' →
            k.runCount source r = k.runCount source' r := by
  refine ⟨fun e h => runCount_of_error source h, ?_⟩
  intro q hq
  refine ⟨by rw [runCount_of_ok source hq], ?_, ?_⟩
  · intro e he
    rw [runCount_of_ok source hq, he]
    rfl
  · intro rows hrows
    have hrun : k.runCount source r = ⟨[q.toText], countOf rows⟩ := by
      rw [runCount_of_ok source hq, hrows]
      rfl
    rw [hrun]
    refine ⟨fun n => countOf_eq_ok_iff, fun e => countOf_eq_error, ?_⟩
    intro source' rows' hrows' hcell
    rw [runCount_of_ok source' hq, hrows', countOf_congr hcell]
    rfl

/-- A source whose first row counts to the least word, with another column and another row. -/
theorem runCount_reads_one_cell_sample :
    ∃ q, shop.count .sample = .ok q ∧
      let least := Json.text "\t-09223372036854775808 "
      let source : RowSource := fun s =>
        if s = q.toText then .ok [Sorted.ofList [("D", .int 4), ("C", least)], Sorted.ofList []]
        else .error .malformedRequest
      (shop.runCount source .sample).log = [q.toText] ∧
        (shop.runCount source .sample).outcome = .ok Int64.minValue := by
  obtain ⟨q, hq⟩ : ∃ q, shop.count .sample = .ok q := ⟨_, rfl⟩
  refine ⟨q, hq, ?_⟩
  intro least source
  obtain ⟨hlog, -, hrows⟩ := (runCount_reads_one_cell shop source .sample).2 q hq
  have hcell : (Sorted.ofList [("D", .int 4), ("C", least)]).get? "C" = some least :=
    (Sorted.get?_ofList (by decide)).trans rfl
  have hcount : CountsTo least Int64.minValue.toInt := cellInteger?_eq_some_iff.1 rfl
  exact ⟨hlog, ((hrows _ (if_pos rfl)).1 _).2 ⟨_, _, least, rfl, hcell, hcount⟩⟩

end Compiler

end QueryCompiler
