import QueryCompiler.Proofs.Json.NumberEnd

/-!
# Texts of JSON, read back

A tree comes back from its shortest text if its numbers do, but for one thing: the text does not keep
whether a key was written with an escape once, so this is told anew by how the key is written now.
`reread` is the tree that the reader finds.

1. `elements_quoted`: what stands between quotes is scanned up to the closing one, character by
   character.
2. `characters?_elementOf`: the characters come out as they were.
3. `items?_compactItems` and `members?_compactMembers`: items and members are read one after the
   other, if their values are.
4. `readsBack_of_legible`: so is a whole tree, by induction on how it nests.

Main statements: `read?_compact_of_legible`, and `read?_compact` for trees without numbers.
-/

namespace QueryCompiler.Json

open Text

/-! ## Characters -/

/-- What a character is scanned as, from the way in which it is written. -/
def elementOf (c : Char) : Element :=
  if c ∈ ['"', '\\', '\x08', '\x0c', '\n', '\r', '\t'] then .escape c
  else if c.toNat < 0x20 then .unit c.toNat
  else .plain c

variable {c c' : Char}

theorem elements_escape (h : escape? c = some c') (cs : List Char) :
    elements ('\\' :: c :: cs) = (elements cs).map fun p => (.escape c' :: p.1, p.2) := by
  have hu : c ≠ 'u' := by
    rintro rfl
    cases h
  rw [elements, h]
  · cases elements cs <;> rfl
  · rintro a b d e cs' ⟨⟩
    exact absurd rfl hu

theorem elements_unit {a b d e : Char} {n : Nat} (h : hexNumber? [a, b, d, e] = some n)
    (cs : List Char) : elements ('\\' :: 'u' :: a :: b :: d :: e :: cs)
      = (elements cs).map fun p => (.unit n :: p.1, p.2) := by
  rw [elements, h]
  cases elements cs <;> rfl

theorem elements_plain (hquote : c ≠ '"') (hslash : c ≠ '\\') (hlow : ¬ c.toNat < 0x20)
    (cs : List Char) : elements (c :: cs)
      = (elements cs).map fun p => (.plain c :: p.1, p.2) := by
  rw [elements, if_neg hlow]
  · cases elements cs <;> rfl
  · exact hquote
  · rintro a b d e cs' rfl
    exact absurd rfl hslash
  · rintro c' cs' rfl
    exact absurd rfl hslash

theorem hexNumber?_hexDigit : ∀ n < 0x20,
    hexNumber? ['0', '0', hexDigit (n / 16), hexDigit n] = some n := by
  decide

/-- One written character is scanned as one element. -/
theorem elements_quotedChar (c : Char) (cs : List Char) :
    elements (quotedChar c ++ cs) = (elements cs).map fun p => (elementOf c :: p.1, p.2) := by
  unfold quotedChar
  split
  case h_8 hquote hslash hb hf hn hr ht =>
    have hspecial : c ∉ ['"', '\\', '\x08', '\x0c', '\n', '\r', '\t'] := by
      simp only [List.mem_cons, List.not_mem_nil, or_false, not_or]
      exact ⟨hquote, hslash, hb, hf, hn, hr, ht⟩
    rw [elementOf, if_neg hspecial]
    split
    · rename_i hlow
      exact elements_unit (hexNumber?_hexDigit c.toNat hlow) cs
    · rename_i hlow
      exact elements_plain hquote hslash hlow cs
  all_goals exact elements_escape rfl cs

theorem elements_quoted (cs rest : List Char) :
    elements (cs.flatMap quotedChar ++ '"' :: rest) = some (cs.map elementOf, rest) := by
  induction cs with
  | nil => rw [List.flatMap_nil, List.nil_append, elements, List.map_nil]
  | cons c cs ih =>
    rw [List.flatMap_cons, List.append_assoc, elements_quotedChar, ih]
    rfl

/-- A control character is half of no pair, whatever comes behind it. -/
theorem characters?_unit {n : Nat} (h : n < 0x20) (es : List Element) :
    characters? (.unit n :: es) = (characters? es).map (Char.ofNat n :: ·) := by
  have hlead : isLead n = false := by
    rw [isLead, Bool.and_eq_false_iff, decide_eq_false_iff_not]
    omega
  have htrail : isTrail n = false := by
    rw [isTrail, Bool.and_eq_false_iff, decide_eq_false_iff_not]
    omega
  cases es with
  | nil => simp [characters?, hlead, htrail]
  | cons e es => cases e <;> simp [characters?, hlead, htrail]

theorem characters?_cons_elementOf (c : Char) (es : List Element) :
    characters? (elementOf c :: es) = (characters? es).map (c :: ·) := by
  unfold elementOf
  split
  · rw [characters?]
  · split
    · rename_i hlow
      rw [characters?_unit hlow, Char.ofNat_toNat]
    · rw [characters?]

theorem characters?_elementOf (cs : List Char) : characters? (cs.map elementOf) = some cs := by
  induction cs with
  | nil => rfl
  | cons c cs ih => rw [List.map_cons, characters?_cons_elementOf, ih, Option.map_some]

/-! ## Trees -/

/-- Some character of a text is written with a backslash. -/
def isEscaped (s : String) : Bool := (s.toList.map elementOf).any fun e => !e.isPlain

mutual

/-- A tree with its keys marked as they are written now. -/
def reread : Json → Json
  | array items => array (rereadItems items)
  | object _ members => object (members.any fun m => isEscaped m.1) (rereadMembers members)
  | j => j

def rereadItems : List Json → List Json
  | [] => []
  | j :: js => reread j :: rereadItems js

def rereadMembers : List (String × Json) → List (String × Json)
  | [] => []
  | (k, j) :: ms => (k, reread j) :: rereadMembers ms

end

theorem rereadItems_eq_map (js : List Json) : rereadItems js = js.map reread := by
  induction js with
  | nil => rfl
  | cons j js ih => rw [rereadItems, ih, List.map_cons]

theorem rereadMembers_eq_map (ms : List (String × Json)) :
    rereadMembers ms = ms.map fun m => (m.1, m.2.reread) := by
  induction ms with
  | nil => rfl
  | cons m ms ih => rw [rereadMembers, ih, List.map_cons]

/-- A tree of texts and objects that nest no deeper than so many levels. -/
inductive Textual : Nat → Json → Prop
  | text {levels : Nat} (s : String) : Textual levels (text s)
  | object {levels : Nat} {escaped : Bool} {members : List (String × Json)}
      (h : ∀ m ∈ members, Textual levels m.2) : Textual (levels + 1) (object escaped members)

/-- A tree that nests no deeper than so many levels, and whose numbers are read as they are written:
integers of 64 bits, and floats that come back from their texts. -/
inductive Legible : Nat → Json → Prop
  | null {levels : Nat} : Legible levels null
  | bool {levels : Nat} (b : Bool) : Legible levels (bool b)
  | int {levels : Nat} {n : Int} (h : -0x8000000000000000 ≤ n ∧ n < UInt64.size) :
      Legible levels (int n)
  | float {levels : Nat} {x : Float}
      (h : number? (Decimal.scientific.text x).toList = some (float x, [])) :
      Legible levels (float x)
  | text {levels : Nat} (s : String) : Legible levels (text s)
  | array {levels : Nat} {items : List Json} (h : ∀ j ∈ items, Legible levels j) :
      Legible (levels + 1) (array items)
  | object {levels : Nat} {escaped : Bool} {members : List (String × Json)}
      (h : ∀ m ∈ members, Legible levels m.2) : Legible (levels + 1) (object escaped members)

theorem Textual.legible {levels : Nat} {j : Json} (hj : Textual levels j) : Legible levels j := by
  induction hj with
  | text s => exact .text s
  | object _ ih => exact .object ih

/-- A member as it is read. -/
def readMember (m : String × Json) : ReadMember := (some m.1, isEscaped m.1, m.2.reread)

theorem ofMembers_readMember (ms : List (String × Json)) :
    ofMembers (ms.map readMember)
      = object (ms.any fun m => isEscaped m.1) (ms.map fun m => (m.1, m.2.reread)) := by
  have hkeys : (ms.map readMember).mapM (fun m => m.1.map fun k => (k, m.2.2))
      = some (ms.map fun m => (m.1, m.2.reread)) := mapM_map_of_forall fun _ _ => rfl
  rw [ofMembers, hkeys, List.any_map]
  rfl

theorem quoted_append (s : String) (rest : List Char) :
    quoted s ++ rest = '"' :: (s.toList.flatMap quotedChar ++ '"' :: rest) := by
  rw [quoted, List.append_assoc, List.cons_append, List.singleton_append]

theorem skipGap_cons (h : isGap c = false) (cs : List Char) : skipGap (c :: cs) = c :: cs :=
  List.dropWhile_cons_of_neg (Bool.eq_false_iff.1 h)

/-- A number begins with a sign or a digit. -/
theorem exists_cons_of_number? {cs : List Char} {r : Json × List Char} (h : number? cs = some r) :
    ∃ c tail, cs = c :: tail ∧ StartsInteger c := by
  cases cs with
  | nil => cases h
  | cons c tail =>
    refine ⟨c, tail, rfl, ?_⟩
    by_contra hc
    simp only [StartsInteger, not_or] at hc
    have hminus : ¬ (c :: tail).head? = some '-' := fun h => hc.2.1 (Option.some.inj h)
    have hdigits : Decimal.digitsOf (c :: tail) = [] :=
      List.takeWhile_cons_of_neg hc.2.2
    rw [number?, if_neg hminus, wholeDigits?, hdigits] at h
    cases h

variable {levels fuel : Nat}

/-- What is written for a tree begins neither with a gap nor with a closing bracket. -/
theorem exists_compactChars_eq_cons {j : Json} (hj : Legible levels j) :
    ∃ c cs, j.compactChars = c :: cs ∧ isGap c = false ∧ c ≠ ']' := by
  have hnumber {cs : List Char} (h : ∃ c tail, cs = c :: tail ∧ StartsInteger c) :
      ∃ c tail, cs = c :: tail ∧ isGap c = false ∧ c ≠ ']' := by
    obtain ⟨c, tail, rfl, hc⟩ := h
    refine ⟨c, tail, rfl, ?_, hc.ne (by decide)⟩
    simp [isGap, hc.ne (d := ' ') (by decide), hc.ne (d := '\t') (by decide),
      hc.ne (d := '\n') (by decide), hc.ne (d := '\r') (by decide)]
  cases hj with
  | bool b => cases b <;> exact ⟨_, _, rfl, rfl, by decide⟩
  | int h => exact hnumber (exists_cons_of_isInteger (Decimal.isInteger_toString _))
  | float h => exact hnumber (exists_cons_of_number? h)
  | null | text _ | array _ | object _ => exact ⟨_, _, rfl, rfl, by decide⟩

theorem skipGap_compactChars {j : Json} (hj : Legible levels j) (rest : List Char) :
    skipGap (j.compactChars ++ rest) = j.compactChars ++ rest := by
  obtain ⟨c, cs, hcs, hc, -⟩ := exists_compactChars_eq_cons hj
  rw [hcs]
  exact skipGap_cons hc _

/-- A tree is read from the front of what it is written in front of. -/
def ReadsBack (levels : Nat) (j : Json) : Prop :=
  ∀ fuel rest, EndsNumber rest → j.compactChars.length ≤ fuel →
    value? fuel levels (j.compactChars ++ rest) = some (j.reread, rest)

/-! ## Items -/

theorem compactItems_cons (j j' : Json) (js : List Json) :
    compactItems (j :: j' :: js) = j.compactChars ++ ',' :: compactItems (j' :: js) := by
  rw [compactItems]
  exact List.cons_ne_nil _ _

theorem exists_compactItems_eq_cons {j : Json} (hj : Legible levels j) (js : List Json)
    (rest : List Char) :
    ∃ c cs, compactItems (j :: js) ++ rest = c :: cs ∧ isGap c = false ∧ c ≠ ']' := by
  obtain ⟨c, cs, hcs, hc⟩ := exists_compactChars_eq_cons hj
  cases js with
  | nil => exact ⟨c, cs ++ rest, by rw [compactItems, hcs, List.cons_append], hc⟩
  | cons j' js =>
    rw [compactItems_cons, hcs]
    exact ⟨c, _, rfl, hc⟩

/-- The value in front, then what the next character asks for. -/
theorem items?_compactChars {j : Json} (hj : Legible levels j) (hread : j.ReadsBack levels)
    (hfuel : j.compactChars.length ≤ fuel) {rest : List Char} (hrest : EndsNumber rest) :
    items? (fuel + 1) levels (j.compactChars ++ rest)
      = match skipGap rest with
        | ',' :: rest => do
          let (js, rest) ← items? fuel levels rest
          return (j.reread :: js, rest)
        | ']' :: rest => return ([j.reread], rest)
        | _ => none := by
  rw [items?, skipGap_compactChars hj, hread fuel rest hrest hfuel]
  rfl

theorem items?_compactItems {js : List Json} (hne : js ≠ [])
    (hjs : ∀ j ∈ js, Legible levels j ∧ j.ReadsBack levels)
    (hfuel : (compactItems js).length < fuel) (rest : List Char) :
    items? fuel levels (compactItems js ++ ']' :: rest) = some (js.map reread, rest) := by
  induction js generalizing fuel with
  | nil => exact absurd rfl hne
  | cons j js ih =>
    obtain ⟨⟨hj, hread⟩, hjs⟩ := List.forall_mem_cons.1 hjs
    obtain ⟨fuel, rfl⟩ : ∃ n, fuel = n + 1 := ⟨fuel - 1, by omega⟩
    cases js with
    | nil =>
      rw [compactItems] at hfuel ⊢
      rw [items?_compactChars hj hread (by omega) (endsNumber_cons (by decide) _),
        skipGap_cons rfl]
      rfl
    | cons j' js =>
      rw [compactItems_cons] at hfuel ⊢
      rw [List.length_append, List.length_cons] at hfuel
      have hrest := ih (List.cons_ne_nil _ _) hjs (by omega : _ < fuel)
      rw [List.append_assoc, List.cons_append,
        items?_compactChars hj hread (by omega) (endsNumber_cons (by decide) _), skipGap_cons rfl]
      simp only [hrest, Option.bind_eq_bind, Option.bind_some]
      rfl

/-! ## Members -/

/-- The key and the value in front, then what the next character asks for. -/
theorem members?_quoted {j : Json} (hj : Legible levels j) (hread : j.ReadsBack levels)
    (hfuel : j.compactChars.length ≤ fuel) (k : String) {rest : List Char} (hrest : EndsNumber rest) :
    members? (fuel + 1) levels (quoted k ++ ':' :: (j.compactChars ++ rest))
      = match skipGap rest with
        | ',' :: rest => do
          let (ms, rest) ← members? fuel levels rest
          return (readMember (k, j) :: ms, rest)
        | '\x7d' :: rest => return ([readMember (k, j)], rest)
        | _ => none := by
  have hkey : (characters? (k.toList.map elementOf)).map String.ofList = some k := by
    rw [characters?_elementOf, Option.map_some, String.ofList_toList]
  rw [quoted_append, members?, skipGap_cons rfl]
  simp only [elements_quoted, Option.bind_eq_bind, Option.bind_some, hkey]
  rw [skipGap_cons rfl]
  simp only [skipGap_compactChars hj, hread fuel rest hrest hfuel, Option.bind_some]
  rfl

theorem compactMembers_cons (k : String) (j : Json) (m : String × Json)
    (ms : List (String × Json)) :
    compactMembers ((k, j) :: m :: ms)
      = quoted k ++ ':' :: (j.compactChars ++ ',' :: compactMembers (m :: ms)) := by
  rw [compactMembers]
  · rw [List.append_assoc, List.cons_append]
  · exact List.cons_ne_nil _ _

theorem exists_compactMembers_eq_cons {ms : List (String × Json)} (hne : ms ≠ [])
    (rest : List Char) : ∃ cs, compactMembers ms ++ rest = '"' :: cs := by
  cases ms with
  | nil => exact absurd rfl hne
  | cons m ms =>
    cases ms with
    | nil => exact ⟨_, rfl⟩
    | cons m' ms => exact ⟨_, rfl⟩

theorem members?_compactMembers {ms : List (String × Json)} (hne : ms ≠ [])
    (hms : ∀ m ∈ ms, Legible levels m.2 ∧ m.2.ReadsBack levels)
    (hfuel : (compactMembers ms).length ≤ fuel) (rest : List Char) :
    members? fuel levels (compactMembers ms ++ '\x7d' :: rest)
      = some (ms.map readMember, rest) := by
  induction ms generalizing fuel with
  | nil => exact absurd rfl hne
  | cons m ms ih =>
    obtain ⟨k, j⟩ := m
    obtain ⟨hkj, hms⟩ := List.forall_mem_cons.1 hms
    obtain ⟨hj, hread⟩ : Legible levels j ∧ j.ReadsBack levels := hkj
    have hquoted : 2 ≤ (quoted k).length := by
      simp only [quoted, List.cons_append, List.length_cons, List.length_append, List.length_nil]
      omega
    cases ms with
    | nil =>
      rw [compactMembers] at hfuel ⊢
      rw [List.length_append, List.length_cons] at hfuel
      obtain ⟨fuel, rfl⟩ : ∃ n, fuel = n + 1 := ⟨fuel - 1, by omega⟩
      rw [List.append_assoc, List.cons_append, members?_quoted hj hread (by omega) _ (endsNumber_cons (by decide) _),
        skipGap_cons rfl]
      rfl
    | cons m' ms =>
      rw [compactMembers_cons] at hfuel ⊢
      simp only [List.length_append, List.length_cons] at hfuel
      obtain ⟨fuel, rfl⟩ : ∃ n, fuel = n + 1 := ⟨fuel - 1, by omega⟩
      have hrest := ih (List.cons_ne_nil _ _) hms (by omega : _ ≤ fuel)
      simp only [List.append_assoc, List.cons_append]
      rw [members?_quoted hj hread (by omega) _ (endsNumber_cons (by decide) _), skipGap_cons rfl]
      simp only [hrest, Option.bind_eq_bind, Option.bind_some]
      rfl

theorem value?_object (fuel levels : Nat) (cs : List Char) :
    value? (fuel + 1) (levels + 1) ('\x7b' :: '"' :: cs)
      = (members? fuel levels ('"' :: cs)).map fun p => (ofMembers p.1, p.2) := by
  rw [value?, skipGap_cons rfl]
  show (do let (ms, rest) ← members? fuel levels ('"' :: cs); return (ofMembers ms, rest)) = _
  cases members? fuel levels ('"' :: cs) <;> rfl

theorem value?_array (fuel levels : Nat) {c : Char} (hgap : isGap c = false) (hc : c ≠ ']')
    (cs : List Char) : value? (fuel + 1) (levels + 1) ('[' :: c :: cs)
      = (items? fuel levels (c :: cs)).map fun p => (array p.1, p.2) := by
  rw [value?, skipGap_cons hgap]
  split
  · rename_i heq
    exact absurd (List.cons.inj heq).1 hc
  · show (do let (js, rest) ← items? fuel levels (c :: cs); return (array js, rest)) = _
    cases items? fuel levels (c :: cs) <;> rfl

/-! ## Trees -/

/-- A number is read as itself. -/
theorem value?_of_number? {cs rest : List Char} {j : Json} (h : number? cs = some (j, []))
    (hrest : EndsNumber rest) (fuel levels : Nat) :
    value? (fuel + 1) levels (cs ++ rest) = some (j, rest) := by
  obtain ⟨c, tail, rfl, hc⟩ := exists_cons_of_number? h
  rw [List.cons_append, value?_of_startsInteger hc, ← List.cons_append, number?_before hrest, h]
  rfl

/-- A tree is read back as it is, whatever it is written in front of. -/
theorem readsBack_of_legible {j : Json} (hj : Legible levels j) : j.ReadsBack levels := by
  induction hj with
  | null =>
    intro fuel rest _ hfuel
    obtain ⟨fuel, rfl⟩ := Nat.exists_eq_add_of_lt hfuel
    rfl
  | bool b =>
    intro fuel rest _ hfuel
    cases b <;>
    · obtain ⟨fuel, rfl⟩ := Nat.exists_eq_add_of_lt hfuel
      rfl
  | int h =>
    intro fuel rest hrest hfuel
    obtain ⟨c, cs, hcs, -⟩ := exists_compactChars_eq_cons (.int h : Legible 0 _)
    rw [hcs] at hfuel
    obtain ⟨fuel, rfl⟩ := Nat.exists_eq_add_of_lt hfuel
    exact value?_of_number? (number?_int h) hrest _ _
  | float h =>
    intro fuel rest hrest hfuel
    obtain ⟨c, cs, hcs, -⟩ := exists_compactChars_eq_cons (.float h : Legible 0 _)
    rw [hcs] at hfuel
    obtain ⟨fuel, rfl⟩ := Nat.exists_eq_add_of_lt hfuel
    exact value?_of_number? h hrest _ _
  | text s =>
    intro fuel rest _ hfuel
    have hlength : 1 ≤ (quoted s).length := by
      rw [quoted, List.cons_append, List.length_cons]
      omega
    rw [compactChars] at hfuel ⊢
    obtain ⟨fuel, rfl⟩ : ∃ n, fuel = n + 1 := ⟨fuel - 1, by omega⟩
    rw [quoted_append, value?, elements_quoted]
    simp only [Option.bind_eq_bind, Option.bind_some, ofElements, characters?_elementOf,
      String.ofList_toList]
    rfl
  | @array levels items h ih =>
    intro fuel rest _ hfuel
    rw [compactChars] at hfuel ⊢
    simp only [List.cons_append, List.length_append, List.length_cons, List.length_nil] at hfuel
    obtain ⟨fuel, rfl⟩ : ∃ n, fuel = n + 1 := ⟨fuel - 1, by omega⟩
    simp only [List.cons_append, List.append_assoc, List.nil_append]
    cases items with
    | nil =>
      rw [compactItems, List.nil_append, value?, skipGap_cons rfl]
      rfl
    | cons j js =>
      have hread := items?_compactItems (List.cons_ne_nil j js) (fun j hj => ⟨h j hj, ih j hj⟩)
        (by omega : _ < fuel) rest
      obtain ⟨c, cs, hcs, hgap, hc⟩ :=
        exists_compactItems_eq_cons (h j List.mem_cons_self) js (']' :: rest)
      rw [hcs] at hread ⊢
      rw [value?_array fuel levels hgap hc, hread, Option.map_some, reread, rereadItems_eq_map]
  | @object levels escaped members h ih =>
    intro fuel rest _ hfuel
    rw [compactChars] at hfuel ⊢
    simp only [List.cons_append, List.length_append, List.length_cons] at hfuel
    obtain ⟨fuel, rfl⟩ : ∃ n, fuel = n + 1 := ⟨fuel - 1, by omega⟩
    simp only [List.cons_append, List.append_assoc, List.nil_append]
    by_cases hne : members = []
    · rw [hne, compactMembers, List.nil_append, value?, skipGap_cons rfl]
      rfl
    · have hread := members?_compactMembers hne (fun m hm => ⟨h m hm, ih m hm⟩)
        (by omega : _ ≤ fuel) rest
      obtain ⟨cs, hcs⟩ := exists_compactMembers_eq_cons hne ('\x7d' :: rest)
      rw [hcs] at hread ⊢
      rw [value?_object, hread, Option.map_some, ofMembers_readMember, reread,
        rereadMembers_eq_map]

/-- The reader goes over the characters of a tree, which need not become a text first. -/
theorem read?_compact_eq (j : Json) :
    read? j.compact = (do
      let (j', rest) ← value? (2 * j.compactChars.length + 2) maxDepth (skipGap j.compactChars)
      if skipGap rest = [] then some j' else none) := by
  rw [read?, compact, String.toList_ofList]

/-- What is written for a tree is read as this tree, its keys marked as they are written. -/
theorem read?_compact_of_legible {j : Json} (hj : Legible maxDepth j) :
    read? j.compact = some j.reread := by
  have hgap : skipGap j.compactChars = j.compactChars := by
    have h := skipGap_compactChars hj []
    rwa [List.append_nil] at h
  have hread : value? (2 * j.compactChars.length + 2) maxDepth j.compactChars
      = some (j.reread, []) := by
    have h := readsBack_of_legible hj (2 * j.compactChars.length + 2) [] endsNumber_nil (by omega)
    rwa [List.append_nil] at h
  rw [read?_compact_eq]
  simp only [hgap, hread, Option.bind_eq_bind, Option.bind_some]
  rfl

/-- A tree without numbers comes back whatever its texts. -/
theorem read?_compact {j : Json} (hj : Textual maxDepth j) :
    read? j.compact = some j.reread :=
  read?_compact_of_legible hj.legible

end QueryCompiler.Json
