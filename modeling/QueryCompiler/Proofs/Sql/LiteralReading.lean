import QueryCompiler.Sql.Literal

/-!
# Quoted texts read back

`Text.readLiteral` takes a literal in single quotes off the front of a text. Inside, a backslash
and the character behind it stand for one character, and a quote ends the literal. Where quotes
may be doubled, two of them in a row stand for one instead.

1. `readBody_escapeChar`: what one character is written as is read back as this character, however
   the text goes on.
2. `readBody_escapeChars`: so a whole text is, and the reader stops at the quote behind it.
3. `forall_mem_quote`: the characters that a statement cannot carry are never among those written.

Main statement: `readLiteral_quote`.
-/

namespace QueryCompiler

namespace Text

/-- The character that one behind a backslash stands for. -/
def unescapeChar (c : Char) : Char :=
  match c with
  | '0' => '\x00'
  | 'n' => '\n'
  | 'r' => '\r'
  | 'Z' => '\x1a'
  | c => c

/-- The text from inside a literal up to the quote that ends it, and what follows that quote. -/
def readBody (doubling : Bool) : List Char → Option (List Char × List Char)
  | [] | ['\\'] => none
  | '\\' :: c :: cs => (readBody doubling cs).map fun p => (unescapeChar c :: p.1, p.2)
  | '\'' :: '\'' :: cs =>
    if doubling then (readBody doubling cs).map fun p => ('\'' :: p.1, p.2)
    else some ([], '\'' :: cs)
  | '\'' :: cs => some ([], cs)
  | c :: cs => (readBody doubling cs).map fun p => (c :: p.1, p.2)

/-- The text of the literal in front, and what follows the literal. -/
def readLiteral (doubling : Bool) (s : String) : Option (String × String) :=
  match s.toList with
  | '\'' :: cs => (readBody doubling cs).map fun p => (String.ofList p.1, String.ofList p.2)
  | _ => none

variable {doubling : Bool}

theorem readBody_quote {cs : List Char} (h : cs.head? ≠ some '\'') :
    readBody doubling ('\'' :: cs) = some ([], cs) := by
  cases cs with
  | nil => rfl
  | cons c cs =>
    have hc : c ≠ '\'' := by
      intro hc
      exact h (congrArg some hc)
    rw [readBody]
    intro cs' hcs
    exact hc (List.cons.inj hcs).1

theorem readBody_cons {c : Char} (hb : c ≠ '\\') (hq : c ≠ '\'') (cs : List Char) :
    readBody doubling (c :: cs) = (readBody doubling cs).map fun p => (c :: p.1, p.2) := by
  rw [readBody]
  · exact fun h => absurd h hb
  · exact fun _ _ h => absurd h hb
  · exact fun _ h => absurd h hq
  · exact fun h => absurd h hq

end Text

namespace Literal

open Text

variable {doubling : Bool}

/-- What a character is written as is read back as this character. -/
theorem readBody_escapeChar (c : Char) (rest : List Char) :
    readBody doubling (escapeChar c ++ rest) =
      (readBody doubling rest).map fun p => (c :: p.1, p.2) := by
  by_cases h : c ∈ ['\x00', '\n', '\r', '\\', '\'', '"', '\x1a']
  · simp only [List.mem_cons, List.not_mem_nil, or_false] at h
    rcases h with rfl | rfl | rfl | rfl | rfl | rfl | rfl <;> rfl
  · rw [(escapeChar_eq_self_iff c).2 h]
    simp only [List.mem_cons, List.not_mem_nil, or_false, not_or] at h
    exact readBody_cons h.2.2.2.1 h.2.2.2.2.1 rest

/-- An escaped text is read back up to the quote behind it. -/
theorem readBody_escapeChars (cs : List Char) {rest : List Char}
    (h : rest.head? ≠ some '\'') :
    readBody doubling (escapeChars cs ++ '\'' :: rest) = some (cs, rest) := by
  induction cs with
  | nil => exact readBody_quote h
  | cons c cs ih =>
    have hcons : escapeChars (c :: cs) = escapeChar c ++ escapeChars cs := List.flatMap_cons
    rw [hcons, List.append_assoc, readBody_escapeChar, ih]
    rfl

theorem toList_quote (s : String) :
    (quote s).toList = '\'' :: (escapeChars s.toList ++ ['\'']) := by
  unfold quote escape
  simp

/-- The characters that are never written: NUL, line feed, carriage return and Ctrl-Z. -/
def forbidden : List Char := ['\x00', '\n', '\r', '\x1a']

theorem not_mem_forbidden_of_mem_escapeChar {c c' : Char} (h : c' ∈ escapeChar c) :
    c' ∉ forbidden := by
  by_cases hc : c ∈ ['\x00', '\n', '\r', '\\', '\'', '"', '\x1a']
  · simp only [List.mem_cons, List.not_mem_nil, or_false] at hc
    rcases hc with rfl | rfl | rfl | rfl | rfl | rfl | rfl <;>
      (simp only [escapeChar, List.mem_cons, List.not_mem_nil, or_false] at h
       rcases h with rfl | rfl <;> decide)
  · rw [(escapeChar_eq_self_iff c).2 hc, List.mem_singleton] at h
    subst h
    intro hmem
    have hsub : forbidden ⊆ ['\x00', '\n', '\r', '\\', '\'', '"', '\x1a'] := by decide
    exact hc (hsub hmem)

theorem forall_mem_quote (s : String) : ∀ c ∈ (quote s).toList, c ∉ forbidden := by
  rw [toList_quote, List.forall_mem_cons, List.forall_mem_append, List.forall_mem_singleton]
  refine ⟨by decide, ?_, by decide⟩
  intro c hc
  obtain ⟨c', -, hmem⟩ := List.mem_flatMap.1 hc
  exact not_mem_forbidden_of_mem_escapeChar hmem

/-- A quoted text is read back as the text, and what is left is what follows it, whether or not
quotes may be doubled. It is written without NUL, line feed, carriage return and Ctrl-Z. -/
theorem readLiteral_quote (doubling : Bool) (s rest : String)
    (h : rest.toList.head? ≠ some '\'') :
    readLiteral doubling (quote s ++ rest) = some (s, rest) ∧
      ∀ c ∈ (quote s).toList, c ∉ ['\x00', '\n', '\r', '\x1a'] := by
  refine ⟨?_, forall_mem_quote s⟩
  have hlist : (quote s ++ rest).toList
      = '\'' :: (escapeChars s.toList ++ '\'' :: rest.toList) := by
    rw [String.toList_append, toList_quote]
    simp
  have hbody : readBody doubling (escapeChars s.toList ++ '\'' :: rest.toList) =
      some (s.toList, rest.toList) := readBody_escapeChars s.toList h
  unfold readLiteral
  rw [hlist]
  simp only [hbody, Option.map_some, String.ofList_toList]

/-- Backslashes in a row and at the end, a quote behind one, and letters that could be taken for
escapes, before a text that goes on with a comment and a quote. -/
theorem readLiteral_quote_hostile :
    " -- '".toList.head? ≠ some '\'' ∧
      readLiteral true (quote "\\\\n'\x00Z\n\\'" ++ " -- '") = some ("\\\\n'\x00Z\n\\'", " -- '") :=
  ⟨by decide, (readLiteral_quote true _ _ (by decide)).1⟩

end Literal

end QueryCompiler
