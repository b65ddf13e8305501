import QueryCompiler.Proofs.Sql.Dependence
import QueryCompiler.Proofs.Sql.StatementText

/-!
# Rows and their number

The statement that gives the rows and the one that counts them are made for one body: tables,
joins and filter. The text of the body and those around it can be read off the request, and the
body stays when selected fields, sort keys or range change (`body_congr`).

Main statement: `select_count_agree`.
-/

namespace QueryCompiler.Compiler

open Outcome

/-- If any field is selected, the two statements for a request fail for the same fault, or they
speak of the same body: one with the selected fields in front and sort keys and range behind, the
other with nothing more than the count. For valid requests the count does not depend on selected
fields, sort keys and range. -/
theorem select_count_agree (k : Compiler) (r : Request) :
    ((∃ e ∈ r.fields.entries, e.2 ≠ []) →
      (∃ fault, k.select r = .error fault ∧ k.count r = .error fault) ∨
        ∃ q q' text, k.select r = .ok q ∧ k.count r = .ok q' ∧ k.IsBody r text ∧
          q.toText = "SELECT " ++ r.distinctText ++ r.columnsText ++ "\n" ++ text
            ++ r.orderText ++ r.limitText ∧
          q'.toText = "SELECT COUNT(" ++ r.distinctText ++ "T0.id) AS C\n" ++ text) ∧
    ∀ fields order lines offset,
      let r' := { r with fields := fields, order := order, lines := lines, offset := offset }
      r.validate = .ok () → r'.validate = .ok () → k.count r' = k.count r := by
  constructor
  · intro hfields
    have hsome := isEmpty_selected_eq_false_iff.2 hfields
    cases hv : r.validate with
    | error fault =>
      exact .inl ⟨fault, by rw [select, hv]; rfl, by rw [count, hv]; rfl⟩
    | ok u =>
      cases hb : k.body r with
      | error fault =>
        refine .inl ⟨fault, ?_, ?_⟩
        · rw [select, hv, ok_bind, hsome, if_neg Bool.false_ne_true, hb]
          rfl
        · rw [count, hv, ok_bind, hb]
          rfl
      | ok b =>
        refine .inr ⟨_, _, b.toText, select_eq_ok_iff.2 ⟨hv, hsome, b, hb, rfl⟩,
          count_eq_ok_iff.2 ⟨hv, b, hb, rfl⟩, isBody_of_body hb, ?_, ?_⟩
        · simp only [Sql.toText_append, toText_distinctWords, toText_selectList, toText_orderLine,
            toText_limitLine]
          rfl
        · simp only [Sql.toText_append, toText_distinctWords]
          rfl
  · intro fields order lines offset r' hv hv'
    have hbody : k.body r' = k.body r := body_congr rfl rfl rfl rfl
    unfold count
    rw [hv, hv', hbody]
    rfl

/-- Both parts speak of the sample: it selects fields, and it stays valid when it asks for no
field, no order and another range. -/
theorem select_count_agree_sample :
    (∃ q q' text, shop.select .sample = .ok q ∧ shop.count .sample = .ok q' ∧
      shop.IsBody .sample text) ∧
    shop.count { Request.sample with fields := ∅, order := [], lines := 0, offset := 3 } =
      shop.count .sample := by
  obtain ⟨hagree, hcount⟩ := select_count_agree shop .sample
  refine ⟨?_, hcount ∅ [] 0 3 rfl rfl⟩
  rcases hagree ⟨_, List.mem_cons_self, List.cons_ne_nil _ _⟩ with
    ⟨fault, hs, -⟩ | ⟨q, q', text, hs, hc, hbody, -, -⟩
  · obtain ⟨q, hq⟩ : ∃ q, shop.select .sample = .ok q := ⟨_, rfl⟩
    rw [hq] at hs
    cases hs
  · exact ⟨q, q', text, hs, hc, hbody⟩

end QueryCompiler.Compiler
