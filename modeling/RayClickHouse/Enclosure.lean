import RayClickHouse.Parens
import RayClickHouse.QueryText

/-!
Whether a filter stays inside its own conjunct. The gate on filters looks at
semicolons and keywords, not at parentheses, and strips the line feed that would
end a trailing comment.
-/
namespace RayClickHouse.Sql

open Text Lexical TypeText FilterScan Schema Predicates

section Position

/-- Generated text before a parenthesis is read as code, one character a lexeme. -/
theorem closingFrom_plain {fuel : ℕ} {before s : Text} (h : before.all plainChar = true)
    (hfuel : before.length + 1 ≤ fuel) :
    closingFrom fuel before.length (before ++ '(' :: s) = closeParen s := by
  induction before generalizing fuel with
  | nil =>
    obtain ⟨fuel, rfl⟩ : ∃ n, fuel = n + 1 := ⟨fuel - 1, by omega⟩
    simp [closingFrom, nextLexeme_plain (show plainChar '(' = true by decide)]
  | cons c before ih =>
    simp only [List.all_cons, Bool.and_eq_true] at h
    simp only [List.length_cons] at hfuel
    obtain ⟨fuel, rfl⟩ : ∃ n, fuel = n + 1 := ⟨fuel - 1, by omega⟩
    rw [List.cons_append, closingFrom, nextLexeme_plain h.1]
    simpa [Lexeme.text] using ih h.2 (by omega)

/-- A text between two parentheses: the second one closes the first one exactly
when the text is self-contained. -/
theorem closingParen_iff {before f rest : Text} (h : before.all plainChar = true) :
    closingParen (before ++ '(' :: (f ++ ')' :: rest)) before.length =
        some (before.length + 1 + f.length) ↔ selfContained f = true := by
  have hclosing : closingParen (before ++ '(' :: (f ++ ')' :: rest)) before.length =
      (closeParen (f ++ ')' :: rest)).map fun after =>
        (before ++ '(' :: (f ++ ')' :: rest)).length - after.length - 1 := by
    rw [closingParen, closingFrom_plain h (by simp only [List.length_append, List.length_cons]; omega)]
  rw [hclosing, ← closeParen_append f rest]
  constructor
  · intro hsome
    obtain ⟨after, hafter, hposition⟩ := Option.map_eq_some_iff.mp hsome
    have hlen := closeParenFrom_length hafter
    have hsuffix := closeParenFrom_suffix hafter
    have hrest : rest <:+ f ++ ')' :: rest := ⟨f ++ [')'], by simp⟩
    simp only [List.length_append, List.length_cons] at hposition hlen
    have heq : after.length = rest.length := by omega
    rw [hafter, (List.suffix_of_suffix_length_le hsuffix hrest (by omega)).eq_of_length heq]
  · intro hsome
    rw [hsome]
    simp only [Option.map_some, List.length_append, List.length_cons, Option.some.injEq]
    omega

end Position

section Enclosed

variable [UnicodeDatabase]

/-- In the WHERE text of a query, the parenthesis in front of the filter is
closed by the one right behind it. -/
def FilterEnclosed (request : SelectRequest) (q : SelectQuery) (f : Text) : Prop :=
  closingParen (whereText q.serverSide q.condition) (6 + openings request) =
    some (7 + openings request + f.length)

instance (request : SelectRequest) (q : SelectQuery) (f : Text) :
    Decidable (FilterEnclosed request q f) := by
  unfold FilterEnclosed
  infer_instance

theorem filter_enclosed_iff {request : SelectRequest} {q : SelectQuery} {f : Text}
    (h : buildSelect request = .ok q) (hcompiled : CompiledRequest request)
    (hf : filterText request = some f) :
    (∃ rest, whereText q.serverSide q.condition =
        " WHERE ".toList ++ List.replicate (openings request) '(' ++ f ++ ')' :: rest) ∧
      whereText q.serverSide q.condition <:+: q.sql ∧
      (FilterEnclosed request q f ↔ selfContained f = true) := by
  have haccepted := accepted_of_buildSelect h
  obtain ⟨rest, hwhere, _⟩ := haccepted.where_filter hcompiled hf
  obtain ⟨order, limit, _, _, hsql⟩ := haccepted.sql
  refine ⟨⟨rest, hwhere⟩, ⟨selectPrefix request, order ++ limit, by rw [hsql]; simp⟩, ?_⟩
  obtain ⟨k, hk⟩ : ∃ k, openings request = k + 1 :=
    ⟨request.pushedPredicate.toList.length + (if nullExtended request then 1 else 0), by
      unfold openings; omega⟩
  have hshape : whereText q.serverSide q.condition =
      (" WHERE ".toList ++ List.replicate k '(') ++ '(' :: (f ++ ')' :: rest) := by
    rw [hwhere, hk, List.replicate_succ']
    simp
  have hplain : (" WHERE ".toList ++ List.replicate k '(').all plainChar = true := by
    simp [plainChar, isIdentPart]
  have hlen : (" WHERE ".toList ++ List.replicate k '(').length = 7 + k := by simp; omega
  have hiff := @closingParen_iff _ f rest hplain
  rw [hlen] at hiff
  unfold FilterEnclosed
  rw [hshape, hk, show 6 + (k + 1) = 7 + k by omega, show 7 + (k + 1) + f.length =
    7 + k + 1 + f.length by omega]
  exact hiff

end Enclosed

def partitionRequest (filter : String) : SelectRequest :=
  { table := exampleTable
    columns := ["a".toList]
    filterSql := some filter.toList
    partitionIds := some ["p1".toList] }

theorem filter_enclosed_grouped :
    ∃ q, @buildSelect asciiDatabase (partitionRequest "(a = ')' -- one\n OR b = 2)") = .ok q ∧
      FilterEnclosed (partitionRequest "(a = ')' -- one\n OR b = 2)") q
        "(a = ')' -- one\n OR b = 2)".toList := by
  have hok : Outcome.check (@buildSelect asciiDatabase
      (partitionRequest "(a = ')' -- one\n OR b = 2)")) (fun _ => true) = true := by
    decide +kernel
  obtain ⟨q, hq, _⟩ := Outcome.check_eq_true.mp hok
  have hfilter : filterText (partitionRequest "(a = ')' -- one\n OR b = 2)") =
      some "(a = ')' -- one\n OR b = 2)".toList := by decide +kernel
  refine ⟨q, hq, (@filter_enclosed_iff asciiDatabase _ q _ hq (by simp [CompiledRequest,
    partitionRequest]) hfilter).2.2.mpr (by decide +kernel)⟩

/-- The closing parenthesis is swallowed by the comment of the filter. -/
theorem trailing_comment_not_enclosed :
    ∃ q, @buildSelect asciiDatabase (partitionRequest "a = 1 -- one\n") = .ok q ∧
      ¬ FilterEnclosed (partitionRequest "a = 1 -- one\n") q "a = 1 -- one".toList := by
  have hok : Outcome.check (@buildSelect asciiDatabase (partitionRequest "a = 1 -- one\n"))
      (fun q => decide (¬ FilterEnclosed (partitionRequest "a = 1 -- one\n") q
        "a = 1 -- one".toList)) = true := by
    decide +kernel
  obtain ⟨q, hq, hnot⟩ := Outcome.check_eq_true.mp hok
  exact ⟨q, hq, of_decide_eq_true hnot⟩

end RayClickHouse.Sql
