import RayClickHouse.QueryGate

/-!
The statements around an accepted query. The query stands on lines of its own, so
a comment at its end does not hide what follows: the mask of the statement is the
mask of its head, the code of the query and the tail.
-/
namespace RayClickHouse.Query

open Text Lexical

/-- A statement whose head and tail stand on other lines than the query. -/
def wrapped (head query tail : Text) : Text := head ++ '\n' :: (query ++ '\n' :: tail)

def describeHead : Text := "DESCRIBE (".toList

def describeTail : Text := ")".toList

def selectHead (projection : Text) : Text := "SELECT ".toList ++ projection ++ " FROM (".toList

def selectTail : Text := ") AS __ray_clickhouse_query".toList

def probeTail : Text := selectTail ++ " LIMIT 0".toList

def isPlain (c : Char) : Bool := !isQuoteChar c && c != '#' && c != '/' && c != '-'

section Lines

variable {front back : List Lexeme} {l : Lexeme} {s value code : Text} {c : Char}

theorem wellLexed_code {next : Option Char} (h : isPlain c = true) : WellLexed (.code c) next := by
  simp only [isPlain, Bool.and_eq_true, Bool.not_eq_true', bne_iff_ne] at h
  obtain ⟨⟨⟨hquote, hhash⟩, hslash⟩, hdash⟩ := h
  exact ⟨hquote, hhash, fun heq => absurd heq hslash, fun heq => absurd heq hdash⟩

/-- What may stand at the end of a text may stand at the end of a line. -/
theorem wellLexed_lineFeed (h : WellLexed l none) : WellLexed l (some '\n') := by
  cases l with
  | quoted t =>
    obtain ⟨q, body, rfl, hq, hcloses, -⟩ := h
    refine ⟨q, body, rfl, hq, hcloses, ?_⟩
    intro heq
    obtain rfl := Option.some.inj heq
    contradiction
  | blockComment t => exact h
  | lineComment t => exact ⟨h.1, h.2.1, Or.inr rfl⟩
  | code c =>
    obtain ⟨hquote, hhash, -, -⟩ := h
    exact ⟨hquote, hhash, fun _ heq => by simp at heq, fun _ heq => by simp at heq⟩

theorem chained_plain (h : s.all isPlain = true) : Chained (s.map .code) := by
  induction s with
  | nil => trivial
  | cons c s ih =>
    rw [List.all_cons, Bool.and_eq_true] at h
    exact ⟨wellLexed_code h.1, ih h.2⟩

theorem plainText_code (s : Text) : plainText (s.map .code) = s := by
  induction s with
  | nil => rfl
  | cons c s ih =>
    rw [List.map_cons, plainText_cons, ih]
    rfl

theorem codeText_code (s : Text) : codeText (s.map .code) = s := by
  induction s with
  | nil => rfl
  | cons c s ih =>
    rw [List.map_cons, codeText_cons, ih]
    rfl

/-- Two readings on lines of their own are one reading. -/
theorem chained_lines (hfront : Chained front) (hback : Chained back) :
    Chained (front ++ .code '\n' :: back) := by
  induction front with
  | nil => exact ⟨wellLexed_code rfl, hback⟩
  | cons l front ih =>
    obtain ⟨hwell, hrest⟩ := hfront
    refine ⟨?_, ih hrest⟩
    cases front with
    | nil =>
      have hnone : WellLexed l none := hwell
      exact wellLexed_lineFeed hnone
    | cons next front =>
      have hne : plainText (next :: front) ≠ [] := by
        rw [plainText_cons]
        exact List.append_ne_nil_of_left_ne_nil hrest.1.text_ne_nil _
      have hhead : (plainText (next :: front ++ .code '\n' :: back)).head? =
          (plainText (next :: front)).head? := by
        rw [plainText_append, List.head?_append_of_ne_nil _ hne]
      show WellLexed l (plainText (next :: front ++ .code '\n' :: back)).head?
      rw [hhead]
      exact hwell

/-- The mask of a statement around a query shows the code of the query between its ends. -/
theorem queryCode_wrapped {head tail headCode : Text} (hhead : queryCode head = .ok headCode)
    (hquery : queryCode value = .ok code) (htail : tail.all isPlain = true) :
    queryCode (wrapped head value tail) = .ok (wrapped headCode code tail) := by
  obtain ⟨before, hbefore, rfl⟩ := queryCode_eq_ok.mp hhead
  obtain ⟨ls, hls, rfl⟩ := queryCode_eq_ok.mp hquery
  have hchained : Chained (before ++ .code '\n' :: (ls ++ .code '\n' :: tail.map .code)) :=
    chained_lines (lexes_iff.mp hbefore).2 (chained_lines (lexes_iff.mp hls).2 (chained_plain htail))
  refine queryCode_eq_ok.mpr ⟨_, lexes_iff.mpr ⟨?_, hchained⟩, ?_⟩
  · simp only [wrapped, plainText_append, plainText_cons, plainText_code, ← hbefore.text,
      ← hls.text]
    rfl
  · simp only [wrapped, codeText_append, codeText_cons, codeText_code]
    rfl

theorem queryCode_plain (h : s.all isPlain = true) : queryCode s = .ok s := by
  refine queryCode_eq_ok.mpr ⟨s.map .code, lexes_iff.mpr ⟨?_, chained_plain h⟩, ?_⟩
  · rw [plainText_code]
  · rw [codeText_code]

theorem describeHead_plain : describeHead.all isPlain = true := by decide +kernel

theorem describeTail_plain : describeTail.all isPlain = true := by decide +kernel

theorem selectTail_plain : selectTail.all isPlain = true := by decide +kernel

theorem probeTail_plain : probeTail.all isPlain = true := by decide +kernel

end Lines

end RayClickHouse.Query
