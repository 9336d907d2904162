import RayClickHouse.Pointwise
import RayClickHouse.ReadProjection
import RayClickHouse.WrappedQuery

/-!
The heads of the statements around a query. A text is terminated when its quotes and
its comments all end within it; terminated texts may stand one after the other. The
SELECT list of simple names is terminated when the types it casts to are, so the mask
of a statement with such a head is known to the end.
-/
namespace RayClickHouse.Query

open Text Lexical Schema

/-- Quoted text and comments of the text end within it. -/
def Terminated (s : Text) : Prop :=
  ∃ ls, Lexes s ls ∧ ∀ l ∈ ls, ∀ t, l ≠ .lineComment t

/-- The type that a column is cast to, where it is cast. -/
def CastTerminated (column : TargetColumn) : Prop :=
  ∀ transport, transportTypeExpression column.declaredType = .ok transport →
    transport ≠ strip column.declaredType → Terminated transport

section Append

variable {front back : List Lexeme} {l : Lexeme} {s t name : Text} {c : Char}

theorem chained_plain_append (hfront : s.all isPlain = true) (hback : Chained back) :
    Chained (s.map .code ++ back) := by
  induction s with
  | nil => exact hback
  | cons c s ih =>
    rw [List.all_cons, Bool.and_eq_true] at hfront
    exact ⟨wellLexed_code hfront.1, ih hfront.2⟩

/-- Before a plain character may stand what may stand at the end, a line comment apart. -/
theorem wellLexed_plain (hline : ∀ u, l ≠ .lineComment u) (hc : isPlain c = true) (hstar : c ≠ '*')
    (h : WellLexed l none) : WellLexed l (some c) := by
  simp only [isPlain, Bool.and_eq_true, Bool.not_eq_true', bne_iff_ne] at hc
  obtain ⟨⟨⟨hquote, -⟩, -⟩, hdash⟩ := hc
  cases l with
  | quoted t =>
    obtain ⟨q, body, rfl, hq, hcloses, -⟩ := h
    refine ⟨q, body, rfl, hq, hcloses, ?_⟩
    intro heq
    obtain rfl := Option.some.inj heq
    rw [hq] at hquote
    contradiction
  | blockComment t => exact h
  | lineComment t => exact absurd rfl (hline t)
  | code d =>
    obtain ⟨hcode, hhash, -, -⟩ := h
    refine ⟨hcode, hhash, ?_, ?_⟩
    · exact fun _ heq => hstar (Option.some.inj heq)
    · exact fun _ heq => hdash (Option.some.inj heq)

theorem chained_append (hfront : Chained front) (hline : ∀ l ∈ front, ∀ u, l ≠ .lineComment u)
    (hback : Chained back) (hhead : (plainText back).head? = some c) (hc : isPlain c = true)
    (hstar : c ≠ '*') : Chained (front ++ back) := by
  induction front with
  | nil => exact hback
  | cons l front ih =>
    obtain ⟨hwell, hrest⟩ := hfront
    have hfirst := hline l (List.mem_cons_self ..)
    refine ⟨?_, ih hrest fun l' hl' => hline l' (List.mem_cons_of_mem _ hl')⟩
    cases front with
    | nil =>
      show WellLexed l (plainText back).head?
      rw [hhead]
      exact wellLexed_plain hfirst hc hstar hwell
    | cons next front =>
      have hne : plainText (next :: front) ≠ [] := by
        rw [plainText_cons]
        exact List.append_ne_nil_of_left_ne_nil hrest.1.text_ne_nil _
      show WellLexed l (plainText (next :: front ++ back)).head?
      rw [plainText_append, List.head?_append_of_ne_nil _ hne]
      exact hwell

theorem Terminated.plain_append (hs : s.all isPlain = true) (ht : Terminated t) :
    Terminated (s ++ t) := by
  obtain ⟨ls, hls, hline⟩ := ht
  obtain ⟨htext, hchained⟩ := lexes_iff.mp hls
  refine ⟨s.map .code ++ ls, lexes_iff.mpr ⟨?_, chained_plain_append hs hchained⟩, ?_⟩
  · rw [plainText_append, plainText_code, ← htext]
  · intro l hl u hu
    rcases List.mem_append.mp hl with hl | hl
    · obtain ⟨c, -, rfl⟩ := List.mem_map.mp hl
      cases hu
    · exact hline l hl u hu

theorem Terminated.append (hs : Terminated s) (ht : Terminated (c :: t)) (hc : isPlain c = true)
    (hstar : c ≠ '*') : Terminated (s ++ c :: t) := by
  obtain ⟨front, hfront, hfrontLine⟩ := hs
  obtain ⟨back, hback, hbackLine⟩ := ht
  obtain ⟨hfrontText, hfrontChained⟩ := lexes_iff.mp hfront
  obtain ⟨hbackText, hbackChained⟩ := lexes_iff.mp hback
  have hhead : (plainText back).head? = some c := by
    rw [← hbackText]
    rfl
  refine ⟨front ++ back, lexes_iff.mpr ⟨?_, ?_⟩, ?_⟩
  · rw [plainText_append, ← hfrontText, ← hbackText]
  · exact chained_append hfrontChained hfrontLine hbackChained hhead hc hstar
  · intro l hl
    rcases List.mem_append.mp hl with hl | hl
    · exact hfrontLine l hl
    · exact hbackLine l hl

theorem terminated_nil : Terminated [] := ⟨[], .nil, fun _ h => absurd h List.not_mem_nil⟩

theorem terminated_plain (hs : s.all isPlain = true) : Terminated s := by
  have h := terminated_nil.plain_append hs
  rwa [List.append_nil] at h

theorem closes_plain {q : Char} (hplain : ∀ c ∈ s, c ≠ '\\' ∧ c ≠ q) : Closes q (s ++ [q]) := by
  induction s with
  | nil => exact .close
  | cons c s ih =>
    obtain ⟨hslash, hquote⟩ := hplain c (List.mem_cons_self ..)
    exact .plain hslash hquote (ih fun c hc => hplain c (List.mem_cons_of_mem _ hc))

/-- A simple name between backquotes is one lexeme. -/
theorem terminated_quoted (hname : isIdentifier name = true) : Terminated (quoted name) := by
  have hcloses : Closes '`' (name ++ ['`']) := by
    apply closes_plain
    intro c hc
    have hpart := isIdentifier_mem hname c hc
    constructor
    · rintro rfl
      exact absurd hpart (by decide)
    · rintro rfl
      exact absurd hpart (by decide)
  refine ⟨[.quoted (quoted name)], lexes_iff.mpr ⟨?_, ?_, trivial⟩, ?_⟩
  · exact (List.append_nil _).symm
  · exact ⟨'`', name ++ ['`'], rfl, by decide, hcloses, fun h => nomatch h⟩
  · intro l hl u hu
    rw [List.mem_singleton.mp hl] at hu
    cases hu

end Append

section Heads

variable {columns : List TargetColumn} {column : TargetColumn} {projection text head : Text}

theorem terminated_column (hname : isIdentifier column.name = true) (hcast : CastTerminated column)
    (h : renderReadColumn column = .ok text) : Terminated text := by
  obtain ⟨transport, htransport, h⟩ := Except.bind_eq_ok.mp h
  have hquoted := terminated_quoted hname
  split at h
  · obtain rfl := Except.ok.inj h
    exact hquoted
  · rename_i hne
    obtain rfl := Except.ok.inj h
    have halias : Terminated (')' :: (" AS ".toList ++ quoted column.name)) :=
      hquoted.plain_append (s := ") AS ".toList) (by decide)
    have htype : Terminated (transport ++ ')' :: (" AS ".toList ++ quoted column.name)) :=
      (hcast transport htransport hne).append halias (by decide) (by decide)
    have has : Terminated (' ' :: ("AS ".toList ++
        (transport ++ ')' :: (" AS ".toList ++ quoted column.name)))) :=
      htype.plain_append (s := " AS ".toList) (by decide)
    have hname := (hquoted.append has (by decide) (by decide)).plain_append
      (s := "CAST(".toList) (by decide)
    simpa using hname

theorem terminated_join {items : List Text} (h : ∀ item ∈ items, Terminated item) :
    Terminated (join ", ".toList items) := by
  induction items with
  | nil => exact terminated_nil
  | cons item items ih =>
    have hitem := h item (List.mem_cons_self ..)
    have hrest := ih fun other hother => h other (List.mem_cons_of_mem _ hother)
    cases items with
    | nil =>
      rw [join_cons, List.flatMap_nil, List.append_nil]
      exact hitem
    | cons next items =>
      have hnext : Terminated (',' :: (" ".toList ++ join ", ".toList (next :: items))) :=
        hrest.plain_append (s := ", ".toList) (by decide)
      have hjoined : join ", ".toList (item :: next :: items) =
          item ++ ',' :: (" ".toList ++ join ", ".toList (next :: items)) := by
        simp [join_cons]
      rw [hjoined]
      exact hitem.append hnext (by decide) (by decide)

/-- The head of a read of simple names has a mask when the types in it are terminated. -/
theorem terminated_selectHead (hnames : ∀ column ∈ columns, isIdentifier column.name = true)
    (hcasts : ∀ column ∈ columns, CastTerminated column)
    (h : renderReadProjection columns = .ok projection) : Terminated (selectHead projection) := by
  obtain ⟨texts, htexts, h⟩ := Except.bind_eq_ok.mp h
  obtain rfl := Except.ok.inj h
  have hitems : ∀ text ∈ texts, Terminated text := by
    intro text htext
    obtain ⟨column, hcolumn, hrender⟩ := exists_of_mem_forall₂ (Except.mapM_eq_ok.mp htexts) htext
    exact terminated_column (hnames column hcolumn) (hcasts column hcolumn) hrender
  have hfrom : Terminated (' ' :: "FROM (".toList) := terminated_plain (by decide)
  have hlist : Terminated (join ", ".toList texts ++ " FROM (".toList) :=
    (terminated_join hitems).append hfrom (by decide) (by decide)
  unfold selectHead
  rw [List.append_assoc]
  exact hlist.plain_append (by decide)

theorem Terminated.queryCode (h : Terminated text) : ∃ code, queryCode text = .ok code := by
  obtain ⟨ls, hls, -⟩ := h
  exact ⟨codeText ls, queryCode_eq_ok.mpr ⟨ls, hls, rfl⟩⟩

end Heads

end RayClickHouse.Query
