import RayClickHouse.ClauseGate
import RayClickHouse.LexemeForms
import RayClickHouse.TypeRefusals

/-!
The gate on a caller's query. It masks quotes and comments, takes out one semicolon at
the end, and looks at the code that is left. The text it returns is masked once more
where it is used; the two lexemes around the removed semicolon may have joined by then,
and the checks still hold of the new mask.
-/
namespace RayClickHouse.Query

open Text Lexical TypeText FilterScan Sql

def controlWords : List Text :=
  ["INSERT", "UPDATE", "DELETE", "CREATE", "DROP", "ALTER", "RENAME", "TRUNCATE", "ATTACH",
    "DETACH", "OPTIMIZE", "EXCHANGE", "GRANT", "REVOKE", "BACKUP", "RESTORE", "KILL", "SET",
    "SETTINGS", "FORMAT", "INTO"].map String.toList

def readingWords : List Text := ["SELECT", "WITH"].map String.toList

section Gate

variable [UnicodeDatabase]

def matchWords (words : List Text) (s : Text) : Bool :=
  words.any fun word => (matchKeyword word s).any fun rest => !isWordOption rest.head?

def matchControl (previous : Option Char) (s : Text) : Bool :=
  !isWordOption previous && previous != some '.' && matchWords controlWords s

def containsControlFrom : Option Char → Text → Bool
  | _, [] => false
  | previous, c :: rest =>
      matchControl previous (c :: rest) || containsControlFrom (some c) rest

def containsControl (code : Text) : Bool := containsControlFrom none code

def startsReading (code : Text) : Bool := matchWords readingWords (code.dropWhile isSpace)

/-- The text and its mask without the only semicolon, behind which the mask is blank. -/
def dropSemicolon (value code : Text) : Outcome (Text × Text) :=
  if ';' ∉ code then .ok (value, code)
  else if code.count ';' ≠ 1 ∨ strip (code.drop (code.idxOf ';' + 1)) ≠ [] then
    Outcome.raise .configuration "query must contain one statement"
  else .ok (value.eraseIdx (code.idxOf ';'), code.eraseIdx (code.idxOf ';'))

def checkCode (value code : Text) : Outcome Text :=
  if ¬ startsReading code then
    Outcome.raise .configuration "query must be a SELECT or WITH/SELECT read"
  else if containsControl code then
    Outcome.raise .configuration "query contains an unsupported statement or control clause"
  else if driverSearch code then
    Outcome.raise .configuration "query reads currently use client-side named parameters"
  else .ok value

def validateReadQuery (value : Text) : Outcome Text :=
  if strip value = [] ∨ Char.ofNat 0 ∈ value then
    Outcome.raise .configuration "query must be a non-empty trusted read query"
  else do
    let code ← queryCode (strip value)
    let (query, code) ← dropSemicolon (strip value) code
    checkCode query code

/-- No control word stands in the code, unless a word character or a dot precedes it. -/
def ControlFree (code : Text) : Prop :=
  ∀ before after, code = before ++ after → matchControl before.getLast? after = false

structure ReadCode (code : Text) : Prop where
  single : ';' ∉ code
  reading : startsReading code = true
  uncontrolled : ControlFree code
  untyped : driverSearch code = false

end Gate

section Words

variable [UnicodeDatabase] {words : List Text} {word s t rest : Text} {c d : Char}

theorem matchWords_eq_true : matchWords words s = true ↔ ∃ word ∈ words, ∃ rest,
    matchKeyword word s = some rest ∧ isWordOption rest.head? = false := by
  simp [matchWords, Option.any_eq_true]

theorem containsControlFrom_eq_false {previous : Option Char} :
    containsControlFrom previous s = false ↔ ∀ before after, s = before ++ after → after ≠ [] →
      matchControl (before.getLast?.or previous) after = false := by
  induction s generalizing previous with
  | nil => simp [containsControlFrom]
  | cons c rest ih =>
    rw [containsControlFrom, Bool.or_eq_false_iff, ih]
    constructor
    · rintro ⟨hhead, hrest⟩ before after heq hne
      cases before with
      | nil =>
        rw [List.nil_append] at heq
        rw [← heq]
        exact hhead
      | cons b before =>
        obtain ⟨rfl, rfl⟩ := List.cons.inj heq
        rw [getLast?_cons_or]
        exact hrest before after rfl hne
    · intro h
      refine ⟨h [] (c :: rest) rfl (List.cons_ne_nil _ _), ?_⟩
      rintro before after rfl hne
      rw [← getLast?_cons_or c before previous]
      exact h (c :: before) after rfl hne

omit [UnicodeDatabase] in
theorem wordLists_ne_nil : ∀ word ∈ controlWords ++ readingWords, word ≠ [] := by
  decide

theorem matchWords_nil (hwords : ∀ word ∈ words, word ≠ []) : matchWords words [] = false := by
  rw [Bool.eq_false_iff]
  intro h
  obtain ⟨word, hword, rest, hmatch, -⟩ := matchWords_eq_true.mp h
  obtain ⟨k, more, rfl⟩ := List.exists_cons_of_ne_nil (hwords word hword)
  contradiction

theorem controlFree_iff {code : Text} : ControlFree code ↔ containsControl code = false := by
  rw [containsControl, containsControlFrom_eq_false]
  constructor
  · intro h before after heq _
    rw [Option.or_none]
    exact h before after heq
  · intro h before after heq
    cases after with
    | nil =>
      have hnil := matchWords_nil fun w hw => wordLists_ne_nil w (List.mem_append_left _ hw)
      simp [matchControl, hnil]
    | cons c after =>
      have hmatch := h before (c :: after) heq (List.cons_ne_nil _ _)
      rwa [Option.or_none] at hmatch

omit [UnicodeDatabase] in
/-- A word that meets a character outside the alphabet ends before it. -/
theorem matchKeyword_before (hd : foldUpper d ∉ word) (h : matchKeyword word (s ++ d :: t) = some rest) :
    ∃ r, matchKeyword word s = some r ∧ rest = r ++ d :: t := by
  induction word generalizing s with
  | nil =>
    obtain rfl := Option.some.inj h
    exact ⟨s, rfl, rfl⟩
  | cons k word ih =>
    rw [List.mem_cons, not_or] at hd
    cases s with
    | nil =>
      rw [List.nil_append, matchKeyword, if_neg hd.1] at h
      contradiction
    | cons c s =>
      rw [List.cons_append, matchKeyword] at h
      rw [matchKeyword]
      split at h
      · rename_i hfold
        rw [if_pos hfold]
        exact ih hd.2 h
      · contradiction

omit [UnicodeDatabase] in
theorem foldUpper_of_isSpace (h : isSpace c = true) : foldUpper c = c := by
  unfold isSpace at h
  simp only [Bool.or_eq_true, decide_eq_true_eq, beq_iff_eq] at h
  have hlower : ¬ (c.val ≥ 'a'.val ∧ c.val ≤ 'z'.val) := by
    intro hl
    have hlow : 97 ≤ c.toNat := UInt32.le_iff_toNat_le.mp hl.1
    have hhigh : c.toNat ≤ 122 := UInt32.le_iff_toNat_le.mp hl.2
    omega
  unfold foldUpper
  rw [if_neg (by omega), if_neg (by omega), if_neg (by omega)]
  exact dif_neg hlower

omit [UnicodeDatabase] in
theorem wordLists_letters : (controlWords ++ readingWords).all
    (fun word => word.all fun k => k.isUpper) = true := by
  decide

/-- Characters that stand in no word of the gate and end one. -/
structure Gap (d : Char) : Prop where
  outside : ∀ word ∈ controlWords ++ readingWords, foldUpper d ∉ word
  boundary : isWord d = false

/-- Within a text followed by a gap, words are matched as before. -/
theorem matchWords_gap (hwords : words ⊆ controlWords ++ readingWords) {d' : Char} (hd : Gap d)
    (hd' : Gap d') (h : matchWords words (s ++ d :: t) = true) :
    matchWords words (s ++ d' :: t) = true := by
  obtain ⟨word, hword, rest, hmatch, hrest⟩ := matchWords_eq_true.mp h
  obtain ⟨r, hr, rfl⟩ := matchKeyword_before (hd.outside word (hwords hword)) hmatch
  refine matchWords_eq_true.mpr ⟨word, hword, r ++ d' :: t, matchKeyword_append hr _, ?_⟩
  cases r with
  | nil => exact hd'.boundary
  | cons c r => exact hrest

omit [UnicodeDatabase] in
theorem outside_words (h : (foldUpper d).isUpper = false) :
    ∀ word ∈ controlWords ++ readingWords, foldUpper d ∉ word := by
  intro word hword hin
  have hupper := List.all_eq_true.mp (List.all_eq_true.mp wordLists_letters word hword) _ hin
  rw [h] at hupper
  contradiction

theorem gap_blank : Gap ' ' := by
  refine ⟨outside_words (by decide), ?_⟩
  unfold isWord
  rw [UnicodeDatabase.isAlnum_ascii ' ' (by decide)]
  decide

theorem gap_dash : Gap '-' := by
  refine ⟨outside_words (by decide), ?_⟩
  unfold isWord
  rw [UnicodeDatabase.isAlnum_ascii '-' (by decide)]
  decide

/-- No word of the gate begins with white space. -/
theorem matchWords_space (hwords : words ⊆ controlWords ++ readingWords)
    (hc : isSpace c = true) : matchWords words (c :: s) = false := by
  rw [Bool.eq_false_iff]
  intro h
  obtain ⟨word, hword, rest, hmatch, -⟩ := matchWords_eq_true.mp h
  obtain ⟨k, more, rfl⟩ := List.exists_cons_of_ne_nil (wordLists_ne_nil word (hwords hword))
  rw [matchKeyword, foldUpper_of_isSpace hc] at hmatch
  split at hmatch
  · rename_i heq
    have hletter := List.all_eq_true.mp (List.all_eq_true.mp wordLists_letters _ (hwords hword)) c
      (by rw [heq]; exact List.mem_cons_self ..)
    have hspace := Ddl.isSpace_of_isIdentPart (c := c) (by
      simp [isIdentPart, Char.isAlphanum, Char.isAlpha, show c.isUpper = true from hletter])
    rw [hc] at hspace
    contradiction
  · contradiction

end Words

section Joining

variable [UnicodeDatabase] {code blank : Text}

omit [UnicodeDatabase] in
theorem controlWords_subset : controlWords ⊆ controlWords ++ readingWords :=
  List.subset_append_left ..

omit [UnicodeDatabase] in
theorem readingWords_subset : readingWords ⊆ controlWords ++ readingWords :=
  List.subset_append_right ..

theorem startsReading_blanked (h : startsReading (code ++ '-' :: blank) = true) :
    startsReading (code ++ ' ' :: blank) = true := by
  unfold startsReading at h ⊢
  rw [List.dropWhile_append] at h ⊢
  cases hdrop : code.dropWhile isSpace with
  | nil =>
    rw [hdrop] at h
    obtain ⟨word, hword, rest, hmatch, -⟩ := matchWords_eq_true.mp h
    obtain ⟨r, hr, -⟩ := matchKeyword_before (s := [])
      (gap_dash.outside word (readingWords_subset hword)) hmatch
    obtain ⟨k, more, rfl⟩ :=
      List.exists_cons_of_ne_nil (wordLists_ne_nil word (readingWords_subset hword))
    contradiction
  | cons c rest =>
    rw [hdrop] at h
    exact matchWords_gap readingWords_subset gap_dash gap_blank h

theorem controlFree_blanked (h : ControlFree (code ++ '-' :: blank))
    (hblank : ∀ c ∈ blank, isSpace c = true) : ControlFree (code ++ ' ' :: blank) := by
  intro before after heq
  obtain ⟨more, rfl, hafter⟩ | ⟨more, rfl, rfl⟩ := List.append_eq_append_iff.mp heq
  · have hwords : matchWords controlWords after = false := by
      cases after with
      | nil => exact matchWords_nil fun w hw => wordLists_ne_nil w (controlWords_subset hw)
      | cons c after =>
        apply matchWords_space controlWords_subset
        have hc : c ∈ ' ' :: blank := by
          rw [hafter]
          exact List.mem_append_right _ (List.mem_cons_self ..)
        rcases List.mem_cons.mp hc with rfl | hc
        · rfl
        · exact hblank c hc
    simp [matchControl, hwords]
  · have hdash := h before (more ++ '-' :: blank) (by simp)
    rw [Bool.eq_false_iff] at hdash ⊢
    intro hcontrol
    apply hdash
    simp only [matchControl, Bool.and_eq_true] at hcontrol ⊢
    exact ⟨hcontrol.1, matchWords_gap controlWords_subset gap_blank gap_dash hcontrol.2⟩

theorem driverSearch_blanked (h : driverSearch (code ++ '-' :: blank) = false)
    (hblank : ∀ c ∈ blank, isSpace c = true) : driverSearch (code ++ ' ' :: blank) = false := by
  rw [Bool.eq_false_iff] at h ⊢
  intro hsearch
  apply h
  obtain ⟨before, name, body, after, heq, hmatch⟩ := driverSearch_eq_true.mp hsearch
  have hsplit : code ++ ' ' :: blank = (before ++ '{' :: (name ++ ':' :: body)) ++ '}' :: after := by
    rw [heq]
    simp
  obtain ⟨more, -, hafter⟩ | ⟨more, rfl, hafter⟩ := List.append_eq_append_iff.mp hsplit
  · have hbrace : '}' ∈ ' ' :: blank := by
      rw [hafter]
      exact List.mem_append_right _ (List.mem_cons_self ..)
    rcases List.mem_cons.mp hbrace with hbrace | hbrace
    · contradiction
    · have hspace := hblank '}' hbrace
      contradiction
  · cases more with
    | nil => exact absurd (List.cons.inj hafter).1 (by decide)
    | cons d more =>
      obtain ⟨rfl, rfl⟩ := List.cons.inj hafter
      exact driverSearch_eq_true.mpr ⟨before, name, body, more ++ '-' :: blank, by simp, hmatch⟩

/-- A dash before blanks may become a blank itself. -/
theorem ReadCode.blanked (h : ReadCode (code ++ '-' :: blank))
    (hblank : ∀ c ∈ blank, isSpace c = true) : ReadCode (code ++ ' ' :: blank) := by
  refine ⟨?_, startsReading_blanked h.reading, controlFree_blanked h.uncontrolled hblank,
    driverSearch_blanked h.untyped hblank⟩
  intro hin
  apply h.single
  rcases List.mem_append.mp hin with hin | hin
  · exact List.mem_append_left _ hin
  · rcases List.mem_cons.mp hin with heq | hin
    · contradiction
    · exact List.mem_append_right _ (List.mem_cons_of_mem _ hin)

end Joining

section Statement

variable [UnicodeDatabase] {value query code edited : Text} {front back : List Lexeme}

theorem checkCode_eq_ok (h : checkCode value code = .ok query) (hsingle : ';' ∉ code) :
    query = value ∧ ReadCode code := by
  unfold checkCode at h
  split at h
  · contradiction
  · rename_i hreading
    split at h
    · contradiction
    · rename_i hcontrol
      split at h
      · contradiction
      · rename_i hdriver
        exact ⟨(Except.ok.inj h).symm, hsingle, not_not.mp hreading,
          controlFree_iff.mpr (Bool.eq_false_iff.mpr hcontrol), Bool.eq_false_iff.mpr hdriver⟩

omit [UnicodeDatabase] in
theorem silent_of_blank (h : ∀ c ∈ codeText back, isSpace c = true) : ∀ l ∈ back, Silent l := by
  intro l hl
  cases l with
  | quoted t => trivial
  | blockComment t => trivial
  | lineComment t => trivial
  | code c =>
    exact h c (List.mem_flatMap.mpr ⟨.code c, hl, List.mem_singleton_self c⟩)

omit [UnicodeDatabase] in
theorem codeText_length (ls : List Lexeme) : (codeText ls).length = (plainText ls).length := by
  induction ls with
  | nil => rfl
  | cons l ls ih => rw [codeText_cons, plainText_cons, List.length_append, List.length_append,
      mask_length, ih]

omit [UnicodeDatabase] in
/-- Where the only semicolon stands, and what is left without it. -/
theorem dropSemicolon_eq_ok {ls : List Lexeme}
    (h : dropSemicolon (plainText ls) (codeText ls) = .ok (query, edited)) :
    (query = plainText ls ∧ edited = codeText ls ∧ ';' ∉ codeText ls) ∨
      ∃ front back, ls = front ++ .code ';' :: back ∧ (∀ l ∈ back, Silent l) ∧
        query = plainText front ++ plainText back ∧ edited = codeText front ++ codeText back ∧
        ';' ∉ edited := by
  unfold dropSemicolon at h
  split at h
  · rename_i hnone
    obtain ⟨rfl, rfl⟩ := Prod.mk.inj (Except.ok.inj h)
    exact Or.inl ⟨rfl, rfl, hnone⟩
  · rename_i hsome
    split at h
    · contradiction
    · rename_i hcount
      obtain ⟨rfl, rfl⟩ := Prod.mk.inj (Except.ok.inj h)
      rw [not_or, not_not, not_not] at hcount
      obtain ⟨before, after, hcode, hbefore⟩ := List.eq_append_cons_of_mem (not_not.mp hsome)
      obtain ⟨front, back, rfl, rfl, rfl⟩ := codeText_split hcode (by decide)
      have hindex : (codeText (front ++ .code ';' :: back)).idxOf ';' = (codeText front).length := by
        rw [codeText_append, List.idxOf_append_of_notMem hbefore]
        simp [Lexeme.mask]
      have hblank : ∀ c ∈ codeText back, isSpace c = true := by
        apply strip_eq_nil.mp
        rw [← hcount.2, hindex, codeText_append]
        simp [Lexeme.mask]
      have hafter : ';' ∉ codeText back := by
        intro hin
        have hspace := hblank ';' hin
        contradiction
      have hedited : (codeText (front ++ .code ';' :: back)).eraseIdx (codeText front).length =
          codeText front ++ codeText back := by
        rw [codeText_append]
        simp [Lexeme.mask, List.eraseIdx_append_of_length_le]
      rw [hindex, hedited]
      refine Or.inr ⟨front, back, rfl, silent_of_blank hblank, ?_, rfl, ?_⟩
      · rw [codeText_length, plainText_append]
        simp [Lexeme.text, List.eraseIdx_append_of_length_le]
      · rw [List.mem_append, not_or]
        exact ⟨hbefore, hafter⟩

omit [UnicodeDatabase] in
theorem silent_blank (h : ∀ l ∈ back, Silent l) : ∀ c ∈ codeText back, isSpace c = true := by
  intro c hc
  obtain ⟨l, hl, hc⟩ := List.mem_flatMap.mp hc
  obtain ⟨d, rfl⟩ | hblank := mask_cases l
  · rw [List.mem_singleton.mp hc]
    exact h _ hl
  · rw [hblank c hc]
    rfl

theorem ReadCode.joined (h : ReadCode (codeText front ++ codeText back))
    (hback : ∀ l ∈ back, Silent l) (hjoined : Joined front back code) : ReadCode code := by
  obtain rfl | ⟨first, rfl, rfl⟩ := hjoined
  · exact h
  · apply ReadCode.blanked _ (silent_blank hback)
    rw [codeText_append, List.append_assoc] at h
    exact h

/-- The text of an accepted query: only comments, quoted text and white space stood behind the
semicolon that was taken out. -/
def Trimmed (value query : Text) : Prop :=
  query = strip value ∨ ∃ front back, Lexes (strip value) (front ++ .code ';' :: back) ∧
    (∀ l ∈ back, Silent l) ∧ query = plainText front ++ plainText back

theorem validateReadQuery_eq_ok (h : validateReadQuery value = .ok query) :
    Trimmed value query ∧ ∃ code, queryCode query = .ok code ∧ ReadCode code := by
  unfold validateReadQuery at h
  split at h
  · contradiction
  · obtain ⟨code, hcode, hrest⟩ := Except.bind_eq_ok.mp h
    obtain ⟨⟨edited, left⟩, hdrop, hcheck⟩ := Except.bind_eq_ok.mp hrest
    obtain ⟨ls, hls, rfl⟩ := queryCode_eq_ok.mp hcode
    rw [hls.text] at hdrop
    obtain ⟨rfl, rfl, hnone⟩ | ⟨front, back, rfl, hback, rfl, rfl, hnone⟩ :=
      dropSemicolon_eq_ok hdrop
    · obtain ⟨rfl, hread⟩ := checkCode_eq_ok hcheck hnone
      rw [← hls.text]
      exact ⟨Or.inl rfl, _, hcode, hread⟩
    · obtain ⟨rfl, hread⟩ := checkCode_eq_ok hcheck hnone
      obtain ⟨joined, hplain, hchained, hjoined⟩ := chained_removal hback (lexes_iff.mp hls).2
      refine ⟨Or.inr ⟨front, back, hls, hback, rfl⟩, codeText joined, ?_,
        hread.joined hback hjoined⟩
      rw [← hplain]
      exact queryCode_eq_ok.mpr ⟨joined, lexes_iff.mpr ⟨rfl, hchained⟩, rfl⟩

/-- An accepted query is the caller's text, without its only semicolon where it has one:
only comments, quoted text and white space stood behind it. Masked again, it is still the
code of one reading statement. -/
theorem readQuery_one_statement (h : validateReadQuery value = .ok query) :
    (∃ code, queryCode query = .ok code ∧ ReadCode code) ∧
      (query = strip value ∨ ∃ front back, Lexes (strip value) (front ++ .code ';' :: back) ∧
        (∀ l ∈ back, Silent l) ∧ query = plainText front ++ plainText back) := by
  obtain ⟨htrimmed, hcode⟩ := validateReadQuery_eq_ok h
  exact ⟨hcode, htrimmed⟩

end Statement

section Example

def joinedQuery : Text := "SELECT 1 -;-- tail".toList

theorem joinedQuery_statement : ∃ query, @validateReadQuery asciiDatabase joinedQuery = .ok query ∧
    ∃ code, queryCode query = .ok code ∧ @ReadCode asciiDatabase code := by
  have hok : Outcome.check (@validateReadQuery asciiDatabase joinedQuery) (fun _ => true) = true := by
    decide +kernel
  obtain ⟨query, hquery, -⟩ := Outcome.check_eq_true.mp hok
  exact ⟨query, hquery, (@readQuery_one_statement asciiDatabase _ _ hquery).1⟩

end Example

end RayClickHouse.Query
