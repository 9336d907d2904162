import RayClickHouse.PromotionHistory

/-!
The distribution files of a candidate. The mapping is checked by writing it out as
lines and reading the lines back, so what is checked is the mapping itself exactly
when no name and no digest brings a line break of its own.
-/
namespace RayClickHouse.Release

open Text Json

section Lines

def isLineBreak (c : Char) : Bool := decide (c.toNat ∈ [10, 11, 12, 13, 28, 29, 30, 133, 8232, 8233])

def OneLine (s : Text) : Prop := ∀ c ∈ s, isLineBreak c = false

instance (s : Text) : Decidable (OneLine s) := by
  unfold OneLine
  infer_instance

theorem isSpace_of_isLineBreak {c : Char} (h : isLineBreak c = true) : isSpace c = true := by
  unfold isLineBreak at h
  simp only [List.mem_cons, List.not_mem_nil, or_false, decide_eq_true_eq] at h
  unfold isSpace
  simp only [Bool.or_eq_true, decide_eq_true_eq, beq_iff_eq]
  omega

theorem OneLine.append {s t : Text} (hs : OneLine s) (ht : OneLine t) : OneLine (s ++ t) := by
  intro c hc
  obtain hmem | hmem := List.mem_append.mp hc
  · exact hs c hmem
  · exact ht c hmem

theorem oneLine_of_nonspace {s : Text} (h : s.all (!isSpace ·) = true) : OneLine s := by
  intro c hc
  have hspace := List.all_eq_true.mp h c hc
  by_contra hbreak
  rw [Bool.not_eq_false] at hbreak
  rw [isSpace_of_isLineBreak hbreak] at hspace
  contradiction

theorem oneLine_blanks : OneLine "  ".toList := by
  intro c hc
  have hblank : c = ' ' := by simpa using hc
  rw [hblank]
  simp [isLineBreak]

theorem splitLinesFrom_cons {c : Char} (h : isLineBreak c = false) (line rest : Text) :
    splitLinesFrom line (c :: rest) = splitLinesFrom (line ++ [c]) rest := by
  have hnot : c.toNat ∉ [10, 11, 12, 13, 28, 29, 30, 133, 8232, 8233] := by
    unfold isLineBreak at h
    exact of_decide_eq_false h
  have hcr : c ≠ '\r' := by
    intro heq
    rw [heq] at hnot
    exact hnot (by decide)
  rw [splitLinesFrom]
  · exact if_neg hnot
  · intro tail heq
    exact absurd heq hcr

/-- Characters that break no line are collected. -/
theorem splitLinesFrom_append {s : Text} (h : OneLine s) (line rest : Text) :
    splitLinesFrom line (s ++ rest) = splitLinesFrom (line ++ s) rest := by
  induction s generalizing line with
  | nil => rw [List.nil_append, List.append_nil]
  | cons c s ih =>
    rw [List.cons_append, splitLinesFrom_cons (h c (List.mem_cons_self ..)),
      ih (fun d hd => h d (List.mem_cons_of_mem _ hd)), List.append_assoc]
    rfl

theorem splitLinesFrom_newline (line rest : Text) :
    splitLinesFrom line ('\n' :: rest) = line :: splitLinesFrom [] rest := by
  rw [splitLinesFrom]
  · exact if_pos (by decide)
  · intro tail heq
    contradiction

/-- Lines without a break, joined by line feeds, are read back. -/
theorem splitLines_join {lines : List Text} (h : ∀ line ∈ lines, line ≠ [] ∧ OneLine line) :
    splitLines (join ['\n'] lines) = lines := by
  unfold splitLines
  induction lines with
  | nil => rfl
  | cons line rest ih =>
    obtain ⟨hne, hone⟩ := h line (List.mem_cons_self ..)
    have hrest := ih fun l hl => h l (List.mem_cons_of_mem _ hl)
    cases rest with
    | nil =>
      rw [join_cons, List.flatMap_nil, splitLinesFrom_append hone, List.nil_append, splitLinesFrom,
        if_neg hne]
    | cons next more =>
      rw [join_cons] at hrest ⊢
      rw [splitLinesFrom_append hone, List.flatMap_cons, List.nil_append, List.append_assoc,
        List.cons_append, List.nil_append, splitLinesFrom_newline, hrest]

end Lines

section Sums

variable {digest name : Text}

theorem isHex_ne_space {c : Char} (h : isHex c = true) : c ≠ ' ' := by
  intro heq
  rw [heq] at h
  revert h
  decide

theorem sumsLine_eq_some {line : Text} (h : sumsLine line = some (digest, name)) :
    ∃ mark, line = digest ++ ' ' :: mark :: name ∧ isHexText 64 digest = true ∧ name ≠ [] ∧
      name.all (!isSpace ·) = true := by
  unfold sumsLine at h
  simp only at h
  split at h
  · next mark tail hdrop =>
    split at h
    · next hchecks =>
      obtain ⟨hhex, _, hne, hname⟩ := hchecks
      simp only [Option.some.injEq, Prod.mk.injEq] at h
      obtain ⟨hdigest, htail⟩ := h
      rw [← hdigest, ← htail]
      refine ⟨mark, ?_, hhex, hne, hname⟩
      rw [← hdrop, List.take_append_drop]
    · contradiction
  · contradiction

/-- A written entry can only be read as its own digest and name: a blank in either of
them would be a blank of what is read. -/
theorem sumsLine_entry {value key : Text}
    (h : sumsLine (value ++ "  ".toList ++ key) = some (digest, name)) :
    digest = value ∧ name = key := by
  obtain ⟨mark, hline, hhex, _, hname⟩ := sumsLine_eq_some h
  have hdigest : ' ' ∉ digest := by
    intro hmem
    unfold isHexText at hhex
    rw [Bool.and_eq_true] at hhex
    exact isHex_ne_space (List.all_eq_true.mp hhex.2 ' ' hmem) rfl
  have hblank : ' ' ∉ name := by
    intro hmem
    have hspace := List.all_eq_true.mp hname ' ' hmem
    revert hspace
    decide
  have hparts : value ++ ' ' :: ' ' :: key = digest ++ ' ' :: mark :: name := by
    rw [← hline, List.append_assoc]
    rfl
  obtain ⟨more, hvalue, htail⟩ | ⟨more, hvalue, htail⟩ := List.append_eq_append_iff.mp hparts
  · cases more with
    | nil =>
      simp only [List.nil_append, List.cons.injEq, true_and] at htail
      rw [List.append_nil] at hvalue
      exact ⟨hvalue, htail.2.symm⟩
    | cons c more =>
      simp only [List.cons_append, List.cons.injEq] at htail
      rw [hvalue, ← htail.1] at hdigest
      exact absurd (by simp) hdigest
  · cases more with
    | nil =>
      simp only [List.nil_append, List.cons.injEq, true_and] at htail
      rw [List.append_nil] at hvalue
      exact ⟨hvalue.symm, htail.2⟩
    | cons c more =>
      simp only [List.cons_append, List.cons.injEq] at htail
      cases more with
      | nil =>
        simp only [List.nil_append, List.cons.injEq] at htail
        rw [htail.2.2] at hblank
        exact absurd (by simp) hblank
      | cons d more =>
        simp only [List.cons_append, List.cons.injEq] at htail
        rw [htail.2.2] at hblank
        exact absurd (by simp) hblank

/-- The entries that were read: hexadecimal digests and names without white space. -/
def ReadEntry (entry : Text × Text) : Prop :=
  isHexText 64 entry.2 = true ∧ entry.1.all (!isSpace ·) = true

theorem parseSumsFrom_cons {line : Text} {rest : List Text} {result parsed : List (Text × Text)}
    {number : ℕ} (hne : line ≠ []) (h : parseSumsFrom number result (line :: rest) = .ok parsed) :
    ∃ digest name, sumsLine line = some (digest, name) ∧ name ∉ result.map Prod.fst ∧
      parseSumsFrom (number + 1) (result ++ [(name, digest)]) rest = .ok parsed := by
  rw [parseSumsFrom, if_neg hne] at h
  split at h
  · contradiction
  · next digest name hline =>
    split at h
    · contradiction
    · next hchecks =>
      refine ⟨digest, name, hline, ?_, h⟩
      intro hmem
      apply hchecks
      rw [List.contains_iff_mem.mpr hmem, Bool.or_true]

theorem parseSumsFrom_nil {line : Text} {rest : List Text} {result : List (Text × Text)}
    {number : ℕ} (hnil : line = []) :
    parseSumsFrom number result (line :: rest) = parseSumsFrom (number + 1) result rest := by
  rw [parseSumsFrom, if_pos hnil]

/-- Each pass adds at most one entry; names stay distinct. -/
theorem parseSumsFrom_entries {lines : List Text} {result parsed : List (Text × Text)} {number : ℕ}
    (hentries : ∀ entry ∈ result, ReadEntry entry) (hnodup : (result.map Prod.fst).Nodup)
    (h : parseSumsFrom number result lines = .ok parsed) :
    (∀ entry ∈ parsed, ReadEntry entry) ∧ (parsed.map Prod.fst).Nodup := by
  induction lines generalizing result number with
  | nil =>
    rw [parseSumsFrom, Except.ok.injEq] at h
    rw [← h]
    exact ⟨hentries, hnodup⟩
  | cons line rest ih =>
    by_cases hne : line = []
    · rw [parseSumsFrom_nil hne] at h
      exact ih hentries hnodup h
    · obtain ⟨digest, name, hline, hnew, hnext⟩ := parseSumsFrom_cons hne h
      obtain ⟨_, _, hhex, _, hname⟩ := sumsLine_eq_some hline
      refine ih ?_ ?_ hnext
      · intro entry hentry
        obtain hmem | hmem := List.mem_append.mp hentry
        · exact hentries entry hmem
        · rw [List.mem_singleton.mp hmem]
          exact ⟨hhex, hname⟩
      · rw [List.map_append, List.nodup_append]
        refine ⟨hnodup, List.nodup_singleton _, ?_⟩
        intro a ha b hb heq
        have hb' : b = name := List.mem_singleton.mp hb
        rw [heq, hb'] at ha
        exact hnew ha

/-- Written entries, one to a line, are read back as they are. -/
theorem parseSumsFrom_written {files : List (Text × Json)} {result parsed : List (Text × Text)}
    {number : ℕ}
    (h : parseSumsFrom number result
      (files.map fun field => shown field.2 ++ "  ".toList ++ field.1) = .ok parsed) :
    parsed = result ++ files.map fun field => (field.1, shown field.2) := by
  induction files generalizing result number with
  | nil =>
    rw [List.map_nil, parseSumsFrom, Except.ok.injEq] at h
    rw [← h, List.map_nil, List.append_nil]
  | cons field rest ih =>
    rw [List.map_cons] at h
    obtain ⟨digest, name, hline, _, hnext⟩ := parseSumsFrom_cons (by simp) h
    obtain ⟨hdigest, hname⟩ := sumsLine_entry hline
    rw [ih hnext, hdigest, hname, List.map_cons, List.append_assoc]
    rfl

end Sums

section Mapping

variable {version : Text} {files : List (Text × Json)} {result : List (Text × Text)}

/-- The entry has a name and a digest without a line break, and the digest is a string. -/
def PlainEntry (field : Text × Json) : Prop :=
  OneLine field.1 ∧ ∃ s, field.2 = .str s ∧ OneLine s

/-- The mapping that parsed entries stand for. -/
def mappingOf (result : List (Text × Text)) : List (Text × Json) :=
  result.map fun entry => (entry.1, .str entry.2)

def sourceName (version : Text) : Text := "ray_clickhouse-".toList ++ version ++ ".tar.gz".toList

theorem isLineBreak_of_graphic {c : Char} (hfrom : 33 ≤ c.toNat) (hto : c.toNat ≤ 126) :
    isLineBreak c = false := by
  unfold isLineBreak
  simp only [List.mem_cons, List.not_mem_nil, or_false, decide_eq_false_iff_not]
  omega

theorem isLineBreak_of_isIdentPart {c : Char} (h : isIdentPart c = true) :
    isLineBreak c = false := by
  unfold isIdentPart at h
  simp only [Char.isAlphanum, Char.isAlpha, Char.isUpper, Char.isLower, Char.isDigit, Bool.or_eq_true,
    Bool.and_eq_true, decide_eq_true_eq, beq_iff_eq, ge_iff_le, UInt32.le_iff_toNat_le] at h
  have hcode : c.val.toNat = c.toNat := rfl
  rw [hcode] at h
  obtain ((⟨hfrom, hto⟩ | ⟨hfrom, hto⟩) | ⟨hfrom, hto⟩) | heq := h
  · exact isLineBreak_of_graphic (Nat.le_trans (by decide) hfrom) (Nat.le_trans hto (by decide))
  · exact isLineBreak_of_graphic (Nat.le_trans (by decide) hfrom) (Nat.le_trans hto (by decide))
  · exact isLineBreak_of_graphic (Nat.le_trans (by decide) hfrom) (Nat.le_trans hto (by decide))
  · rw [heq]
    exact isLineBreak_of_graphic (by decide) (by decide)

theorem isIdentPart_of_isDigit {c : Char} (h : c.isDigit = true) : isIdentPart c = true := by
  unfold isIdentPart Char.isAlphanum
  rw [h, Bool.or_true, Bool.true_or]

theorem oneLine_of_isHexText {s : Text} {n : ℕ} (h : isHexText n s = true) : OneLine s := by
  intro c hc
  unfold isHexText at h
  rw [Bool.and_eq_true] at h
  have hhex := List.all_eq_true.mp h.2 c hc
  unfold isHex at hhex
  rw [Bool.or_eq_true, Bool.and_eq_true, decide_eq_true_eq, decide_eq_true_eq] at hhex
  obtain hdigit | ⟨hfrom, hto⟩ := hhex
  · exact isLineBreak_of_isIdentPart (isIdentPart_of_isDigit hdigit)
  · have hlow : 97 ≤ c.toNat := hfrom
    have hhigh : c.toNat ≤ 102 := hto
    exact isLineBreak_of_graphic (by omega) (by omega)

theorem parseSha256sums_eq_ok {text : Text} (h : parseSha256sums version text = .ok result) :
    parseSumsFrom 1 [] (splitLines text) = .ok result ∧ result.length = 2 ∧
      ∃ wheel, (result.map Prod.fst).filter (endsWith ".whl".toList) = [wheel] ∧
        (result.map Prod.fst).filter (endsWith ".tar.gz".toList) = [sourceName version] ∧
        isWheel version wheel = true := by
  unfold parseSha256sums at h
  obtain ⟨parsed, hparsed, h⟩ := Except.bind_eq_ok.mp h
  obtain ⟨_, hlength, h⟩ := Except.bind_eq_ok.mp h
  have htwo := of_decide_eq_true (require_eq_ok.mp hlength)
  simp only at h
  split at h
  · next wheel source hwheel hsource =>
    obtain ⟨_, hiswheel, h⟩ := Except.bind_eq_ok.mp h
    obtain ⟨_, hissource, h⟩ := Except.bind_eq_ok.mp h
    have heq : parsed = result := Except.ok.inj h
    have hname : source = sourceName version := of_decide_eq_true (require_eq_ok.mp hissource)
    rw [← heq]
    rw [hname] at hsource
    exact ⟨hparsed, htwo, wheel, hwheel, hsource, require_eq_ok.mp hiswheel⟩
  · contradiction

/-- A mapping that is written out and read back is the same mapping exactly when each of
its entries fills one line. -/
theorem sums_roundtrip_iff (h : parseSha256sums version (sumsText files) = .ok result) :
    files = mappingOf result ↔ ∀ field ∈ files, PlainEntry field := by
  obtain ⟨hparse, _⟩ := parseSha256sums_eq_ok h
  constructor
  · intro heq field hfield
    have hentries := (parseSumsFrom_entries (by simp) (by simp) hparse).1
    rw [heq] at hfield
    obtain ⟨entry, hentry, hfieldeq⟩ := List.mem_map.mp hfield
    obtain ⟨hhex, hname⟩ := hentries entry hentry
    rw [← hfieldeq]
    exact ⟨oneLine_of_nonspace hname, entry.2, rfl, oneLine_of_isHexText hhex⟩
  · intro hplain
    have hlines : ∀ line ∈ files.map fun field => shown field.2 ++ "  ".toList ++ field.1,
        line ≠ [] ∧ OneLine line := by
      intro line hline
      obtain ⟨field, hfield, heq⟩ := List.mem_map.mp hline
      obtain ⟨hname, s, hvalue, hone⟩ := hplain field hfield
      rw [← heq, hvalue]
      refine ⟨by simp, ?_⟩
      exact (hone.append oneLine_blanks).append hname
    rw [sumsText, splitLines_join hlines] at hparse
    have hread := parseSumsFrom_written hparse
    have hsame : files.map (fun field => (field.1, Json.str (shown field.2))) = files.map id := by
      apply List.map_congr_left
      intro field hfield
      obtain ⟨_, s, hvalue, _⟩ := hplain field hfield
      refine Prod.ext rfl ?_
      show Json.str (shown field.2) = field.2
      rw [hvalue]
      rfl
    rw [hread, List.nil_append, mappingOf, List.map_map]
    rw [List.map_id] at hsame
    exact hsame.symm

/-- The mapping names one wheel and the source archive of the version, each with a digest,
and the sizes are those of the same two names. -/
def NamesDistributions (version : Text) (files sizes : List (Text × Json)) : Prop :=
  ∃ wheel wheelDigest sourceDigest, isWheel version wheel = true ∧
    isHexText 64 wheelDigest = true ∧ isHexText 64 sourceDigest = true ∧
    files.Perm [(wheel, .str wheelDigest), (sourceName version, .str sourceDigest)] ∧
    ∀ key, key ∈ keys sizes ↔ key = wheel ∨ key = sourceName version

theorem not_wheel_sourceName : endsWith ".whl".toList (sourceName version) = false := by
  unfold endsWith sourceName List.isSuffixOf
  rw [List.reverse_append]
  rfl

/-- Two entries are read, and they are those of a wheel and of the source archive. -/
theorem parsed_entries {text : Text} (h : parseSha256sums version text = .ok result) :
    ∃ wheel wheelDigest sourceDigest, isWheel version wheel = true ∧
      isHexText 64 wheelDigest = true ∧ isHexText 64 sourceDigest = true ∧
      result.Perm [(wheel, wheelDigest), (sourceName version, sourceDigest)] := by
  obtain ⟨hparse, hlength, wheel, hwheels, hsources, hwheel⟩ := parseSha256sums_eq_ok h
  obtain ⟨hentries, hnodup⟩ := parseSumsFrom_entries (by simp) (by simp) hparse
  have hwheelmem : wheel ∈ (result.map Prod.fst).filter (endsWith ".whl".toList) := by
    rw [hwheels]
    exact List.mem_singleton_self wheel
  have hsourcemem : sourceName version ∈
      (result.map Prod.fst).filter (endsWith ".tar.gz".toList) := by
    rw [hsources]
    exact List.mem_singleton_self _
  obtain ⟨hwheelname, hends⟩ := List.mem_filter.mp hwheelmem
  obtain ⟨hsourcename, _⟩ := List.mem_filter.mp hsourcemem
  obtain ⟨first, hfirst, hfirstname⟩ := List.mem_map.mp hwheelname
  obtain ⟨second, hsecond, hsecondname⟩ := List.mem_map.mp hsourcename
  have hne : first ≠ second := by
    intro heq
    have hsame : wheel = sourceName version := by
      rw [← hfirstname, ← hsecondname, heq]
    rw [hsame, not_wheel_sourceName] at hends
    contradiction
  refine ⟨wheel, first.2, second.2, hwheel, (hentries first hfirst).1, (hentries second hsecond).1,
    ?_⟩
  obtain ⟨a, b, hresult⟩ := List.length_eq_two.mp hlength
  rw [← hfirstname, ← hsecondname, hresult]
  rw [hresult] at hfirst hsecond
  simp only [List.mem_cons, List.not_mem_nil, or_false] at hfirst hsecond
  obtain hfa | hfb := hfirst
  · obtain hsa | hsb := hsecond
    · exact absurd (hfa.trans hsa.symm) hne
    · rw [hfa, hsb]
  · obtain hsa | hsb := hsecond
    · rw [hfb, hsa]
      exact List.Perm.swap _ _ _
    · exact absurd (hfb.trans hsb.symm) hne

end Mapping

section Record

variable {version : Text} {files sizes : List (Text × Json)} {result : List (Text × Text)}

theorem oneLine_of_isWheel {name : Text} (hversion : OneLine version)
    (h : isWheel version name = true) : OneLine name := by
  unfold isWheel at h
  simp only [Bool.and_eq_true, Bool.not_eq_true'] at h
  obtain ⟨⟨⟨hlead, hends⟩, _⟩, htags⟩ := h
  obtain ⟨body, hbody⟩ := List.isPrefixOf_iff_prefix.mp hlead
  rw [← hbody] at hends htags ⊢
  rw [List.drop_left] at hends htags
  unfold endsWith at hends
  obtain ⟨tags, htail⟩ := List.isSuffixOf_iff_suffix.mp hends
  have htake : body.take (body.length - 4) = tags := by
    rw [← htail]
    simp
  rw [htake] at htags
  have hone : OneLine tags := by
    intro c hc
    have hchar := List.all_eq_true.mp htags c hc
    rw [Bool.or_eq_true, Bool.or_eq_true, beq_iff_eq, beq_iff_eq] at hchar
    obtain (hident | hdot) | hdash := hchar
    · exact isLineBreak_of_isIdentPart hident
    · rw [hdot]
      exact isLineBreak_of_graphic (by decide) (by decide)
    · rw [hdash]
      exact isLineBreak_of_graphic (by decide) (by decide)
  rw [← htail]
  exact (((oneLine_of_nonspace (by decide +kernel)).append hversion).append
    (oneLine_of_nonspace (by decide +kernel))).append
      (hone.append (oneLine_of_nonspace (by decide +kernel)))

theorem takePositive_digits {s digits rest : Text} (h : takePositive s = some (digits, rest)) :
    s = digits ++ rest ∧ digits.all Char.isDigit = true := by
  unfold takePositive at h
  split at h
  · contradiction
  · next c tail =>
    split at h
    · next hdigit =>
      simp only [Option.some.injEq, Prod.mk.injEq] at h
      rw [← h.1, ← h.2]
      refine ⟨?_, ?_⟩
      · rw [List.cons_append, List.takeWhile_append_dropWhile]
      · rw [List.all_cons, hdigit.1, List.all_takeWhile]
        rfl
    · contradiction

theorem oneLine_of_digits {s : Text} (h : s.all Char.isDigit = true) : OneLine s := by
  intro c hc
  exact isLineBreak_of_isIdentPart (isIdentPart_of_isDigit (List.all_eq_true.mp h c hc))

theorem oneLine_of_formal (h : isFormalVersion version = true) : OneLine version := by
  unfold isFormalVersion at h
  split at h
  · next major minor hmajor =>
    obtain ⟨heq, hdigits⟩ := takePositive_digits hmajor
    rw [heq, ← List.singleton_append]
    refine (oneLine_of_digits hdigits).append ((oneLine_of_nonspace (by decide)).append ?_)
    rw [Bool.or_eq_true, decide_eq_true_eq] at h
    obtain hzero | hpositive := h
    · rw [hzero]
      exact oneLine_of_nonspace (by decide)
    · split at hpositive
      · next digits hminor =>
        obtain ⟨hminoreq, hminordigits⟩ := takePositive_digits hminor
        rw [hminoreq, List.append_nil]
        exact oneLine_of_digits hminordigits
      · contradiction
  · contradiction

theorem oneLine_sourceName (hversion : OneLine version) : OneLine (sourceName version) :=
  ((oneLine_of_nonspace (by decide +kernel)).append hversion).append
    (oneLine_of_nonspace (by decide +kernel))

/-- The files of a version are named by a mapping exactly when its entries fill one line each. -/
theorem namesDistributions_iff (hversion : OneLine version)
    (hparse : parseSha256sums version (sumsText files) = .ok result)
    (hsizes : ∀ key, key ∈ keys sizes ↔ key ∈ keys files) :
    NamesDistributions version files sizes ↔ ∀ field ∈ files, PlainEntry field := by
  constructor
  · intro ⟨wheel, wheelDigest, sourceDigest, hwheel, hwheelhex, hsourcehex, hperm, _⟩ field hfield
    have hmem := hperm.mem_iff.mp hfield
    simp only [List.mem_cons, List.not_mem_nil, or_false] at hmem
    obtain heq | heq := hmem
    · rw [heq]
      exact ⟨oneLine_of_isWheel hversion hwheel, wheelDigest, rfl, oneLine_of_isHexText hwheelhex⟩
    · rw [heq]
      exact ⟨oneLine_sourceName hversion, sourceDigest, rfl, oneLine_of_isHexText hsourcehex⟩
  · intro hplain
    have hfiles := (sums_roundtrip_iff hparse).mpr hplain
    obtain ⟨wheel, wheelDigest, sourceDigest, hwheel, hwheelhex, hsourcehex, hperm⟩ :=
      parsed_entries hparse
    have hmapping : files.Perm
        [(wheel, .str wheelDigest), (sourceName version, .str sourceDigest)] := by
      rw [hfiles]
      exact hperm.map _
    refine ⟨wheel, wheelDigest, sourceDigest, hwheel, hwheelhex, hsourcehex, hmapping, ?_⟩
    intro key
    rw [hsizes key]
    have hkeys := (hmapping.map Prod.fst).mem_iff (a := key)
    simpa [keys] using hkeys

variable [UnicodeDatabase]

/-- What an accepted record has: a formal version, files that are read back, and sizes
under the same names. -/
theorem validateCandidateRecord_files {record : List (Text × Json)}
    (h : validateCandidateRecord version record = .ok ()) :
    isFormalVersion version = true ∧ ∃ distribution files sizes result,
      get record "distribution" = .object distribution ∧
      get distribution "files" = .object files ∧
      get distribution "file_sizes" = .object sizes ∧
      parseSha256sums version (sumsText files) = .ok result ∧
      ∀ key, key ∈ keys sizes ↔ key ∈ keys files := by
  unfold validateCandidateRecord at h
  obtain ⟨_, hformal, h⟩ := Except.bind_eq_ok.mp h
  obtain ⟨_, _, h⟩ := Except.bind_eq_ok.mp h
  obtain ⟨_, _, h⟩ := Except.bind_eq_ok.mp h
  obtain ⟨_, _, h⟩ := Except.bind_eq_ok.mp h
  refine ⟨require_eq_ok.mp hformal, ?_⟩
  split at h
  · next distribution evidence hdistribution _ =>
    obtain ⟨_, _, h⟩ := Except.bind_eq_ok.mp h
    obtain ⟨_, hfiles, _⟩ := Except.bind_eq_ok.mp h
    unfold validateFiles at hfiles
    split at hfiles
    · next files hget =>
      obtain ⟨result, hresult, hfiles⟩ := Except.bind_eq_ok.mp hfiles
      split at hfiles
      · next sizes hsizes =>
        obtain ⟨_, hkeys, _⟩ := Except.bind_eq_ok.mp hfiles
        have hboth := require_eq_ok.mp hkeys
        rw [Bool.and_eq_true] at hboth
        refine ⟨distribution, files, sizes, result, hdistribution, hget, hsizes, hresult, ?_⟩
        intro key
        constructor
        · intro hmem
          exact List.contains_iff_mem.mp (List.all_eq_true.mp hboth.1 key hmem)
        · intro hmem
          exact List.contains_iff_mem.mp (List.all_eq_true.mp hboth.2 key hmem)
      · contradiction
    · contradiction
  · contradiction

/-- An accepted record names the two distributions, and a mapping that is written out and
read back is the same mapping, exactly when no entry has a line break or a digest that is
not a string. -/
theorem candidate_files_iff :
    (∀ record, validateCandidateRecord version record = .ok () → ∃ distribution files sizes,
      get record "distribution" = .object distribution ∧
      get distribution "files" = .object files ∧
      get distribution "file_sizes" = .object sizes ∧
      (NamesDistributions version files sizes ↔ ∀ field ∈ files, PlainEntry field)) ∧
    ∀ files result, parseSha256sums version (sumsText files) = .ok result →
      (files = mappingOf result ↔ ∀ field ∈ files, PlainEntry field) := by
  constructor
  · intro record h
    obtain ⟨hformal, distribution, files, sizes, result, hdistribution, hfiles, hsizes, hparse,
      hkeys⟩ := validateCandidateRecord_files h
    exact ⟨distribution, files, sizes, hdistribution, hfiles, hsizes,
      namesDistributions_iff (oneLine_of_formal hformal) hparse hkeys⟩
  · intro files result hparse
    exact sums_roundtrip_iff hparse

end Record

section Example

def candidateWith (files sizes : Json) : List (Text × Json) :=
  [entry "schema_version" (.int 1), entry "repository" (.str REPOSITORY),
    entry "candidate_sha" (.str (List.replicate 40 'a')), entry "source_run_id" (.int 11),
    entry "distribution" (.object (exampleArtifact 12 ++
      [entry "files" files, entry "file_sizes" sizes])),
    entry "clickhouse_evidence" (.object (exampleArtifact 13))]

def exampleSumFields : List (Text × Json) :=
  [entry "ray_clickhouse-1.1-py3-none-any.whl" (.str (List.replicate 64 'c')),
    entry "ray_clickhouse-1.1.tar.gz" (.str (List.replicate 64 'd'))]

theorem exampleSumFields_plain : ∀ field ∈ exampleSumFields, PlainEntry field := by
  intro field hfield
  rcases List.mem_cons.mp hfield with rfl | hfield
  · exact ⟨oneLine_of_nonspace (by decide +kernel), _, rfl,
      oneLine_of_isHexText (n := 64) (by decide +kernel)⟩
  · rw [List.mem_singleton.mp hfield]
    exact ⟨oneLine_of_nonspace (by decide +kernel), _, rfl,
      oneLine_of_isHexText (n := 64) (by decide +kernel)⟩

theorem exampleCandidate_names_distributions : ∃ distribution sizes,
    get exampleCandidate "distribution" = .object distribution ∧
    get distribution "files" = .object exampleSumFields ∧
    get distribution "file_sizes" = .object sizes ∧
    NamesDistributions exampleVersion exampleSumFields sizes := by
  obtain ⟨distribution, files, sizes, hdistribution, hfiles, hsizes, hnames⟩ :=
    (@candidate_files_iff exampleVersion asciiDatabase).1 exampleCandidate (by decide +kernel)
  have hfound : get exampleCandidate "distribution" = .object (exampleArtifact 12 ++
      [entry "files" exampleSums, entry "file_sizes" (exampleFiles (.int 5) (.int 7))]) := rfl
  obtain rfl := Json.object.inj (hfound.symm.trans hdistribution)
  have hsame : get (exampleArtifact 12 ++ [entry "files" exampleSums,
      entry "file_sizes" (exampleFiles (.int 5) (.int 7))]) "files" = .object exampleSumFields := rfl
  obtain rfl := Json.object.inj (hsame.symm.trans hfiles)
  exact ⟨_, sizes, hdistribution, hfiles, hsizes, hnames.mpr exampleSumFields_plain⟩

def foldedName : Text :=
  "ray_clickhouse-1.1.tar.gz".toList ++ '\n' :: (List.replicate 64 'c' ++
    "  ray_clickhouse-1.1-py3-none-any.whl".toList)

/-- One entry whose name holds a line break is accepted as both files. -/
theorem folded_name_accepted :
    @validateCandidateRecord asciiDatabase exampleVersion
        (candidateWith (.object [(foldedName, .str (List.replicate 64 'd'))])
          (.object [(foldedName, .int 5)])) = .ok () ∧
      ¬NamesDistributions exampleVersion [(foldedName, .str (List.replicate 64 'd'))]
        [(foldedName, .int 5)] := by
  constructor
  · decide +kernel
  · intro ⟨_, _, _, _, _, _, hperm, _⟩
    have hlength := hperm.length_eq
    simp at hlength

end Example

end RayClickHouse.Release
