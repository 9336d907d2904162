import RayClickHouse.Unwrapping

/-!
The declaration of an Arrow type is the only text compatible with it that can be
read in its place. So a type can only be compatible with its own declaration when
every part of it is compatible with the part that declares it.
-/
namespace RayClickHouse.Schema

open Text TypeText Ddl

section Plain

def flatChar (c : Char) : Bool := !(isQuote c || c == '(' || c == ')')

theorem flatChar_eq_true {c : Char} :
    flatChar c = true ↔ isQuote c = false ∧ c ≠ '(' ∧ c ≠ ')' := by
  simp only [flatChar, Bool.not_eq_true', Bool.or_eq_false_iff, beq_eq_false_iff_ne, ne_eq,
    and_assoc]

/-- A closing parenthesis after flat text is never part of an argument list. -/
theorem splitFrom_flat {t : Text} (h : ∀ c ∈ t, flatChar c = true) (value current more : Text)
    (parts found : List Text) :
    splitFrom value none 0 current parts (t ++ ')' :: more) ≠ .ok found := by
  induction t generalizing current parts with
  | nil =>
    rw [List.nil_append, splitFrom, if_neg (by decide), if_neg (by decide), if_pos rfl, if_pos rfl]
    simp [unbalanced, Outcome.raise]
  | cons c t ih =>
    obtain ⟨hquote, hopen, hclose⟩ := flatChar_eq_true.mp (h c (List.mem_cons_self ..))
    have htail := ih fun d hd => h d (List.mem_cons_of_mem _ hd)
    rw [List.cons_append]
    by_cases hcomma : c = ','
    · rw [hcomma]
      by_cases hcurrent : strip current = []
      · rw [splitFrom, if_neg (by decide), if_neg (by decide), if_neg (by decide), if_pos ⟨rfl, rfl⟩,
          if_pos hcurrent]
        simp [emptyArgument, Outcome.raise]
      · rw [splitFrom_comma hcurrent]
        exact htail _ _
    · rw [splitFrom_other hquote hopen hclose (Or.inl hcomma)]
      exact htail _ _

/-- Flat arguments end where any argument list in their place ends. -/
theorem flat_unique {t x rest rest' : Text} {found : List Text} (ht : ∀ c ∈ t, flatChar c = true)
    (hx : splitTypeArguments x = .ok found) (heq : t ++ ')' :: rest = x ++ ')' :: rest') :
    x = t := by
  rcases List.append_eq_append_iff.mp heq with ⟨more, rfl, hmore⟩ | ⟨more, rfl, hmore⟩
  · cases more with
    | nil => rw [List.append_nil]
    | cons c more =>
      rw [List.cons_append, List.cons.injEq] at hmore
      rw [← hmore.1] at hx
      exact absurd hx (splitFrom_flat ht _ _ _ _ _)
  · cases more with
    | nil => rw [List.append_nil]
    | cons c more =>
      rw [List.cons_append, List.cons.injEq] at hmore
      have hflat := ht ')' (by rw [hmore.1]; simp)
      contradiction

end Plain

section Zone

def isZoneQuote (c : Char) : Bool := ['\'', '"'].contains c

/-- Between its quotes the time zone is one argument, and stripping the quotes gives
it back. -/
def readableZone (zone : Text) : Bool :=
  zone != [] && isOneArgument zone && stripQuotes (literalOf zone) == zone

/-- What follows the precision and its comma is scanned from the start again. -/
theorem split_precision {precision : ℕ} {y : Text} {found : List Text}
    (h : splitTypeArguments (ofNat precision ++ ',' :: y) = .ok found) :
    ∃ value, splitFrom value none 0 [] [ofNat precision] y = .ok found := by
  have hargument := argument_ofNat precision
  unfold splitTypeArguments at h
  rw [hargument.transparent _ _ _ _ _ (Nat.le_refl 0), List.nil_append, splitFrom_comma (by
    rw [strip_of_solid hargument.solid]
    exact hargument.nonempty), strip_of_solid hargument.solid, List.nil_append] at h
  exact ⟨_, h⟩

theorem identPart_not_mem {t : Text} (h : ∀ c ∈ t, isIdentPart c = true) {c : Char}
    (hc : isIdentPart c = false) : c ∉ t := by
  intro hmem
  rw [h c hmem] at hc
  contradiction

/-- An argument list read in the place of a precision and a time zone has the same
precision. -/
theorem precision_unique {precision : ℕ} {x more rest' : Text}
    (heq : ofNat precision ++ ',' :: more = x ++ ')' :: rest') :
    ∃ y, x = ofNat precision ++ ',' :: y ∧ more = y ++ ')' :: rest' := by
  rcases List.append_eq_append_iff.mp heq with ⟨m, rfl, hm⟩ | ⟨m, hx, hm⟩
  · cases m with
    | nil => exact absurd (List.cons.inj hm).1 (by decide)
    | cons c y =>
      rw [List.cons_append, List.cons.injEq] at hm
      rw [← hm.1]
      exact ⟨y, rfl, hm.2⟩
  · cases m with
    | nil => exact absurd (List.cons.inj hm).1 (by decide)
    | cons c m =>
      rw [List.cons_append, List.cons.injEq] at hm
      have hmem : ')' ∈ ofNat precision := by
        rw [hx, hm.1]
        simp
      exact absurd hmem (identPart_not_mem (ofNat_identPart precision) (by decide))

/-- A text whose stripped quotes leave the time zone, read in the place of the quoted
time zone, is the quoted time zone. -/
theorem literal_unique {zone piece rest rest' : Text} (hzone : zone ≠ [])
    (hb : stripQuotes (strip piece) = zone)
    (heq : ' ' :: (literalOf zone ++ ')' :: rest) = piece ++ ')' :: rest') :
    piece = ' ' :: literalOf zone := by
  obtain ⟨before, after, hpiece, hbefore, hafter⟩ := strip_decompose piece
  have hsolid := solid_strip piece
  obtain ⟨left, right, hstrip, hleft, hright⟩ := trim_decompose isZoneQuote (strip piece)
  have htrim : ((strip piece).dropWhile isZoneQuote).rdropWhile isZoneQuote = zone := hb
  have hhead := trim_head isZoneQuote (strip piece)
  rw [htrim] at hstrip hhead
  have hnonempty : strip piece ≠ [] := by
    rw [hstrip]
    simp [hzone]
  have hspaced : [' '] ++ ('\'' :: (zone ++ '\'' :: ')' :: rest)) =
      before ++ (strip piece ++ (after ++ ')' :: rest')) := by
    have hfull : [' '] ++ ('\'' :: (zone ++ '\'' :: ')' :: rest)) = piece ++ ')' :: rest' := by
      rw [← heq]
      simp [literalOf]
    rw [hfull]
    nth_rewrite 1 [hpiece]
    simp only [List.append_assoc]
  obtain ⟨hlead, htail⟩ := span_unique hspaced (by simp [isSpace]) hbefore
    (by simp [isSpace]) (by
      intro c hc
      rw [List.head?_append_of_ne_nil _ hnonempty] at hc
      exact hsolid.head c hc)
  have hzoneHead : ∀ {t : Text} (c : Char), (zone ++ t).head? = some c → isZoneQuote c = false := by
    intro t c hc
    rw [List.head?_append_of_ne_nil _ hzone] at hc
    exact hhead c hc
  have hquoted : ['\''] ++ (zone ++ '\'' :: ')' :: rest) =
      left ++ (zone ++ (right ++ (after ++ ')' :: rest'))) := by
    rw [List.singleton_append, htail]
    nth_rewrite 1 [hstrip]
    simp only [List.append_assoc]
  obtain ⟨hopen, hinner⟩ := span_unique hquoted (by simp [isZoneQuote]) hleft hzoneHead hzoneHead
  have hclose : ['\''] ++ (')' :: rest) = right ++ (after ++ ')' :: rest') :=
    List.append_cancel_left hinner
  have hstop : ∀ c, (after ++ ')' :: rest').head? = some c → isZoneQuote c = false := by
    intro c hc
    cases after with
    | nil =>
      rw [← Option.some.inj hc]
      rfl
    | cons d more =>
      have hd := hafter d (List.mem_cons_self ..)
      rw [← Option.some.inj hc]
      by_contra hquote
      rw [Bool.not_eq_false, isZoneQuote, List.contains_iff_mem] at hquote
      rcases List.mem_cons.mp hquote with rfl | hquote
      · contradiction
      · rw [List.mem_singleton.mp hquote] at hd
        contradiction
  obtain ⟨hend, hparen⟩ := span_unique hclose (by simp [isZoneQuote]) hright
    (by simp [isZoneQuote]) hstop
  have hnil : after = [] := by
    cases after with
    | nil => rfl
    | cons d more =>
      have hd := hafter d (List.mem_cons_self ..)
      rw [← (List.cons.inj hparen).1] at hd
      contradiction
  rw [hpiece, hstrip, ← hlead, ← hopen, ← hend, hnil]
  simp [literalOf]

theorem zone_unique {precision : ℕ} {zone x rest rest' : Text} {a b : Text}
    (hx : splitTypeArguments x = .ok [a, b]) (hb : stripQuotes b = zone) (hzone : zone ≠ [])
    (heq : ofNat precision ++ ',' :: ' ' :: (literalOf zone ++ ')' :: rest) = x ++ ')' :: rest') :
    x = ofNat precision ++ ',' :: ' ' :: literalOf zone := by
  obtain ⟨y, rfl, hy⟩ := precision_unique heq
  obtain ⟨value, hscan⟩ := split_precision hx
  obtain ⟨found, hfound, first, others, hfirst, hpieces, -, -⟩ := splitFrom_pieces hscan
  rw [List.nil_append] at hpieces
  rw [hpieces, List.singleton_append, List.cons.injEq, List.cons.injEq] at hfound
  have hnil : others = [] := List.map_eq_nil_iff.mp hfound.2.2.symm
  rw [hnil, List.flatMap_nil, List.append_nil] at hfirst
  rw [hfirst] at hy ⊢
  rw [hfound.2.1] at hb
  rw [literal_unique hzone hb hy]

/-- A precision and a time zone that split as such show a readable time zone. -/
theorem readableZone_of_split {precision : ℕ} {zone a b : Text} (hzone : zone ≠ [])
    (hx : splitTypeArguments (ofNat precision ++ ',' :: ' ' :: literalOf zone) = .ok [a, b])
    (hb : stripQuotes b = zone) : readableZone zone = true := by
  obtain ⟨value, hscan⟩ := split_precision hx
  have hspace : Transparent 0 [' '] := Transparent.inert rfl
  have hliteral : splitFrom value none 0 [' '] [ofNat precision] (literalOf zone) = .ok [a, b] := by
    rw [← hscan]
    exact (hspace value 0 [] [ofNat precision] (literalOf zone) (Nat.le_refl 0)).symm
  have hpass := (splitFrom_transparent hliteral).2 0 (literalOf zone) [] [] [] (Or.inr rfl)
  rw [Nat.zero_add, List.append_nil, List.nil_append] at hpass
  have hsolid : Solid (literalOf zone) := by
    constructor
    · intro c hc
      rw [← Option.some.inj hc]
      rfl
    · intro c hc
      unfold literalOf at hc
      rw [List.getLast?_append] at hc
      rw [← Option.some.inj hc]
      rfl
  have hsplit : splitTypeArguments (literalOf zone) = .ok [literalOf zone] := by
    unfold splitTypeArguments
    rw [hpass, splitFrom_end, strip_of_solid hsolid, List.nil_append]
    rw [strip_of_solid hsolid]
    simp [literalOf]
  obtain ⟨found, hfound, first, others, hfirst, hpieces, -, -⟩ := splitFrom_pieces hliteral
  rw [hpieces, List.singleton_append, List.cons.injEq, List.cons.injEq] at hfound
  have hnil : others = [] := List.map_eq_nil_iff.mp hfound.2.2.symm
  rw [hnil, List.flatMap_nil, List.append_nil] at hfirst
  rw [hfound.2.1, ← hfirst, strip_spaces (by simp [isSpace]), strip_of_solid hsolid] at hb
  unfold readableZone
  rw [isOneArgument_eq_true.mpr hsplit, hb]
  simp [hzone]

end Zone

section Arguments

theorem flat_ofNat (n : ℕ) : ∀ c ∈ ofNat n, flatChar c = true := by
  intro c hc
  obtain ⟨hquote, hopen, hclose, -⟩ :=
    inertChar_eq_true.mp (inertChar_of_isIdentPart (ofNat_identPart n c hc))
  exact flatChar_eq_true.mpr ⟨hquote, hopen, hclose⟩

theorem decimal_chars (precision : ℕ) (scale : ℤ) :
    ∀ c ∈ ofNat precision ++ ", ".toList ++ ofInt scale,
      isIdentPart c = true ∨ c ∈ [',', ' ', '-'] := by
  intro c hc
  rcases List.mem_append.mp hc with hc | hc
  · rcases List.mem_append.mp hc with hc | hc
    · exact Or.inl (ofNat_identPart precision c hc)
    · have hseparator : (", ".toList).all [',', ' ', '-'].contains = true := rfl
      exact Or.inr (List.contains_iff_mem.mp (List.all_eq_true.mp hseparator c hc))
  · cases scale with
    | ofNat n => exact Or.inl (ofNat_identPart n c hc)
    | negSucc n =>
      rcases List.mem_cons.mp hc with rfl | hc
      · simp
      · exact Or.inl (ofNat_identPart (n + 1) c hc)

theorem flat_decimal (precision : ℕ) (scale : ℤ) :
    ∀ c ∈ ofNat precision ++ ", ".toList ++ ofInt scale, flatChar c = true := by
  intro c hc
  rcases decimal_chars precision scale c hc with hpart | hother
  · obtain ⟨hquote, hopen, hclose, -⟩ := inertChar_eq_true.mp (inertChar_of_isIdentPart hpart)
    exact flatChar_eq_true.mpr ⟨hquote, hopen, hclose⟩
  · have hflat : [',', ' ', '-'].all flatChar = true := rfl
    exact List.all_eq_true.mp hflat c hother

theorem split_nonempty {s : Text} {found : List Text} (h : splitTypeArguments s = .ok found) :
    found ≠ [] := by
  obtain ⟨first, others, -, rfl, -, -⟩ := split_pieces h
  exact List.cons_ne_nil _ _

theorem zone_arguments (precision : ℕ) (c : Char) (rest : Text) :
    ofNat precision ++ zoneArgument (some (c :: rest)) =
      ofNat precision ++ ',' :: ' ' :: literalOf (c :: rest) := by
  rw [zoneArgument_cons]
  rfl

theorem timezone_arguments {zone : Text} {found : List Text}
    (h : some zone = timestampTimezone ⟨"DateTime64".toList, found⟩) :
    ∃ a b, found = [a, b] ∧ stripQuotes b = zone := by
  have hother : (∀ a b, found ≠ [a, b]) →
      timestampTimezone ⟨"DateTime64".toList, found⟩ = none := by
    intro hne
    rcases found with _ | ⟨a, _ | ⟨b, _ | ⟨c, more⟩⟩⟩
    · rfl
    · rfl
    · exact absurd rfl (hne a b)
    · rfl
  by_cases hpair : ∃ a b, found = [a, b]
  · obtain ⟨a, b, rfl⟩ := hpair
    exact ⟨a, b, rfl, (Option.some.inj h).symm⟩
  · rw [hother fun a b hab => hpair ⟨a, b, hab⟩] at h
    contradiction

end Arguments

end RayClickHouse.Schema
