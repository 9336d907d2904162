import RayClickHouse.TypeText

/-!
What the argument splitter passes over unchanged. A text is transparent from a
depth on when the scan, started outside quotes at such a depth, reads all of it
as part of the current argument. Declarations are built from such texts, and a
list of them joined by commas is split into its parts again.
-/
namespace RayClickHouse.TypeText

open Text

section Steps

variable {value : Text} {depth : ℕ} {current : Text} {parts : List Text} {rest : Text}

theorem splitFrom_code (c : Char) :
    splitFrom value none depth current parts (c :: rest) =
      if isQuote c then splitFrom value (some c) depth (current ++ [c]) parts rest
      else if c = '(' then splitFrom value none (depth + 1) (current ++ [c]) parts rest
      else if c = ')' then
        if depth = 0 then unbalanced value
        else splitFrom value none (depth - 1) (current ++ [c]) parts rest
      else if c = ',' ∧ depth = 0 then
        if strip current = [] then emptyArgument value
        else splitFrom value none depth [] (parts ++ [strip current]) rest
      else splitFrom value none depth (current ++ [c]) parts rest := rfl

theorem splitFrom_stop :
    splitFrom value none depth current parts [] =
      if depth ≠ 0 then unbalanced value
      else if strip current = [] then emptyArgument value
      else .ok (parts ++ [strip current]) := rfl

theorem splitFrom_escape (q d : Char) :
    splitFrom value (some q) depth current parts ('\\' :: d :: rest) =
      splitFrom value (some q) depth (current ++ ['\\', d]) parts rest := rfl

theorem splitFrom_inside {q c : Char} (hc : c ≠ '\\') :
    splitFrom value (some q) depth current parts (c :: rest) =
      splitFrom value (if c = q then none else some q) depth (current ++ [c]) parts rest := by
  cases rest with
  | nil => exact if_neg hc
  | cons d rest' => exact if_neg hc

theorem splitFrom_quote {c : Char} (hc : isQuote c = true) :
    splitFrom value none depth current parts (c :: rest) =
      splitFrom value (some c) depth (current ++ [c]) parts rest := by
  rw [splitFrom_code, if_pos hc]

theorem splitFrom_open :
    splitFrom value none depth current parts ('(' :: rest) =
      splitFrom value none (depth + 1) (current ++ ['(']) parts rest := by
  rw [splitFrom_code, if_neg (by decide), if_pos rfl]

theorem splitFrom_close :
    splitFrom value none (depth + 1) current parts (')' :: rest) =
      splitFrom value none depth (current ++ [')']) parts rest := by
  rw [splitFrom_code, if_neg (by decide), if_neg (by decide), if_pos rfl, if_neg (Nat.succ_ne_zero depth),
    Nat.add_sub_cancel]

theorem splitFrom_other {c : Char} (hquote : isQuote c = false) (hopen : c ≠ '(') (hclose : c ≠ ')')
    (hcomma : c ≠ ',' ∨ depth ≠ 0) :
    splitFrom value none depth current parts (c :: rest) =
      splitFrom value none depth (current ++ [c]) parts rest := by
  have hboth : ¬(c = ',' ∧ depth = 0) := by
    rintro ⟨hc, hd⟩
    exact hcomma.elim (fun h => h hc) fun h => h hd
  rw [splitFrom_code, if_neg (by simp [hquote]), if_neg hopen, if_neg hclose, if_neg hboth]

theorem splitFrom_comma (hcurrent : strip current ≠ []) :
    splitFrom value none 0 current parts (',' :: rest) =
      splitFrom value none 0 [] (parts ++ [strip current]) rest := by
  rw [splitFrom_code, if_neg (by decide), if_neg (by decide), if_neg (by decide), if_pos ⟨rfl, rfl⟩,
    if_neg hcurrent]

theorem splitFrom_end (hcurrent : strip current ≠ []) :
    splitFrom value none 0 current parts [] = .ok (parts ++ [strip current]) := by
  rw [splitFrom_stop, if_neg (by simp), if_neg hcurrent]

end Steps

/-- The scan reads the text as part of the current argument, from any depth that
is at least the given one. -/
def Transparent (least : ℕ) (t : Text) : Prop :=
  ∀ (value : Text) (depth : ℕ) (current : Text) (parts : List Text) (rest : Text), least ≤ depth →
    splitFrom value none depth current parts (t ++ rest) =
      splitFrom value none depth (current ++ t) parts rest

def inertChar (c : Char) : Bool := !(isQuote c || c == '(' || c == ')' || c == ',')

theorem inertChar_eq_true {c : Char} :
    inertChar c = true ↔ isQuote c = false ∧ c ≠ '(' ∧ c ≠ ')' ∧ c ≠ ',' := by
  simp only [inertChar, Bool.not_eq_true', Bool.or_eq_false_iff, beq_eq_false_iff_ne, ne_eq,
    and_assoc]

section Transparent

variable {least : ℕ} {s t : Text}

theorem Transparent.nil : Transparent least [] := by
  intro value depth current parts rest _
  rw [List.nil_append, List.append_nil]

theorem Transparent.append (hs : Transparent least s) (ht : Transparent least t) :
    Transparent least (s ++ t) := by
  intro value depth current parts rest hdepth
  rw [List.append_assoc, hs _ _ _ _ _ hdepth, ht _ _ _ _ _ hdepth, List.append_assoc]

theorem Transparent.inert (h : t.all inertChar = true) : Transparent least t := by
  intro value depth current parts rest _
  induction t generalizing current with
  | nil => rw [List.nil_append, List.append_nil]
  | cons c t ih =>
    simp only [List.all_cons, Bool.and_eq_true] at h
    obtain ⟨hquote, hopen, hclose, hcomma⟩ := inertChar_eq_true.mp h.1
    rw [List.cons_append, splitFrom_other hquote hopen hclose (Or.inl hcomma), ih h.2,
      List.append_assoc, List.singleton_append]

theorem Transparent.parens (h : Transparent 1 t) :
    Transparent least ("(".toList ++ t ++ ")".toList) := by
  intro value depth current parts rest _
  show splitFrom value none depth current parts ('(' :: (t ++ [')']) ++ rest) = _
  rw [List.cons_append, splitFrom_open, List.append_assoc, h _ _ _ _ _ (Nat.le_add_left 1 depth),
    List.singleton_append, splitFrom_close]
  simp

theorem Transparent.call {name arguments : Text} (hname : name.all inertChar = true)
    (h : Transparent 1 arguments) : Transparent least (call name arguments) := by
  have hhead : Transparent least name := Transparent.inert hname
  have hparens := hhead.append h.parens
  unfold TypeText.call
  simpa only [List.append_assoc] using hparens

end Transparent

/-- No quote of the given kind outside an escape, and no escape left open. -/
def staysOpen (q : Char) : Text → Bool
  | [] => true
  | c :: rest =>
      if c = '\\' then
        match rest with
        | [] => false
        | _ :: rest' => staysOpen q rest'
      else c != q && staysOpen q rest

theorem splitFrom_staysOpen {q : Char} {body : Text} (h : staysOpen q body = true) (value : Text)
    (depth : ℕ) (current : Text) (parts : List Text) (rest : Text) :
    splitFrom value (some q) depth current parts (body ++ rest) =
      splitFrom value (some q) depth (current ++ body) parts rest := by
  induction body using staysOpen.induct generalizing current with
  | case1 => rw [List.nil_append, List.append_nil]
  | case2 =>
    rw [staysOpen, if_pos rfl] at h
    contradiction
  | case3 d rest' ih =>
    rw [staysOpen, if_pos rfl] at h
    rw [List.cons_append, List.cons_append, splitFrom_escape, ih h, List.append_assoc]
    rfl
  | case4 c rest' hc ih =>
    have hopen : c ≠ q ∧ staysOpen q rest' = true := by
      unfold staysOpen at h
      rw [if_neg hc, Bool.and_eq_true, bne_iff_ne] at h
      exact h
    rw [List.cons_append, splitFrom_inside hc, if_neg hopen.1, ih hopen.2, List.append_assoc,
      List.singleton_append]

/-- A quoted text whose content stays inside the quotes. -/
theorem Transparent.literal {least : ℕ} {q : Char} {body : Text} (hq : isQuote q = true)
    (h : staysOpen q body = true) : Transparent least (q :: body ++ [q]) := by
  intro value depth current parts rest _
  have hne : q ≠ '\\' := by
    rintro rfl
    contradiction
  rw [List.cons_append, List.cons_append, splitFrom_quote hq, List.append_assoc,
    splitFrom_staysOpen h, List.singleton_append, splitFrom_inside hne, if_pos rfl]
  simp

/-- A scan that reads a text to its end comes back to where it entered when more text
follows: at every greater depth, and at the same depth when it saw no comma there. -/
theorem splitFrom_transparent {value current s : Text} {q : Option Char} {depth : ℕ}
    {parts result : List Text} (h : splitFrom value q depth current parts s = .ok result) :
    parts.length < result.length ∧
      ∀ (more : ℕ) (value' current' : Text) (parts' : List Text) (rest : Text),
        (more ≠ 0 ∨ result.length = parts.length + 1) →
        splitFrom value' q (depth + more) current' parts' (s ++ rest) =
          splitFrom value' none more (current' ++ s) parts' rest := by
  induction q, depth, current, parts, s using splitFrom.induct with
  | case1 =>
    change unbalanced _ = _ at h
    simp [unbalanced, Outcome.raise] at h
  | case2 =>
    change unbalanced _ = _ at h
    simp [unbalanced, Outcome.raise] at h
  | case3 q depth current parts d rest' ih =>
    rw [splitFrom_escape] at h
    obtain ⟨hlength, hpass⟩ := ih h
    refine ⟨hlength, ?_⟩
    intro more value' current' parts' rest hmore
    rw [List.cons_append, List.cons_append, splitFrom_escape, hpass _ _ _ _ _ hmore,
      List.append_assoc]
    rfl
  | case4 q depth current parts c rest' hc ih =>
    rw [splitFrom_inside hc] at h
    obtain ⟨hlength, hpass⟩ := ih h
    refine ⟨hlength, ?_⟩
    intro more value' current' parts' rest hmore
    rw [List.cons_append, splitFrom_inside hc, hpass _ _ _ _ _ hmore, List.append_assoc,
      List.singleton_append]
  | case5 depth current parts hdepth =>
    rw [splitFrom_stop, if_pos hdepth] at h
    contradiction
  | case6 depth current parts hdepth hcurrent =>
    rw [splitFrom_stop, if_neg hdepth, if_pos hcurrent] at h
    contradiction
  | case7 depth current parts hdepth hcurrent =>
    rw [splitFrom_stop, if_neg hdepth, if_neg hcurrent] at h
    rw [← Except.ok.inj h]
    refine ⟨by simp, ?_⟩
    intro more value' current' parts' rest _
    have hzero : depth = 0 := not_not.mp hdepth
    rw [hzero, Nat.zero_add, List.nil_append, List.append_nil]
  | case8 depth current parts c rest' hquote ih =>
    rw [splitFrom_quote hquote] at h
    obtain ⟨hlength, hpass⟩ := ih h
    refine ⟨hlength, ?_⟩
    intro more value' current' parts' rest hmore
    rw [List.cons_append, splitFrom_quote hquote, hpass _ _ _ _ _ hmore, List.append_assoc,
      List.singleton_append]
  | case9 depth current parts rest' _ ih =>
    rw [splitFrom_open] at h
    obtain ⟨hlength, hpass⟩ := ih h
    refine ⟨hlength, ?_⟩
    intro more value' current' parts' rest hmore
    rw [List.cons_append, splitFrom_open, Nat.add_right_comm, hpass _ _ _ _ _ hmore,
      List.append_assoc, List.singleton_append]
  | case10 current parts rest' _ _ =>
    rw [splitFrom_code, if_neg (by decide), if_neg (by decide), if_pos rfl, if_pos rfl] at h
    contradiction
  | case11 depth current parts rest' hdepth _ _ ih =>
    obtain ⟨below, rfl⟩ := Nat.exists_eq_succ_of_ne_zero hdepth
    rw [Nat.succ_eq_add_one, splitFrom_close] at h
    obtain ⟨hlength, hpass⟩ := ih h
    refine ⟨hlength, ?_⟩
    intro more value' current' parts' rest hmore
    rw [List.cons_append, Nat.succ_eq_add_one, Nat.add_right_comm, splitFrom_close]
    rw [Nat.succ_eq_add_one, Nat.add_sub_cancel] at hpass
    rw [hpass _ _ _ _ _ hmore, List.append_assoc, List.singleton_append]
  | case12 depth current parts c rest' hquote hopen hclose hcomma hcurrent =>
    rw [splitFrom_code, if_neg hquote, if_neg hopen, if_neg hclose, if_pos hcomma, if_pos hcurrent] at h
    contradiction
  | case13 depth current parts c rest' _ _ _ hcomma hcurrent ih =>
    obtain ⟨rfl, rfl⟩ := hcomma
    rw [splitFrom_comma hcurrent] at h
    obtain ⟨hlength, hpass⟩ := ih h
    simp only [List.length_append, List.length_singleton] at hlength hpass
    refine ⟨by omega, ?_⟩
    intro more value' current' parts' rest hmore
    have hdeep : more ≠ 0 := by omega
    rw [List.cons_append, splitFrom_other rfl (by decide) (by decide) (Or.inr (by omega)),
      hpass _ _ _ _ _ (Or.inl hdeep), List.append_assoc, List.singleton_append]
  | case14 depth current parts c rest' hquote hopen hclose hcomma ih =>
    rw [Bool.not_eq_true] at hquote
    have hother : c ≠ ',' ∨ depth ≠ 0 := not_and_or.mp hcomma
    rw [splitFrom_other hquote hopen hclose hother] at h
    obtain ⟨hlength, hpass⟩ := ih h
    refine ⟨hlength, ?_⟩
    intro more value' current' parts' rest hmore
    have hother' : c ≠ ',' ∨ depth + more ≠ 0 := hother.imp_right fun h => by omega
    rw [List.cons_append, splitFrom_other hquote hopen hclose hother', hpass _ _ _ _ _ hmore,
      List.append_assoc, List.singleton_append]

/-- An accepted argument list is passed over between parentheses. -/
theorem transparent_of_split {t : Text} {parts : List Text}
    (h : splitTypeArguments t = .ok parts) : Transparent 1 t := by
  intro value depth current done rest hdepth
  have hpass := (splitFrom_transparent h).2 depth value current done rest (Or.inl (by omega))
  rwa [Nat.zero_add] at hpass

/-- A single argument is passed over anywhere. -/
theorem transparent_of_single {t part : Text} (h : splitTypeArguments t = .ok [part]) :
    Transparent 0 t := by
  intro value depth current done rest _
  have hpass := (splitFrom_transparent h).2 depth value current done rest (Or.inr rfl)
  rwa [Nat.zero_add] at hpass

theorem strip_spaces {lead s : Text} (h : ∀ c ∈ lead, isSpace c = true) :
    strip (lead ++ s) = strip s := by
  unfold strip lstrip
  rw [List.dropWhile_append_of_pos h]

theorem strip_padded {left s right : Text} (hs : Solid s) (hne : s ≠ [])
    (hleft : ∀ c ∈ left, isSpace c = true) (hright : ∀ c ∈ right, isSpace c = true) :
    strip (left ++ (s ++ right)) = s := by
  have hfront : lstrip (left ++ (s ++ right)) = s ++ right := by
    unfold lstrip
    rw [List.dropWhile_append_of_pos hleft]
    cases s with
    | nil => exact absurd rfl hne
    | cons c s => simp [hs.head c rfl]
  have hback : rstrip (s ++ right) = rstrip s := by
    unfold rstrip
    clear hfront
    induction right using List.reverseRecOn with
    | nil => rw [List.append_nil]
    | append_singleton right c ih =>
      rw [← List.append_assoc, List.rdropWhile_concat_pos _ _ _ (hright c (by simp))]
      exact ih fun d hd => hright d (List.mem_append_left _ hd)
  have hself := strip_of_solid hs
  have hkeep : lstrip s = s := by
    cases s with
    | nil => rfl
    | cons c s => simp [lstrip, hs.head c rfl]
  unfold strip at hself ⊢
  rw [hkeep] at hself
  rw [hfront, hback, hself]

theorem solid_quoted {q : Char} (hq : isSpace q = false) (value : Text) :
    Solid (q :: (value ++ [q])) where
  head c hc := by
    cases hc
    exact hq
  last c hc := by
    have hlast : (q :: (value ++ [q])).getLast? = some q := by
      rw [← List.cons_append, List.getLast?_concat]
    rw [hlast] at hc
    cases hc
    exact hq

theorem join_one (part : Text) : join ", ".toList [part] = part := by
  rw [join_cons, List.flatMap_nil, List.append_nil]

theorem join_two (first second : Text) :
    join ", ".toList [first, second] = first ++ ", ".toList ++ second := by
  rw [join_cons, List.flatMap_cons, List.flatMap_nil, List.append_nil, List.append_assoc]

structure Argument (t : Text) : Prop where
  transparent : Transparent 0 t
  solid : Solid t
  nonempty : t ≠ []

theorem splitFrom_join {part : Text} {parts : List Text} (hpart : Argument part)
    (hparts : ∀ p ∈ parts, Argument p) (value lead : Text) (done : List Text)
    (hlead : ∀ c ∈ lead, isSpace c = true) :
    splitFrom value none 0 lead done (join ", ".toList (part :: parts)) =
      .ok (done ++ part :: parts) := by
  have hstrip : ∀ {p}, Argument p → ∀ {l : Text}, (∀ c ∈ l, isSpace c = true) →
      strip (l ++ p) = p := by
    intro p hp l hl
    rw [strip_spaces hl, strip_of_solid hp.solid]
  induction parts generalizing part lead done with
  | nil =>
    have hread := hpart.transparent value 0 lead done [] (Nat.le_refl 0)
    rw [List.append_nil] at hread
    rw [join_cons, List.flatMap_nil, List.append_nil, hread, splitFrom_end, hstrip hpart hlead]
    rw [hstrip hpart hlead]
    exact hpart.nonempty
  | cons next rest ih =>
    have hjoin : join ", ".toList (part :: next :: rest) =
        part ++ ',' :: ([' '] ++ join ", ".toList (next :: rest)) := by
      rw [join_cons, join_cons, List.flatMap_cons]
      simp
    have hne : strip (lead ++ part) ≠ [] := by
      rw [hstrip hpart hlead]
      exact hpart.nonempty
    have hspace : Transparent 0 [' '] := Transparent.inert rfl
    rw [hjoin, hpart.transparent _ _ _ _ _ (Nat.le_refl 0), splitFrom_comma hne,
      hspace _ _ _ _ _ (Nat.le_refl 0), hstrip hpart hlead, List.nil_append,
      ih (hparts next (List.mem_cons_self ..)) (fun p hp => hparts p (List.mem_cons_of_mem _ hp)) _ _
        (by simp [isSpace])]
    simp

/-- Arguments joined by commas are split into the arguments again. -/
theorem splitTypeArguments_join {parts : List Text} (hne : parts ≠ [])
    (h : ∀ p ∈ parts, Argument p) :
    splitTypeArguments (join ", ".toList parts) = .ok parts := by
  cases parts with
  | nil => exact absurd rfl hne
  | cons part rest =>
    exact splitFrom_join (h part (List.mem_cons_self ..))
      (fun p hp => h p (List.mem_cons_of_mem _ hp)) _ [] [] (by simp)

theorem splitTypeArguments_single {part : Text} (h : Argument part) :
    splitTypeArguments part = .ok [part] := by
  have hall : ∀ p ∈ [part], Argument p := by
    intro p hp
    rw [List.mem_singleton.mp hp]
    exact h
  have hsplit := splitTypeArguments_join (List.cons_ne_nil part []) hall
  rwa [join_cons, List.flatMap_nil, List.append_nil] at hsplit

theorem splitOnce_paren {before after : Text} (h : '(' ∉ before) :
    splitOnce "(".toList (before ++ '(' :: after) = some (before, after) := by
  induction before with
  | nil => simp [splitOnce]
  | cons c before ih =>
    simp only [List.mem_cons, not_or] at h
    rw [List.cons_append, splitOnce, if_neg (by simpa using h.1), ih h.2]
    rfl

theorem splitOnce_paren_none {s : Text} (h : '(' ∉ s) : splitOnce "(".toList s = none := by
  induction s with
  | nil => rfl
  | cons c rest ih =>
    simp only [List.mem_cons, not_or] at h
    rw [splitOnce, if_neg (by simpa using h.1), ih h.2]
    rfl

section ParseType

variable {name arguments : Text}

theorem solid_call (hname : Solid name) (hne : name ≠ []) : Solid (call name arguments) := by
  constructor
  · intro c hc
    apply hname.head c
    rw [← hc]
    unfold call
    rw [List.append_assoc, List.append_assoc, List.head?_append_of_ne_nil _ hne]
  · intro c hc
    have hlast : (call name arguments).getLast? = some ')' := by
      unfold call
      rw [List.getLast?_append]
      rfl
    rw [hlast, Option.some.injEq] at hc
    rw [← hc]
    rfl

theorem parseType_call (hname : Solid name) (hne : name ≠ []) (hopen : '(' ∉ name) :
    parseType (call name arguments) =
      (splitTypeArguments arguments).map fun parts => ⟨name, parts⟩ := by
  have hcall : call name arguments = name ++ '(' :: (arguments ++ [')']) := by
    unfold call
    simp
  unfold parseType
  rw [strip_of_solid (solid_call hname hne), if_neg (by simp [call]), hcall, splitOnce_paren hopen]
  simp only [List.getLast?_append, List.getLast?_singleton, Option.some_or, if_true,
    List.dropLast_concat, strip_of_solid hname]
  cases splitTypeArguments arguments with
  | error failure => rfl
  | ok parts => rfl

theorem parseType_plain (hname : Solid name) (hne : name ≠ []) (hopen : '(' ∉ name) :
    parseType name = .ok ⟨name, []⟩ := by
  unfold parseType
  rw [strip_of_solid hname, if_neg hne, splitOnce_paren_none hopen]

end ParseType

end RayClickHouse.TypeText
