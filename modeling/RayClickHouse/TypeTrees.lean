import RayClickHouse.TypePrefix

/-!
Type trees and their texts. A tree is laid out with any white space around the commas
and inside the parentheses; reading the text with parse_type, level by level, gives
the names and the texts of the arguments back.
-/
namespace RayClickHouse.TypeText

open Text

structure Spaces where
  text : Text
  blank : ∀ c ∈ text, isSpace c = true

structure Gap extends Spaces where
  nonempty : text ≠ []

/-- A name without quotes, parentheses, commas or white space at its ends. -/
structure TypeName where
  text : Text
  nonempty : text ≠ []
  inert : text.all inertChar = true
  solid : Solid text

structure NumberText where
  text : Text
  nonempty : text ≠ []
  digits : ∀ c ∈ text, c.isDigit = true ∨ c ∈ ['+', '-', '.', 'e', 'E']

inductive LiteralPart (q : Char)
  | plain (c : Char) (h : c ≠ q ∧ c ≠ '\\')
  | escaped (c : Char)
  | doubled

def LiteralPart.text {q : Char} : LiteralPart q → Text
  | plain c _ => [c]
  | escaped c => ['\\', c]
  | doubled => [q, q]

structure Literal where
  quote : Char
  quoted : isQuote quote = true
  parts : List (LiteralPart quote)

def Literal.text (l : Literal) : Text := l.quote :: (l.parts.flatMap LiteralPart.text ++ [l.quote])

inductive FieldName
  | bare (name : Text) (h : isIdentifier name = true)
  | quoted (parts : List (LiteralPart '`'))

def FieldName.text : FieldName → Text
  | bare name _ => name
  | quoted parts => Literal.text ⟨'`', rfl, parts⟩

mutual

inductive TypeTree
  | named (name : TypeName)
  | applied (name : TypeName) (arguments : TypeArguments)

inductive TypeArguments
  | one (before : Spaces) (argument : TypeArgument) (after : Spaces)
  | more (before : Spaces) (argument : TypeArgument) (after : Spaces) (rest : TypeArguments)

inductive TypeArgument
  | type (t : TypeTree)
  | field (name : FieldName) (gap : Gap) (t : TypeTree)
  | number (n : NumberText)
  | literal (l : Literal)

end

mutual

def TypeTree.render : TypeTree → Text
  | .named name => name.text
  | .applied name arguments => call name.text arguments.render

def TypeArguments.render : TypeArguments → Text
  | .one before argument after => before.text ++ (argument.render ++ after.text)
  | .more before argument after rest =>
      before.text ++ (argument.render ++ after.text) ++ ',' :: rest.render

def TypeArgument.render : TypeArgument → Text
  | .type t => t.render
  | .field name gap t => name.text ++ gap.text ++ t.render
  | .number n => n.text
  | .literal l => l.text

end

mutual

/-- Reading the text gives the tree back: parse_type returns the name and the argument
texts, and each of these is read in turn. -/
def TypeTree.ReadFrom : TypeTree → Text → Prop
  | .named name, text => parseType text = .ok ⟨name.text, []⟩
  | .applied name arguments, text =>
      ∃ texts, parseType text = .ok ⟨name.text, texts⟩ ∧ arguments.ReadFrom texts

def TypeArguments.ReadFrom : TypeArguments → List Text → Prop
  | .one _ argument _, texts => ∃ text, texts = [text] ∧ argument.ReadFrom text
  | .more _ argument _ rest, texts =>
      ∃ text others, texts = text :: others ∧ argument.ReadFrom text ∧ rest.ReadFrom others

def TypeArgument.ReadFrom : TypeArgument → Text → Prop
  | .type t, text => text = t.render ∧ t.ReadFrom text
  | .field name gap t, text =>
      ∃ type, text = name.text ++ gap.text ++ type ∧ type = t.render ∧ t.ReadFrom type
  | .number n, text => text = n.text
  | .literal l, text => text = l.text

end

section Leaves

theorem TypeName.open_not_mem (name : TypeName) : '(' ∉ name.text := by
  intro hmem
  have hinert := List.all_eq_true.mp name.inert '(' hmem
  revert hinert
  decide

theorem TypeName.argument (name : TypeName) : Argument name.text :=
  ⟨Transparent.inert name.inert, name.solid, name.nonempty⟩

theorem NumberText.argument (n : NumberText) : Argument n.text := by
  have hchar : ∀ c ∈ n.text, inertChar c = true ∧ isSpace c = false := by
    intro c hc
    obtain hdigit | hsign := n.digits c hc
    · have hpart : isIdentPart c = true := by
        unfold isIdentPart Char.isAlphanum
        rw [hdigit, Bool.or_true, Bool.true_or]
      exact ⟨Ddl.inertChar_of_isIdentPart hpart, Ddl.isSpace_of_isIdentPart hpart⟩
    · simp only [List.mem_cons, List.not_mem_nil, or_false] at hsign
      obtain rfl | rfl | rfl | rfl | rfl := hsign <;> decide
  refine ⟨Transparent.inert ?_, Ddl.solid_of_plain fun c hc => (hchar c hc).2, n.nonempty⟩
  rw [List.all_eq_true]
  exact fun c hc => (hchar c hc).1

/-- Inside the quotes every piece is passed over: an escape takes its character with it,
and a doubled quote closes and opens again. -/
theorem splitFrom_parts {q : Char} (hq : isQuote q = true) (pieces : List (LiteralPart q))
    (value : Text) (depth : ℕ) (current : Text) (parts : List Text) (rest : Text) :
    splitFrom value (some q) depth current parts (pieces.flatMap LiteralPart.text ++ q :: rest) =
      splitFrom value none depth (current ++ (pieces.flatMap LiteralPart.text ++ [q])) parts
        rest := by
  have hne : q ≠ '\\' := by
    intro heq
    rw [heq] at hq
    contradiction
  induction pieces generalizing current with
  | nil =>
    rw [List.flatMap_nil, List.nil_append, List.nil_append, splitFrom_inside hne, if_pos rfl]
  | cons piece pieces ih =>
    rw [List.flatMap_cons, List.append_assoc]
    cases piece with
    | plain c h =>
      have hstep := ih (current ++ [c])
      show splitFrom value (some q) depth current parts (c :: _) = _
      rw [splitFrom_inside h.2, if_neg h.1]
      simpa [LiteralPart.text] using hstep
    | escaped c =>
      have hstep := ih (current ++ ['\\', c])
      show splitFrom value (some q) depth current parts ('\\' :: c :: _) = _
      rw [splitFrom_escape]
      simpa [LiteralPart.text] using hstep
    | doubled =>
      have hstep := ih (current ++ [q] ++ [q])
      show splitFrom value (some q) depth current parts (q :: q :: _) = _
      rw [splitFrom_inside hne, if_pos rfl, splitFrom_quote hq]
      simpa [LiteralPart.text] using hstep

theorem Literal.argument (l : Literal) : Argument l.text := by
  refine ⟨?_, ?_, by simp [Literal.text]⟩
  · intro value depth current parts rest _
    unfold Literal.text
    rw [List.cons_append, splitFrom_quote l.quoted, List.append_assoc, List.singleton_append,
      splitFrom_parts l.quoted, List.append_assoc]
    rfl
  · have hspace : isSpace l.quote = false := by
      have hquoted := l.quoted
      simp only [isQuote, Bool.or_eq_true, beq_iff_eq] at hquoted
      obtain (heq | heq) | heq := hquoted
      · rw [heq]
        rfl
      · rw [heq]
        rfl
      · rw [heq]
        rfl
    exact solid_quoted hspace _

theorem Spaces.transparent (s : Spaces) : Transparent 0 s.text := by
  apply Transparent.inert
  rw [List.all_eq_true]
  intro c hc
  have hspace := s.blank c hc
  have hne : ∀ d : Char, isSpace d = false → c ≠ d := by
    intro d hd heq
    rw [← heq, hspace] at hd
    contradiction
  rw [inertChar_eq_true]
  refine ⟨?_, hne '(' (by decide), hne ')' (by decide), hne ',' (by decide)⟩
  simp [isQuote, hne '\'' (by decide), hne '"' (by decide), hne '`' (by decide)]

theorem FieldName.argument (name : FieldName) : Argument name.text := by
  cases name with
  | bare name h => exact Ddl.argument_identifier h
  | quoted parts => exact Literal.argument _

/-- A field name, white space and an argument make one argument. -/
theorem Argument.field {name type : Text} (hname : Argument name) (gap : Spaces)
    (htype : Argument type) : Argument (name ++ gap.text ++ type) := by
  refine ⟨(hname.transparent.append gap.transparent).append htype.transparent, ⟨?_, ?_⟩, ?_⟩
  · intro c hc
    rw [List.append_assoc, List.head?_append_of_ne_nil _ hname.nonempty] at hc
    exact hname.solid.head c hc
  · intro c hc
    rw [List.getLast?_append_of_ne_nil _ htype.nonempty] at hc
    exact htype.solid.last c hc
  · intro hnil
    exact htype.nonempty (List.append_eq_nil_iff.mp hnil).2

end Leaves

section Trees

def TypeArguments.texts : TypeArguments → List Text
  | .one _ argument _ => [argument.render]
  | .more _ argument _ rest => argument.render :: rest.texts

/-- White space around an argument is not part of it. -/
theorem strip_spaced (before after : Spaces) {t : Text} (h : Argument t) :
    strip (before.text ++ (t ++ after.text)) = t :=
  strip_padded h.solid h.nonempty before.blank after.blank

theorem splitFrom_spaced (before after : Spaces) {t : Text} (h : Argument t) (value : Text)
    (parts : List Text) (rest : Text) :
    splitFrom value none 0 [] parts (before.text ++ (t ++ after.text) ++ rest) =
      splitFrom value none 0 (before.text ++ (t ++ after.text)) parts rest := by
  have hpiece : Transparent 0 (before.text ++ (t ++ after.text)) :=
    before.transparent.append (h.transparent.append after.transparent)
  rw [hpiece value 0 [] parts rest (Nat.le_refl 0), List.nil_append]

mutual

theorem TypeTree.argument : (t : TypeTree) → Argument t.render
  | .named name => by
    rw [TypeTree.render]
    exact name.argument
  | .applied name arguments => by
    have hsplit : splitTypeArguments arguments.render = .ok arguments.texts :=
      arguments.splitFrom_render arguments.render []
    rw [TypeTree.render]
    refine ⟨Transparent.call name.inert (transparent_of_split hsplit),
      solid_call name.solid name.nonempty, ?_⟩
    simp [call]

theorem TypeArguments.splitFrom_render : (a : TypeArguments) → (value : Text) →
    (parts : List Text) → splitFrom value none 0 [] parts a.render = .ok (parts ++ a.texts)
  | .one before argument after, value, parts => by
    have hargument := argument.argument
    have hstrip := strip_spaced before after hargument
    have hread := splitFrom_spaced before after hargument value parts []
    rw [List.append_nil] at hread
    rw [TypeArguments.render, TypeArguments.texts, hread, splitFrom_end, hstrip]
    rw [hstrip]
    exact hargument.nonempty
  | .more before argument after rest, value, parts => by
    have hargument := argument.argument
    have hstrip := strip_spaced before after hargument
    have hrest := rest.splitFrom_render value (parts ++ [argument.render])
    rw [TypeArguments.render, TypeArguments.texts, splitFrom_spaced before after hargument,
      splitFrom_comma, hstrip, hrest, List.append_assoc]
    · rfl
    · rw [hstrip]
      exact hargument.nonempty

theorem TypeArgument.argument : (a : TypeArgument) → Argument a.render
  | .type t => by
    rw [TypeArgument.render]
    exact t.argument
  | .field name gap t => by
    rw [TypeArgument.render]
    exact name.argument.field gap.toSpaces t.argument
  | .number n => by
    rw [TypeArgument.render]
    exact n.argument
  | .literal l => by
    rw [TypeArgument.render]
    exact l.argument

end

theorem TypeArguments.split_render (a : TypeArguments) :
    splitTypeArguments a.render = .ok a.texts :=
  a.splitFrom_render a.render []

theorem TypeTree.parseType_applied (name : TypeName) (arguments : TypeArguments) :
    parseType (TypeTree.applied name arguments).render = .ok ⟨name.text, arguments.texts⟩ := by
  rw [TypeTree.render, parseType_call name.solid name.nonempty name.open_not_mem,
    arguments.split_render]
  rfl

mutual

/-- Rendering a tree and reading the text gives the tree back. -/
theorem TypeTree.readFrom_render : (t : TypeTree) → t.ReadFrom t.render
  | .named name => by
    rw [TypeTree.ReadFrom, TypeTree.render]
    exact parseType_plain name.solid name.nonempty name.open_not_mem
  | .applied name arguments => by
    rw [TypeTree.ReadFrom]
    exact ⟨arguments.texts, TypeTree.parseType_applied name arguments, arguments.readFrom_texts⟩

theorem TypeArguments.readFrom_texts : (a : TypeArguments) → a.ReadFrom a.texts
  | .one before argument after => by
    rw [TypeArguments.ReadFrom]
    exact ⟨argument.render, rfl, argument.readFrom_render⟩
  | .more before argument after rest => by
    rw [TypeArguments.ReadFrom]
    exact ⟨argument.render, rest.texts, rfl, argument.readFrom_render, rest.readFrom_texts⟩

theorem TypeArgument.readFrom_render : (a : TypeArgument) → a.ReadFrom a.render
  | .type t => by
    rw [TypeArgument.ReadFrom, TypeArgument.render]
    exact ⟨rfl, t.readFrom_render⟩
  | .field name gap t => by
    rw [TypeArgument.ReadFrom, TypeArgument.render]
    exact ⟨t.render, rfl, rfl, t.readFrom_render⟩
  | .number n => by
    rw [TypeArgument.ReadFrom, TypeArgument.render]
  | .literal l => by
    rw [TypeArgument.ReadFrom, TypeArgument.render]

end

end Trees

end RayClickHouse.TypeText
