import RayClickHouse.SafeMessages
import RayClickHouse.StreamQuery

/-!
What a failed read reports. The client's exception and the row of the query log
are attached to the error, both with their texts made safe: whatever the client
and the server wrote, neither shows a string of the connection arguments, of the
parameters or the query text.
-/
namespace RayClickHouse.Diagnostics

open Text Sql

/-- An exception of the client; asking for its text may fail. -/
structure ClientException where
  exceptionType : Text
  message : Option Text

structure ClientDiagnostic where
  exceptionType : Text
  operation : Text
  message : Text

structure ReadReport where
  queryId : Text
  diagnostic : Option (List (String × Value))
  clientDiagnostic : ClientDiagnostic

def statementWords : List Text :=
  ["SELECT", "INSERT", "ALTER", "DROP", "DESCRIBE"].map String.toList

section Reports

variable [UnicodeDatabase]

def mentionsStatementFrom : Option Char → Text → Bool
  | _, [] => false
  | previous, c :: rest =>
      (!isWordOption previous && Query.matchWords statementWords (c :: rest)) ||
        mentionsStatementFrom (some c) rest

def rawClientMessage (exc : ClientException) : Text :=
  let message := exc.message.getD "client message unavailable".toList
  if mentionsStatementFrom none message then
    "client message omitted because it contains SQL".toList
  else message

variable (interpreter : Interpreter)

def clientReadDiagnostic (exc : ClientException) (operation : Text) (secrets : List Text) :
    ClientDiagnostic :=
  ⟨exc.exceptionType, operation, safeReadMessage interpreter (rawClientMessage exc) secrets⟩

def safeEntry (secrets : List Text) : String × Value → String × Value
  | ("exception", .str message) => ("exception", .str (safeReadMessage interpreter message secrets))
  | entry => entry

def annotateReadError (queryId : Text) (found : Option (List (String × Value)))
    (cause : ClientException) (operation : Text) (secrets : List Text) : ReadReport :=
  { queryId := queryId
    diagnostic := found.map (List.map (safeEntry interpreter secrets))
    clientDiagnostic := clientReadDiagnostic interpreter cause operation secrets }

end Reports

section Safe

variable [UnicodeDatabase] {interpreter : Interpreter} {w : Text} {secrets : List Text}

theorem safeReadMessage_length (message : Text) :
    (safeReadMessage interpreter message secrets).length ≤ 1000 := List.length_take_le _ _

theorem safeEntry_cases (entry : String × Value) :
    (∃ message, entry = ("exception", .str message) ∧ safeEntry interpreter secrets entry =
      ("exception", .str (safeReadMessage interpreter message secrets))) ∨
    (safeEntry interpreter secrets entry = entry ∧
      ∀ message, entry ≠ ("exception", .str message)) := by
  unfold safeEntry
  split
  · rename_i message
    exact Or.inl ⟨message, rfl, rfl⟩
  · rename_i hother
    refine Or.inr ⟨rfl, ?_⟩
    intro message heq
    exact hother message heq

/-- A text that a report shows, and that comes from outside the connector. -/
def ReadReport.Shows (report : ReadReport) (shown : Text) : Prop :=
  shown = report.clientDiagnostic.message ∨
    ∃ entries, report.diagnostic = some entries ∧ ("exception", .str shown) ∈ entries

/-- What a report shows is a message made safe. -/
theorem shows_safe {queryId operation shown : Text} {found : Option (List (String × Value))}
    {cause : ClientException}
    (h : (annotateReadError interpreter queryId found cause operation secrets).Shows shown) :
    ∃ message, shown = safeReadMessage interpreter message secrets := by
  rcases h with rfl | ⟨entries, hentries, hmem⟩
  · exact ⟨_, rfl⟩
  · obtain ⟨row, -, rfl⟩ := Option.map_eq_some_iff.mp hentries
    obtain ⟨entry, -, hentry⟩ := List.mem_map.mp hmem
    rcases safeEntry_cases entry with ⟨message, -, hsafe⟩ | ⟨hsame, hother⟩
    · rw [hsafe] at hentry
      cases hentry
      exact ⟨message, rfl⟩
    · rw [hsame] at hentry
      exact absurd hentry (hother shown)

theorem safeEntry_fst (entry : String × Value) :
    (safeEntry interpreter secrets entry).1 = entry.1 := by
  rcases safeEntry_cases entry with ⟨message, rfl, hsafe⟩ | ⟨hsame, -⟩
  · rw [hsafe]
  · rw [hsame]

/-- No text of a report holds a form of a collected string, and each is bounded; the other
entries of the row of the query log are reported as they are. -/
theorem report_free {n passes : ℕ} {heap : Fin n → Container n} {value : Item n}
    {queryId operation : Text} {found : Option (List (String × Value))} {cause : ClientException}
    (hsecrets : secretStringsWithin interpreter heap passes value = some secrets) :
    (∀ shown, (annotateReadError interpreter queryId found cause operation secrets).Shows shown →
      shown.length ≤ 1000 ∧ ∀ s, s ≠ [] → Holds heap value s →
        ∀ w ∈ secretForms interpreter s, Foreign w → ¬ w <:+: shown) ∧
    ∀ row, found = some row → ∃ entries,
      (annotateReadError interpreter queryId found cause operation secrets).diagnostic =
        some entries ∧ entries.map Prod.fst = row.map Prod.fst ∧
      ∀ key v, (∀ text, (key, v) ≠ ("exception", .str text)) →
        ((key, v) ∈ entries ↔ (key, v) ∈ row) := by
  have hspec := secretStrings_spec hsecrets
  constructor
  · intro shown hshown
    obtain ⟨message, rfl⟩ := shows_safe hshown
    refine ⟨safeReadMessage_length message, ?_⟩
    intro s hne hholds w hform hw
    exact safeReadMessage_free hw (fun t ht => ((hspec.exact t).mp ht).1)
      ((hspec.exact s).mpr ⟨hne, hholds⟩) hform
  · intro row hrow
    refine ⟨row.map (safeEntry interpreter secrets), ?_, ?_, ?_⟩
    · rw [annotateReadError, hrow, Option.map_some]
    · rw [List.map_map]
      apply List.map_congr_left
      intro entry _
      exact safeEntry_fst entry
    · intro key v hother
      rw [List.mem_map]
      constructor
      · intro h
        obtain ⟨entry, hmem, hentry⟩ := h
        rcases safeEntry_cases entry with ⟨message, -, hsafe⟩ | ⟨hsame, -⟩
        · rw [hsafe] at hentry
          exact absurd hentry.symm (hother _)
        · rw [hsame] at hentry
          exact hentry ▸ hmem
      · intro hmem
        refine ⟨(key, v), hmem, ?_⟩
        rcases safeEntry_cases (key, v) with ⟨message, heq, -⟩ | ⟨hsame, -⟩
        · exact absurd heq (hother message)
        · exact hsame

end Safe

section Example

def plainInterpreter : Interpreter where
  walk set := set
  walk_perm set := List.Perm.refl set
  isPrintable := asciiPlain
  isPrintable_ascii _ _ := rfl

def cyclicHeap : Fin 2 → Container 2
  | 0 => .tuple [.container 1, .text "SELECT 1".toList]
  | 1 => .dict [(.text "password".toList, .text "hunter2".toList),
      (.text "options".toList, .container 1)]

theorem cyclic_report_free :
    ¬ "hunter2".toList <:+: (@annotateReadError asciiDatabase plainInterpreter "q".toList none
      ⟨"E".toList, some "login hunter2 failed".toList⟩ "read".toList
      (longestFirst plainInterpreter ["SELECT 1".toList, "hunter2".toList])).clientDiagnostic.message := by
  have hrun : Worklist.run (objectGraph cyclicHeap) collect 5 (Worklist.start (.container 0) []) =
      some ["SELECT 1".toList, "hunter2".toList] := by decide +kernel
  have hsecrets : secretStringsWithin plainInterpreter cyclicHeap 5 (.container 0) =
      some (longestFirst plainInterpreter ["SELECT 1".toList, "hunter2".toList]) := by
    unfold secretStringsWithin
    rw [hrun, Option.map_some]
  have hholds : Holds cyclicHeap (.container 0) "hunter2".toList := by
    have hkwargs : Worklist.Reaches (objectGraph cyclicHeap) (.container 0) (.container 1) :=
      .next .root rfl (List.mem_cons_self ..)
    exact .next hkwargs rfl (List.mem_cons_self ..)
  have hforeign : Foreign "hunter2".toList := by
    constructor <;> decide
  obtain ⟨hfree, -⟩ := @report_free asciiDatabase plainInterpreter _ 2 5 cyclicHeap (.container 0)
    "q".toList "read".toList none ⟨"E".toList, some "login hunter2 failed".toList⟩ hsecrets
  exact (hfree _ (Or.inl rfl)).2 _ (by decide) hholds _ secret_mem_forms hforeign

end Example

end RayClickHouse.Diagnostics
