import Mathlib

/-!
A ledger grows by invocations of one command. An invocation reads entries that
are already in the ledger and appends at most one, so that whatever holds
between an entry and the entries it was written from can be followed back: when
every entry either starts a chain or is linked to an earlier one, every entry
ends a chain of earlier ones, in the order in which they were written.
-/
namespace RayClickHouse

/-- The lists of entries that finite sequences of invocations write, oldest first. -/
inductive Ledger {ι α : Type*} (write : ι → Option α) (reads : ι → α → Prop) : List α → Prop
  | start : Ledger write reads []
  | invoke {written : List α} (args : ι) (previous : Ledger write reads written)
      (hreads : ∀ a, reads args a → a ∈ written) :
      Ledger write reads (written ++ (write args).toList)

namespace Ledger

variable {ι α : Type*} {write : ι → Option α} {reads : ι → α → Prop} {Link : α → α → Prop}
  {Start : α → Prop}

/-- Each entry was written by an invocation that read entries before it only. -/
theorem written {before after : List α} {entry : α}
    (h : Ledger write reads (before ++ entry :: after)) :
    Ledger write reads before ∧
      ∃ args, write args = some entry ∧ ∀ a, reads args a → a ∈ before := by
  generalize hall : before ++ entry :: after = all at h
  induction h generalizing after with
  | start => simp at hall
  | @invoke written args previous hreads ih =>
    cases hargs : write args with
    | none =>
      rw [hargs, Option.toList_none, List.append_nil] at hall
      exact ih hall
    | some other =>
      rw [hargs, Option.toList_some] at hall
      rcases List.eq_nil_or_concat after with rfl | ⟨rest, last, rfl⟩
      · obtain ⟨rfl, hentry⟩ := List.append_inj' hall rfl
        cases hentry
        exact ⟨previous, args, hargs, hreads⟩
      · rw [List.concat_eq_append, ← List.cons_append, ← List.append_assoc] at hall
        exact ih (List.append_inj' hall rfl).1

/-- Links to earlier entries are followed back to a start. -/
theorem chain
    (hlinks : ∀ before entry args, Ledger write reads before → write args = some entry →
      (∀ a, reads args a → a ∈ before) → Start entry ∨ ∃ a ∈ before, Link a entry)
    {before after : List α} {entry : α} (h : Ledger write reads (before ++ entry :: after)) :
    ∃ chain : List α, chain.Sublist before ∧ (chain ++ [entry]).IsChain Link ∧
      ∃ first rest, chain ++ [entry] = first :: rest ∧ Start first := by
  induction hlength : before.length using Nat.strong_induction_on
    generalizing before entry after with
  | _ length ih =>
    obtain ⟨hbefore, args, hargs, hreads⟩ := h.written
    rcases hlinks before entry args hbefore hargs hreads with hstart | ⟨a, ha, hlink⟩
    · exact ⟨[], List.nil_sublist _, List.isChain_singleton _, entry, [], rfl, hstart⟩
    · obtain ⟨earlier, between, rfl⟩ := List.append_of_mem ha
      have hshorter : earlier.length < length := by
        rw [← hlength, List.length_append, List.length_cons]
        omega
      obtain ⟨links, hsub, hchain, first, rest, hfirst, hstart⟩ :=
        ih earlier.length hshorter hbefore rfl
      refine ⟨links ++ [a], ?_, ?_, first, rest ++ [entry], ?_, hstart⟩
      · exact hsub.append (List.singleton_sublist.mpr (List.mem_cons_self ..))
      · apply List.isChain_append.mpr
        refine ⟨hchain, List.isChain_singleton _, ?_⟩
        intro x hx y hy
        rw [List.getLast?_concat, Option.mem_some_iff] at hx
        rw [List.head?_cons, Option.mem_some_iff] at hy
        rwa [← hx, ← hy]
      · rw [hfirst, List.cons_append]

end Ledger

end RayClickHouse
