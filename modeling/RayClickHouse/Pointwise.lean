import Mathlib

/-!
Lists related element by element. A relation may be replaced by one that it
implies on the elements of the lists, and relations compose.
-/
namespace RayClickHouse

variable {α β γ : Type*} {R : α → β → Prop}

theorem exists_of_mem_forall₂ {xs : List α} {ys : List β}
    (h : List.Forall₂ R xs ys) {y : β} (hy : y ∈ ys) : ∃ x ∈ xs, R x y := by
  induction h with
  | nil => simp at hy
  | cons hhead _ ih =>
    rcases List.mem_cons.mp hy with rfl | hy
    · exact ⟨_, List.mem_cons_self .., hhead⟩
    · obtain ⟨x, hx, hxy⟩ := ih hy
      exact ⟨x, List.mem_cons_of_mem _ hx, hxy⟩

theorem forall₂_of_mem {S : α → β → Prop} {as : List α} {bs : List β} (h : List.Forall₂ R as bs)
    (himp : ∀ a ∈ as, ∀ b ∈ bs, R a b → S a b) : List.Forall₂ S as bs := by
  induction h with
  | nil => exact List.Forall₂.nil
  | cons hhead _ ih =>
    apply List.Forall₂.cons
    · exact himp _ (List.mem_cons_self ..) _ (List.mem_cons_self ..) hhead
    · apply ih
      intro a ha b hb
      exact himp a (List.mem_cons_of_mem _ ha) b (List.mem_cons_of_mem _ hb)

theorem forall₂_comp {S : β → γ → Prop} {T : α → γ → Prop} {as : List α} {bs : List β} {cs : List γ}
    (h : List.Forall₂ R as bs) (h' : List.Forall₂ S bs cs)
    (hcomp : ∀ a ∈ as, ∀ b c, R a b → S b c → T a c) : List.Forall₂ T as cs := by
  induction h generalizing cs with
  | nil =>
    cases h'
    exact List.Forall₂.nil
  | cons hhead _ ih =>
    cases h' with
    | cons hhead' htail' =>
      apply List.Forall₂.cons
      · exact hcomp _ (List.mem_cons_self ..) _ _ hhead hhead'
      · apply ih htail'
        intro a ha
        exact hcomp a (List.mem_cons_of_mem _ ha)

end RayClickHouse
