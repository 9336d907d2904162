import RayClickHouse.Compatibility
import RayClickHouse.TypePrefix

/-!
Looking through Nullable, LowCardinality and SimpleAggregateFunction. The fuel of
the loop does not matter once it exceeds the arguments' length, and the flag only
accumulates.
-/
namespace RayClickHouse.Schema

open Text TypeText

def wrapperNames : List Text :=
  ["Nullable".toList, "LowCardinality".toList, "SimpleAggregateFunction".toList]

theorem strip_length_le (s : Text) : (strip s).length ≤ s.length := by
  obtain ⟨before, after, hdecompose, -, -⟩ := strip_decompose s
  have hlength := congrArg List.length hdecompose
  simp only [List.length_append] at hlength
  omega

theorem pieces_length_le {s : Text} {found : List Text} (h : PiecesOf [] s found) :
    ∀ a ∈ found, a.length ≤ s.length ∧ Solid a := by
  obtain ⟨first, others, rfl, rfl, -, -⟩ := h
  intro a ha
  rw [List.nil_append, ← List.map_cons] at ha
  obtain ⟨piece, hpiece, rfl⟩ := List.mem_map.mp ha
  refine ⟨(strip_length_le piece).trans ?_, solid_strip piece⟩
  rw [List.length_append]
  rcases List.mem_cons.mp hpiece with rfl | hpiece
  · omega
  · obtain ⟨l, r, rfl⟩ := List.append_of_mem hpiece
    simp only [List.flatMap_append, List.flatMap_cons, List.length_append, List.length_cons]
    omega

theorem argument_bounds {u : Text} {parsed : ClickHouseType} (h : parseType u = .ok parsed) :
    ∀ a ∈ parsed.arguments, a.length < u.length ∧ Solid a := by
  unfold parseType at h
  simp only at h
  split at h
  · contradiction
  · split at h
    · rw [← Except.ok.inj h]
      intro a ha
      exact absurd ha List.not_mem_nil
    · rename_i before after hopen
      split at h
      · obtain ⟨arguments, hsplit, hparsed⟩ := Except.bind_eq_ok.mp h
        rw [← Except.ok.inj hparsed]
        intro a ha
        obtain ⟨hlength, hsolid⟩ := pieces_length_le (split_pieces hsplit) a ha
        refine ⟨?_, hsolid⟩
        have htext := congrArg List.length (Lexical.splitOnce_eq_some hopen)
        have hstrip := strip_length_le u
        have hparen : ("(".toList).length = 1 := rfl
        simp only [List.length_append, List.length_dropLast, hparen] at htext hlength
        omega
      · contradiction

theorem unwrapWithin_nil (fuel : ℕ) (name : Text) (nullable : Bool) :
    unwrapWithin fuel ⟨name, []⟩ nullable = .ok (⟨name, []⟩, nullable) := by
  cases fuel with
  | zero => rfl
  | succ fuel =>
    unfold unwrapWithin
    split_ifs <;> rfl

/-- One pass of the loop: the argument it goes on with, none where it stops. -/
def wrapped (parsed : ClickHouseType) : Option (Text × Bool) :=
  if parsed.name = "Nullable".toList then
    match parsed.arguments with
    | [argument] => some (argument, true)
    | _ => none
  else if parsed.name = "LowCardinality".toList then
    match parsed.arguments with
    | [argument] => some (argument, false)
    | _ => none
  else if parsed.name = "SimpleAggregateFunction".toList then
    match parsed.arguments with
    | [_, argument] => some (argument, false)
    | _ => none
  else none

theorem unwrapWithin_succ (fuel : ℕ) (parsed : ClickHouseType) (nullable : Bool) :
    unwrapWithin (fuel + 1) parsed nullable =
      match wrapped parsed with
      | none => .ok (parsed, nullable)
      | some step =>
          parseType step.1 >>= fun inner => unwrapWithin fuel inner (nullable || step.2) := by
  obtain ⟨name, arguments⟩ := parsed
  rw [unwrapWithin, wrapped]
  by_cases hnullable : name = "Nullable".toList
  · rw [if_pos hnullable, if_pos hnullable]
    rcases arguments with _ | ⟨argument, _ | ⟨other, more⟩⟩
    · rfl
    · simp only [Bool.or_true]
    · rfl
  rw [if_neg hnullable, if_neg hnullable]
  by_cases hlow : name = "LowCardinality".toList
  · rw [if_pos hlow, if_pos hlow]
    rcases arguments with _ | ⟨argument, _ | ⟨other, more⟩⟩
    · rfl
    · simp only [Bool.or_false]
    · rfl
  rw [if_neg hlow, if_neg hlow]
  by_cases haggregate : name = "SimpleAggregateFunction".toList
  · rw [if_pos haggregate, if_pos haggregate]
    rcases arguments with _ | ⟨function, _ | ⟨argument, _ | ⟨other, more⟩⟩⟩
    · rfl
    · rfl
    · simp only [Bool.or_false]
    · rfl
  rw [if_neg haggregate, if_neg haggregate]

theorem wrapped_mem {parsed : ClickHouseType} {step : Text × Bool}
    (h : wrapped parsed = some step) : step.1 ∈ parsed.arguments := by
  obtain ⟨name, arguments⟩ := parsed
  unfold wrapped at h
  split_ifs at h
  · rcases arguments with _ | ⟨argument, _ | ⟨other, more⟩⟩
    · contradiction
    · rw [← Option.some.inj h]
      exact List.mem_singleton_self _
    · contradiction
  · rcases arguments with _ | ⟨argument, _ | ⟨other, more⟩⟩
    · contradiction
    · rw [← Option.some.inj h]
      exact List.mem_singleton_self _
    · contradiction
  · rcases arguments with _ | ⟨function, _ | ⟨argument, _ | ⟨other, more⟩⟩⟩
    · contradiction
    · contradiction
    · rw [← Option.some.inj h]
      exact List.mem_cons_of_mem _ (List.mem_singleton_self _)
    · contradiction

theorem wrapped_name {parsed : ClickHouseType} {step : Text × Bool}
    (h : wrapped parsed = some step) : parsed.name ∈ wrapperNames := by
  unfold wrapped at h
  unfold wrapperNames
  split_ifs at h with hnullable hlow haggregate
  · rw [hnullable]
    exact List.mem_cons_self ..
  · rw [hlow]
    exact List.mem_cons_of_mem _ (List.mem_cons_self ..)
  · rw [haggregate]
    exact List.mem_cons_of_mem _ (List.mem_cons_of_mem _ (List.mem_cons_self ..))

/-- More fuel than the longest argument changes nothing. -/
theorem unwrapWithin_fuel {fuel fuel' : ℕ} {parsed : ClickHouseType} {nullable : Bool}
    (h : ∀ a ∈ parsed.arguments, a.length < fuel) (h' : ∀ a ∈ parsed.arguments, a.length < fuel') :
    unwrapWithin fuel parsed nullable = unwrapWithin fuel' parsed nullable := by
  induction fuel generalizing fuel' parsed nullable with
  | zero =>
    have hnil : parsed.arguments = [] := by
      rw [List.eq_nil_iff_forall_not_mem]
      intro a ha
      exact absurd (h a ha) (Nat.not_lt_zero _)
    obtain ⟨name, arguments⟩ := parsed
    obtain rfl : arguments = [] := hnil
    rw [unwrapWithin_nil, unwrapWithin_nil]
  | succ fuel ih =>
    cases fuel' with
    | zero =>
      have hnil : parsed.arguments = [] := by
        rw [List.eq_nil_iff_forall_not_mem]
        intro a ha
        exact absurd (h' a ha) (Nat.not_lt_zero _)
      obtain ⟨name, arguments⟩ := parsed
      obtain rfl : arguments = [] := hnil
      rw [unwrapWithin_nil, unwrapWithin_nil]
    | succ fuel' =>
      rw [unwrapWithin_succ, unwrapWithin_succ]
      cases hwrapped : wrapped parsed with
      | none => rfl
      | some step =>
        simp only
        cases hinner : parseType step.1 with
        | error failure => rfl
        | ok inner =>
          have hlength := h step.1 (wrapped_mem hwrapped)
          have hlength' := h' step.1 (wrapped_mem hwrapped)
          refine ih ?_ ?_
          · intro a ha
            have hshort := (argument_bounds hinner a ha).1
            omega
          · intro a ha
            have hshort := (argument_bounds hinner a ha).1
            omega

/-- The flag of the loop only accumulates. -/
theorem unwrapWithin_flag (fuel : ℕ) (parsed : ClickHouseType) (nullable : Bool) :
    unwrapWithin fuel parsed nullable =
      (unwrapWithin fuel parsed false).map fun r => (r.1, nullable || r.2) := by
  induction fuel generalizing parsed nullable with
  | zero => simp [unwrapWithin, Except.map]
  | succ fuel ih =>
    rw [unwrapWithin_succ, unwrapWithin_succ]
    cases wrapped parsed with
    | none => simp [Except.map]
    | some step =>
      simp only
      cases parseType step.1 with
      | error failure => rfl
      | ok inner =>
        simp only [bind, Except.bind]
        rw [ih inner (nullable || step.2), ih inner (false || step.2)]
        cases unwrapWithin fuel inner false with
        | error failure => rfl
        | ok r => simp [Except.map, Bool.or_assoc]

/-- A type without a wrapper is returned as it is. -/
theorem unwrap_of_plain {u : Text} {parsed : ClickHouseType} (h : parseType u = .ok parsed)
    (hplain : wrapped parsed = none) : unwrap u = .ok (parsed, false) := by
  unfold unwrap
  rw [h]
  simp only [bind, Except.bind]
  rw [unwrapWithin_succ, hplain]

/-- A wrapper is looked through. -/
theorem unwrap_of_wrapped {u : Text} {parsed : ClickHouseType} {step : Text × Bool}
    (h : parseType u = .ok parsed) (hwrapped : wrapped parsed = some step) :
    unwrap u = (unwrap step.1).map fun r => (r.1, step.2 || r.2) := by
  have hbounds := argument_bounds h step.1 (wrapped_mem hwrapped)
  unfold unwrap
  rw [h]
  simp only [bind, Except.bind]
  rw [unwrapWithin_succ, hwrapped]
  simp only [bind, Except.bind]
  cases hinner : parseType step.1 with
  | error failure => rfl
  | ok inner =>
    simp only
    rw [unwrapWithin_flag u.length inner (false || step.2), Bool.false_or]
    congr 1
    refine unwrapWithin_fuel ?_ ?_
    · intro a ha
      have hshort := (argument_bounds hinner a ha).1
      omega
    · intro a ha
      have hshort := (argument_bounds hinner a ha).1
      omega

end RayClickHouse.Schema
