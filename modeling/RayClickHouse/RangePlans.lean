import RayClickHouse.Arrow
import RayClickHouse.Planning

/-!
The shape of a range plan. The loop cuts the key interval into pieces of one width,
and the pieces it leaves out are exactly those that would have no key.
-/
namespace RayClickHouse.Planning

section Cut

/-- The intervals from `lower` on: pieces of the given width, and a last one that
reaches the maximum. Only the first carries the flag. -/
inductive Cut (maximum width : ℤ) : Bool → ℤ → List IntegerRange → Prop
  | unbounded {flag : Bool} {lower : ℤ} : lower ≤ maximum → maximum + 1 ≤ lower + width →
      Cut maximum width flag lower [⟨some lower, none, flag⟩]
  | closed {flag : Bool} {lower : ℤ} : lower ≤ maximum → maximum + 1 ≤ lower + width →
      Cut maximum width flag lower [⟨some lower, some (maximum + 1), flag⟩]
  | piece {flag : Bool} {lower : ℤ} {rest : List IntegerRange} : 1 ≤ width →
      lower + width ≤ maximum → Cut maximum width false (lower + width) rest →
      Cut maximum width flag lower (⟨some lower, some (lower + width), flag⟩ :: rest)

variable {maximum width lower minimum : ℤ} {flag : Bool} {ranges : List IntegerRange}

/-- The remaining tasks have room for the remaining keys, and each pass keeps this. -/
theorem planLoop_cut {hasNull : Bool} (hwidth : 1 ≤ width) (remaining index : ℕ)
    (hlower : lower ≤ maximum) (hroom : maximum + 1 ≤ lower + (remaining + 1) * width) :
    Cut maximum width (index == 0 && hasNull) lower
        (planLoop maximum width hasNull (remaining + 1) index lower) ∧
      (planLoop maximum width hasNull (remaining + 1) index lower).length ≤ remaining + 1 := by
  induction remaining generalizing index lower with
  | zero =>
    have hlast : maximum + 1 ≤ lower + width := by
      simpa using hroom
    rw [planLoop, if_pos rfl]
    exact ⟨Cut.unbounded hlower hlast, by simp⟩
  | succ remaining ih =>
    rw [planLoop, if_neg (by omega)]
    by_cases hdone : maximum + 1 ≤ min (maximum + 1) (lower + width)
    · have hlast : maximum + 1 ≤ lower + width := by omega
      have hupper : min (maximum + 1) (lower + width) = maximum + 1 := by omega
      simp only [hupper, le_refl, if_true]
      exact ⟨Cut.closed hlower hlast, by simp⟩
    · have hupper : min (maximum + 1) (lower + width) = lower + width := by omega
      have hnext : lower + width ≤ maximum := by omega
      have hmore : ¬maximum + 1 ≤ lower + width := by omega
      have hrest : maximum + 1 ≤ lower + width + (remaining + 1) * width := by
        push_cast at hroom
        linarith
      obtain ⟨hcut, hlength⟩ := ih (index + 1) hnext hrest
      simp only [hupper, if_neg hmore]
      have hflag : (index + 1 == 0 && hasNull) = false := by simp
      rw [hflag] at hcut
      exact ⟨Cut.piece hwidth hnext hcut, by simpa using hlength⟩

namespace Cut

theorem ne_nil (h : Cut maximum width flag lower ranges) : ranges ≠ [] := by
  cases h with
  | unbounded => simp
  | closed => simp
  | piece => simp

theorem head_lower (h : Cut maximum width flag lower ranges) :
    ranges.head?.map IntegerRange.lower = some (some lower) := by
  cases h with
  | unbounded => simp
  | closed => simp
  | piece => simp

/-- Each upper bound is the lower bound of the next interval. -/
theorem consecutive (h : Cut maximum width flag lower ranges) :
    ranges.IsChain fun a b => a.upper ≠ none ∧ a.upper = b.lower := by
  induction h with
  | unbounded => exact List.IsChain.singleton _
  | closed => exact List.IsChain.singleton _
  | @piece flag lower rest hwidth hnext hrest ih =>
    refine List.isChain_cons.mpr ⟨?_, ih⟩
    intro b hb
    have hhead := hrest.head_lower
    rw [hb] at hhead
    simp only [Option.map_some, Option.some.injEq] at hhead
    exact ⟨by simp, hhead.symm⟩

theorem last_upper (h : Cut maximum width flag lower ranges) :
    ∀ r ∈ ranges.getLast?, r.upper = none ∨ r.upper = some (maximum + 1) := by
  induction h with
  | unbounded => simp
  | closed => simp
  | @piece flag lower rest hwidth hnext hrest ih =>
    intro r hr
    rw [List.getLast?_cons_of_ne_nil hrest.ne_nil] at hr
    exact ih r hr

theorem flags (h : Cut maximum width flag lower ranges) :
    ranges.map IntegerRange.includeNull = flag :: List.replicate (ranges.length - 1) false := by
  induction h with
  | unbounded => rfl
  | closed => rfl
  | @piece flag lower rest hwidth hnext hrest ih =>
    have hlength : 0 < rest.length := List.length_pos_of_ne_nil hrest.ne_nil
    have hsucc : rest.length = (rest.length - 1) + 1 := by omega
    rw [List.map_cons, ih, List.length_cons, Nat.add_sub_cancel]
    conv_rhs => rw [hsucc, List.replicate_succ]

/-- An interval of the plan: its ends lie in the key interval, and it is neither
empty nor wider than one piece. -/
theorem bounds (h : Cut maximum width flag lower ranges) :
    ∀ r ∈ ranges, ∃ a, r.lower = some a ∧ lower ≤ a ∧ a ≤ maximum ∧
      (r.upper = none ∧ maximum + 1 ≤ a + width ∨
        ∃ b, r.upper = some b ∧ a < b ∧ b ≤ maximum + 1 ∧ b ≤ a + width) := by
  induction h with
  | @unbounded flag lower hlower hlast =>
    intro r hr
    rw [List.mem_singleton.mp hr]
    exact ⟨lower, rfl, le_refl lower, hlower, Or.inl ⟨rfl, hlast⟩⟩
  | @closed flag lower hlower hlast =>
    intro r hr
    rw [List.mem_singleton.mp hr]
    exact ⟨lower, rfl, le_refl lower, hlower,
      Or.inr ⟨maximum + 1, rfl, by omega, le_refl _, hlast⟩⟩
  | @piece flag lower rest hwidth hnext hrest ih =>
    intro r hr
    obtain rfl | hmem := List.mem_cons.mp hr
    · exact ⟨lower, rfl, le_refl lower, by omega,
        Or.inr ⟨lower + width, rfl, by omega, by omega, le_refl _⟩⟩
    · obtain ⟨a, ha, hle, hmax, hupper⟩ := ih r hmem
      exact ⟨a, ha, by omega, hmax, hupper⟩

end Cut

end Cut

section Keys

def IntegerRange.Contains (r : IntegerRange) (key : ℤ) : Prop :=
  (∀ lower ∈ r.lower, lower ≤ key) ∧ ∀ upper ∈ r.upper, key < upper

instance (r : IntegerRange) (key : ℤ) : Decidable (r.Contains key) := by
  unfold IntegerRange.Contains
  infer_instance

noncomputable def IntegerRange.keys (minimum maximum : ℤ) (r : IntegerRange) : Finset ℤ :=
  (Finset.Icc minimum maximum).filter r.Contains

variable {maximum width lower minimum : ℤ} {flag : Bool} {ranges : List IntegerRange}

theorem keys_unbounded {a : ℤ} (ha : minimum ≤ a) :
    IntegerRange.keys minimum maximum ⟨some a, none, flag⟩ = Finset.Ico a (maximum + 1) := by
  ext key
  simp only [IntegerRange.keys, IntegerRange.Contains, Finset.mem_filter, Finset.mem_Icc,
    Finset.mem_Ico, Option.mem_def, Option.some.injEq, forall_eq', reduceCtorEq, IsEmpty.forall_iff,
    implies_true, and_true]
  omega

theorem keys_bounded {a b : ℤ} (ha : minimum ≤ a) (hb : b ≤ maximum + 1) :
    IntegerRange.keys minimum maximum ⟨some a, some b, flag⟩ = Finset.Ico a b := by
  ext key
  simp only [IntegerRange.keys, IntegerRange.Contains, Finset.mem_filter, Finset.mem_Icc,
    Finset.mem_Ico, Option.mem_def, Option.some.injEq, forall_eq']
  omega

theorem Cut.keys_card (h : Cut maximum width flag minimum ranges) :
    ∀ r ∈ ranges, 1 ≤ ((r.keys minimum maximum).card : ℤ) ∧
      ((r.keys minimum maximum).card : ℤ) ≤ width := by
  intro r hr
  obtain ⟨a, ha, hle, hmax, hupper⟩ := h.bounds r hr
  obtain ⟨low, up, null⟩ := r
  simp only at ha hupper
  rw [ha]
  obtain ⟨hnone, hlast⟩ | ⟨b, hb, hlt, hbmax, hbw⟩ := hupper
  · rw [hnone, keys_unbounded hle, Int.card_Ico]
    omega
  · rw [hb, keys_bounded hle hbmax, Int.card_Ico]
    omega

end Keys

section Plan

def rangeTasks (facts : RangeFacts) (targetTasks maxTasks : ℕ) : ℕ :=
  min (min targetTasks maxTasks) facts.totalRows

def pieceWidth (minimum maximum : ℤ) (tasks : ℕ) : ℤ :=
  ⌈((maximum - minimum + 1 : ℤ) : ℚ) / (tasks : ℚ)⌉

variable {minimum maximum : ℤ}

/-- Rounding up is what the planner's integer division computes. -/
theorem pieceWidth_eq {tasks : ℕ} (htasks : 1 ≤ tasks) :
    pieceWidth minimum maximum tasks = (maximum - minimum + 1 + tasks - 1) / tasks := by
  unfold pieceWidth
  rw [Rat.ceil_intCast_div_natCast]
  have hpos : (0 : ℤ) < tasks := by omega
  generalize maximum - minimum + 1 = keys
  generalize (tasks : ℤ) = n at hpos
  have hquotient := Int.mul_ediv_add_emod (-keys) n
  have hnonneg := Int.emod_nonneg (-keys) (by omega : n ≠ 0)
  have hlt := Int.emod_lt_of_pos (-keys) hpos
  symm
  rw [Int.ediv_eq_iff_of_pos hpos, Int.neg_mul, Int.mul_comm _ n]
  omega

theorem pieceWidth_pos {tasks : ℕ} (htasks : 1 ≤ tasks) (hle : minimum ≤ maximum) :
    1 ≤ pieceWidth minimum maximum tasks := by
  rw [pieceWidth_eq htasks, Int.le_ediv_iff_mul_le (by omega)]
  omega

/-- The tasks together have room for every key. -/
theorem keys_le_pieceWidth {tasks : ℕ} (htasks : 1 ≤ tasks) :
    maximum + 1 ≤ minimum + tasks * pieceWidth minimum maximum tasks := by
  rw [pieceWidth_eq htasks]
  have hpos : (0 : ℤ) < tasks := by omega
  have hquotient := Int.mul_ediv_add_emod (maximum - minimum + 1 + tasks - 1) tasks
  have hlt := Int.emod_lt_of_pos (maximum - minimum + 1 + tasks - 1) hpos
  omega

variable {facts : RangeFacts} {targetTasks maxTasks : ℕ}

/-- The planner's branches all yield a cut of the key interval. -/
theorem planIntegerRanges_cut (htotal : 1 ≤ facts.totalRows) (htarget : 1 ≤ targetTasks)
    (hmax : 1 ≤ maxTasks) (hminimum : facts.minimum = some minimum)
    (hmaximum : facts.maximum = some maximum) (hle : minimum ≤ maximum) :
    ∃ ranges, planIntegerRanges facts targetTasks maxTasks = .ok ranges ∧
      Cut maximum (pieceWidth minimum maximum (rangeTasks facts targetTasks maxTasks))
        (decide (0 < facts.nullRows)) minimum ranges ∧
      ranges.length ≤ rangeTasks facts targetTasks maxTasks := by
  have htasks : 1 ≤ rangeTasks facts targetTasks maxTasks := by
    unfold rangeTasks
    omega
  have hcount : min (min (max 1 targetTasks) maxTasks) facts.totalRows =
      rangeTasks facts targetTasks maxTasks := by
    unfold rangeTasks
    omega
  have hwidth := pieceWidth_pos htasks hle
  have hroom : maximum + 1 ≤ minimum + (rangeTasks facts targetTasks maxTasks) *
      pieceWidth minimum maximum (rangeTasks facts targetTasks maxTasks) :=
    keys_le_pieceWidth htasks
  unfold planIntegerRanges
  rw [if_neg (by omega), hminimum, hmaximum]
  simp only [hcount]
  split
  · next hsingle =>
    refine ⟨_, rfl, Cut.unbounded hle ?_, by simpa using htasks⟩
    obtain heq | hone := hsingle
    · omega
    · rw [hone] at hroom ⊢
      simpa using hroom
  · obtain ⟨n, hn⟩ : ∃ n, rangeTasks facts targetTasks maxTasks = n + 1 :=
      ⟨_, (Nat.succ_pred_eq_of_pos htasks).symm⟩
    have hstep : max 1 ((maximum - minimum + 1 + (rangeTasks facts targetTasks maxTasks : ℤ) - 1) /
        (rangeTasks facts targetTasks maxTasks : ℤ)) =
        pieceWidth minimum maximum (rangeTasks facts targetTasks maxTasks) := by
      rw [← pieceWidth_eq htasks]
      omega
    rw [hstep]
    generalize pieceWidth minimum maximum (rangeTasks facts targetTasks maxTasks) = width
      at hwidth hroom ⊢
    rw [hn] at hroom ⊢
    have hloop : maximum + 1 ≤ minimum + ((n : ℤ) + 1) * width := by
      push_cast at hroom
      exact hroom
    obtain ⟨hcut, hlength⟩ := @planLoop_cut maximum width minimum (decide (0 < facts.nullRows))
      hwidth n 0 hle hloop
    rw [if_neg hcut.ne_nil]
    exact ⟨_, rfl, by simpa using hcut, hlength⟩

/-- What a range plan for the keys from minimum to maximum guarantees. -/
structure PlannedRanges (minimum maximum : ℤ) (tasks : ℕ) (hasNull : Bool)
    (ranges : List IntegerRange) : Prop where
  nonempty : 1 ≤ ranges.length
  at_most : ranges.length ≤ tasks
  first : ranges.head?.map IntegerRange.lower = some (some minimum)
  consecutive : ranges.IsChain fun a b => a.upper ≠ none ∧ a.upper = b.lower
  last : ∀ r ∈ ranges.getLast?, r.upper = none ∨ r.upper = some (maximum + 1)
  inhabited : ∀ r ∈ ranges, ∃ key, minimum ≤ key ∧ key ≤ maximum ∧ r.Contains key
  width_le : ∀ r ∈ ranges, ((r.keys minimum maximum).card : ℤ) ≤ pieceWidth minimum maximum tasks
  nulls : ranges.map IntegerRange.includeNull = hasNull :: List.replicate (ranges.length - 1) false
  endpoints : ∀ r ∈ ranges, ∀ e, r.lower = some e ∨ r.upper = some e →
    minimum ≤ e ∧ e ≤ maximum + 1

theorem Cut.planned {tasks : ℕ} {hasNull : Bool} {ranges : List IntegerRange}
    (h : Cut maximum (pieceWidth minimum maximum tasks) hasNull minimum ranges)
    (hlength : ranges.length ≤ tasks) : PlannedRanges minimum maximum tasks hasNull ranges where
  nonempty := List.length_pos_of_ne_nil h.ne_nil
  at_most := hlength
  first := h.head_lower
  consecutive := h.consecutive
  last := h.last_upper
  inhabited := by
    intro r hr
    obtain ⟨hpos, hcard⟩ := h.keys_card r hr
    obtain ⟨key, hkey⟩ := Finset.card_pos.mp (by omega : 0 < (r.keys minimum maximum).card)
    obtain ⟨hbounds, hcontains⟩ := Finset.mem_filter.mp hkey
    obtain ⟨hge, hle⟩ := Finset.mem_Icc.mp hbounds
    exact ⟨key, hge, hle, hcontains⟩
  width_le := fun r hr => (h.keys_card r hr).2
  nulls := h.flags
  endpoints := by
    intro r hr e he
    obtain ⟨a, ha, hle, hmax, hupper⟩ := h.bounds r hr
    obtain hlower | hbound := he
    · have heq : a = e := Option.some.inj (ha.symm.trans hlower)
      omega
    · obtain ⟨hnone, _⟩ | ⟨b, hb, hlt, hbmax, _⟩ := hupper
      · rw [hnone] at hbound
        contradiction
      · have heq : b = e := Option.some.inj (hb.symm.trans hbound)
        omega

theorem integerType_within_int128 (t : IntegerType) : -2 ^ 127 ≤ t.lower ∧ t.upper < 2 ^ 127 := by
  obtain ⟨signed, width⟩ := t
  cases signed <;> cases width <;> norm_num [IntegerType.lower, IntegerType.upper, Width.bits]

/-- Keys of an integer column, and the value above them, are Int128 values. -/
theorem int128_of_contains {t : IntegerType} {e : ℤ} (hminimum : t.Contains minimum)
    (hmaximum : t.Contains maximum) (hge : minimum ≤ e) (hle : e ≤ maximum + 1) :
    -2 ^ 127 ≤ e ∧ e < 2 ^ 127 := by
  obtain ⟨hlower, hupper⟩ := integerType_within_int128 t
  have hfrom : t.lower ≤ minimum := hminimum.1
  have hto : maximum < t.upper := hmaximum.2
  omega

/-- The planner returns ranges for every positive row count, every order of bounds
and every task limit; their ends are Int128 values for a column of at most 64 bits. -/
theorem planIntegerRanges_planned (htotal : 1 ≤ facts.totalRows) (htarget : 1 ≤ targetTasks)
    (hmax : 1 ≤ maxTasks) (hminimum : facts.minimum = some minimum)
    (hmaximum : facts.maximum = some maximum) (hle : minimum ≤ maximum) :
    ∃ ranges, planIntegerRanges facts targetTasks maxTasks = .ok ranges ∧
      PlannedRanges minimum maximum (min (min targetTasks maxTasks) facts.totalRows)
        (decide (0 < facts.nullRows)) ranges ∧
      ∀ t : IntegerType, t.Contains minimum → t.Contains maximum →
        ∀ r ∈ ranges, ∀ e, r.lower = some e ∨ r.upper = some e → -2 ^ 127 ≤ e ∧ e < 2 ^ 127 := by
  obtain ⟨ranges, hplan, hcut, hlength⟩ :=
    planIntegerRanges_cut htotal htarget hmax hminimum hmaximum hle
  have hplanned := hcut.planned hlength
  refine ⟨ranges, hplan, hplanned, ?_⟩
  intro t htmin htmax r hr e he
  obtain ⟨hge, hbound⟩ := hplanned.endpoints r hr e he
  exact int128_of_contains htmin htmax hge hbound

def extremeFacts : RangeFacts :=
  { column := "k".toList
    declaredType := "Int64".toList
    totalRows := 4
    nullRows := 1
    minimum := some (-9223372036854775808)
    maximum := some 9223372036854775807 }

theorem extremeFacts_planned : ∃ ranges, planIntegerRanges extremeFacts 3 8 = .ok ranges ∧
    PlannedRanges (-9223372036854775808) 9223372036854775807 3 true ranges := by
  obtain ⟨ranges, hplan, hplanned, _⟩ := @planIntegerRanges_planned (-9223372036854775808)
    9223372036854775807 extremeFacts 3 8 (by decide) (by decide) (by decide) rfl rfl (by decide)
  exact ⟨ranges, hplan, hplanned⟩

end Plan

end RayClickHouse.Planning
