import RayClickHouse.TypeRoundTrip

/-!
int() reads back what str() writes of an integer. The digits of a number are read
from the left, so the induction appends the last one.
-/
namespace RayClickHouse.Text

theorem digitChar_lt {n : ℕ} (h : n < 10) :
    n.digitChar.toNat = 48 + n ∧ n.digitChar.isDigit = true := by
  interval_cases n <;> exact ⟨rfl, rfl⟩

theorem digitChar_ne_underscore {n : ℕ} (h : n < 10) : n.digitChar ≠ '_' := by
  intro heq
  have hdigit := (digitChar_lt h).2
  rw [heq] at hdigit
  contradiction

variable [UnicodeDatabase]

theorem decimal_digitChar {n : ℕ} (h : n < 10) :
    UnicodeDatabase.decimal n.digitChar = some n := by
  obtain ⟨hcode, hdigit⟩ := digitChar_lt h
  rw [UnicodeDatabase.decimal_ascii _ (by omega), if_pos hdigit, hcode]
  have hzero : '0'.toNat = 48 := rfl
  rw [hzero, Nat.add_sub_cancel_left]

theorem intDigits_append {acc m v : ℕ} {s : Text} {c : Char} (h : intDigits acc s = some m)
    (hc : c ≠ '_') (hv : UnicodeDatabase.decimal c = some v) :
    intDigits acc (s ++ [c]) = some (10 * m + v) := by
  induction acc, s using intDigits.induct with
  | case1 acc =>
    rw [List.nil_append, intDigits, hv]
    · obtain rfl : acc = m := Option.some.inj h
      rfl
    · exact fun heq => hc heq
  | case2 acc => contradiction
  | case3 acc d rest ih =>
    rw [intDigits] at h
    obtain ⟨w, hw, hrest⟩ := Option.bind_eq_some_iff.mp h
    rw [List.cons_append, List.cons_append, intDigits, hw]
    exact ih w hrest
  | case4 acc d rest hd ih =>
    rw [intDigits] at h
    · obtain ⟨w, hw, hrest⟩ := Option.bind_eq_some_iff.mp h
      rw [List.cons_append, intDigits, hw]
      · exact ih w hrest
      · exact hd
    · exact hd

/-- The digits of a number: the first one, and what the others make of it. -/
theorem ofNat_digits (n : ℕ) : ∃ c rest v, ofNat n = c :: rest ∧
    UnicodeDatabase.decimal c = some v ∧ intDigits v rest = some n := by
  induction n using Nat.strong_induction_on with
  | _ n ih =>
    by_cases hsmall : n < 10
    · refine ⟨n.digitChar, [], n, ?_, decimal_digitChar hsmall, rfl⟩
      exact Nat.toDigits_of_lt_base hsmall
    · obtain ⟨c, rest, v, hdigits, hc, hrest⟩ := ih (n / 10) (by omega)
      have hlast : n % 10 < 10 := Nat.mod_lt n (by decide)
      refine ⟨c, rest ++ [(n % 10).digitChar], v, ?_, hc, ?_⟩
      · unfold ofNat at hdigits ⊢
        rw [Nat.toDigits_of_base_le (by decide) (by omega), hdigits, List.cons_append]
      · rw [intDigits_append hrest (digitChar_ne_underscore hlast) (decimal_digitChar hlast),
          Nat.div_add_mod]

/-- int() of the text of an integer is the integer. -/
theorem toInt_ofInt (i : ℤ) : toInt (ofInt i) = some i := by
  unfold toInt
  rw [strip_of_solid (Ddl.argument_ofInt i).solid]
  cases i with
  | ofNat n =>
    obtain ⟨c, rest, v, hdigits, hc, hrest⟩ := ofNat_digits n
    have hmem : c ∈ ofNat n := by
      rw [hdigits]
      exact List.mem_cons_self ..
    have hdigit : c.isDigit = true := Nat.isDigit_of_mem_toDigits (by decide) (by decide) hmem
    rw [ofInt, hdigits]
    split
    · contradiction
    · rename_i heq
      rw [(List.cons.inj heq).1] at hdigit
      contradiction
    · rename_i heq
      rw [(List.cons.inj heq).1] at hdigit
      contradiction
    · rename_i d more _ _ heq
      obtain ⟨rfl, rfl⟩ := List.cons.inj heq
      rw [hc, Option.bind_some, hrest]
      rfl
  | negSucc n =>
    obtain ⟨c, rest, v, hdigits, hc, hrest⟩ := ofNat_digits (n + 1)
    rw [ofInt, hdigits]
    simp only [hc, Option.bind_some, hrest]
    rfl

theorem toInt_ofNat (n : ℕ) : toInt (ofNat n) = some (n : ℤ) := toInt_ofInt n

end RayClickHouse.Text
