/-
**Nearest values.** Rounding a quotient of naturals to the nearest integer, a half to the even one, and
to the nearest integer of at most fifty-three binary digits, which is what a double can hold.

* `roundHalfEven_mul` — an integer is its own nearest;
* `two_mul_roundHalfEven_le`, `le_two_mul_roundHalfEven` — the nearest integer is at most half a unit off;
* `significant_of_lt`, `significant_mul_pow` — a small integer is held exactly, also with binary zeros
  behind it;
* `exactLimit_le_doubleLimit` — what is held exactly is no more than a double can be;
* `significant_mono`, `significant_lt` — rounding keeps the order, and keeps apart what is further apart than
  the last digit.
-/

namespace FossilVault.Number

/-- The integer nearest to `num / den`, the even one when two are equally near. -/
def roundHalfEven (num den : Nat) : Nat :=
  let whole := num / den
  let rest := num % den
  if 2 * rest < den ∨ (2 * rest = den ∧ whole % 2 = 0) then whole else whole + 1

/-- Below this number, `2 ^ 53`, every integer has at most fifty-three binary digits. -/
def exactLimit : Nat := 9007199254740992

/-- No double reaches two to this power. -/
def doubleRange : Nat := 1024

/-- The least natural beyond every double. -/
@[irreducible] def doubleLimit : Nat := Nat.pow 2 doubleRange

/-- The unit in the last of the fifty-three binary digits of an integer as large as `whole`. -/
def lastUnit (whole : Nat) : Nat :=
  Nat.pow 2 (whole.log2 + 1 - 53)

/-- The integer of at most fifty-three binary digits nearest to `num / den`. -/
def significant (num den : Nat) : Nat :=
  let unit := lastUnit (num / den)
  roundHalfEven num (den * unit) * unit

theorem roundHalfEven_mul (whole den : Nat) (positive : 0 < den) :
    roundHalfEven (whole * den) den = whole := by
  simp [roundHalfEven, Nat.mul_div_cancel _ positive, Nat.mul_mod_left, positive]

theorem two_mul_roundHalfEven_le (num den : Nat) (positive : 0 < den) :
    2 * (roundHalfEven num den * den) ≤ 2 * num + den := by
  have split : den * (num / den) + num % den = num := Nat.div_add_mod num den
  unfold roundHalfEven
  simp only
  split
  · rename_i near
    rw [Nat.mul_comm (num / den) den]
    omega
  · rename_i far
    have half : den ≤ 2 * (num % den) := by omega
    rw [Nat.add_mul, Nat.mul_comm (num / den) den, Nat.one_mul]
    omega

theorem le_two_mul_roundHalfEven (num den : Nat) (positive : 0 < den) :
    2 * num ≤ 2 * (roundHalfEven num den * den) + den := by
  have split : den * (num / den) + num % den = num := Nat.div_add_mod num den
  have small : num % den < den := Nat.mod_lt num positive
  unfold roundHalfEven
  simp only
  split
  · rename_i near
    rw [Nat.mul_comm (num / den) den]
    omega
  · rw [Nat.add_mul, Nat.mul_comm (num / den) den, Nat.one_mul]
    omega

theorem twoPower_mono {low high : Nat} (grows : low ≤ high) : Nat.pow 2 low ≤ Nat.pow 2 high :=
  Nat.pow_le_pow_right (Nat.succ_pos 1) grows

theorem exactLimit_le_doubleLimit : exactLimit ≤ doubleLimit := by
  unfold doubleLimit
  exact Nat.le_trans (by decide : exactLimit ≤ Nat.pow 2 53) (twoPower_mono (by decide : 53 ≤ doubleRange))

theorem lastUnit_of_lt {whole : Nat} (small : whole < exactLimit) : lastUnit whole = 1 := by
  have bound : whole.log2 + 1 ≤ 53 := by
    rcases Nat.eq_zero_or_pos whole with zero | positive
    · simp [zero]
    · have few : whole.log2 < 53 := (Nat.log2_lt (by omega)).mpr small
      omega
  rw [lastUnit, Nat.sub_eq_zero_of_le bound]

theorem significant_of_lt {whole : Nat} (small : whole < exactLimit) : significant whole 1 = whole := by
  have unit : lastUnit (whole / 1) = 1 := lastUnit_of_lt (by simpa using small)
  have exact := roundHalfEven_mul whole 1 Nat.one_pos
  simp only [significant, unit, Nat.mul_one] at exact ⊢
  exact exact

theorem lastUnit_mul_pow {whole : Nat} (small : whole < exactLimit) (shift : Nat) :
    ∃ fewer, fewer ≤ shift ∧ lastUnit (whole * Nat.pow 2 shift) = Nat.pow 2 fewer := by
  refine ⟨(whole * Nat.pow 2 shift).log2 + 1 - 53, ?_, rfl⟩
  have scale : 0 < Nat.pow 2 shift := Nat.pow_pos (Nat.succ_pos 1)
  rcases Nat.eq_zero_or_pos whole with zero | positive
  · rw [zero, Nat.zero_mul, Nat.log2_zero]
    exact Nat.zero_le shift
  · have large : whole * Nat.pow 2 shift ≠ 0 := Nat.ne_of_gt (Nat.mul_pos positive scale)
    have few : (whole * Nat.pow 2 shift).log2 < 53 + shift := by
      refine (Nat.log2_lt large).mpr ?_
      rw [Nat.pow_add]
      exact Nat.mul_lt_mul_of_pos_right small scale
    omega

/-- An integer of few digits with binary zeros behind it is held exactly. -/
theorem significant_mul_pow {whole : Nat} (small : whole < exactLimit) (shift : Nat) {den : Nat}
    (positive : 0 < den) :
    significant (whole * Nat.pow 2 shift * den) den = whole * Nat.pow 2 shift := by
  obtain ⟨fewer, less, unit⟩ := lastUnit_mul_pow small shift
  have parts : Nat.pow 2 shift = Nat.pow 2 (shift - fewer) * Nat.pow 2 fewer := by
    have joined : Nat.pow 2 (shift - fewer + fewer) = Nat.pow 2 (shift - fewer) * Nat.pow 2 fewer :=
      Nat.pow_add 2 (shift - fewer) fewer
    rwa [Nat.sub_add_cancel less] at joined
  have scale : 0 < den * Nat.pow 2 fewer := Nat.mul_pos positive (Nat.pow_pos (Nat.succ_pos 1))
  have regroup : whole * Nat.pow 2 shift * den =
      whole * Nat.pow 2 (shift - fewer) * (den * Nat.pow 2 fewer) := by
    rw [parts]
    ac_rfl
  simp only [significant, Nat.mul_div_cancel _ positive, unit]
  rw [regroup, roundHalfEven_mul _ _ scale, parts, Nat.mul_assoc]

/-! ### Order -/

theorem roundHalfEven_mono {num num' : Nat} (grows : num ≤ num') (den : Nat) :
    roundHalfEven num den ≤ roundHalfEven num' den := by
  have wholes : num / den ≤ num' / den := Nat.div_le_div_right grows
  have split := Nat.div_add_mod num den
  have split' := Nat.div_add_mod num' den
  unfold roundHalfEven
  simp only
  rcases Nat.lt_or_ge (num / den) (num' / den) with less | equal
  · split <;> split <;> omega
  · have same : num / den = num' / den := Nat.le_antisymm wholes equal
    have rests : num % den ≤ num' % den := by
      rw [same] at split
      omega
    rw [same]
    split <;> split <;> omega

theorem lastUnit_mono {whole whole' : Nat} (grows : whole ≤ whole') : lastUnit whole ≤ lastUnit whole' := by
  refine twoPower_mono ?_
  have digits : whole.log2 ≤ whole'.log2 := by
    rcases Nat.eq_zero_or_pos whole with zero | positive
    · simp [zero]
    · exact (Nat.le_log2 (by omega)).mpr (Nat.le_trans (Nat.log2_self_le (by omega)) grows)
  omega

/-- A power of two is its own nearest on every coarser grid that it is on. -/
theorem roundHalfEven_twoPower {low high : Nat} (coarser : low ≤ high) {den : Nat} (positive : 0 < den) :
    roundHalfEven (Nat.pow 2 high * den) (den * Nat.pow 2 low) * Nat.pow 2 low = Nat.pow 2 high := by
  have parts : Nat.pow 2 high = Nat.pow 2 (high - low) * Nat.pow 2 low := by
    have joined : Nat.pow 2 (high - low + low) = Nat.pow 2 (high - low) * Nat.pow 2 low :=
      Nat.pow_add 2 (high - low) low
    rwa [Nat.sub_add_cancel coarser] at joined
  have regroup : Nat.pow 2 high * den = Nat.pow 2 (high - low) * (den * Nat.pow 2 low) := by
    rw [parts]
    ac_rfl
  have scale : 0 < den * Nat.pow 2 low := Nat.mul_pos positive (Nat.pow_pos (Nat.succ_pos 1))
  rw [regroup, roundHalfEven_mul _ _ scale, parts]

/-- **Rounding to fifty-three digits keeps the order.** -/
theorem significant_mono {num num' : Nat} (grows : num ≤ num') {den : Nat} (positive : 0 < den) :
    significant num den ≤ significant num' den := by
  have wholes : num / den ≤ num' / den := Nat.div_le_div_right grows
  unfold significant
  simp only
  rcases Nat.lt_or_ge (lastUnit (num / den)) (lastUnit (num' / den)) with finer | coarser
  · -- A power of two between the two numbers is on both grids.
    unfold lastUnit at finer ⊢
    generalize whole : num / den = small at *
    generalize whole' : num' / den = large at *
    have digits : small.log2 + 1 - 53 < large.log2 + 1 - 53 := by
      refine Nat.lt_of_not_le fun above => ?_
      exact absurd (twoPower_mono above) (Nat.not_le_of_lt finer)
    have some : large ≠ 0 := by
      rintro rfl
      simp at digits
    have above : num ≤ Nat.pow 2 large.log2 * den := by
      have below : small < Nat.pow 2 large.log2 := by
        have fits : small < Nat.pow 2 (small.log2 + 1) := Nat.lt_log2_self
        exact Nat.lt_of_lt_of_le fits (twoPower_mono (by omega))
      rw [← whole, Nat.div_lt_iff_lt_mul positive] at below
      exact Nat.le_of_lt below
    have below : Nat.pow 2 large.log2 * den ≤ num' := by
      refine (Nat.le_div_iff_mul_le positive).mp ?_
      rw [whole']
      exact Nat.log2_self_le some
    calc
      _ ≤ roundHalfEven (Nat.pow 2 large.log2 * den) (den * Nat.pow 2 (small.log2 + 1 - 53)) *
          Nat.pow 2 (small.log2 + 1 - 53) := Nat.mul_le_mul_right _ (roundHalfEven_mono above _)
      _ = Nat.pow 2 large.log2 := roundHalfEven_twoPower (by omega) positive
      _ = roundHalfEven (Nat.pow 2 large.log2 * den) (den * Nat.pow 2 (large.log2 + 1 - 53)) *
          Nat.pow 2 (large.log2 + 1 - 53) := (roundHalfEven_twoPower (by omega) positive).symm
      _ ≤ _ := Nat.mul_le_mul_right _ (roundHalfEven_mono below _)
  · have same := Nat.le_antisymm (lastUnit_mono wholes) coarser
    rw [← same]
    exact Nat.mul_le_mul_right _ (roundHalfEven_mono grows _)

theorem lastUnit_le {whole shift : Nat} (small : whole < Nat.pow 2 (53 + shift)) :
    lastUnit whole ≤ Nat.pow 2 shift := by
  refine twoPower_mono ?_
  rcases Nat.eq_zero_or_pos whole with zero | positive
  · simp [zero]
  · have few : whole.log2 < 53 + shift := (Nat.log2_lt (by omega)).mpr small
    omega

/-- Numbers that are further apart than a unit of the last digit stay apart. -/
theorem significant_lt {num num' den shift : Nat} (positive : 0 < den)
    (small : num' / den < Nat.pow 2 (53 + shift)) (apart : num + den * Nat.pow 2 shift < num') :
    significant num den < significant num' den := by
  have wholes : num / den ≤ num' / den := Nat.div_le_div_right (by omega)
  have units : 0 < lastUnit (num / den) := Nat.pow_pos (Nat.succ_pos 1)
  have units' : 0 < lastUnit (num' / den) := Nat.pow_pos (Nat.succ_pos 1)
  have step : den * lastUnit (num / den) ≤ den * Nat.pow 2 shift :=
    Nat.mul_le_mul_left _ (lastUnit_le (Nat.lt_of_le_of_lt wholes small))
  have step' : den * lastUnit (num' / den) ≤ den * Nat.pow 2 shift :=
    Nat.mul_le_mul_left _ (lastUnit_le small)
  have low := two_mul_roundHalfEven_le num _ (Nat.mul_pos positive units)
  have high := le_two_mul_roundHalfEven num' _ (Nat.mul_pos positive units')
  have regroup (whole unit : Nat) : whole * (den * unit) = whole * unit * den := by ac_rfl
  rw [regroup] at low high
  refine Nat.lt_of_mul_lt_mul_right (a := den) ?_
  unfold significant
  simp only
  omega

end FossilVault.Number
