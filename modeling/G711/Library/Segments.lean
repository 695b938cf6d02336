import Mathlib.Data.Nat.Log
import Mathlib.Tactic

/-!
# Quantisers whose step doubles from segment to segment

A grid cuts the natural numbers into segments at the powers of two and every segment into equally
many cells of one width, so that the width doubles from a segment to the next; below `2 ^ base` the
width stays what it is in the first segment.  The level of a number is the middle of its cell.

Cells of one grid are equal or disjoint, in the order of their members (`cell_order`).  From this:
a number is at most half a cell away from its level, levels are monotone, and the level of a number
is the nearest one exactly when the number is not crowded, that is, not in the first eighth of the
first cell of a segment, where the last level of the segment below is nearer.
-/

namespace Segments

/-- The first segment ends at `2 ^ (base + 1)`; each segment has `2 ^ precision` cells. -/
structure Grid where
  base : ℕ
  precision : ℕ
  room : precision + 2 ≤ base

namespace Grid

variable (G : Grid) {m n : ℕ}

/-- The exponent of the segment of `m`. -/
def exponent (m : ℕ) : ℕ := max m.log2 G.base

/-- The width of the cell of `m`. -/
def width (m : ℕ) : ℕ := 2 ^ (G.exponent m - G.precision)

/-- The least member of the cell of `m`. -/
def start (m : ℕ) : ℕ := m / G.width m * G.width m

/-- The middle of the cell of `m`. -/
def level (m : ℕ) : ℕ := G.start m + G.width m / 2

/-- Just above the boundary of two segments of different widths. -/
def Crowded (m : ℕ) : Prop := G.base < m.log2 ∧ 8 * (m - 2 ^ m.log2) < G.width m

instance (m : ℕ) : Decidable (G.Crowded m) := inferInstanceAs (Decidable (_ ∧ _))

/-! ### Segments -/

theorem base_le_exponent (m : ℕ) : G.base ≤ G.exponent m := le_max_right _ _

theorem exponent_eq_base (h : m < 2 ^ (G.base + 1)) : G.exponent m = G.base := by
  by_cases hm : m = 0
  · subst hm
    simp [exponent]
  · have := (Nat.log2_lt hm).2 h
    unfold exponent
    omega

theorem exponent_eq {k : ℕ} (hk : G.base ≤ k) (hl : 2 ^ k ≤ m) (hu : m < 2 ^ (k + 1)) :
    G.exponent m = k := by
  have hm : m ≠ 0 := by
    have := Nat.two_pow_pos k
    omega
  have h1 := (Nat.le_log2 hm).2 hl
  have h2 := (Nat.log2_lt hm).2 hu
  unfold exponent
  omega

theorem lt_two_pow_exponent (m : ℕ) : m < 2 ^ (G.exponent m + 1) := by
  have h : 2 ^ (m.log2 + 1) ≤ 2 ^ (G.exponent m + 1) :=
    Nat.pow_le_pow_right (by omega) (Nat.succ_le_succ (le_max_left _ _))
  exact lt_of_lt_of_le Nat.lt_log2_self h

/-- Above the first segment the exponent is the binary logarithm. -/
theorem two_pow_exponent_le (h : G.base < G.exponent m) :
    G.exponent m = m.log2 ∧ 2 ^ G.exponent m ≤ m := by
  have he : G.exponent m = m.log2 := by
    unfold exponent at h ⊢
    omega
  have hm : m ≠ 0 := by
    intro h0
    subst h0
    simp [exponent] at h
  constructor
  · exact he
  · rw [he]
    exact Nat.log2_self_le hm

theorem exponent_mono (h : m ≤ n) : G.exponent m ≤ G.exponent n := by
  by_cases hb : G.base < G.exponent m
  · have h1 := (G.two_pow_exponent_le hb).2
    have h2 := G.lt_two_pow_exponent n
    have h3 : 2 ^ G.exponent m < 2 ^ (G.exponent n + 1) := by omega
    have h4 := (Nat.pow_lt_pow_iff_right (by omega)).1 h3
    omega
  · have := G.base_le_exponent n
    omega

/-! ### Cells -/

theorem width_pos (m : ℕ) : 0 < G.width m := Nat.two_pow_pos _

theorem two_pow_exponent (m : ℕ) : 2 ^ G.exponent m = 2 ^ G.precision * G.width m := by
  have h1 := G.base_le_exponent m
  have h2 := G.room
  unfold width
  rw [← pow_add]
  congr 1
  omega

theorem four_dvd_width (m : ℕ) : 4 ∣ G.width m := by
  have h1 := G.base_le_exponent m
  have h2 := G.room
  exact pow_dvd_pow 2 (show 2 ≤ G.exponent m - G.precision by omega)

theorem width_mono (h : m ≤ n) : G.width m ≤ G.width n :=
  Nat.pow_le_pow_right (by omega) (Nat.sub_le_sub_right (G.exponent_mono h) _)

theorem start_le (m : ℕ) : G.start m ≤ m := Nat.div_mul_le_self _ _

theorem lt_start_add (m : ℕ) : m < G.start m + G.width m := by
  have h1 := Nat.div_add_mod' m (G.width m)
  have h2 := Nat.mod_lt m (G.width_pos m)
  unfold start
  omega

theorem two_pow_le_start (h : G.base < G.exponent m) : 2 ^ G.exponent m ≤ G.start m := by
  have hm := (G.two_pow_exponent_le h).2
  unfold start
  rw [G.two_pow_exponent] at hm ⊢
  exact Nat.mul_le_mul_right _ ((Nat.le_div_iff_mul_le (G.width_pos m)).2 hm)

theorem start_add_width_le (m : ℕ) : G.start m + G.width m ≤ 2 ^ (G.exponent m + 1) := by
  have h : m < 2 ^ (G.precision + 1) * G.width m := by
    have := G.lt_two_pow_exponent m
    rw [pow_succ, G.two_pow_exponent] at this
    rw [pow_succ]
    linarith
  have hd : m / G.width m + 1 ≤ 2 ^ (G.precision + 1) :=
    (Nat.div_lt_iff_lt_mul (G.width_pos m)).2 h
  calc G.start m + G.width m = (m / G.width m + 1) * G.width m := by
        unfold start
        ring
    _ ≤ 2 ^ (G.precision + 1) * G.width m := Nat.mul_le_mul_right _ hd
    _ = 2 ^ (G.exponent m + 1) := by
        rw [pow_succ 2 (G.exponent m), G.two_pow_exponent]
        ring

/-- Two cells are the same or disjoint, in the order of their members. -/
theorem cell_order (h : m ≤ n) :
    (G.start m = G.start n ∧ G.width m = G.width n) ∨ G.start m + G.width m ≤ G.start n := by
  by_cases he : G.exponent m = G.exponent n
  · have hw : G.width m = G.width n := by
      unfold width
      rw [he]
    by_cases hd : m / G.width n = n / G.width n
    · left
      constructor
      · unfold start
        rw [hw, hd]
      · exact hw
    · right
      have hlt : m / G.width n + 1 ≤ n / G.width n :=
        Nat.succ_le_of_lt (lt_of_le_of_ne (Nat.div_le_div_right h) hd)
      calc G.start m + G.width m = (m / G.width n + 1) * G.width n := by
            unfold start
            rw [hw]
            ring
        _ ≤ n / G.width n * G.width n := Nat.mul_le_mul_right _ hlt
        _ = G.start n := rfl
  · right
    have hlt : G.exponent m < G.exponent n := lt_of_le_of_ne (G.exponent_mono h) he
    have hb : G.base < G.exponent n := lt_of_le_of_lt (G.base_le_exponent m) hlt
    calc G.start m + G.width m ≤ 2 ^ (G.exponent m + 1) := G.start_add_width_le m
      _ ≤ 2 ^ G.exponent n := Nat.pow_le_pow_right (by omega) hlt
      _ ≤ G.start n := G.two_pow_le_start hb

/-! ### Levels -/

/-- Half a cell at most separates a number from its level. -/
theorem level_error (m : ℕ) : 2 * ((G.level m : ℤ) - m).natAbs ≤ G.width m := by
  have h1 := G.start_le m
  have h2 := G.lt_start_add m
  have h3 := G.four_dvd_width m
  unfold level
  omega

/-- The error relative to the number: the number of cells of a segment bounds it. -/
theorem two_pow_mul_level_error (m : ℕ) :
    2 ^ (G.precision + 1) * ((G.level m : ℤ) - m).natAbs ≤ max m (2 ^ G.base) := by
  have hm : 2 ^ G.exponent m ≤ max m (2 ^ G.base) := by
    by_cases hb : G.base < G.exponent m
    · exact le_max_of_le_left (G.two_pow_exponent_le hb).2
    · have : G.exponent m = G.base := le_antisymm (not_lt.1 hb) (G.base_le_exponent m)
      rw [this]
      exact le_max_right _ _
  calc 2 ^ (G.precision + 1) * ((G.level m : ℤ) - m).natAbs
      = 2 ^ G.precision * (2 * ((G.level m : ℤ) - m).natAbs) := by
        rw [pow_succ]
        ring
    _ ≤ 2 ^ G.precision * G.width m := Nat.mul_le_mul_left _ (G.level_error m)
    _ = 2 ^ G.exponent m := (G.two_pow_exponent m).symm
    _ ≤ max m (2 ^ G.base) := hm

theorem level_mono (h : m ≤ n) : G.level m ≤ G.level n := by
  have hw := G.width_mono h
  rcases G.cell_order h with ⟨hs, hv⟩ | hs
  · unfold level
    omega
  · unfold level
    omega

/-- The cell below the cell of `m` is as wide, unless `m` is in the first cell of a segment. -/
theorem width_pred_start (h : 0 < G.start m) :
    G.width (G.start m - 1) = G.width m ∨
      (G.base < m.log2 ∧ G.start m = 2 ^ m.log2 ∧ 2 * G.width (G.start m - 1) = G.width m) := by
  have hle := G.start_le m
  have hroom := G.room
  by_cases hb : G.base < G.exponent m
  · obtain ⟨he, -⟩ := G.two_pow_exponent_le hb
    have hs := G.two_pow_le_start hb
    have hlt := G.lt_two_pow_exponent m
    by_cases hfirst : G.start m = 2 ^ G.exponent m
    · right
      have hpow : 2 ^ (G.exponent m - 1 + 1) = 2 ^ G.exponent m := by
        congr 1
        omega
      have hpred : G.exponent (G.start m - 1) = G.exponent m - 1 := by
        have hpos := Nat.two_pow_pos (G.exponent m - 1)
        rw [pow_succ] at hpow
        apply G.exponent_eq
        · omega
        · omega
        · rw [pow_succ]
          omega
      refine ⟨by omega, by rw [← he]; exact hfirst, ?_⟩
      unfold width
      rw [hpred, ← pow_succ']
      congr 1
      omega
    · left
      unfold width
      rw [G.exponent_eq (G.base_le_exponent m) (m := G.start m - 1) (by omega) (by omega)]
  · left
    have h1 := G.exponent_mono (show G.start m - 1 ≤ m by omega)
    have h2 := G.base_le_exponent (G.start m - 1)
    unfold width
    congr 2
    omega

/-- The crowded stretches, one at the start of each segment but the first. -/
theorem crowded_iff :
    G.Crowded m ↔ ∃ s, 1 ≤ s ∧ 2 ^ (s + G.base) ≤ m ∧
      m < 2 ^ (s + G.base) + 2 ^ (s + G.base - (G.precision + 3)) := by
  have hroom := G.room
  have height : ∀ k, G.base < k → 2 ^ (k - G.precision) = 8 * 2 ^ (k - (G.precision + 3)) := by
    intro k hk
    rw [show 8 = 2 ^ 3 by rfl, ← pow_add]
    congr 1
    omega
  constructor
  · rintro ⟨hb, hnear⟩
    have hm : m ≠ 0 := by
      intro h0
      subst h0
      simp at hb
    have hle := Nat.log2_self_le hm
    have he : G.exponent m = m.log2 := by
      unfold exponent
      omega
    unfold width at hnear
    rw [he, height _ hb] at hnear
    refine ⟨m.log2 - G.base, by omega, ?_⟩
    rw [Nat.sub_add_cancel hb.le]
    omega
  · rintro ⟨s, hs, hle, hlt⟩
    have hpow : 2 ^ (s + G.base - (G.precision + 3)) ≤ 2 ^ (s + G.base) :=
      Nat.pow_le_pow_right (by omega) (by omega)
    have hpos := Nat.two_pow_pos (s + G.base)
    have hlog : m.log2 = s + G.base := by
      rw [Nat.log2_eq_iff (by omega), pow_succ]
      omega
    have he : G.exponent m = m.log2 := by
      unfold exponent
      omega
    constructor
    · omega
    · unfold width
      rw [he, hlog, height _ (by omega)]
      omega

/-- Outside the crowded stretches no level is nearer to a number than its own. -/
theorem level_nearest (hc : ¬ G.Crowded m) (n : ℕ) :
    ((G.level m : ℤ) - m).natAbs ≤ ((G.level n : ℤ) - m).natAbs := by
  have hle := G.start_le m
  have hlt := G.lt_start_add m
  have hw := G.four_dvd_width m
  rcases lt_or_ge n (G.start m) with hn | hn
  · -- a level below: the nearest of them belongs to the last cell before the one of `m`
    have hup : G.level n ≤ G.level (G.start m - 1) := G.level_mono (by omega)
    have hend : G.start (G.start m - 1) + G.width (G.start m - 1) ≤ G.start m := by
      rcases G.cell_order (show G.start m - 1 ≤ m by omega) with ⟨hs, -⟩ | hs
      · have := G.start_le (G.start m - 1)
        omega
      · exact hs
    have hpred := G.four_dvd_width (G.start m - 1)
    rcases G.width_pred_start (m := m) (by omega) with hsame | ⟨hb, hfirst, hhalf⟩
    · unfold level at hup ⊢
      omega
    · have hfar : G.width m ≤ 8 * (m - G.start m) := by
        rw [hfirst]
        by_contra hnot
        exact hc ⟨hb, by omega⟩
      unfold level at hup ⊢
      omega
  · rcases le_total n m with hnm | hnm
    · rcases G.cell_order hnm with ⟨hs, hv⟩ | hs
      · unfold level
        rw [hs, hv]
      · have := G.lt_start_add n
        omega
    · have hv := G.width_mono hnm
      rcases G.cell_order hnm with ⟨hs, hv'⟩ | hs
      · unfold level
        rw [hs, hv']
      · unfold level
        omega

/-- In a crowded stretch the last level of the segment below is strictly nearer. -/
theorem crowded_pred_nearer (hc : G.Crowded m) :
    ((G.level (2 ^ m.log2 - 1) : ℤ) - m).natAbs < ((G.level m : ℤ) - m).natAbs := by
  obtain ⟨hb, hnear⟩ := hc
  have he : G.exponent m = m.log2 := by
    unfold exponent
    omega
  have hpow : 2 ^ m.log2 ≤ G.start m := by
    rw [← he]
    exact G.two_pow_le_start (by omega)
  have hle := G.start_le m
  have hw := G.four_dvd_width m
  have hpos := G.width_pos m
  have hfirst : G.start m = 2 ^ m.log2 := by
    -- both are multiples of the width, and less than a width apart
    have h1 : G.width m ∣ G.start m := Dvd.intro_left _ rfl
    have h2 : G.width m ∣ 2 ^ m.log2 := by
      rw [← he, G.two_pow_exponent]
      exact Dvd.intro_left _ rfl
    have h3 := Nat.eq_zero_of_dvd_of_lt (Nat.dvd_sub h1 h2) (by omega)
    omega
  have hpred : G.start (2 ^ m.log2 - 1) + G.width (2 ^ m.log2 - 1) ≤ 2 ^ m.log2 := by
    rcases G.cell_order (show 2 ^ m.log2 - 1 ≤ m by omega) with ⟨hs, -⟩ | hs
    · have h1 := G.start_le (2 ^ m.log2 - 1)
      have h2 := Nat.two_pow_pos m.log2
      omega
    · omega
  have hlast := G.lt_start_add (2 ^ m.log2 - 1)
  have hdvd := G.four_dvd_width (2 ^ m.log2 - 1)
  have hhalf : 2 * G.width (2 ^ m.log2 - 1) = G.width m := by
    have h1 := Nat.two_pow_pos m.log2
    rcases G.width_pred_start (m := m) (by omega) with hsame | ⟨-, -, hhalf⟩
    · rw [hfirst] at hsame
      have h4 : G.exponent (2 ^ m.log2 - 1) = G.exponent m := by
        have hroom := G.room
        unfold width at hsame
        have := Nat.pow_right_injective (le_refl 2) hsame
        have h5 := G.base_le_exponent (2 ^ m.log2 - 1)
        omega
      have h6 := (G.two_pow_exponent_le (m := 2 ^ m.log2 - 1) (by omega)).2
      rw [h4, he] at h6
      omega
    · rw [hfirst] at hhalf
      exact hhalf
  unfold level
  omega

end Grid

end Segments
