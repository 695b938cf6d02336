import Mathlib.Data.Nat.Bitwise
import Mathlib.Tactic

/-!
# Machine integers that hold small naturals

`Int32.ofNat` carries the arithmetic of the naturals below `2 ^ 31` to that of `i32`: masks,
arithmetic right shifts and doublings need no look at the bits of the word.
-/

namespace Words

theorem ofNat_and (a b : ℕ) : Int32.ofNat a &&& Int32.ofNat b = Int32.ofNat (a &&& b) := by
  rw [← Int32.toBitVec_inj]
  show BitVec.ofNat 32 a &&& BitVec.ofNat 32 b = BitVec.ofNat 32 (a &&& b)
  rw [BitVec.ofNat_and]

theorem ofNat_eq_zero {m : ℕ} (hm : m < 2 ^ 31) : Int32.ofNat m = 0 ↔ m = 0 := by
  constructor
  · intro h
    have := congrArg Int32.toInt h
    rw [Int32.toInt_ofNat_of_lt hm] at this
    simpa using this
  · intro h
    subst h
    rfl

/-- A test of one bit. -/
theorem and_two_pow_eq_zero (m : ℕ) {k : ℕ} (hk : k < 31) :
    Int32.ofNat m &&& Int32.ofNat (2 ^ k) = 0 ↔ m.testBit k = false := by
  have hlt : m &&& 2 ^ k < 2 ^ 31 :=
    lt_of_le_of_lt Nat.and_le_right (Nat.pow_lt_pow_right (by omega) hk)
  rw [ofNat_and, ofNat_eq_zero hlt, Nat.and_two_pow]
  cases m.testBit k <;> simp

/-- The shift is arithmetic, and keeps the sign bit clear. -/
theorem ofNat_shiftRight {m k : ℕ} (hm : m < 2 ^ 31) (hk : k < 32) :
    Int32.ofNat m >>> Int32.ofNat k = Int32.ofNat (m / 2 ^ k) := by
  have hdiv : m / 2 ^ k ≤ m := Nat.div_le_self m (2 ^ k)
  have hcount : (BitVec.ofNat 32 k).smod 32 = BitVec.ofNat 32 k := by
    interval_cases k <;> decide
  have hsign : (BitVec.ofNat 32 m).msb = false := by
    rw [BitVec.msb_eq_false_iff_two_mul_lt, BitVec.toNat_ofNat]
    omega
  rw [← Int32.toBitVec_inj, Int32.toBitVec_shiftRight]
  show (BitVec.ofNat 32 m).sshiftRight' ((BitVec.ofNat 32 k).smod 32) = BitVec.ofNat 32 (m / 2 ^ k)
  rw [hcount, BitVec.sshiftRight', BitVec.sshiftRight_eq_of_msb_false hsign]
  apply BitVec.eq_of_toNat_eq
  rw [BitVec.toNat_ushiftRight, BitVec.toNat_ofNat, BitVec.toNat_ofNat, BitVec.toNat_ofNat,
    Nat.shiftRight_eq_div_pow, Nat.mod_eq_of_lt (by omega : m < 2 ^ 32),
    Nat.mod_eq_of_lt (by omega : k < 2 ^ 32), Nat.mod_eq_of_lt (by omega)]

theorem ofNat_shiftLeft_one (m : ℕ) : Int32.ofNat m <<< 1 = Int32.ofNat (2 * m) := by
  rw [← Int32.toBitVec_inj]
  show BitVec.ofNat 32 m <<< 1 = BitVec.ofNat 32 (2 * m)
  apply BitVec.eq_of_toNat_eq
  rw [BitVec.toNat_shiftLeft, BitVec.toNat_ofNat, BitVec.toNat_ofNat, Nat.shiftLeft_eq]
  omega

/-- The absolute value of an `i16`, taken in `i32`. -/
theorem abs_toInt32 (s : Int16) :
    (if s.toInt32 < 0 then -s.toInt32 else s.toInt32) = Int32.ofNat s.toInt.natAbs := by
  have hlow := s.le_toInt
  have hhigh := s.toInt_lt
  rw [← Int32.toInt_inj, Int32.toInt_ofNat_of_lt (by omega)]
  by_cases h : s.toInt32 < 0
  · have hneg : s.toInt < 0 := by simpa [Int32.lt_iff_toInt_lt] using h
    rw [if_pos h, Int32.toInt_neg, Int16.toInt_toInt32, Int.bmod_eq_of_le (by omega) (by omega)]
    omega
  · have hpos : 0 ≤ s.toInt := by simpa [Int32.lt_iff_toInt_lt] using h
    rw [if_neg h, Int16.toInt_toInt32]
    omega

/-- A minimum, as a test. -/
theorem ofNat_min {m c : ℕ} (hm : m < 2 ^ 31) (hc : c < 2 ^ 31) :
    (if Int32.ofNat m > Int32.ofNat c then Int32.ofNat c else Int32.ofNat m)
      = Int32.ofNat (min m c) := by
  by_cases h : c < m
  · rw [if_pos ((Int32.ofNat_lt_iff_lt hc hm).2 h), min_eq_right h.le]
  · rw [if_neg (fun hlt => h ((Int32.ofNat_lt_iff_lt hc hm).1 hlt)), min_eq_left (not_lt.1 h)]

end Words
