import G711.Library.Segments
import G711.Library.Words
import G711.Codewords

/-!
# What the segment searches find

The encoders of both laws cut the magnitudes by a `Grid`: µ-law adds its bias first, A-law joins
its two lowest segments.  The segment search finds the binary logarithm (`mulawSegment_eq`,
`alawSegment_eq`), the mantissa numbers the cells of a segment, and the decoder answers with the
middle of the cell (`quantise_toInt`).  All that the later modules say about the size of
errors, the order of samples and their polarity rests on this one equation.
-/

namespace G711

open Segments Words

/-! ### The segment searches -/

/-- The mask moves down to the leading one. -/
theorem mulawSegment_eq {m : ℕ} (hm : 2 ^ 7 ≤ m) {seg : ℕ} (hseg : seg ≤ 7)
    (hlt : m < 2 ^ (seg + 8)) :
    mulawSegment (Int32.ofNat m) seg (Int32.ofNat (2 ^ (seg + 7))) = m.log2 - 7 := by
  induction seg with
  | zero =>
    have := (Nat.log2_lt (by omega)).2 hlt
    rw [mulawSegment]
    omega
  | succ seg ih =>
    have hmask : Int32.ofNat (2 ^ (seg + 8)) >>> 1 = Int32.ofNat (2 ^ (seg + 7)) := by
      have hsmall : 2 ^ (seg + 8) < 2 ^ 31 := Nat.pow_lt_pow_right (by omega) (by omega)
      have hhalf : 2 ^ (seg + 8) / 2 ^ 1 = 2 ^ (seg + 7) := by
        rw [pow_succ 2 (seg + 7)]
        omega
      rw [← hhalf]
      exact ofNat_shiftRight hsmall (show 1 < 32 by omega)
    rw [mulawSegment, show seg + 1 + 7 = seg + 8 by omega]
    by_cases htop : m < 2 ^ (seg + 8)
    · rw [if_pos ((and_two_pow_eq_zero m (by omega)).2 (Nat.testBit_lt_two_pow htop)), hmask]
      exact ih (by omega) htop
    · have hbit : m.testBit (seg + 8) = true :=
        Nat.testBit_of_two_pow_le_and_two_pow_add_one_gt (not_lt.1 htop) hlt
      have h1 := (Nat.le_log2 (by omega)).2 (not_lt.1 htop)
      have h2 := (Nat.log2_lt (by omega)).2 hlt
      rw [if_neg]
      · omega
      · rw [and_two_pow_eq_zero m (by omega), hbit]
        simp

/-- The threshold moves up past the leading one. -/
theorem alawSegment_eq {m : ℕ} (hm : m < 2 ^ 15) {left seg : ℕ} (hseg : left + seg = 7)
    (hle : 2 ^ (seg + 7) ≤ m) :
    alawSegment (Int32.ofNat m) left seg (Int32.ofNat (2 ^ (seg + 8))) = m.log2 - 7 := by
  have hpos : m ≠ 0 := by
    have := Nat.two_pow_pos (seg + 7)
    omega
  have hlog := (Nat.le_log2 hpos).2 hle
  induction left generalizing seg with
  | zero =>
    have := (Nat.log2_lt hpos).2 hm
    rw [alawSegment]
    omega
  | succ left ih =>
    have hsmall : 2 ^ (seg + 8) < 2 ^ 31 := Nat.pow_lt_pow_right (by omega) (by omega)
    have hnext : Int32.ofNat (2 ^ (seg + 8)) <<< 1 = Int32.ofNat (2 ^ (seg + 1 + 8)) := by
      rw [ofNat_shiftLeft_one, ← pow_succ']
    have htest : Int32.ofNat m ≥ Int32.ofNat (2 ^ (seg + 8)) ↔ 2 ^ (seg + 8) ≤ m :=
      Int32.ofNat_le_iff_le hsmall (by omega)
    rw [alawSegment]
    by_cases h : 2 ^ (seg + 8) ≤ m
    · rw [if_pos (htest.2 h), hnext]
      have hle' : 2 ^ (seg + 1 + 7) ≤ m := by
        rw [show seg + 1 + 7 = seg + 8 by omega]
        exact h
      exact ih (by omega) hle' ((Nat.le_log2 hpos).2 hle')
    · have := (Nat.log2_lt hpos).2 (not_le.1 h)
      rw [if_neg (fun hge => h (htest.1 hge))]
      omega

namespace Law

/-! ### The quantiser of a law -/

/-- The cells of the decision lattice. -/
def grid : Law → Grid
  | .mulaw => ⟨7, 4, by decide⟩
  | .alaw => ⟨8, 4, by decide⟩

/-- What is added to a magnitude before its segment is searched. -/
def bias : Law → ℕ
  | .mulaw => 132
  | .alaw => 0

/-- The magnitude at which the encoder saturates. -/
def clip : Law → ℕ
  | .mulaw => 32635
  | .alaw => 32256

/-- The saturated and biased magnitude of a sample. -/
def magnitude (law : Law) (s : Int16) : ℕ := min s.toInt.natAbs law.clip + law.bias

/-- The segment number on the wire. -/
def segment (m : ℕ) : ℕ := m.log2 - 7

/-- The number of a cell in its segment. -/
def mantissa (law : Law) (m : ℕ) : ℕ := m / law.grid.width m % 16

/-- The octet with the given sign, segment and mantissa. -/
def octet : Law → Bool → ℕ → ℕ → UInt8
  | .mulaw, negative, seg, mant =>
    let signBit : UInt8 := if negative then 0x80 else 0
    ~~~(signBit ||| (UInt8.ofNat seg <<< 4) ||| UInt8.ofNat mant)
  | .alaw, negative, seg, mant =>
    let signBit : UInt8 := if negative then 0 else 0x80
    (signBit ||| (UInt8.ofNat seg <<< 4) ||| UInt8.ofNat mant) ^^^ alawXor

/-- The magnitude that a segment and a mantissa stand for. -/
def outputMagnitude : Law → ℕ → ℕ → ℕ
  | .mulaw, seg, mant => (8 * mant + 132) * 2 ^ seg - 132
  | .alaw, 0, mant => 16 * mant + 8
  | .alaw, seg + 1, mant => (16 * mant + 264) * 2 ^ seg

/-- A magnitude with the sign of a sample. -/
def withSign (negative : Bool) (y : ℕ) : ℤ := if negative then -(y : ℤ) else y

@[simp] theorem withSign_true (y : ℕ) : withSign true y = -(y : ℤ) := rfl
@[simp] theorem withSign_false (y : ℕ) : withSign false y = y := rfl

theorem natAbs_withSign (negative : Bool) (y : ℕ) : (withSign negative y).natAbs = y := by
  cases negative <;> simp

theorem bias_le_magnitude (law : Law) (s : Int16) : law.bias ≤ law.magnitude s := by
  unfold magnitude
  omega

theorem magnitude_lt (law : Law) (s : Int16) : law.magnitude s < 2 ^ 15 := by
  cases law <;> simp only [magnitude, clip, bias] <;> omega

/-! ### The encoder -/

theorem segment_le {m n : ℕ} (h : m < 2 ^ (n + 8)) : segment m ≤ n := by
  by_cases hm : m = 0
  · subst hm
    exact Nat.zero_le n
  · have := (Nat.log2_lt hm).2 h
    unfold segment
    omega

/-- The arithmetic shift and the mask that take the mantissa. -/
theorem mantissa_word {m k : ℕ} (hm : m < 2 ^ 31) (hk : k < 32) :
    (Int32.ofNat m >>> Int32.ofNat k) &&& 0x0F = Int32.ofNat (m / 2 ^ k % 16) := by
  rw [ofNat_shiftRight hm hk]
  show Int32.ofNat (m / 2 ^ k) &&& Int32.ofNat 15 = _
  rw [ofNat_and, show 15 = 2 ^ 4 - 1 by rfl, Nat.and_two_pow_sub_one_eq_mod]

theorem width_eq_segment (law : Law) {m : ℕ} (hm : 2 ^ law.grid.base ≤ m) :
    law.grid.width m = 2 ^ (segment m + 3) := by
  have hpos : m ≠ 0 := by
    have := Nat.two_pow_pos law.grid.base
    omega
  have hlog := (Nat.le_log2 hpos).2 hm
  unfold Grid.width Grid.exponent segment
  congr 1
  cases law <;> simp only [grid] at hlog ⊢ <;> omega

/-- The two lowest segments of A-law have cells of one width. -/
theorem width_alaw_low {m : ℕ} (h : m < 2 ^ 8) : Law.alaw.grid.width m = 2 ^ 4 := by
  unfold Grid.width
  rw [Grid.exponent_eq_base _ (show m < 2 ^ 9 by omega)]
  rfl

theorem toInt32_neg_iff (s : Int16) : s.toInt32 < 0 ↔ s.toInt < 0 := by
  simp [Int32.lt_iff_toInt_lt]

theorem mulawEncodeArith_eq (s : Int16) :
    mulawEncodeArith s = octet .mulaw (decide (s.toInt < 0)) (segment (Law.mulaw.magnitude s))
      (Law.mulaw.mantissa (Law.mulaw.magnitude s)) := by
  have hlow := s.le_toInt
  have hhigh := s.toInt_lt
  have hm := Law.mulaw.magnitude_lt s
  have hbase : 2 ^ 7 ≤ Law.mulaw.magnitude s := by
    have := Law.mulaw.bias_le_magnitude s
    simp only [bias] at this
    omega
  have hmag : Int32.ofNat (min s.toInt.natAbs 32635) + mulawBias
      = Int32.ofNat (Law.mulaw.magnitude s) := by
    show _ + Int32.ofNat 132 = _
    rw [← Int32.ofNat_add]
    rfl
  have hclip := ofNat_min (m := s.toInt.natAbs) (c := 32635) (by omega) (by omega)
  have hseg : mulawSegment (Int32.ofNat (Law.mulaw.magnitude s)) 7 0x4000
      = segment (Law.mulaw.magnitude s) := mulawSegment_eq hbase (le_refl 7) hm
  have hsegment : segment (Law.mulaw.magnitude s) ≤ 7 := segment_le hm
  simp only [mulawEncodeArith, abs_toInt32]
  rw [show (32635 : Int32) = Int32.ofNat 32635 by rfl, hclip, hmag, hseg,
    mantissa_word (by omega) (by omega)]
  unfold octet mantissa
  rw [width_eq_segment .mulaw hbase]
  simp [toInt32_neg_iff]

theorem alawEncodeArith_eq (s : Int16) :
    alawEncodeArith s = octet .alaw (decide (s.toInt < 0)) (segment (Law.alaw.magnitude s))
      (Law.alaw.mantissa (Law.alaw.magnitude s)) := by
  have hlow := s.le_toInt
  have hhigh := s.toInt_lt
  have hm := Law.alaw.magnitude_lt s
  have hclip := ofNat_min (m := s.toInt.natAbs) (c := 32256) (by omega) (by omega)
  have hmag : min s.toInt.natAbs 32256 = Law.alaw.magnitude s := rfl
  have htest : Int32.ofNat (Law.alaw.magnitude s) < 256 ↔ Law.alaw.magnitude s < 256 :=
    Int32.ofNat_lt_iff_lt (by omega) (show 256 < 2 ^ 31 by omega)
  simp only [alawEncodeArith, abs_toInt32]
  rw [show (32256 : Int32) = Int32.ofNat 32256 by rfl, hclip, hmag]
  by_cases h : Law.alaw.magnitude s < 256
  · have hsegment : segment (Law.alaw.magnitude s) = 0 := Nat.le_zero.1 (segment_le h)
    have hmant : (Int32.ofNat (Law.alaw.magnitude s) >>> 4).toUInt32 &&& 0x0F
        = (Int32.ofNat (Law.alaw.magnitude s / 2 ^ 4 % 16)).toUInt32 := by
      rw [← mantissa_word (by omega) (show 4 < 32 by omega)]
      rfl
    rw [if_pos (htest.2 h), hsegment, hmant]
    unfold octet mantissa
    rw [width_alaw_low h]
    simp [toInt32_neg_iff]
  · have hseg : alawSegment (Int32.ofNat (Law.alaw.magnitude s)) 6 1 512
        = segment (Law.alaw.magnitude s) := alawSegment_eq hm rfl (not_lt.1 h)
    have hsegment : segment (Law.alaw.magnitude s) ≤ 7 := segment_le hm
    rw [if_neg (fun hlt => h (htest.1 hlt)), hseg, mantissa_word (by omega) (by omega)]
    unfold octet mantissa
    rw [width_eq_segment .alaw (not_lt.1 h)]
    simp [toInt32_neg_iff]

theorem encodeArith_eq (law : Law) (s : Int16) :
    law.encodeArith s = law.octet (decide (s.toInt < 0)) (segment (law.magnitude s))
      (law.mantissa (law.magnitude s)) := by
  cases law with
  | mulaw => exact mulawEncodeArith_eq s
  | alaw => exact alawEncodeArith_eq s

theorem segment_magnitude_lt (law : Law) (s : Int16) : segment (law.magnitude s) < 8 :=
  Nat.lt_succ_of_le (segment_le (law.magnitude_lt s))

theorem mantissa_lt (law : Law) (m : ℕ) : law.mantissa m < 16 := Nat.mod_lt _ (by omega)

/-! ### The decoder -/

theorem decodeArith_octet (law : Law) (negative : Bool) {seg mant : ℕ} (hseg : seg < 8)
    (hmant : mant < 16) :
    (law.decodeArith (law.octet negative seg mant)).toInt
      = withSign negative (law.outputMagnitude seg mant) := by
  have fields : ∀ law negative, ∀ seg : Fin 8, ∀ mant : Fin 16,
      (decodeArith law (octet law negative seg mant)).toInt
        = withSign negative (outputMagnitude law seg mant) := by
    intro law
    cases law <;> decide +kernel
  exact fields law negative ⟨seg, hseg⟩ ⟨mant, hmant⟩

/-- From the second segment on, a level is the sixteen, the mantissa and a half, scaled. -/
theorem level_eq_segment (law : Law) {m : ℕ} (hm : 2 ^ law.grid.base ≤ m) :
    law.grid.level m = (33 + 2 * law.mantissa m) * 2 ^ (segment m + 2) := by
  have hwidth := law.width_eq_segment hm
  have hexp : 2 ^ law.grid.exponent m ≤ m := by
    by_cases h : law.grid.base < law.grid.exponent m
    · exact (law.grid.two_pow_exponent_le h).2
    · rw [le_antisymm (not_lt.1 h) (law.grid.base_le_exponent m)]
      exact hm
  have hlt := law.grid.lt_two_pow_exponent m
  have hprec : law.grid.precision = 4 := by
    cases law <;> rfl
  rw [pow_succ] at hlt
  rw [law.grid.two_pow_exponent, hprec] at hexp hlt
  have hcell : m / law.grid.width m = 16 + law.mantissa m := by
    have h1 := (Nat.le_div_iff_mul_le (law.grid.width_pos m)).2 hexp
    have h2 : m / law.grid.width m < 32 :=
      (Nat.div_lt_iff_lt_mul (law.grid.width_pos m)).2 (by omega)
    unfold mantissa
    omega
  unfold Grid.level Grid.start
  rw [hcell, hwidth, pow_succ 2 (segment m + 2), Nat.mul_div_cancel _ (by omega)]
  ring

theorem level_eq_outputMagnitude (law : Law) {m : ℕ} (hbias : law.bias ≤ m) :
    law.grid.level m - law.bias = law.outputMagnitude (segment m) (law.mantissa m) := by
  cases law with
  | mulaw =>
    have hm : 2 ^ 7 ≤ m := le_trans (show 2 ^ 7 ≤ 132 by omega) hbias
    have hlevel := level_eq_segment .mulaw hm
    show Law.mulaw.grid.level m - 132 = (8 * Law.mulaw.mantissa m + 132) * 2 ^ segment m - 132
    rw [hlevel, pow_add]
    congr 1
    ring
  | alaw =>
    by_cases h : m < 2 ^ 8
    · have hsegment : segment m = 0 := Nat.le_zero.1 (segment_le h)
      rw [hsegment]
      show Law.alaw.grid.level m - 0 = 16 * Law.alaw.mantissa m + 8
      unfold Grid.level Grid.start mantissa
      rw [width_alaw_low h]
      omega
    · have hlevel := level_eq_segment .alaw (not_lt.1 h)
      have hlog := (Nat.le_log2 (by omega)).2 (not_lt.1 h)
      obtain ⟨seg, hseg⟩ : ∃ seg, segment m = seg + 1 := Nat.exists_eq_add_one.2 (by
        unfold segment
        omega)
      rw [hseg]
      rw [hseg] at hlevel
      show Law.alaw.grid.level m - 0 = (16 * Law.alaw.mantissa m + 264) * 2 ^ seg
      rw [hlevel, Nat.sub_zero, show seg + 1 + 2 = seg + 3 by omega, pow_add]
      ring

/-! ### A hop -/

/-- What a hop makes of a sample: the level of its magnitude, under its sign. -/
theorem quantise_toInt (law : Law) (s : Int16) :
    (law.code.quantise s).toInt
      = withSign (decide (s.toInt < 0)) (law.grid.level (law.magnitude s) - law.bias) := by
  have hformulas : law.code.quantise s = law.decodeArith (law.encodeArith s) := by
    rw [← decodeSample_eq, ← encodeSample_eq]
    rfl
  rw [hformulas, encodeArith_eq,
    decodeArith_octet _ _ (law.segment_magnitude_lt s) (mantissa_lt _ _),
    level_eq_outputMagnitude law (law.bias_le_magnitude s)]

end Law

end G711
