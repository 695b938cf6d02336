import G711.Levels

/-!
# Decision cells

Which samples an octet stands for: `cellLow` and `cellHigh` are the decision values on its two
sides.  `encodes_iff_cells` says that a stream is encoded as a wire exactly when every sample lies
between the decision values of its octet, so that the segment searches of the encoders are inverted
by comparisons alone.
-/

namespace G711

open Segments

/-- The fields of an octet. -/
structure Fields where
  negative : Bool
  seg : ℕ
  mant : ℕ
  deriving DecidableEq

namespace Law

/-! ### Fields -/

/-- The fields of an octet, with the inversions of its law undone. -/
def fields : Law → UInt8 → Fields
  | .mulaw, b =>
    let inv := ~~~b
    ⟨inv &&& 0x80 ≠ 0, (inv >>> 4 &&& 0x07).toNat, (inv &&& 0x0F).toNat⟩
  | .alaw, b =>
    let inv := b ^^^ alawXor
    ⟨inv &&& 0x80 = 0, (inv >>> 4 &&& 0x07).toNat, (inv &&& 0x0F).toNat⟩

theorem fields_lt (law : Law) : ∀ b, (law.fields b).seg < 8 ∧ (law.fields b).mant < 16 := by
  cases law <;> exact forall_octet (by decide +kernel)

theorem octet_fields (law : Law) :
    ∀ b, law.octet (law.fields b).negative (law.fields b).seg (law.fields b).mant = b := by
  cases law <;> exact forall_octet (by decide +kernel)

theorem fields_octet (law : Law) (negative : Bool) {seg mant : ℕ} (hseg : seg < 8)
    (hmant : mant < 16) : law.fields (law.octet negative seg mant) = ⟨negative, seg, mant⟩ := by
  have hall : ∀ law negative, ∀ seg : Fin 8, ∀ mant : Fin 16,
      fields law (octet law negative seg mant) = ⟨negative, seg, mant⟩ := by
    intro law
    cases law <;> decide +kernel
  exact hall law negative ⟨seg, hseg⟩ ⟨mant, hmant⟩

theorem octet_eq_iff (law : Law) {negative : Bool} {seg mant : ℕ} (hseg : seg < 8)
    (hmant : mant < 16) {b : UInt8} :
    law.octet negative seg mant = b ↔ (⟨negative, seg, mant⟩ : Fields) = law.fields b := by
  constructor
  · intro h
    rw [← h, law.fields_octet negative hseg hmant]
  · intro h
    rw [← law.octet_fields b, ← h]

/-! ### Magnitudes -/

/-- The width of the cells of a segment. -/
def cellWidth : Law → ℕ → ℕ
  | .mulaw, seg => 2 ^ (seg + 3)
  | .alaw, 0 => 16
  | .alaw, seg + 1 => 2 ^ (seg + 4)

/-- The biased magnitude at which a cell starts. -/
def cellStart : Law → ℕ → ℕ → ℕ
  | .mulaw, seg, mant => (16 + mant) * 2 ^ (seg + 3)
  | .alaw, 0, mant => 16 * mant
  | .alaw, seg + 1, mant => (16 + mant) * 2 ^ (seg + 4)

/-- Above the linear segment of A-law, the segment is read off the leading one, and the mantissa
off the four bits below it. -/
theorem segment_mantissa_iff_pow {m seg mant : ℕ} (hmant : mant < 16) (hm : 2 ^ 7 ≤ m) :
    segment m = seg ∧ m / 2 ^ (segment m + 3) % 16 = mant ↔
      (16 + mant) * 2 ^ (seg + 3) ≤ m ∧ m < (16 + mant) * 2 ^ (seg + 3) + 2 ^ (seg + 3) := by
  have hpos : m ≠ 0 := by
    have := Nat.two_pow_pos 7
    omega
  have hwidth := Nat.two_pow_pos (seg + 3)
  have hcell : (16 + mant) * 2 ^ (seg + 3) ≤ m ∧
        m < (16 + mant) * 2 ^ (seg + 3) + 2 ^ (seg + 3) ↔ m / 2 ^ (seg + 3) = 16 + mant := by
    rw [Nat.div_eq_iff hwidth]
    omega
  have hlow : 2 ^ (seg + 7) = 16 * 2 ^ (seg + 3) := by
    rw [show seg + 7 = 4 + (seg + 3) by omega, pow_add]
    rfl
  have hhigh : 2 ^ (seg + 8) = 32 * 2 ^ (seg + 3) := by
    rw [show seg + 8 = 5 + (seg + 3) by omega, pow_add]
    rfl
  have hlog := (Nat.le_log2 hpos).2 hm
  rw [hcell]
  constructor
  · rintro ⟨hseg, hmantissa⟩
    have hlog2 : m.log2 = seg + 7 := by
      unfold segment at hseg
      omega
    have h1 : 16 ≤ m / 2 ^ (seg + 3) := by
      rw [Nat.le_div_iff_mul_le hwidth, ← hlow, ← hlog2]
      exact Nat.log2_self_le hpos
    have h2 : m / 2 ^ (seg + 3) < 32 := by
      rw [Nat.div_lt_iff_lt_mul hwidth, ← hhigh, show seg + 8 = m.log2 + 1 by omega]
      exact Nat.lt_log2_self
    rw [hseg] at hmantissa
    omega
  · intro h
    have h1 : 2 ^ (seg + 7) ≤ m := by
      rw [hlow, ← Nat.le_div_iff_mul_le hwidth]
      omega
    have h2 : m < 2 ^ (seg + 8) := by
      rw [hhigh, ← Nat.div_lt_iff_lt_mul hwidth]
      omega
    have hseg : segment m = seg := by
      have h3 := (Nat.le_log2 hpos).2 h1
      have h4 := (Nat.log2_lt hpos).2 h2
      unfold segment
      omega
    rw [hseg, h]
    omega

theorem segment_mantissa_iff (law : Law) {m seg mant : ℕ} (hmant : mant < 16)
    (hbias : law.bias ≤ m) :
    segment m = seg ∧ law.mantissa m = mant ↔
      law.cellStart seg mant ≤ m ∧ m < law.cellStart seg mant + law.cellWidth seg := by
  cases law with
  | mulaw =>
    have hm : 2 ^ 7 ≤ m := le_trans (show 2 ^ 7 ≤ 132 by omega) hbias
    unfold mantissa
    rw [width_eq_segment .mulaw hm]
    exact segment_mantissa_iff_pow hmant hm
  | alaw =>
    unfold mantissa
    by_cases h : m < 2 ^ 8
    · have hsegment : segment m = 0 := Nat.le_zero.1 (segment_le h)
      rw [width_alaw_low h, hsegment]
      cases seg with
      | zero =>
        show 0 = 0 ∧ m / 16 % 16 = mant ↔ 16 * mant ≤ m ∧ m < 16 * mant + 16
        omega
      | succ seg =>
        have hpow : 2 ^ 4 ≤ 2 ^ (seg + 4) := Nat.pow_le_pow_right (by omega) (by omega)
        have hstart := Nat.mul_le_mul (Nat.le_add_right 16 mant) hpow
        simp only [cellStart, cellWidth]
        omega
    · rw [width_eq_segment .alaw (not_lt.1 h)]
      cases seg with
      | zero =>
        have hlog := (Nat.le_log2 (by omega)).2 (not_lt.1 h)
        simp only [cellStart, cellWidth, segment]
        omega
      | succ seg => exact segment_mantissa_iff_pow hmant (by omega)

/-! ### Decision values -/

/-- The least magnitude of the samples in a cell.  Zero counts as positive. -/
def cellNear (law : Law) (c : Fields) : ℕ :=
  max (law.cellStart c.seg c.mant - law.bias) (if c.negative then 1 else 0)

/-- The greatest magnitude of the samples in a cell; the last cell takes all that saturates. -/
def cellFar (law : Law) (c : Fields) : ℕ :=
  if c.seg = 7 ∧ c.mant = 15 then (if c.negative then 32768 else 32767)
  else law.cellStart c.seg c.mant + law.cellWidth c.seg - law.bias - 1

/-- The least sample that is encoded as an octet. -/
def cellLow (law : Law) (b : UInt8) : ℤ :=
  let c := law.fields b
  if c.negative then -(law.cellFar c : ℤ) else law.cellNear c

/-- The greatest sample that is encoded as an octet. -/
def cellHigh (law : Law) (b : UInt8) : ℤ :=
  let c := law.fields b
  if c.negative then -(law.cellNear c : ℤ) else law.cellFar c

/-- Only the last cell reaches the magnitude at which the encoder saturates. -/
theorem cell_bounds (law : Law) {seg mant : ℕ} (hseg : seg < 8) (hmant : mant < 16) :
    0 < law.cellWidth seg ∧
      (seg = 7 ∧ mant = 15 → law.cellStart seg mant = 31744 ∧ law.cellWidth seg = 1024) ∧
      (¬ (seg = 7 ∧ mant = 15) → law.cellStart seg mant + law.cellWidth seg ≤ 31744 ∧
        law.bias < law.cellStart seg mant + law.cellWidth seg) := by
  have hall : ∀ law : Law, ∀ seg : Fin 8, ∀ mant : Fin 16, 0 < law.cellWidth seg ∧
      (seg.val = 7 ∧ mant.val = 15 → law.cellStart seg mant = 31744 ∧ law.cellWidth seg = 1024) ∧
      (¬ (seg.val = 7 ∧ mant.val = 15) → law.cellStart seg mant + law.cellWidth seg ≤ 31744 ∧
        law.bias < law.cellStart seg mant + law.cellWidth seg) := by
    intro law
    cases law <;> decide +kernel
  exact hall law ⟨seg, hseg⟩ ⟨mant, hmant⟩

/-- A magnitude, saturated and biased, falls into a cell when it lies between its ends. -/
theorem magnitude_mem_cell_iff (law : Law) (s : Int16) {c : Fields} (hseg : c.seg < 8)
    (hmant : c.mant < 16) (hsign : decide (s.toInt < 0) = c.negative) :
    law.cellStart c.seg c.mant ≤ law.magnitude s ∧
        law.magnitude s < law.cellStart c.seg c.mant + law.cellWidth c.seg ↔
      law.cellNear c ≤ s.toInt.natAbs ∧ s.toInt.natAbs ≤ law.cellFar c := by
  have hlow := s.le_toInt
  have hhigh := s.toInt_lt
  obtain ⟨hwidth, htop, hinner⟩ := law.cell_bounds hseg hmant
  have hclip : 31744 ≤ law.clip + law.bias ∧ law.clip + law.bias < 32768 := by
    cases law <;> decide
  unfold magnitude cellNear cellFar
  cases hneg : c.negative with
  | false =>
    have hpos : ¬ s.toInt < 0 := by simpa [hneg] using hsign
    by_cases h : c.seg = 7 ∧ c.mant = 15
    · have := htop h
      simp only [if_pos h, Bool.false_eq_true, if_false]
      omega
    · have := hinner h
      simp only [if_neg h, Bool.false_eq_true, if_false]
      omega
  | true =>
    have hlt : s.toInt < 0 := by simpa [hneg] using hsign
    by_cases h : c.seg = 7 ∧ c.mant = 15
    · have := htop h
      simp only [if_pos h, if_true]
      omega
    · have := hinner h
      simp only [if_neg h, if_true]
      omega

/-- **Decision values**: a sample is encoded as an octet when it lies between the decision values on
the two sides of it. -/
theorem encodeArith_eq_iff (law : Law) (s : Int16) (b : UInt8) :
    law.encodeArith s = b ↔ law.cellLow b ≤ s.toInt ∧ s.toInt ≤ law.cellHigh b := by
  obtain ⟨hseg, hmant⟩ := law.fields_lt b
  rw [encodeArith_eq, law.octet_eq_iff (law.segment_magnitude_lt s) (mantissa_lt _ _)]
  unfold cellLow cellHigh
  generalize law.fields b = c at hseg hmant
  have hcell : segment (law.magnitude s) = c.seg ∧ law.mantissa (law.magnitude s) = c.mant ↔ _ :=
    law.segment_mantissa_iff hmant (law.bias_le_magnitude s)
  have hfields : (⟨decide (s.toInt < 0), segment (law.magnitude s),
        law.mantissa (law.magnitude s)⟩ : Fields) = c ↔
      decide (s.toInt < 0) = c.negative ∧
        segment (law.magnitude s) = c.seg ∧ law.mantissa (law.magnitude s) = c.mant := by
    cases c
    exact Fields.mk.injEq .. |>.to_iff
  rw [hfields, hcell]
  by_cases hsign : decide (s.toInt < 0) = c.negative
  · rw [law.magnitude_mem_cell_iff s hseg hmant hsign, and_iff_right hsign]
    by_cases hneg : c.negative = true
    · have hlt : s.toInt < 0 := by simpa [hneg] using hsign
      rw [if_pos hneg, if_pos hneg]
      omega
    · have hpos : ¬ s.toInt < 0 := by simpa [hneg] using hsign
      rw [if_neg hneg, if_neg hneg]
      omega
  · -- the cells of the other polarity lie on the other side of zero
    rw [iff_false_left (fun h => hsign h.1)]
    by_cases hneg : c.negative = true
    · have hpos : ¬ s.toInt < 0 := by simpa [hneg] using hsign
      have hnear : 1 ≤ law.cellNear c := by
        unfold cellNear
        rw [if_pos hneg]
        exact le_max_right _ _
      rw [if_pos hneg, if_pos hneg]
      omega
    · have hlt : s.toInt < 0 := by simpa [hneg] using hsign
      rw [if_neg hneg, if_neg hneg]
      omega

/-- No cell is empty. -/
theorem encodeArith_cellLow (law : Law) : ∀ b, law.encodeArith (Int16.ofInt (law.cellLow b)) = b := by
  cases law <;> exact forall_octet (by decide +kernel)

/-- Away from zero and from saturation, the level of an octet is the middle of its cell. -/
theorem decodeArith_middle (law : Law) : ∀ b,
    ¬ ((law.fields b).seg = 0 ∧ (law.fields b).mant = 0) →
    ¬ ((law.fields b).seg = 7 ∧ (law.fields b).mant = 15) →
    2 * (law.decodeArith b).toInt
      = law.cellLow b + law.cellHigh b + if (law.fields b).negative then -1 else 1 := by
  cases law <;> exact forall_octet (by decide +kernel)

end Law

/-- What the decision values of a law are to its slices. -/
structure DecisionCells (law : Law) : Prop where
  /-- A stream is encoded as a wire when every sample lies in the cell of its octet. -/
  encodes_iff : ∀ xs w, law.Encodes xs w ↔
    List.Forall₂ (fun x b => law.cellLow b ≤ x.toInt ∧ x.toInt ≤ law.cellHigh b) xs w
  /-- Every wire is what some stream is encoded as. -/
  encoded : ∀ w, ∃ xs, law.Encodes xs w
  /-- A wire is decoded to the middles of its cells, but for those at zero and the last ones. -/
  decoded : ∀ w ys, law.Decodes w ys → List.Forall₂ (fun b y =>
    ¬ ((law.fields b).seg = 0 ∧ (law.fields b).mant = 0) →
    ¬ ((law.fields b).seg = 7 ∧ (law.fields b).mant = 15) →
    2 * y.toInt = law.cellLow b + law.cellHigh b + if (law.fields b).negative then -1 else 1) w ys

/-- **The decision cells** of a law: the encoders are inverted by comparisons with decision values,
and the decoders answer with the middles between them. -/
theorem decision_cells (law : Law) : DecisionCells law where
  encodes_iff xs w := by
    rw [law.encodes_iff, eq_comm, ← List.forall₂_eq_eq_eq, List.forall₂_map_left_iff]
    simp only [law.encodeArith_eq_iff]
  encoded w := by
    refine ⟨w.map fun b => Int16.ofInt (law.cellLow b), law.encodes_iff.2 ?_⟩
    rw [List.map_map]
    exact (List.map_id'' law.encodeArith_cellLow w).symm
  decoded w ys h := by
    rw [law.decodes_iff.1 h, List.forall₂_map_right_iff, List.forall₂_same]
    exact fun b _ => law.decodeArith_middle b

end G711
