import G711.Library.Costs
import G711.Levels

/-!
# The noise of a hop

* `quantisation_noise`: the error at a sample is at most one 32nd of its magnitude, up to a
  constant, so that the noise follows the signal in level.
* `nearest_unless_below_midpoint`: which streams the encoders put on the wire at the least total
  error.  The segment search starts a new segment at a power of two, and the level below is then
  nearer for the first eighth of a cell; elsewhere the encoders choose a nearest level.
-/

namespace G711

open Segments

/-- The error of hearing `y` for `x`. -/
def absoluteError (x y : Int16) : ℤ := |y.toInt - x.toInt|

namespace Law

/-- What bounds 32 times the error at a sample. -/
def noiseBound : Law → Int16 → ℤ
  | .mulaw, x => |x.toInt| + 132
  | .alaw, x => max 256 |x.toInt|

/-- The stretches from the start of a segment to the midpoint of the levels on its two sides. -/
def belowMidpoint : Law → Int16 → Prop
  | .mulaw, x => ∃ s ∈ Finset.Icc 1 7,
      2 ^ (s + 7) ≤ x.toInt.natAbs + 132 ∧ x.toInt.natAbs + 132 < 2 ^ (s + 7) + 2 ^ s
  | .alaw, x => ∃ s ∈ Finset.Icc 1 6,
      2 ^ (s + 8) ≤ x.toInt.natAbs ∧ x.toInt.natAbs < 2 ^ (s + 8) + 2 ^ (s + 1)

instance (law : Law) (x : Int16) : Decidable (law.belowMidpoint x) :=
  match law with
  | .mulaw => inferInstanceAs (Decidable (∃ _ ∈ Finset.Icc 1 7, _))
  | .alaw => inferInstanceAs (Decidable (∃ _ ∈ Finset.Icc 1 6, _))

/-! ### Errors of samples and errors of levels -/

theorem bias_le_level (law : Law) {m : ℕ} (hm : law.bias ≤ m) : law.bias ≤ law.grid.level m := by
  have h : law.bias ≤ law.grid.level law.bias := by
    cases law <;> decide +kernel
  exact h.trans (law.grid.level_mono hm)

/-- The highest level, of the magnitudes at which the encoder saturates. -/
theorem level_top (law : Law) : law.grid.level (law.clip + law.bias) = 32256 := by
  cases law <;> decide +kernel

theorem natAbs_quantise (law : Law) (y : Int16) :
    (law.code.quantise y).toInt.natAbs = law.grid.level (law.magnitude y) - law.bias := by
  rw [quantise_toInt, natAbs_withSign]

/-- Against a sample of the same sign the error is that of a level. -/
theorem absoluteError_quantise (law : Law) {x y : Int16} (h : y.toInt < 0 ↔ x.toInt < 0) :
    absoluteError x (law.code.quantise y)
      = ((law.grid.level (law.magnitude y) : ℤ) - (x.toInt.natAbs + law.bias : ℕ)).natAbs := by
  have hbias := law.bias_le_level (law.bias_le_magnitude y)
  unfold absoluteError
  rw [quantise_toInt, ← Int.natCast_natAbs]
  by_cases hx : x.toInt < 0
  · simp only [h.2 hx, decide_true, withSign_true]
    omega
  · have hy : ¬ y.toInt < 0 := fun hy => hx (h.1 hy)
    simp only [hy, decide_false, withSign_false]
    omega

/-- Against any sample it is no less. -/
theorem le_absoluteError_quantise (law : Law) (x y : Int16) :
    (((law.grid.level (law.magnitude y) : ℤ) - (x.toInt.natAbs + law.bias : ℕ)).natAbs : ℤ)
      ≤ absoluteError x (law.code.quantise y) := by
  have hbias := law.bias_le_level (law.bias_le_magnitude y)
  have habs := law.natAbs_quantise y
  unfold absoluteError
  rw [← Int.natCast_natAbs]
  omega

theorem magnitude_of_le {law : Law} {x : Int16} (h : x.toInt.natAbs ≤ law.clip) :
    law.magnitude x = x.toInt.natAbs + law.bias := by
  rw [magnitude, min_eq_left h]

theorem level_of_clip_lt {law : Law} {x : Int16} (h : ¬ x.toInt.natAbs ≤ law.clip) :
    law.grid.level (law.magnitude x) = 32256 := by
  rw [magnitude, min_eq_right (not_le.1 h).le, level_top]

theorem level_magnitude_le (law : Law) (x : Int16) : law.grid.level (law.magnitude x) ≤ 32256 := by
  rw [← law.level_top]
  exact law.grid.level_mono (Nat.add_le_add_right (min_le_right _ _) _)

theorem noise_le (law : Law) (x : Int16) :
    32 * absoluteError x (law.code.quantise x) ≤ law.noiseBound x := by
  have hlow := x.le_toInt
  have hhigh := x.toInt_lt
  rw [absoluteError_quantise law Iff.rfl]
  by_cases h : x.toInt.natAbs ≤ law.clip
  · have hcell := law.grid.two_pow_mul_level_error (law.magnitude x)
    rw [magnitude_of_le h] at hcell ⊢
    cases law with
    | mulaw =>
      have hmax : max (x.toInt.natAbs + 132) (2 ^ 7) = x.toInt.natAbs + 132 :=
        max_eq_left (by omega)
      change 2 ^ 5 * _ ≤ max (x.toInt.natAbs + 132) (2 ^ 7) at hcell
      rw [hmax] at hcell
      rw [noiseBound, ← Int.natCast_natAbs x.toInt]
      exact_mod_cast hcell
    | alaw =>
      change 2 ^ 5 * _ ≤ max (x.toInt.natAbs + 0) (2 ^ 8) at hcell
      rw [noiseBound, max_comm, ← Int.natCast_natAbs x.toInt]
      exact_mod_cast hcell
  · rw [level_of_clip_lt h]
    cases law with
    | mulaw =>
      simp only [clip, bias, noiseBound, ← Int.natCast_natAbs x.toInt] at h ⊢
      omega
    | alaw =>
      have hmax := le_max_right 256 |x.toInt|
      simp only [clip, bias, noiseBound, ← Int.natCast_natAbs x.toInt] at h hmax ⊢
      omega

/-! ### Nearest levels -/

/-- Saturated samples are not near a boundary of segments. -/
theorem natAbs_le_clip {law : Law} {x : Int16} (h : law.grid.Crowded (law.magnitude x)) :
    x.toInt.natAbs ≤ law.clip := by
  by_contra hclip
  have htop : ¬ law.grid.Crowded (law.clip + law.bias) := by
    cases law <;> decide +kernel
  rw [magnitude, min_eq_right (not_le.1 hclip).le] at h
  exact htop h

theorem crowded_iff (law : Law) (x : Int16) :
    law.grid.Crowded (law.magnitude x) ↔ law.belowMidpoint x := by
  constructor
  · intro h
    have hm := magnitude_of_le (natAbs_le_clip h)
    have hlt := law.magnitude_lt x
    obtain ⟨s, hs, hle, hnear⟩ := law.grid.crowded_iff.1 h
    have htop := (Nat.pow_lt_pow_iff_right (by omega)).1 (lt_of_le_of_lt hle hlt)
    rw [hm] at hle hnear
    cases law with
    | mulaw =>
      refine ⟨s, Finset.mem_Icc.2 ⟨hs, ?_⟩, hle, hnear⟩
      simp only [grid] at htop
      omega
    | alaw =>
      refine ⟨s, Finset.mem_Icc.2 ⟨hs, ?_⟩, hle, hnear⟩
      simp only [grid] at htop
      omega
  · intro h
    cases law with
    | mulaw =>
      obtain ⟨s, hs, hle, hnear⟩ := h
      obtain ⟨h1, h7⟩ := Finset.mem_Icc.1 hs
      have hpow : 2 ^ s ≤ 2 ^ 7 := Nat.pow_le_pow_right (by omega) h7
      have hclip : x.toInt.natAbs ≤ Law.mulaw.clip := by
        rw [pow_add] at hnear
        simp only [clip]
        omega
      rw [magnitude_of_le hclip]
      exact (Grid.crowded_iff _).2 ⟨s, h1, hle, hnear⟩
    | alaw =>
      obtain ⟨s, hs, hle, hnear⟩ := h
      obtain ⟨h1, h6⟩ := Finset.mem_Icc.1 hs
      have hpow : 2 ^ s ≤ 2 ^ 6 := Nat.pow_le_pow_right (by omega) h6
      have hclip : x.toInt.natAbs ≤ Law.alaw.clip := by
        rw [pow_add, pow_add] at hnear
        simp only [clip]
        omega
      rw [magnitude_of_le hclip]
      exact (Grid.crowded_iff _).2 ⟨s, h1, hle, hnear⟩

theorem quantise_nearest {law : Law} {x : Int16} (h : ¬ law.belowMidpoint x) :
    law.code.Cheapest absoluteError x := by
  rw [Code.cheapest_iff]
  intro y
  refine le_trans ?_ (law.le_absoluteError_quantise x y)
  rw [absoluteError_quantise law Iff.rfl]
  by_cases hclip : x.toInt.natAbs ≤ law.clip
  · rw [← law.crowded_iff, magnitude_of_le hclip] at h
    rw [magnitude_of_le hclip]
    exact_mod_cast law.grid.level_nearest h (law.magnitude y)
  · have hy := law.level_magnitude_le y
    rw [level_of_clip_lt hclip]
    have hbound : 32256 ≤ x.toInt.natAbs + law.bias := by
      cases law <;> simp only [clip, bias] at hclip ⊢ <;> omega
    omega

/-- A sample with a given sign and magnitude. -/
theorem exists_sample (negative : Prop) [Decidable negative] {n : ℕ} (hpos : 0 < n)
    (hlt : n < 2 ^ 15) :
    ∃ y : Int16, (y.toInt < 0 ↔ negative) ∧ y.toInt.natAbs = n := by
  have habs := natAbs_withSign (decide negative) n
  have hy : (Int16.ofInt (withSign (decide negative) n)).toInt = withSign (decide negative) n := by
    apply Int16.toInt_ofInt_of_le
    · omega
    · omega
  refine ⟨Int16.ofInt (withSign (decide negative) n), ?_, by rw [hy, habs]⟩
  rw [hy]
  by_cases h : negative
  · simp only [h, decide_true, withSign_true, iff_true]
    omega
  · simp only [h, decide_false, withSign_false, iff_false]
    omega

/-- The codeword of the last magnitude before the boundary is nearer to a sample just above it. -/
theorem nearer_codeword {law : Law} {x : Int16} (h : law.belowMidpoint x) :
    ∃ y, absoluteError x (law.code.quantise y) < absoluteError x (law.code.quantise x) := by
  have hcrowded := (law.crowded_iff x).2 h
  have hclip := natAbs_le_clip hcrowded
  have hm := magnitude_of_le hclip
  have hlt := law.magnitude_lt x
  have hlog : law.grid.base < (law.magnitude x).log2 := hcrowded.1
  have hself : 2 ^ (law.magnitude x).log2 ≤ law.magnitude x := by
    apply Nat.log2_self_le
    intro h0
    rw [h0] at hlog
    simp at hlog
  have hbias : law.bias + 1 < 2 ^ (law.magnitude x).log2 := by
    have hpow : 2 ^ (law.grid.base + 1) ≤ 2 ^ (law.magnitude x).log2 :=
      Nat.pow_le_pow_right (by omega) hlog
    refine lt_of_lt_of_le ?_ hpow
    cases law <;> decide
  have hnearer := law.grid.crowded_pred_nearer hcrowded
  generalize 2 ^ (law.magnitude x).log2 = boundary at hself hbias hnearer
  obtain ⟨y, hsign, habs⟩ := exists_sample (x.toInt < 0)
    (show 0 < boundary - 1 - law.bias by omega) (by omega)
  have hy : law.magnitude y = boundary - 1 := by
    rw [magnitude_of_le (by omega), habs]
    omega
  refine ⟨y, ?_⟩
  rw [absoluteError_quantise law hsign, absoluteError_quantise law Iff.rfl, hy, ← hm]
  exact_mod_cast hnearer

theorem cheapest_iff (law : Law) (x : Int16) :
    law.code.Cheapest absoluteError x ↔ ¬ law.belowMidpoint x := by
  constructor
  · intro hcheap hbelow
    obtain ⟨y, hy⟩ := nearer_codeword hbelow
    exact absurd (hcheap (law.code.encode y)) (not_le.2 hy)
  · exact quantise_nearest

end Law

/-! ### Streams -/

/-- **The noise of a hop follows the signal**: at every sample the error is at most one 32nd of the
biased magnitude, under A-law of the magnitude or of 256; and so for the sum of the squares. -/
theorem quantisation_noise (law : Law) (xs : List Int16) :
    ∃ w ys, law.Encodes xs w ∧ law.Decodes w ys ∧
      List.Forall₂ (fun x y => 32 * absoluteError x y ≤ law.noiseBound x) xs ys ∧
      Code.totalCost (fun x y => (32 * (y.toInt - x.toInt)) ^ 2) xs ys
        ≤ (xs.map fun x => law.noiseBound x ^ 2).sum := by
  obtain ⟨w, hw, hys⟩ := law.hop_iff.2 (rfl : law.code.pointwise.quantise xs = _)
  have hpoint : List.Forall₂ (fun x y => 32 * absoluteError x y ≤ law.noiseBound x) xs
      (law.code.pointwise.quantise xs) := by
    rw [Code.pointwise_quantise, List.forall₂_map_right_iff, List.forall₂_same]
    intro x _
    exact law.noise_le x
  refine ⟨w, _, hw, hys, hpoint, Code.totalCost_le (hpoint.imp ?_)⟩
  intro x y hxy
  have hsquare : (32 * (y.toInt - x.toInt)) ^ 2 = (32 * absoluteError x y) ^ 2 := by
    rw [absoluteError, mul_pow, mul_pow, sq_abs]
  rw [hsquare]
  exact pow_le_pow_left₀ (by unfold absoluteError; positivity) hxy 2

/-- **Nearest levels**: `encode_slice` puts a stream on the wire at the least total error exactly
when no sample lies below the midpoint of the levels around the start of its segment. -/
theorem nearest_unless_below_midpoint (law : Law) (xs : List Int16) :
    ∃ w ys, law.Encodes xs w ∧ law.Decodes w ys ∧
      ((∀ w' ys', w'.length = xs.length → law.Decodes w' ys' →
          Code.totalCost absoluteError xs ys ≤ Code.totalCost absoluteError xs ys') ↔
        ∀ x ∈ xs, ¬ law.belowMidpoint x) := by
  obtain ⟨w, hw, hys⟩ := law.hop_iff.2 (rfl : law.code.pointwise.quantise xs = _)
  refine ⟨w, _, hw, hys, ?_⟩
  have hcheap : (∀ x ∈ xs, law.code.Cheapest absoluteError x) ↔ ∀ x ∈ xs, ¬ law.belowMidpoint x :=
    forall₂_congr fun x _ => law.cheapest_iff x
  rw [← hcheap, ← law.code.forall_totalCost_le_iff xs]
  constructor
  · intro h w' hlen
    apply h w' _ hlen
    rw [law.decodes_iff, ← Law.decodeSample_eq]
    rfl
  · intro h w' ys' hlen hdec
    rw [law.decodes_iff, ← Law.decodeSample_eq] at hdec
    rw [hdec]
    exact h w' hlen

/-- At the start of a segment the encoders miss the nearest level: µ-law has 124 come out as 132
and not 120, A-law 512 as 528 and not 504. -/
theorem segment_start_not_nearest :
    (Law.mulaw.Encodes [124] [0xEF] ∧ Law.mulaw.Decodes [0xEF] [132] ∧
      Law.mulaw.Decodes [0xF0] [120] ∧
      ¬ Code.totalCost absoluteError [124] [132] ≤ Code.totalCost absoluteError [124] [120]) ∧
    (Law.alaw.Encodes [512] [0xF5] ∧ Law.alaw.Decodes [0xF5] [528] ∧
      Law.alaw.Decodes [0xCA] [504] ∧
      ¬ Code.totalCost absoluteError [512] [528] ≤ Code.totalCost absoluteError [512] [504]) := by
  simp only [Law.encodes_iff, Law.decodes_iff]
  decide +kernel

end G711
