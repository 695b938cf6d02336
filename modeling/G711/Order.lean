import G711.Levels
import G711.Tandem

/-!
# Order and polarity

* A hop keeps the order of samples, by the order of the levels and of the two polarities; so does
  a chain of hops, by induction.
* Negating a sample changes only bit 1 of its octet, the polarity bit, unless the sample is zero.
-/

namespace G711

/-- A PCM stream through `encode_slice` and `decode_slice` under each law in turn. -/
inductive HopsTo : List Law → List Int16 → List Int16 → Prop
  | nil (xs : List Int16) : HopsTo [] xs xs
  | cons {law : Law} {laws : List Law} {xs ys zs : List Int16} {w : List UInt8}
      (encodes : law.Encodes xs w) (decodes : law.Decodes w ys) (rest : HopsTo laws ys zs) :
      HopsTo (law :: laws) xs zs

/-- `i16::saturating_neg`. -/
def saturatingNeg (s : Int16) : Int16 := if s = -32768 then 32767 else -s

/-- The polarity bit of an octet flipped, unless it comes from a zero sample. -/
def flipPolarity (s : Int16) (b : UInt8) : UInt8 := if s = 0 then b else b ^^^ 0x80

/-! ### Chains -/

/-- The slices determine the chain: sample by sample it is `hops`. -/
theorem hopsTo_iff {laws : List Law} {xs zs : List Int16} :
    HopsTo laws xs zs ↔ zs = hops xs laws := by
  constructor
  · intro h
    induction h with
    | nil xs => rfl
    | @cons law laws xs ys zs w encodes decodes rest ih =>
      have hy := law.hop_iff.1 ⟨w, encodes, decodes⟩
      rw [ih, hy, ← law.quantise_eq]
      rfl
  · intro h
    subst h
    induction laws generalizing xs with
    | nil => exact HopsTo.nil xs
    | cons law laws ih =>
      obtain ⟨w, encodes, decodes⟩ := law.hop_iff.2 (law.quantise_eq xs)
      exact HopsTo.cons encodes decodes ih

namespace Law

/-- What lies lower is decoded no higher. -/
theorem quantise_le (law : Law) {x y : Int16} (h : x ≤ y) :
    law.decodeSample (law.encodeSample x) ≤ law.decodeSample (law.encodeSample y) := by
  show law.code.quantise x ≤ law.code.quantise y
  rw [Int16.le_iff_toInt_le] at h ⊢
  rw [quantise_toInt, quantise_toInt]
  by_cases hx : x.toInt < 0
  · by_cases hy : y.toInt < 0
    · have hm : law.magnitude y ≤ law.magnitude x := by
        unfold magnitude
        omega
      have hlevel := law.grid.level_mono hm
      simp only [hx, hy, decide_true, withSign_true]
      omega
    · simp only [hx, hy, decide_true, decide_false, withSign_true, withSign_false]
      omega
  · have hy : ¬ y.toInt < 0 := by omega
    have hm : law.magnitude x ≤ law.magnitude y := by
      unfold magnitude
      omega
    have hlevel := law.grid.level_mono hm
    simp only [hx, hy, decide_false, withSign_false]
    omega

theorem quantise_forall₂_le (law : Law) {xs ys : List Int16} (h : List.Forall₂ (· ≤ ·) xs ys) :
    List.Forall₂ (· ≤ ·) (law.quantise xs) (law.quantise ys) := by
  unfold quantise
  rw [List.forall₂_map_left_iff, List.forall₂_map_right_iff]
  exact h.imp fun _ _ hxy => law.quantise_le hxy

end Law

theorem hops_forall₂_le (laws : List Law) {xs ys : List Int16}
    (h : List.Forall₂ (· ≤ ·) xs ys) : List.Forall₂ (· ≤ ·) (hops xs laws) (hops ys laws) := by
  induction laws generalizing xs ys with
  | nil => exact h
  | cons law laws ih => exact ih (law.quantise_forall₂_le h)

/-! ### Polarity -/

theorem toInt_saturatingNeg (s : Int16) :
    (saturatingNeg s).toInt = min 32767 (-s.toInt) := by
  have hlow := s.le_toInt
  have hhigh := s.toInt_lt
  by_cases h : s = -32768
  · subst h
    decide
  · have hne : s.toInt ≠ -32768 := fun heq => h (Int16.toInt.inj heq)
    rw [saturatingNeg, if_neg h, Int16.toInt_neg, Int.bmod_eq_of_le (by omega) (by omega)]
    omega

namespace Law

theorem magnitude_saturatingNeg (law : Law) (s : Int16) :
    law.magnitude (saturatingNeg s) = law.magnitude s := by
  have hlow := s.le_toInt
  have hclip : law.clip ≤ 32767 := by
    cases law <;> decide
  unfold magnitude
  rw [toInt_saturatingNeg]
  omega

/-- The polarity bit is bit 1 under both laws; neither the inversion of µ-law nor the alternate
inversion of A-law confuses it with the other bits. -/
theorem octet_not (law : Law) (negative : Bool) {seg mant : ℕ} (hseg : seg < 8)
    (hmant : mant < 16) :
    law.octet (!negative) seg mant = law.octet negative seg mant ^^^ 0x80 := by
  have fields : ∀ law negative, ∀ seg : Fin 8, ∀ mant : Fin 16,
      octet law (!negative) seg mant = octet law negative seg mant ^^^ 0x80 := by
    intro law
    cases law <;> decide +kernel
  exact fields law negative ⟨seg, hseg⟩ ⟨mant, hmant⟩

theorem encodeArith_saturatingNeg (law : Law) (s : Int16) :
    law.encodeArith (saturatingNeg s) = flipPolarity s (law.encodeArith s) := by
  unfold flipPolarity
  by_cases h : s = 0
  · rw [if_pos h, h]
    rfl
  · have hne : s.toInt ≠ 0 := fun heq => h (Int16.toInt.inj heq)
    have hsign : decide ((saturatingNeg s).toInt < 0) = !decide (s.toInt < 0) := by
      rw [toInt_saturatingNeg, ← decide_not, decide_eq_decide]
      omega
    rw [if_neg h, encodeArith_eq, encodeArith_eq, magnitude_saturatingNeg, hsign,
      octet_not _ _ (law.segment_magnitude_lt s) (mantissa_lt _ _)]

end Law

/-- **Order and polarity are preserved**: chains of hops under any laws keep the pointwise order of
streams, and negating a stream flips the polarity bit of the octets of its nonzero samples. -/
theorem order_and_polarity :
    (∀ laws xs ys, List.Forall₂ (· ≤ ·) xs ys →
      ∃ xs' ys', HopsTo laws xs xs' ∧ HopsTo laws ys ys' ∧ List.Forall₂ (· ≤ ·) xs' ys') ∧
    ∀ (law : Law) xs, ∃ w, law.Encodes xs w ∧
      law.Encodes (xs.map saturatingNeg) (List.zipWith flipPolarity xs w) := by
  constructor
  · intro laws xs ys h
    exact ⟨hops xs laws, hops ys laws, hopsTo_iff.2 rfl, hopsTo_iff.2 rfl, hops_forall₂_le laws h⟩
  · intro law xs
    refine ⟨xs.map law.encodeArith, law.encodes_iff.2 rfl, law.encodes_iff.2 ?_⟩
    rw [List.zipWith_map_right, List.zipWith_self, List.map_map]
    exact List.map_congr_left fun s _ => (law.encodeArith_saturatingNeg s).symm

/-- A chain through both laws, at two pairs of samples. -/
theorem order_and_polarity_pair :
    ∃ xs' ys', HopsTo [.mulaw, .alaw] [-5, 1000] xs' ∧ HopsTo [.mulaw, .alaw] [7, 1001] ys' ∧
      List.Forall₂ (· ≤ ·) xs' ys' :=
  order_and_polarity.1 [.mulaw, .alaw] [-5, 1000] [7, 1001] (by decide)

end G711
