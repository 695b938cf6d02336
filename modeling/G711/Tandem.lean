import G711.Codewords

/-!
# The two laws in tandem

Chains of gateways between µ-law and A-law.

* `tandem_settles`: the loss does not accumulate.  A chain of hops gives the PCM of its reduced
  chain, of at most three hops, and the wire repeats from the first transcode on.
* `tandem_keeps_seven_bits`: what an even number of transcodes keeps of an octet.  The crate
  requantises through uniform PCM and does not use the conversion tables of the Recommendation, so
  the negative zero of µ-law and two A-law octets at the top of a segment leave their bits 1 to 7.
-/

namespace G711

namespace Law

@[simp] theorem other_other (law : Law) : law.other.other = law := by
  cases law <;> rfl

theorem eq_other {law law' : Law} (h : law ≠ law') : law' = law.other := by
  cases law <;> cases law' <;> simp [other] at h ⊢

/-! ### Hops -/

/-- A hop under a law: every sample of a PCM stream encoded and decoded again. -/
def quantise (law : Law) (xs : List Int16) : List Int16 :=
  xs.map fun s => law.decodeSample (law.encodeSample s)

/-- A wire stream under a law, converted to the other law through PCM. -/
def transcode (law : Law) (w : List UInt8) : List UInt8 :=
  w.map fun b => law.other.encodeSample (law.decodeSample b)

/-- Alternating transcodes of a stream that starts under `law`. -/
def transcodes (law : Law) : ℕ → List UInt8 → List UInt8
  | 0, w => w
  | n + 1, w => law.other.transcodes n (law.transcode w)

theorem quantise_eq (law : Law) (xs : List Int16) :
    law.quantise xs = law.code.pointwise.quantise xs := by
  rw [Code.pointwise_quantise]
  rfl

theorem transcodes_eq (law : Law) (n : ℕ) (w : List UInt8) :
    law.transcodes n w = w.map (Code.hops law.code law.other.code n) := by
  induction n generalizing law w with
  | zero => exact (List.map_id w).symm
  | succ n ih =>
    rw [transcodes, ih, other_other, transcode, List.map_map]
    rfl

end Law

/-- The PCM stream after a chain of hops. -/
def hops (xs : List Int16) (laws : List Law) : List Int16 :=
  laws.foldl (fun xs law => law.quantise xs) xs

theorem hops_eq_chain (xs : List Int16) (laws : List Law) :
    hops xs laws = Code.chain (fun law => law.code.pointwise) xs laws := by
  unfold hops Code.chain
  simp only [Law.quantise_eq]

/-! ### Octets -/

namespace Law

theorem transcode_code (law : Law) (b : UInt8) :
    Code.transcode law.code law.other.code b = law.other.encodeArith (law.decodeArith b) := by
  rw [← decodeSample_eq, ← encodeSample_eq]
  rfl

theorem transcode_code_other (law : Law) (b : UInt8) :
    Code.transcode law.other.code law.code b = law.encodeArith (law.other.decodeArith b) := by
  simpa using law.other.transcode_code b

/-- An octet after the conversion to the other law and back. -/
def twice (law : Law) (b : UInt8) : UInt8 :=
  law.encodeArith (law.other.decodeArith (law.other.encodeArith (law.decodeArith b)))

/-- A third transcode gives the octet of the first again. -/
theorem encodeArith_twice (law : Law) :
    ∀ b, law.other.encodeArith (law.decodeArith (law.twice b))
      = law.other.encodeArith (law.decodeArith b) := by
  cases law with
  | mulaw => exact forall_octet (by decide +kernel)
  | alaw => exact forall_octet (by decide +kernel)

theorem settles (law : Law) : Code.Settles law.code law.other.code := by
  intro b
  rw [transcode_code, transcode_code_other, transcode_code]
  exact law.encodeArith_twice b

/-- The octets that a double conversion moves further than their last bit, and where to. -/
def displaced : Law → UInt8 → Option UInt8
  | .mulaw, b => if b = 0x7F then some 0xFE else none
  | .alaw, b => if b = 0x0A then some 0x35 else if b = 0x8A then some 0xB5 else none

theorem twice_of_displaced {law : Law} {b c : UInt8} (h : law.displaced b = some c) :
    law.twice b = c := by
  cases law with
  | mulaw =>
    simp only [displaced, Option.ite_none_right_eq_some, Option.some.injEq] at h
    obtain ⟨rfl, rfl⟩ := h
    decide
  | alaw =>
    by_cases hb : b = 0x0A
    · simp only [displaced, if_pos hb, Option.some.injEq] at h
      rw [← h, hb]
      decide
    · simp only [displaced, if_neg hb, Option.ite_none_right_eq_some, Option.some.injEq] at h
      obtain ⟨rfl, rfl⟩ := h
      decide

theorem twice_and_of_not_displaced (law : Law) :
    ∀ b, law.displaced b = none → law.twice b &&& 0xFE = b &&& 0xFE := by
  cases law with
  | mulaw => exact forall_octet (by decide +kernel)
  | alaw => exact forall_octet (by decide +kernel)

/-- An even number of transcodes is none, or one double conversion. -/
theorem transcodes_two_mul (law : Law) {k : ℕ} (hk : 1 ≤ k) (w : List UInt8) :
    law.transcodes (2 * k) w = w.map law.twice := by
  rw [transcodes_eq]
  refine List.map_congr_left fun b _ => ?_
  rw [law.settles.hops_two_mul hk, transcode_code_other, transcode_code, twice]

end Law

/-! ### Stability -/

/-- **The loss does not accumulate**: a chain of hops gives what its reduced chain gives, and from
the first transcode on the wire repeats with period two. -/
theorem tandem_settles :
    (∀ xs laws, hops xs laws = hops xs (Code.reduced laws)) ∧
      ∀ (law : Law) w k, 1 ≤ k → law.transcodes (k + 2) w = law.transcodes k w := by
  constructor
  · intro xs laws
    rw [hops_eq_chain, hops_eq_chain]
    exact (Code.chain_reduced _ Law.other_other (fun _ _ => Law.eq_other)
      (fun law => law.settles.pointwise) xs laws).symm
  · intro law w k hk
    rw [law.transcodes_eq, law.transcodes_eq]
    exact List.map_congr_left fun b _ => law.settles.hops_add_two hk b

/-! ### Transparency -/

/-- All bits but the last of every octet agree. -/
def SameSevenBits (w w' : List UInt8) : Prop :=
  List.Forall₂ (fun b b' => b' &&& 0xFE = b &&& 0xFE) w w'

instance (w w' : List UInt8) : Decidable (SameSevenBits w w') :=
  inferInstanceAs (Decidable (List.Forall₂ _ w w'))

/-- **What an even number of transcodes keeps**: bits 1 to 7 of every octet, except that the
displaced octets become others once there is a transcode. -/
theorem tandem_keeps_seven_bits (law : Law) (k : ℕ) (w : List UInt8) :
    List.Forall₂
      (fun b b' => match law.displaced b with
        | none => b' &&& 0xFE = b &&& 0xFE
        | some c => b' = if k = 0 then b else c)
      w (law.transcodes (2 * k) w) := by
  rcases Nat.eq_zero_or_pos k with rfl | hk
  · refine List.forall₂_same.2 fun b _ => ?_
    cases law.displaced b <;> rfl
  · rw [law.transcodes_two_mul hk, List.forall₂_map_right_iff, List.forall₂_same]
    intro b _
    cases h : law.displaced b with
    | none => exact law.twice_and_of_not_displaced b h
    | some c => exact (Law.twice_of_displaced h).trans (if_neg (by omega)).symm

/-- Two transcodes change the polarity bit of the negative µ-law zero, and in A-law the octet at
the top of a segment becomes the first of the next. -/
theorem tandem_changes_seven_bits :
    ¬ SameSevenBits [0x7F] (Law.mulaw.transcodes 2 [0x7F]) ∧
      ¬ SameSevenBits [0x0A] (Law.alaw.transcodes 2 [0x0A]) := by
  have hmu : Law.mulaw.transcodes 2 [0x7F] = [0xFE] := by
    rw [Law.mulaw.transcodes_two_mul le_rfl]
    decide
  have ha : Law.alaw.transcodes 2 [0x0A] = [0x35] := by
    rw [Law.alaw.transcodes_two_mul le_rfl]
    decide
  rw [hmu, ha]
  decide

end G711
