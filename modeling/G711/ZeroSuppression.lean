import G711.Library.Runs
import G711.Codewords

/-!
# The zero-suppressed wire

What `encode_slice_zero_suppress` promises a span that must not go quiet: no all-zero octet, hence
no fifteen zero bits in a row (`not_hasRun_wireBits`), and a wire that stays as it is when a
regenerator decodes it and encodes it again, up to the negative zero (`regenerates_succ_iff`).
-/

namespace G711

open Runs

/-- `encode_slice_zero_suppress` fills every buffer of the right length with `w`. -/
def EncodesZeroSuppress (xs : List Int16) (w : List UInt8) : Prop :=
  ∀ out, xs.length = out.length → Mulaw.encodeSliceZeroSuppress xs out = (.ok (), w)

/-- The bits of an octet, polarity bit first. -/
def octetBits (b : UInt8) : List Bool := (List.range 8).map fun i => b.toNat.testBit (7 - i)

/-- The bits of a wire stream in the order of transmission. -/
def wireBits (w : List UInt8) : List Bool := w.flatMap octetBits

/-- A wire decoded by `decode_slice` and encoded by `encode_slice_zero_suppress`, `n` times. -/
inductive Regenerates : ℕ → List UInt8 → List UInt8 → Prop
  | zero (w : List UInt8) : Regenerates 0 w w
  | succ {n : ℕ} {u v w : List UInt8} {ys : List Int16} (before : Regenerates n u v)
      (decodes : Law.mulaw.Decodes v ys) (encodes : EncodesZeroSuppress ys w) :
      Regenerates (n + 1) u w

theorem encodesZeroSuppress_iff {xs : List Int16} {w : List UInt8} :
    EncodesZeroSuppress xs w ↔ w = xs.map fun s => zeroSuppress (mulawEncodeArith s) :=
  fills_iff 0 (Mulaw.encodeSliceZeroSuppress_overwrites xs)

theorem zeroSuppress_ne_zero (b : UInt8) : zeroSuppress b ≠ 0 := by
  unfold zeroSuppress
  by_cases h : b = 0
  · rw [if_pos h]
    decide
  · rw [if_neg h]
    exact h

/-! ### Bits -/

theorem length_octetBits (b : UInt8) : (octetBits b).length = 8 := by
  rw [octetBits, List.length_map, List.length_range]

theorem exists_one_bit : ∀ b : UInt8, b ≠ 0 → ∃ d ∈ octetBits b, d ≠ false :=
  forall_octet (by decide +kernel)

/-- Octets that are not all zero keep every run of zero bits below fifteen. -/
theorem not_hasRun_wireBits {w : List UInt8} (h : ∀ b ∈ w, b ≠ 0) :
    ¬ HasRun 15 false (wireBits w) := by
  have hwords : ∀ u ∈ w.map octetBits, u.length = 8 ∧ ∃ d ∈ u, d ≠ false := by
    intro u hu
    obtain ⟨b, hb, rfl⟩ := List.mem_map.1 hu
    exact ⟨length_octetBits b, exists_one_bit b (h b hb)⟩
  exact not_hasRun_flatten (by omega) hwords

/-! ### Regeneration -/

theorem canonical_ne_zero : ∀ b : UInt8, b ≠ 0 → Law.mulaw.canonical b ≠ 0 :=
  forall_octet (by decide +kernel)

/-- Regenerating an octet that is not all zero: the all-zero codeword does not come up. -/
theorem zeroSuppress_encode_decode {b : UInt8} (h : b ≠ 0) :
    zeroSuppress (mulawEncodeArith (mulawDecode b)) = Law.mulaw.canonical b := by
  have hplain : mulawEncodeArith (mulawDecode b) = Law.mulaw.canonical b :=
    Law.mulaw.encodeArith_decodeArith b
  rw [hplain, zeroSuppress, if_neg (canonical_ne_zero b h)]

theorem map_canonical_ne_zero {w : List UInt8} (hw : ∀ b ∈ w, b ≠ 0) :
    ∀ b ∈ w.map Law.mulaw.canonical, b ≠ 0 := by
  intro c hc
  obtain ⟨b, hb, rfl⟩ := List.mem_map.1 hc
  exact canonical_ne_zero b (hw b hb)

theorem map_canonical_map_canonical (w : List UInt8) :
    (w.map Law.mulaw.canonical).map Law.mulaw.canonical = w.map Law.mulaw.canonical := by
  rw [← Law.pointwise_canonical, ← Law.pointwise_canonical, Code.canonical_canonical]

theorem regenerate_iff {v w : List UInt8} (hv : ∀ b ∈ v, b ≠ 0) :
    (∃ ys, Law.mulaw.Decodes v ys ∧ EncodesZeroSuppress ys w)
      ↔ w = v.map Law.mulaw.canonical := by
  have himage : (v.map Law.mulaw.decodeArith).map (fun s => zeroSuppress (mulawEncodeArith s))
      = v.map Law.mulaw.canonical := by
    rw [List.map_map]
    exact List.map_congr_left fun b hb => zeroSuppress_encode_decode (hv b hb)
  constructor
  · rintro ⟨ys, hdecodes, hencodes⟩
    rw [encodesZeroSuppress_iff.1 hencodes, Law.mulaw.decodes_iff.1 hdecodes, himage]
  · intro hw
    refine ⟨v.map Law.mulaw.decodeArith, Law.mulaw.decodes_iff.2 rfl, ?_⟩
    rw [encodesZeroSuppress_iff, himage, hw]

theorem regenerates_succ {n : ℕ} {u w : List UInt8} :
    Regenerates (n + 1) u w ↔
      ∃ v, Regenerates n u v ∧ ∃ ys, Law.mulaw.Decodes v ys ∧ EncodesZeroSuppress ys w := by
  constructor
  · intro h
    cases h with
    | succ before decodes encodes => exact ⟨_, before, _, decodes, encodes⟩
  · rintro ⟨v, before, ys, decodes, encodes⟩
    exact .succ before decodes encodes

/-- The first regeneration makes the octets canonical, the others change nothing. -/
theorem regenerates_succ_iff {u : List UInt8} (hu : ∀ b ∈ u, b ≠ 0) (n : ℕ) {w : List UInt8} :
    Regenerates (n + 1) u w ↔ w = u.map Law.mulaw.canonical := by
  induction n generalizing w with
  | zero =>
    rw [regenerates_succ]
    constructor
    · rintro ⟨v, before, h⟩
      cases before
      exact (regenerate_iff hu).1 h
    · intro h
      exact ⟨u, .zero u, (regenerate_iff hu).2 h⟩
  | succ n ih =>
    have hstep := regenerate_iff (w := w) (map_canonical_ne_zero hu)
    rw [map_canonical_map_canonical] at hstep
    rw [regenerates_succ]
    constructor
    · rintro ⟨v, before, h⟩
      rw [ih.1 before] at h
      exact hstep.1 h
    · intro h
      exact ⟨u.map Law.mulaw.canonical, ih.2 rfl, hstep.2 h⟩

/-! ### The wire of a stream -/

/-- **The zero-suppressed wire** of a PCM stream: the plain wire with `0x02` for `0x00`; no fifteen
zero bits in a row, whatever octets meet; and the same wire again, up to `0x7F`, after any number
of regenerations. -/
theorem zero_suppressed_wire (xs : List Int16) :
    ∃ w z, Law.mulaw.Encodes xs w ∧ EncodesZeroSuppress xs z ∧
      List.Forall₂ (fun b c => (c ≠ b ↔ b = 0x00) ∧ (b = 0x00 → c = 0x02)) w z ∧
      ¬ HasRun 15 false (wireBits z) ∧
      ∀ n v, Regenerates (n + 1) z v ↔ v = z.map fun b => if b = 0x7F then 0xFF else b := by
  have hnonzero : ∀ c ∈ xs.map (fun s => zeroSuppress (mulawEncodeArith s)), c ≠ 0 := by
    intro c hc
    obtain ⟨s, -, rfl⟩ := List.mem_map.1 hc
    exact zeroSuppress_ne_zero _
  refine ⟨_, _, Law.mulaw.encodes_iff.2 rfl, encodesZeroSuppress_iff.2 rfl, ?_,
    not_hasRun_wireBits hnonzero, fun n v => regenerates_succ_iff hnonzero n⟩
  rw [List.forall₂_map_left_iff, List.forall₂_map_right_iff, List.forall₂_same]
  intro s _
  show (zeroSuppress (mulawEncodeArith s) ≠ mulawEncodeArith s ↔ _) ∧ _
  unfold zeroSuppress
  by_cases h : mulawEncodeArith s = 0x00
  · simp [Law.encodeArith, h]
  · simp [Law.encodeArith, h]

end G711
