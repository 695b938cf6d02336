import G711.Library.Codes
import G711.SliceHelpers

/-!
# Decoding and encoding a wire stream

Each law is a `Code`: the value of an octet is encoded as that octet again, but for the µ-law
octet `0x7F`, the negative zero, which has the value of `0xFF`.  `wire_fidelity` says so for whole
streams through the batch helpers: decode, then encode is lossless up to this one octet, over any
number of generations.
-/

namespace G711

open Slices

/-! ### Octets -/

/-- A property of all octets, checked on the numbers below 256. -/
theorem forall_octet {P : UInt8 → Prop} (h : ∀ i : Fin 256, P (UInt8.ofFin i)) (b : UInt8) : P b :=
  h b.toFin

namespace Law

/-- The octet that stands for all octets of the same value: µ-law has two zeros. -/
def canonical : Law → UInt8 → UInt8
  | .mulaw, b => if b = 0x7F then 0xFF else b
  | .alaw, b => b

theorem encodeArith_decodeArith (law : Law) :
    ∀ b, law.encodeArith (law.decodeArith b) = law.canonical b := by
  cases law with
  | mulaw => exact forall_octet (by decide +kernel)
  | alaw => exact forall_octet (by decide +kernel)

example : Law.mulaw.encodeArith (Law.mulaw.decodeArith 0x7F) = 0xFF := by decide

theorem decodeArith_canonical (law : Law) (b : UInt8) :
    law.decodeArith (law.canonical b) = law.decodeArith b := by
  cases law with
  | mulaw =>
    by_cases hb : b = 0x7F
    · rw [hb]
      decide
    · rw [canonical, if_neg hb]
  | alaw => rfl

/-- The octets of a law as codewords of 16-bit samples. -/
def code (law : Law) : Code UInt8 Int16 where
  decode := law.decodeSample
  encode := law.encodeSample
  decode_encode_decode b := by
    rw [decodeSample_eq, encodeSample_eq, encodeArith_decodeArith, decodeArith_canonical]

theorem code_canonical (law : Law) : law.code.canonical = law.canonical := by
  funext b
  have hcode : law.code.canonical b = law.encodeSample (law.decodeSample b) := rfl
  rw [hcode, decodeSample_eq, encodeSample_eq, encodeArith_decodeArith]

/-! ### Streams -/

theorem decodePlane_eq (law : Law) (w : List UInt8) :
    law.decodePlane w = plane (law.code.pointwise.decode w) := by
  rw [decodePlane, ← decodeSample_eq]
  rfl

theorem encodePlane_eq (law : Law) (bytes : List UInt8) :
    law.encodePlane bytes = law.code.pointwise.encode (samples bytes) := by
  rw [encodePlane, ← encodeSample_eq]
  rfl

theorem pointwise_canonical (law : Law) (w : List UInt8) :
    law.code.pointwise.canonical w = w.map law.canonical := by
  rw [Code.pointwise_canonical, code_canonical]

/-- A hop of a stream through the slices is the quantiser of the code. -/
theorem hop_iff (law : Law) {xs ys : List Int16} :
    (∃ w, law.Encodes xs w ∧ law.Decodes w ys) ↔ ys = law.code.pointwise.quantise xs := by
  have hquantise : law.code.pointwise.quantise xs
      = (xs.map law.encodeArith).map law.decodeArith := by
    rw [← decodeSample_eq, ← encodeSample_eq]
    rfl
  rw [hquantise]
  constructor
  · rintro ⟨w, hencodes, hdecodes⟩
    rw [law.decodes_iff.1 hdecodes, law.encodes_iff.1 hencodes]
  · intro h
    exact ⟨xs.map law.encodeArith, law.encodes_iff.2 rfl, law.decodes_iff.2 h⟩

theorem encodePlane_decodePlane (law : Law) (w : List UInt8) :
    law.encodePlane (law.decodePlane w) = w.map law.canonical := by
  rw [encodePlane_eq, decodePlane_eq, samples_plane, ← pointwise_canonical]
  rfl

theorem decodePlane_eq_iff (law : Law) {v w : List UInt8} :
    law.decodePlane v = law.decodePlane w ↔ v.map law.canonical = w.map law.canonical := by
  rw [decodePlane_eq, decodePlane_eq, plane_injective.eq_iff, Code.decode_eq_decode_iff,
    pointwise_canonical, pointwise_canonical]

/-- The little-endian PCM of a wire stream, in a fresh buffer. -/
def toPcm (law : Law) (w : List UInt8) : List UInt8 :=
  (law.decodeSliceToLeBytes w (List.replicate (w.length * 2) 0)).2

/-- A wire stream decoded and encoded again, in fresh buffers. -/
def generation (law : Law) (w : List UInt8) : List UInt8 :=
  (law.encodeSliceFromLeBytes (law.toPcm w) (List.replicate w.length 0)).2

theorem toPcm_eq (law : Law) (w : List UInt8) : law.toPcm w = law.decodePlane w := by
  rw [toPcm, (law.decodeSliceToLeBytes_overwrites w _).overwritten (by simp)]

theorem generation_eq (law : Law) : law.generation = law.code.pointwise.canonical := by
  funext w
  have hlen : (law.decodePlane w).length = (List.replicate w.length (0 : UInt8)).length * 2 := by
    rw [length_decodePlane, List.length_replicate, Nat.mul_comm]
  rw [generation, toPcm_eq, (law.encodeSliceFromLeBytes_overwrites _ _).overwritten hlen,
    pointwise_canonical]
  exact law.encodePlane_decodePlane w

end Law

/-- What decoding and encoding under `law` keep of a wire stream. -/
structure WireFidelity (law : Law) : Prop where
  /-- Encoding what a stream was decoded to gives the stream with canonical octets, in buffers
  with any contents. -/
  lossless : ∀ w pcm out, w.length * 2 = pcm.length → w.length = out.length →
    ∃ p, law.decodeSliceToLeBytes w pcm = (.ok (), p) ∧
      law.encodeSliceFromLeBytes p out = (.ok (), w.map law.canonical)
  /-- Two streams decode to the same PCM exactly when their canonical octets agree. -/
  same_pcm_iff : ∀ v w pv pw, v.length * 2 = pv.length → w.length * 2 = pw.length →
    ((law.decodeSliceToLeBytes v pv).2 = (law.decodeSliceToLeBytes w pw).2 ↔
      v.map law.canonical = w.map law.canonical)
  /-- Further generations change neither the canonical stream nor its PCM. -/
  generations : ∀ w n, 1 ≤ n →
    law.generation^[n] w = w.map law.canonical ∧
      law.generation^[n] (w.map law.canonical) = w.map law.canonical ∧
      law.toPcm (law.generation^[n] w) = law.toPcm w

/-- **Decode, then encode is lossless** on wire streams of any length. -/
theorem wire_fidelity (law : Law) : WireFidelity law where
  lossless := by
    intro w pcm out hpcm hout
    have hlen : (law.decodePlane w).length = out.length * 2 := by
      rw [Law.length_decodePlane, hout, Nat.mul_comm]
    refine ⟨law.decodePlane w, (law.decodeSliceToLeBytes_overwrites w pcm).overwritten hpcm, ?_⟩
    rw [(law.encodeSliceFromLeBytes_overwrites _ out).overwritten hlen,
      law.encodePlane_decodePlane]
  same_pcm_iff := by
    intro v w pv pw hv hw
    rw [(law.decodeSliceToLeBytes_overwrites v pv).overwritten hv,
      (law.decodeSliceToLeBytes_overwrites w pw).overwritten hw]
    exact law.decodePlane_eq_iff
  generations := by
    intro w n hn
    obtain ⟨n, rfl⟩ := Nat.exists_eq_add_of_le' hn
    have hcanonical : ∀ v, law.generation^[n + 1] v = v.map law.canonical := by
      intro v
      rw [law.generation_eq, Code.canonical_iterate, law.pointwise_canonical]
    have hidem : (w.map law.canonical).map law.canonical = w.map law.canonical := by
      rw [← law.pointwise_canonical, ← law.pointwise_canonical, Code.canonical_canonical]
    refine ⟨hcanonical w, by rw [hcanonical, hidem], ?_⟩
    rw [hcanonical, law.toPcm_eq, law.toPcm_eq]
    exact law.decodePlane_eq_iff.2 hidem

end G711
