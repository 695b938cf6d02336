import G711.Law

/-!
# The batch helpers compute pointwise images

Each helper panics with the buffer untouched when its length relation fails, and otherwise
overwrites the whole buffer with the pointwise image of the input under the law's formula.
-/

namespace G711

open Slices

/-- The sample plane that a packet payload decodes to. -/
def Law.decodePlane (law : Law) (data : List UInt8) : List UInt8 :=
  plane (data.map law.decodeArith)

/-- The packet payload that a sample plane encodes to. -/
def Law.encodePlane (law : Law) (bytes : List UInt8) : List UInt8 :=
  (samples bytes).map law.encodeArith

@[simp] theorem Law.length_decodePlane (law : Law) (data : List UInt8) :
    (law.decodePlane data).length = 2 * data.length := by
  unfold Law.decodePlane
  rw [length_plane, List.length_map]

@[simp] theorem Law.length_encodePlane (law : Law) (bytes : List UInt8) :
    (law.encodePlane bytes).length = bytes.length / 2 := by
  unfold Law.encodePlane
  rw [List.length_map, length_samples]

/-- Encoding a plane and decoding it quantises its samples. -/
theorem Law.decodePlane_encodePlane (law : Law) (bytes : List UInt8) :
    law.decodePlane (law.encodePlane bytes)
      = plane ((samples bytes).map fun s => law.decodeSample (law.encodeSample s)) := by
  unfold Law.decodePlane Law.encodePlane
  rw [List.map_map, Law.decodeSample_eq, Law.encodeSample_eq]
  rfl

/-- A call on a buffer panics exactly when `fits` fails, and then has not written; otherwise the
buffer holds `image`, whatever it held before. -/
structure OverwritesIf {β : Type} (fits : Prop) (image output : List β)
    (call : Outcome Unit × List β) : Prop where
  panics_iff : (∃ msg, call.1 = .error (.panic msg)) ↔ ¬ fits
  unwritten : ¬ fits → call.2 = output
  overwritten : fits → call = (.ok (), image)

/-- The shape that all helpers share: a length check, then the loop. -/
theorem overwritesIf_ite {β : Type} {fits : Prop} [Decidable fits] {image output written : List β}
    {msg : String} (h : fits → written = image) :
    OverwritesIf fits image output
      (if fits then (.ok (), written) else (.error (.panic msg), output)) := by
  by_cases hf : fits
  · rw [if_pos hf, h hf]
    exact ⟨by simp [hf], fun hn => absurd hf hn, fun _ => rfl⟩
  · rw [if_neg hf]
    exact ⟨by simp [hf], fun _ => rfl, fun hp => absurd hp hf⟩

/-- What a helper writes into every buffer of the right length is the image, and nothing else. -/
theorem fills_iff {β : Type} (zero : β) {n : ℕ} {image filled : List β}
    {call : List β → Outcome Unit × List β}
    (h : ∀ output, OverwritesIf (n = output.length) image output (call output)) :
    (∀ output, n = output.length → call output = (.ok (), filled)) ↔ filled = image := by
  constructor
  · intro hfill
    have hlen : n = (List.replicate n zero).length := List.length_replicate.symm
    have hfresh := hfill _ hlen
    rw [(h _).overwritten hlen] at hfresh
    exact (congrArg Prod.snd hfresh).symm
  · intro himage output hlen
    rw [himage]
    exact (h output).overwritten hlen

namespace Law

variable (law : Law)

theorem decodeSlice_overwrites (input : List UInt8) (output : List Int16) :
    OverwritesIf (input.length = output.length) (input.map law.decodeArith) output
      (law.decodeSlice input output) := by
  cases law with
  | mulaw =>
    refine overwritesIf_ite fun h => ?_
    rw [zipWrite_eq_map _ h, funext mulawDecodeTable_get]
    rfl
  | alaw =>
    refine overwritesIf_ite fun h => ?_
    rw [zipWrite_eq_map _ h, funext alawDecodeTable_get]
    rfl

theorem decodeSliceToLeBytes_overwrites (input output : List UInt8) :
    OverwritesIf (input.length * 2 = output.length) (law.decodePlane input) output
      (law.decodeSliceToLeBytes input output) := by
  cases law with
  | mulaw =>
    refine overwritesIf_ite fun h => ?_
    rw [zipWritePairs_eq_unpairs _ h, funext mulawDecodeLeTable_get, decodePlane, plane,
      List.map_map]
    rfl
  | alaw =>
    refine overwritesIf_ite fun h => ?_
    rw [zipWritePairs_eq_unpairs _ h, funext alawDecodeLeTable_get, decodePlane, plane,
      List.map_map]
    rfl

theorem encodeSlice_overwrites (input : List Int16) (output : List UInt8) :
    OverwritesIf (input.length = output.length) (input.map law.encodeArith) output
      (law.encodeSlice input output) := by
  cases law with
  | mulaw =>
    refine overwritesIf_ite fun h => ?_
    rw [zipWrite_eq_map _ h, funext mulawEncodeTable_get]
    rfl
  | alaw =>
    refine overwritesIf_ite fun h => ?_
    rw [zipWrite_eq_map _ h, funext alawEncodeTable_get]
    rfl

theorem encodeSliceFromLeBytes_overwrites (input output : List UInt8) :
    OverwritesIf (input.length = output.length * 2) (law.encodePlane input) output
      (law.encodeSliceFromLeBytes input output) := by
  cases law with
  | mulaw =>
    refine overwritesIf_ite fun h => ?_
    rw [zipWrite_eq_map _ (by rw [length_pairs, h, Nat.mul_div_cancel _ (by decide)]),
      encodePlane, samples, List.map_map]
    exact List.map_congr_left fun p _ => mulawEncodeTable_get (ofLeBytes p)
  | alaw =>
    refine overwritesIf_ite fun h => ?_
    rw [zipWrite_eq_map _ (by rw [length_pairs, h, Nat.mul_div_cancel _ (by decide)]),
      encodePlane, samples, List.map_map]
    exact List.map_congr_left fun p _ => alawEncodeTable_get (ofLeBytes p)

/-- `encode_slice` fills every buffer of the right length with `w`, whatever it held before. -/
def Encodes (xs : List Int16) (w : List UInt8) : Prop :=
  ∀ out, xs.length = out.length → law.encodeSlice xs out = (.ok (), w)

/-- `decode_slice` fills every buffer of the right length with `ys`, whatever it held before. -/
def Decodes (w : List UInt8) (ys : List Int16) : Prop :=
  ∀ out, w.length = out.length → law.decodeSlice w out = (.ok (), ys)

theorem encodes_iff {xs : List Int16} {w : List UInt8} :
    law.Encodes xs w ↔ w = xs.map law.encodeArith :=
  fills_iff 0 (law.encodeSlice_overwrites xs)

theorem decodes_iff {w : List UInt8} {ys : List Int16} :
    law.Decodes w ys ↔ ys = w.map law.decodeArith :=
  fills_iff 0 (law.decodeSlice_overwrites w)

end Law

/-- The all-zero codeword rewritten to its replacement, every other codeword kept. -/
def zeroSuppress (b : UInt8) : UInt8 := if b = 0x00 then 0x02 else b

theorem Mulaw.encodeSliceZeroSuppress_overwrites (input : List Int16) (output : List UInt8) :
    OverwritesIf (input.length = output.length)
      (input.map fun s => zeroSuppress (mulawEncodeArith s)) output
      (Mulaw.encodeSliceZeroSuppress input output) := by
  refine overwritesIf_ite fun h => ?_
  rw [zipWrite_eq_map _ h, funext mulawEncodeZeroSuppressTable_get]
  rfl

end G711
