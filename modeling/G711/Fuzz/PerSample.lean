import G711.Cells
import G711.Fuzz.Harness
import G711.ZeroSuppression

/-!
# `per_sample_invariants` and `zero_suppress_invariants`

Two fuzz targets that check the single-sample functions on arbitrary samples and octets, and then
that the slice helpers do the same to a whole buffer.  What they check holds on every input:
encoding is a projection up to the two zeros of µ-law, the error of a sample stays within the step
of its segment, the polarity bit changes the sign and nothing else, and the zero-suppressed encoder
rewrites exactly the all-zero codeword.
-/

namespace G711
namespace Fuzz

open Slices

/-- The name of a law in the messages. -/
def lawName : Law → String
  | .mulaw => "µ-law"
  | .alaw => "A-law"

/-! ### The operations of `per_sample_invariants`

The numbers are so small that `i32` is `ℤ` here. -/

/-- `alaw_step_bound`. -/
def alawStepBound (seg : ℕ) : ℤ := 2 ^ (seg + 4)

/-- `mulaw_step_bound`. -/
def mulawStepBound (seg : ℕ) : ℤ := 2 ^ (seg + 3)

/-- `segment_from_byte`. -/
def segmentFromByte (byte : UInt8) (alawLaw : Bool) : ℕ :=
  let unwrapped := if alawLaw then byte ^^^ 0x55 else ~~~byte
  ((unwrapped >>> 4) &&& 0x07).toNat

/-- Operation 0: a sample under µ-law. -/
def checkMulawSample (s : Int16) : Harness Unit := do
  let b := Mulaw.encodeSample s
  let d := Mulaw.decodeSample b
  let b2 := Mulaw.encodeSample d
  -- the negative zero may come back as the positive one
  let zeroCollapse := d = 0 ∧ b = 0x7F ∧ b2 = 0xFF
  if ¬ zeroCollapse then
    assertEq b b2 "µ-law projection-idempotence violation"
  let bound := mulawStepBound (segmentFromByte b false)
  let err := |s.toInt - d.toInt|
  let saturationSlack := if |s.toInt| > 32635 then 644 else 0
  assertTrue (err ≤ bound + saturationSlack) "µ-law step-bound violation"

/-- Operation 1: an octet under µ-law. -/
def checkMulawOctet (b : UInt8) : Harness Unit := do
  let d := Mulaw.decodeSample b
  let dNeg := Mulaw.decodeSample (b ^^^ 0x80)
  let canonicalZero := b &&& 0x7F = 0x7F
  if ¬ canonicalZero then
    assertEq dNeg.toInt (-d.toInt) "µ-law sign-symmetry violation"

/-- Operation 2: a sample under A-law. -/
def checkAlawSample (s : Int16) : Harness Unit := do
  let b := Alaw.encodeSample s
  let d := Alaw.decodeSample b
  let b2 := Alaw.encodeSample d
  assertEq b b2 "A-law projection-idempotence violation"
  let bound := alawStepBound (segmentFromByte b true)
  let err := |s.toInt - d.toInt|
  let saturationSlack := if |s.toInt| > 32256 then 512 else 0
  assertTrue (err ≤ bound + saturationSlack) "A-law step-bound violation"

/-- Operation 3: an octet under A-law. -/
def checkAlawOctet (b : UInt8) : Harness Unit := do
  let d := Alaw.decodeSample b
  let dNeg := Alaw.decodeSample (b ^^^ 0x80)
  assertEq dNeg.toInt (-d.toInt) "A-law sign-symmetry violation"

/-- The operation that a chunk stands for. -/
def checkOperation (chunk : UInt8 × UInt8 × UInt8) : Harness Unit :=
  match chunk.1 % 4 with
  | 0 => checkMulawSample (ofLeBytes chunk.2)
  | 1 => checkMulawOctet chunk.2.1
  | 2 => checkAlawSample (ofLeBytes chunk.2)
  | _ => checkAlawOctet chunk.2.1

/-- `data.chunks(3)`; what is missing in the last chunk is read as zero. -/
def chunksOfThree : List UInt8 → List (UInt8 × UInt8 × UInt8)
  | [] => []
  | [a] => [(a, 0, 0)]
  | [a, b] => [(a, b, 0)]
  | a :: b :: c :: data => (a, b, c) :: chunksOfThree data

/-! ### The slice helpers against the single-sample functions -/

/-- What a sample of the two decoded buffers should be.  An index out of bounds panics, too. -/
def checkDecoded (law : Law) (pcm : List Int16) (le : List UInt8) (x : UInt8 × ℕ) :
    Harness Unit := do
  let (b, i) := x
  let want := law.decodeSample b
  assertEq pcm[i]? (some want) s!"{lawName law} decode_slice diverged at {i}"
  assertEq ((le.drop (2 * i)).take 2) [(leBytes want).1, (leBytes want).2]
    s!"{lawName law} decode_slice_to_le_bytes diverged at {i}"

/-- The decode side under a law; the buffers are used again for the next law. -/
def replayDecode (law : Law) (bytes : List UInt8) (pcm : List Int16) (le : List UInt8) :
    Harness (List Int16 × List UInt8) := do
  let (done, pcm) := law.decodeSlice bytes pcm
  discard done
  let (done, le) := law.decodeSliceToLeBytes bytes le
  discard done
  bytes.zipIdx.foldlM (fun _ x => checkDecoded law pcm le x) ()
  return (pcm, le)

/-- What an octet of the two encoded buffers should be. -/
def checkEncoded (law : Law) (wire wireLe : List UInt8) (x : Int16 × ℕ) : Harness Unit := do
  let (s, i) := x
  let want := law.encodeSample s
  assertEq wire[i]? (some want) s!"{lawName law} encode_slice diverged at {i}"
  assertEq wireLe[i]? (some want) s!"{lawName law} encode_slice_from_le_bytes diverged at {i}"

/-- The encode side under a law. -/
def replayEncode (law : Law) (lePcm wire wireLe : List UInt8) :
    Harness (List UInt8 × List UInt8) := do
  let (done, wire) := law.encodeSlice (samples lePcm) wire
  discard done
  let (done, wireLe) := law.encodeSliceFromLeBytes lePcm wireLe
  discard done
  (samples lePcm).zipIdx.foldlM (fun _ x => checkEncoded law wire wireLe x) ()
  return (wire, wireLe)

/-- The batch cross-check. -/
def crossCheck (data : List UInt8) : Harness Unit := do
  let n := min data.length 4096
  let bytes := data.take n
  let (pcm, le) ← replayDecode .mulaw bytes (List.replicate n 0) (List.replicate (n * 2) 0)
  let _ ← replayDecode .alaw bytes pcm le
  -- `n & !1`
  let even := n / 2 * 2
  let lePcm := bytes.take even
  let count := (samples lePcm).length
  let (wire, wireLe) ← replayEncode .mulaw lePcm (List.replicate count 0) (List.replicate count 0)
  let _ ← replayEncode .alaw lePcm wire wireLe

/-- `per_sample_invariants`. -/
def perSampleInvariants (data : List UInt8) : Harness Unit := do
  (chunksOfThree data).foldlM (fun _ chunk => checkOperation chunk) ()
  crossCheck data

/-! ### Why the operations pass -/

/-- The bound that the two sample operations check. -/
def stepBound (law : Law) (b : UInt8) : ℤ :=
  match law with
  | .mulaw => mulawStepBound (segmentFromByte b false)
  | .alaw => alawStepBound (segmentFromByte b true)

/-- What they allow a sample in the saturation band above the bound. -/
def slack : Law → ℤ
  | .mulaw => 644
  | .alaw => 512

/-- The two ends of a cell are no further from its level than the bound, and the saturation band no
further than the slack allows. -/
theorem cell_error (law : Law) : ∀ b,
    (law.decodeArith b).toInt - stepBound law b ≤ max (law.cellLow b) (-(law.clip : ℤ)) ∧
      min (law.cellHigh b) law.clip ≤ (law.decodeArith b).toInt + stepBound law b ∧
      (law.decodeArith b).toInt - (stepBound law b + slack law) ≤ law.cellLow b ∧
      law.cellHigh b ≤ (law.decodeArith b).toInt + (stepBound law b + slack law) := by
  cases law <;> exact forall_octet (by decide +kernel)

/-- The quantisation error of a sample, within the step of its segment and the slack. -/
theorem error_le (law : Law) (s : Int16) :
    |s.toInt - (law.decodeArith (law.encodeArith s)).toInt|
      ≤ stepBound law (law.encodeArith s) + if |s.toInt| > law.clip then slack law else 0 := by
  obtain ⟨hlow, hhigh⟩ := (law.encodeArith_eq_iff s _).1 rfl
  obtain ⟨hclipLow, hclipHigh, hslackLow, hslackHigh⟩ := cell_error law (law.encodeArith s)
  rw [abs_le]
  by_cases hsat : |s.toInt| > law.clip
  · rw [if_pos hsat]
    omega
  · rw [if_neg hsat]
    have habs := abs_le.1 (not_lt.1 hsat)
    omega

/-- The polarity bit changes the sign, but for the two zeros of µ-law. -/
theorem decode_polarity (law : Law) : ∀ b, ¬ (law = .mulaw ∧ b &&& 0x7F = 0x7F) →
    (law.decodeArith (b ^^^ 0x80)).toInt = -(law.decodeArith b).toInt := by
  cases law <;> exact forall_octet (by decide +kernel)

theorem checkMulawSample_ok (s : Int16) : checkMulawSample s = .ok () := by
  have herror := error_le .mulaw s
  have hback := Law.mulaw.encodeArith_decodeArith (Law.mulaw.encodeArith s)
  unfold checkMulawSample
  rw [show Mulaw.encodeSample = Law.mulaw.encodeArith from Law.mulaw.encodeSample_eq,
    show Mulaw.decodeSample = Law.mulaw.decodeArith from Law.mulaw.decodeSample_eq]
  dsimp only
  rw [hback]
  generalize Law.mulaw.encodeArith s = b at herror
  by_cases hb : b = 0x7F
  · subst hb
    rw [if_neg (not_not_intro (by decide))]
    exact assertTrue_ok herror _
  · have hsame : Law.mulaw.canonical b = b := if_neg hb
    rw [if_pos (fun h => hb h.2.1), hsame, assertEq_ok rfl, ok_bind]
    exact assertTrue_ok herror _

theorem checkMulawOctet_ok (b : UInt8) : checkMulawOctet b = .ok () := by
  unfold checkMulawOctet
  rw [show Mulaw.decodeSample = Law.mulaw.decodeArith from Law.mulaw.decodeSample_eq]
  dsimp only
  by_cases hzero : b &&& 0x7F = 0x7F
  · rw [if_neg (not_not_intro hzero)]
    rfl
  · rw [if_pos hzero, assertEq_ok (decode_polarity .mulaw b fun h => hzero h.2)]

theorem checkAlawSample_ok (s : Int16) : checkAlawSample s = .ok () := by
  have hback : Law.alaw.encodeArith (Law.alaw.decodeArith (Law.alaw.encodeArith s))
      = Law.alaw.encodeArith s := Law.alaw.encodeArith_decodeArith _
  unfold checkAlawSample
  rw [show Alaw.encodeSample = Law.alaw.encodeArith from Law.alaw.encodeSample_eq,
    show Alaw.decodeSample = Law.alaw.decodeArith from Law.alaw.decodeSample_eq]
  dsimp only
  rw [assertEq_ok hback.symm, ok_bind]
  exact assertTrue_ok (error_le .alaw s) _

theorem checkAlawOctet_ok (b : UInt8) : checkAlawOctet b = .ok () := by
  unfold checkAlawOctet
  rw [show Alaw.decodeSample = Law.alaw.decodeArith from Law.alaw.decodeSample_eq]
  exact assertEq_ok (decode_polarity .alaw b fun h => nomatch h.1) _

theorem checkOperation_ok (chunk : UInt8 × UInt8 × UInt8) : checkOperation chunk = .ok () := by
  unfold checkOperation
  split
  · exact checkMulawSample_ok _
  · exact checkMulawOctet_ok _
  · exact checkAlawSample_ok _
  · exact checkAlawOctet_ok _

/-! ### Why the replay passes -/

theorem replayDecode_ok (law : Law) {bytes : List UInt8} {pcm : List Int16} {le : List UInt8}
    (hpcm : bytes.length = pcm.length) (hle : bytes.length * 2 = le.length) :
    replayDecode law bytes pcm le = .ok (bytes.map law.decodeArith, law.decodePlane bytes) := by
  have hchecks : bytes.zipIdx.foldlM (fun _ x =>
      checkDecoded law (bytes.map law.decodeArith) (law.decodePlane bytes) x) () = .ok () := by
    refine Loops.foldlM_zipIdx_checks fun i b hb => ?_
    have hplane : ((law.decodePlane bytes).drop (2 * i)).take 2
        = [(leBytes (law.decodeArith b)).1, (leBytes (law.decodeArith b)).2] := by
      unfold Law.decodePlane plane
      rw [take_drop_unpairs]
      simp [hb]
    have hpcm : (bytes.map law.decodeArith)[i]? = some (law.decodeArith b) := by
      simp [hb]
    unfold checkDecoded
    rw [law.decodeSample_eq]
    dsimp only
    rw [assertEq_ok hpcm, ok_bind, assertEq_ok hplane]
  unfold replayDecode
  rw [(law.decodeSlice_overwrites bytes pcm).overwritten hpcm,
    (law.decodeSliceToLeBytes_overwrites bytes le).overwritten hle]
  dsimp only
  rw [discard_ok, ok_bind, ok_bind, hchecks]
  rfl

theorem replayEncode_ok (law : Law) {lePcm wire wireLe : List UInt8}
    (hwire : (samples lePcm).length = wire.length) (hwireLe : lePcm.length = wireLe.length * 2) :
    replayEncode law lePcm wire wireLe = .ok (law.encodePlane lePcm, law.encodePlane lePcm) := by
  have hchecks : (samples lePcm).zipIdx.foldlM (fun _ x =>
      checkEncoded law (law.encodePlane lePcm) (law.encodePlane lePcm) x) () = .ok () := by
    refine Loops.foldlM_zipIdx_checks fun i s hs => ?_
    have hwritten : (law.encodePlane lePcm)[i]? = some (law.encodeArith s) := by
      simp [Law.encodePlane, hs]
    unfold checkEncoded
    rw [law.encodeSample_eq]
    dsimp only
    rw [assertEq_ok hwritten, ok_bind, assertEq_ok hwritten]
  unfold replayEncode
  rw [(law.encodeSlice_overwrites (samples lePcm) wire).overwritten hwire,
    (law.encodeSliceFromLeBytes_overwrites lePcm wireLe).overwritten hwireLe]
  show (do
    discard (.ok ())
    discard (.ok ())
    (samples lePcm).zipIdx.foldlM (fun _ x =>
      checkEncoded law (law.encodePlane lePcm) (law.encodePlane lePcm) x) ()
    return (law.encodePlane lePcm, law.encodePlane lePcm)) = _
  rw [discard_ok, ok_bind, ok_bind, hchecks]
  rfl

theorem crossCheck_ok (data : List UInt8) : crossCheck data = .ok () := by
  unfold crossCheck
  dsimp only
  generalize hn : min data.length 4096 = n
  have hbytes : (data.take n).length = n := by
    rw [List.length_take]
    omega
  generalize data.take n = bytes at hbytes
  have hlePcm : (bytes.take (n / 2 * 2)).length = n / 2 * 2 := by
    rw [List.length_take]
    omega
  generalize bytes.take (n / 2 * 2) = lePcm at hlePcm
  have hsamples : (samples lePcm).length = n / 2 := by
    rw [length_samples, hlePcm, Nat.mul_div_cancel _ (by decide)]
  have hwire : ∀ law : Law, (samples lePcm).length = (law.encodePlane lePcm).length :=
    fun law => by rw [law.length_encodePlane, length_samples]
  have hwireLe : ∀ law : Law, lePcm.length = (law.encodePlane lePcm).length * 2 := by
    intro law
    rw [← hwire, hsamples, hlePcm]
  rw [replayDecode_ok .mulaw (by simp [hbytes]) (by simp [hbytes]), ok_bind]
  dsimp only
  rw [replayDecode_ok .alaw (by simp) (by simp [Nat.mul_comm]), ok_bind,
    replayEncode_ok .mulaw (by simp) (by simp [hsamples, hlePcm]), ok_bind]
  dsimp only
  rw [replayEncode_ok .alaw (hwire .mulaw) (hwireLe .mulaw)]
  rfl

/-- **The per-sample target passes** on every input. -/
theorem per_sample_invariants_passes (data : List UInt8) : perSampleInvariants data = .ok () := by
  have hoperations := Loops.foldlM_checks (l := chunksOfThree data)
    fun chunk _ => checkOperation_ok chunk
  rw [perSampleInvariants, hoperations, ok_bind, crossCheck_ok]

/-! ### `zero_suppress_invariants` -/

/-- `check_sample`. -/
def checkSample (s : Int16) : Harness Unit := do
  let plain := Mulaw.encodeSample s
  let supp := Mulaw.encodeSampleZeroSuppress s
  assertTrue (supp ≠ mulawZeroCodeword) "all-zero codeword leaked under suppression"
  if plain = mulawZeroCodeword then
    assertEq supp mulawZeroSuppressCodeword "was not rewritten to the spec 0x02 replacement"
  else
    assertEq supp plain "changed under suppression"

/-- `data.chunks(2)`; what is missing in the last chunk is read as zero. -/
def chunksOfTwo : List UInt8 → List (UInt8 × UInt8)
  | [] => []
  | [a] => [(a, 0)]
  | a :: b :: data => (a, b) :: chunksOfTwo data

/-- `zero_suppress_invariants`. -/
def zeroSuppressInvariants (data : List UInt8) : Harness Unit := do
  let v00 := (Mulaw.decodeSample mulawZeroCodeword).toInt
  let v01 := (Mulaw.decodeSample 0x01).toInt
  let v02 := (Mulaw.decodeSample mulawZeroSuppressCodeword).toInt
  assertTrue (v00 < v01 ∧ v01 < v02 ∧ v02 < 0) "substituted codeword ordering broken"
  assertEq (v01 - v00) (v02 - v01)
    "segment-7 step is non-uniform across the substitution interval"
  if data.isEmpty then checkSample 0
  else
    let samples := (chunksOfTwo data).map ofLeBytes
    samples.foldlM (fun _ s => checkSample s) ()
    let (done, wire) := Mulaw.encodeSliceZeroSuppress samples (List.replicate samples.length 0)
    discard done
    samples.zipIdx.foldlM (fun _ x => assertEq wire[x.2]? (some (Mulaw.encodeSampleZeroSuppress x.1))
      s!"encode_slice_zero_suppress diverged at index {x.2}") ()

theorem checkSample_ok (s : Int16) : checkSample s = .ok () := by
  have hsupp : Mulaw.encodeSampleZeroSuppress s = zeroSuppress (mulawEncodeArith s) :=
    mulawEncodeZeroSuppressTable_get s
  have hnonzero : zeroSuppress (mulawEncodeArith s) ≠ mulawZeroCodeword := zeroSuppress_ne_zero _
  unfold checkSample
  rw [hsupp, show Mulaw.encodeSample = mulawEncodeArith from Law.mulaw.encodeSample_eq]
  dsimp only
  rw [assertTrue_ok hnonzero, ok_bind]
  by_cases hplain : mulawEncodeArith s = mulawZeroCodeword
  · rw [if_pos hplain]
    exact assertEq_ok (if_pos hplain) _
  · rw [if_neg hplain]
    exact assertEq_ok (if_neg hplain) _

/-- The replacement is two equal steps above the all-zero codeword. -/
theorem replacement_steps :
    (mulawDecode mulawZeroCodeword).toInt < (mulawDecode 0x01).toInt ∧
      (mulawDecode 0x01).toInt < (mulawDecode mulawZeroSuppressCodeword).toInt ∧
      (mulawDecode mulawZeroSuppressCodeword).toInt < 0 ∧
      (mulawDecode 0x01).toInt - (mulawDecode mulawZeroCodeword).toInt
        = (mulawDecode mulawZeroSuppressCodeword).toInt - (mulawDecode 0x01).toInt := by
  decide

/-- **The zero-suppression target passes** on every input. -/
theorem zero_suppress_invariants_passes (data : List UInt8) :
    zeroSuppressInvariants data = .ok () := by
  obtain ⟨hfirst, hsecond, hnegative, hequal⟩ := replacement_steps
  unfold zeroSuppressInvariants
  rw [show Mulaw.decodeSample = mulawDecode from Law.mulaw.decodeSample_eq]
  dsimp only
  rw [assertTrue_ok ⟨hfirst, hsecond, hnegative⟩, ok_bind, assertEq_ok hequal, ok_bind]
  by_cases hdata : data.isEmpty
  · rw [if_pos hdata, checkSample_ok]
  · rw [if_neg hdata]
    generalize (chunksOfTwo data).map ofLeBytes = xs
    have hsamples := Loops.foldlM_checks (l := xs) fun s _ => checkSample_ok s
    have hwire : xs.zipIdx.foldlM (fun _ x =>
        assertEq (xs.map fun s => zeroSuppress (mulawEncodeArith s))[x.2]?
          (some (Mulaw.encodeSampleZeroSuppress x.1))
          s!"encode_slice_zero_suppress diverged at index {x.2}") () = .ok () := by
      refine Loops.foldlM_zipIdx_checks fun i s hs => assertEq_ok ?_ _
      have hsupp : Mulaw.encodeSampleZeroSuppress s = zeroSuppress (mulawEncodeArith s) :=
        mulawEncodeZeroSuppressTable_get s
      simp [hs, hsupp]
    rw [hsamples, ok_bind, (Mulaw.encodeSliceZeroSuppress_overwrites xs _).overwritten (by simp)]
    dsimp only
    rw [discard_ok, ok_bind, hwire]

end Fuzz
end G711
