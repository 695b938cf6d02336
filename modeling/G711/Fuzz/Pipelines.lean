import G711.Fuzz.Harness

/-!
# `cross_law_transcode` and `encode_pipeline`

Two fuzz targets that send one frame or packet through a pipeline of codecs and compare the bytes at
its end with the single-sample functions.
-/

namespace G711
namespace Fuzz

open Slices

/-! ### `cross_law_transcode` -/

/-- What a run of `cross_law_transcode` reads from its input. -/
structure TranscodeInput where
  inputLaw : Law
  doReverseRoundtrip : Bool
  channels : UInt16
  sampleRate : UInt32
  payload : List UInt8

/-- The input of a run, or `none` where it returns early. -/
def transcodeInput (data : List UInt8) : Option TranscodeInput :=
  match data with
  | seed :: b1 :: b2 :: payloadRaw =>
    let channels := ((seed >>> 2) &&& 0x07).toUInt16 + 1
    let rawRate := (u16FromLeBytes b1 b2).toUInt32
    let payloadLen := min payloadRaw.length 4096
    let nch := channels.toNat
    let trimmed := payloadLen / nch * nch
    if trimmed = 0 then none
    else some {
      inputLaw := lawOf (seed &&& 0x01 ≠ 0)
      doReverseRoundtrip := seed &&& 0x02 ≠ 0
      channels
      sampleRate := max (rawRate % 192000) 1
      payload := payloadRaw.take trimmed }
  | _ => none

/-- A packet through a decoder and an encoder, with the checks on the way. -/
def transcode (K : OxideavCore) (dec : BoxDecoder) (enc : BoxEncoder) (pkt : Packet) (count : ℕ)
    (pcmMsg lengthMsg : String) : Harness Packet := do
  let (sent, dec) := dec.sendPacket pkt
  orReturn sent
  let (received, _) := dec.receiveFrame
  let af ← audioOrReturn received
  let pcm := af.data.head?.getD []
  assertEq pcm.length (count * 2) pcmMsg
  let (sent, enc) := enc.sendFrame K (.audio ⟨af.samples, some 0, [pcm]⟩)
  orReturn sent
  let (received, _) := enc.receivePacket
  let xcoded ← orReturn received
  assertEq xcoded.data.length count lengthMsg
  return xcoded

/-- The second half of `cross_law_transcode`. -/
def reverseRoundtrip (K : OxideavCore) (input : TranscodeInput) (xcoded : Packet) :
    Harness Unit := do
  let { inputLaw, channels, sampleRate, payload, .. } := input
  let outputLaw := inputLaw.other
  let outputDec ← orReturn (outputLaw.makeDecoder (s16Params K outputLaw channels sampleRate))
  let inputEnc ← orReturn (inputLaw.makeEncoder K (s16Params K inputLaw channels sampleRate))
  let expectedReverse := payload.map fun b =>
    inputLaw.encodeSample (outputLaw.decodeSample (outputLaw.encodeSample (inputLaw.decodeSample b)))
  let final ← transcode K outputDec inputEnc xcoded payload.length
    "reverse decoder produced PCM bytes ≠ 2 × input bytes" "reverse-roundtrip byte count ≠ input"
  assertEq final.data expectedReverse
    "cross-law reverse roundtrip diverges from per-sample double-transcode baseline"

/-- `cross_law_transcode`. -/
def crossLawTranscode (K : OxideavCore) (data : List UInt8) : Harness Unit := do
  match transcodeInput data with
  | none => throw .early
  | some input =>
    let { inputLaw, doReverseRoundtrip, channels, sampleRate, payload } := input
    let outputLaw := inputLaw.other
    let inputDec ← orReturn (inputLaw.makeDecoder (s16Params K inputLaw channels sampleRate))
    let outputEnc ← orReturn (outputLaw.makeEncoder K (s16Params K outputLaw channels sampleRate))
    let expectedXcoded := payload.map fun b => outputLaw.encodeSample (inputLaw.decodeSample b)
    let inputPkt := K.packetNew 0 (K.timeBaseNew 1 sampleRate.toUInt64.toInt64) payload
    let xcoded ← transcode K inputDec outputEnc inputPkt payload.length
      "input decoder produced PCM bytes ≠ 2 × input bytes"
      "cross-law transcode byte count ≠ input byte count"
    assertEq xcoded.data expectedXcoded "cross-law transcode diverges from per-sample baseline"
    if doReverseRoundtrip then reverseRoundtrip K input xcoded

/-- The payload that is read is a whole number of samples of all channels. -/
theorem transcodeInput_whole {data : List UInt8} {input : TranscodeInput}
    (h : transcodeInput data = some input) :
    input.channels ≠ 0 ∧ input.channels.toNat ∣ input.payload.length := by
  have hchannels : ∀ seed : UInt8, ((seed >>> 2) &&& 0x07).toUInt16 + 1 ≠ 0 :=
    forall_octet (by decide +kernel)
  unfold transcodeInput at h
  split at h
  · dsimp only at h
    split_ifs at h
    cases h
    refine ⟨hchannels _, ?_⟩
    have htrimmed : ∀ n nch : ℕ, min n 4096 / nch * nch ≤ n :=
      fun n nch => le_trans (Nat.div_mul_le_self _ _) (min_le_left _ _)
    rw [List.length_take, min_eq_left (htrimmed _ _)]
    exact Nat.dvd_mul_left _ _
  · cases h

section Transcode

variable {K : OxideavCore} {law law' : Law} {ch : UInt16} {tb : TimeBase} {out : CodecParameters}

theorem transcode_ok {d : BoxDecoder} {e : BoxEncoder} (hd : d.Has law ch) (hch : ch ≠ 0)
    (hs : d.slot = .init) (he : e.Has law' tb out) (hq : e.queue = []) {pkt : Packet}
    (hwhole : ch.toNat ∣ pkt.data.length) {count : ℕ} (hcount : pkt.data.length = count)
    (pcmMsg lengthMsg : String) :
    ∃ p, transcode K d e pkt count pcmMsg lengthMsg = .ok p ∧
      p.data = pkt.data.map fun b => law'.encodeSample (law.decodeSample b) := by
  have hreply : law.decodePacket ch pkt = .ok (.audio ⟨UInt32.ofNat (pkt.data.length / ch.toNat),
      pkt.pts, [law.decodePlane pkt.data]⟩) := if_pos hwhole
  have hlength : (law.decodePlane pkt.data).length = count * 2 := by
    rw [law.length_decodePlane, hcount, Nat.mul_comm]
  have heven : 2 ∣ (law.decodePlane pkt.data).length := by
    rw [hlength]
    exact Nat.dvd_mul_left _ _
  have hdata : ∀ a, (law'.packetOf K tb a (law.decodePlane pkt.data)).data
      = pkt.data.map fun b => law'.encodeSample (law.decodeSample b) := by
    intro a
    rw [Law.packetOf_data, Law.encodePlane, Law.decodePlane, samples_plane, List.map_map,
      law.decodeSample_eq, law'.encodeSample_eq]
    rfl
  have hqueue : ∀ p, (e.withQueue (e.queue ++ [p])).queue = p :: [] := by
    intro p
    rw [e.queue_withQueue, hq]
    rfl
  refine ⟨_, ?_, hdata ⟨UInt32.ofNat (pkt.data.length / ch.toNat), some 0,
    [law.decodePlane pkt.data]⟩⟩
  have hdone : (law'.packetOf K tb ⟨UInt32.ofNat (pkt.data.length / ch.toNat), some 0,
      [law.decodePlane pkt.data]⟩ (law.decodePlane pkt.data)).data.length = count := by
    rw [hdata, List.length_map, hcount]
  unfold transcode
  simp only [sendPacket_of_init hs, orReturn_ok, ok_bind, receiveFrame_of_sent hd hch hs, hreply,
    audioOrReturn_audio, List.head?_cons, Option.getD_some, assertEq_ok hlength,
    sendFrame_of_even he _ _ heven, receivePacket_of_cons (hqueue _), assertEq_ok hdone]
  rfl

theorem reverseRoundtrip_ok {input : TranscodeInput} (hch : input.channels ≠ 0)
    (hwhole : input.channels.toNat ∣ input.payload.length) {xcoded : Packet}
    (hdata : xcoded.data = input.payload.map fun b =>
      input.inputLaw.other.encodeSample (input.inputLaw.decodeSample b)) :
    reverseRoundtrip K input xcoded = .ok () := by
  obtain ⟨law, doReverseRoundtrip, ch, sampleRate, payload⟩ := input
  dsimp only at hch hwhole hdata
  have hlength : xcoded.data.length = payload.length := by rw [hdata, List.length_map]
  obtain ⟨d, hdec, hd, hs⟩ := exists_decoder K law.other hch sampleRate
  obtain ⟨e, tb, out, henc, he, hq⟩ := exists_encoder K law hch sampleRate
  obtain ⟨p, hp, hfinal⟩ := transcode_ok (K := K) hd hch hs he hq (hlength ▸ hwhole) hlength
    "reverse decoder produced PCM bytes ≠ 2 × input bytes" "reverse-roundtrip byte count ≠ input"
  unfold reverseRoundtrip
  simp only [hdec, henc, orReturn_ok, ok_bind, hp]
  refine assertEq_ok ?_ _
  rw [hfinal, hdata, List.map_map]
  rfl

end Transcode

/-- **The transcoding target passes**: a run ends early exactly when no whole sample is left of its
payload, and otherwise runs to its end. -/
theorem cross_law_transcode_passes (K : OxideavCore) (data : List UInt8) :
    crossLawTranscode K data = if (transcodeInput data).isSome then .ok () else .error .early := by
  unfold crossLawTranscode
  cases hinput : transcodeInput data with
  | none => rfl
  | some input =>
    obtain ⟨hch, hwhole⟩ := transcodeInput_whole hinput
    have hreverse : ∀ xcoded : Packet, xcoded.data = input.payload.map (fun b =>
        input.inputLaw.other.encodeSample (input.inputLaw.decodeSample b)) →
        reverseRoundtrip K input xcoded = .ok () := fun _ => reverseRoundtrip_ok hch hwhole
    obtain ⟨law, doReverseRoundtrip, ch, sampleRate, payload⟩ := input
    dsimp only at hch hwhole hreverse
    obtain ⟨d, hdec, hd, hs⟩ := exists_decoder K law hch sampleRate
    obtain ⟨e, tb, out, henc, he, hq⟩ := exists_encoder K law.other hch sampleRate
    have hdata : (K.packetNew 0 (K.timeBaseNew 1 sampleRate.toUInt64.toInt64) payload).data
        = payload := K.packetNew_data ..
    obtain ⟨p, hp, hxcoded⟩ := transcode_ok (K := K) hd hch hs he hq (hdata.symm ▸ hwhole)
      (congrArg List.length hdata) "input decoder produced PCM bytes ≠ 2 × input bytes"
      "cross-law transcode byte count ≠ input byte count"
    rw [hdata] at hxcoded
    simp only [hdec, henc, orReturn_ok, ok_bind, hp, assertEq_ok hxcoded, hreverse p hxcoded]
    cases doReverseRoundtrip <;> rfl

/-! ### `encode_pipeline` -/

/-- What a run of `encode_pipeline` reads from its input. -/
structure EncodeInput where
  law : Law
  channels : UInt16
  sampleRate : UInt32
  slots : ℕ
  pcmBytes : List UInt8

/-- The input of a run, or `none` where it returns early. -/
def encodeInput (data : List UInt8) : Option EncodeInput :=
  match data with
  | b0 :: b1 :: b2 :: b3 :: b4 :: b5 :: b6 :: b7 :: rest =>
    let channels := channelsOf b0
    let rawRate := u32FromLeBytes b1 b2 b3 b4
    let nch := channels.toNat
    let maxSlots := 4096 * nch
    let rawPayload := b6 :: b7 :: rest
    let slotBytes := rawPayload.length / 2 * 2
    let cappedSlots := min (slotBytes / 2) maxSlots
    let slots := cappedSlots / nch * nch
    if slots = 0 then none
    else some {
      law := lawOf (b5 &&& 1 ≠ 0)
      channels
      sampleRate := max (rawRate % 192000) 1
      slots
      pcmBytes := rawPayload.take (slots * 2) }
  | _ => none

/-- `encode_pipeline`. -/
def encodePipeline (K : OxideavCore) (data : List UInt8) : Harness Unit := do
  match encodeInput data with
  | none => throw .early
  | some { law, channels, sampleRate, slots, pcmBytes } =>
    let nch := channels.toNat
    let expectedDecoded := (samples pcmBytes).map fun s => law.decodeSample (law.encodeSample s)
    let params := s16Params K law channels sampleRate
    let enc ← orReturn (law.makeEncoder K params)
    let dec ← orReturn (law.makeDecoder params)
    let (sent, enc) := enc.sendFrame K (.audio ⟨UInt32.ofNat (slots / nch), some 0, [pcmBytes]⟩)
    orReturn sent
    let (received, _) := enc.receivePacket
    let pkt ← orReturn received
    assertEq pkt.data.length slots "encoder produced bytes ≠ input samples"
    let (sent, dec) := dec.sendPacket pkt
    orReturn sent
    let (received, _) := dec.receiveFrame
    let af ← audioOrReturn received
    assertEq (af.samples.toNat * nch) slots "decoder produced samples × ch ≠ slots"
    let decodedBytes := af.data.head?.getD []
    assertEq decodedBytes.length (slots * 2) "decoder output byte length"
    assertEq (samples decodedBytes) expectedDecoded
      "trait-surface roundtrip diverges from per-sample baseline"

/-- The slots that are read are whole samples of all channels, few enough for a frame to count. -/
theorem encodeInput_whole {data : List UInt8} {input : EncodeInput}
    (h : encodeInput data = some input) :
    input.channels ≠ 0 ∧ input.pcmBytes.length = 2 * input.slots ∧
      input.channels.toNat ∣ input.slots ∧ input.slots / input.channels.toNat ≤ 4096 := by
  unfold encodeInput at h
  split at h
  · rename_i b0 b1 b2 b3 b4 b5 b6 b7 rest
    dsimp only at h
    split_ifs at h
    cases h
    have hpos := (channelsOf_bounds b0).1
    refine ⟨channelsOf_ne_zero _, ?_, Nat.dvd_mul_left _ _, ?_⟩
    · have hle := Nat.div_mul_le_self
        (min ((b6 :: b7 :: rest).length / 2 * 2 / 2) (4096 * (channelsOf b0).toNat))
        (channelsOf b0).toNat
      dsimp only
      rw [List.length_take]
      omega
    · rw [Nat.mul_div_cancel _ hpos]
      exact Nat.div_le_of_le_mul (le_trans (min_le_right _ _) (Nat.mul_comm _ _).le)
  · cases h

/-- **The encoding target passes**: a run ends early exactly when there is no whole sample in its
input, and otherwise runs to its end. -/
theorem encode_pipeline_passes (K : OxideavCore) (data : List UInt8) :
    encodePipeline K data = if (encodeInput data).isSome then .ok () else .error .early := by
  unfold encodePipeline
  cases hinput : encodeInput data with
  | none => rfl
  | some input =>
    obtain ⟨hch, hlength, hdvd, hcount⟩ := encodeInput_whole hinput
    obtain ⟨law, ch, sampleRate, slots, bytes⟩ := input
    dsimp only at hch hlength hdvd hcount
    obtain ⟨e, tb, out, henc, he, hq⟩ := exists_encoder K law hch sampleRate
    obtain ⟨d, hdec, hd, hs⟩ := exists_decoder K law hch sampleRate
    have heven : 2 ∣ bytes.length := hlength ▸ Nat.dvd_mul_right _ _
    have hqueue : ∀ p, (e.withQueue (e.queue ++ [p])).queue = p :: [] := by
      intro p
      rw [e.queue_withQueue, hq]
      rfl
    have hdata : ∀ a, (law.packetOf K tb a bytes).data = law.encodePlane bytes :=
      fun a => law.packetOf_data ..
    have hslots : ∀ a, (law.packetOf K tb a bytes).data.length = slots := by
      intro a
      rw [hdata, law.length_encodePlane, hlength, Nat.mul_div_cancel_left _ (by decide)]
    have hcounted : (UInt32.ofNat (bytes.length / 2 / ch.toNat)).toNat * ch.toNat = slots := by
      rw [hlength, Nat.mul_div_cancel_left _ (by decide), UInt32.toNat_ofNat',
        Nat.mod_eq_of_lt (by omega), Nat.div_mul_cancel hdvd]
    have hdecoded : (law.decodePlane (law.encodePlane bytes)).length = slots * 2 := by
      rw [length_round_trip law heven, hlength, Nat.mul_comm]
    have hreply : ∀ a, law.decodePacket ch (law.packetOf K tb a bytes)
        = .ok (.audio ⟨UInt32.ofNat (bytes.length / 2 / ch.toNat), a.pts,
          [law.decodePlane (law.encodePlane bytes)]⟩) :=
      fun a => decodePacket_of_whole (hlength ▸ Nat.mul_dvd_mul_left 2 hdvd) (hdata a)
    simp only [henc, hdec, orReturn_ok, ok_bind, sendFrame_of_even he _ _ heven,
      receivePacket_of_cons (hqueue _), assertEq_ok (hslots _), sendPacket_of_init hs,
      receiveFrame_of_sent hd hch hs, hreply, audioOrReturn_audio, assertEq_ok hcounted,
      List.head?_cons, Option.getD_some, assertEq_ok hdecoded,
      assertEq_ok (samples_round_trip law bytes)]
    rfl

end Fuzz
end G711
