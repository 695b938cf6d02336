import G711.Fuzz.Harness

/-!
# `decode_pipeline` and `factory_params`

Two fuzz targets that only look for panics: the first sends arbitrary packets to decoders in the
right and the wrong order, the second builds codecs from arbitrary parameters and runs them once.
-/

namespace G711
namespace Fuzz

open Slices

/-- `if dec.send_packet(&pkt).is_ok() { let _ = dec.receive_frame(); }`. -/
def sendAndReceive (dec : BoxDecoder) (pkt : Packet) : Harness BoxDecoder := do
  let (sent, dec) := dec.sendPacket pkt
  match sent with
  | .ok () =>
    let (received, dec) := dec.receiveFrame
    discard received
    return dec
  | .error (.err _) => return dec
  | .error (.panic msg) => throw (.panic msg)

/-- The flush that ends a run, and one more `receive_frame`. -/
def flushAndReceive (dec : BoxDecoder) : Harness Unit := do
  let (flushed, dec) := dec.flush
  discard flushed
  let (received, _) := dec.receiveFrame
  discard received

/-! ### `decode_pipeline` -/

/-- The parameters of `decode_pipeline`. -/
def decodeParams (K : OxideavCore) (law : Law) (channels : UInt16) : CodecParameters :=
  { K.audioParams law.codecId with channels := some channels, sampleRate := some 8000 }

/-- The calls of `decode_pipeline` on the decoder of a law. -/
def decodeCalls (K : OxideavCore) (law : Law) (channels : UInt16) (payload : List UInt8) :
    Harness Unit := do
  let dec ← orReturn (law.makeDecoder (decodeParams K law channels))
  let tb := K.timeBaseNew 1 8000
  -- an empty packet, then the payload
  let dec ← sendAndReceive dec (K.packetNew 0 tb [])
  let dec ← sendAndReceive dec (K.packetNew 0 tb payload)
  -- a second packet without a receive in between
  let (sent, dec) := dec.sendPacket (K.packetNew 0 tb payload)
  discard sent
  let (sent, dec) := dec.sendPacket (K.packetNew 0 tb payload)
  discard sent
  let (received, dec) := dec.receiveFrame
  discard received
  flushAndReceive dec

/-- `decode_pipeline`. -/
def decodePipeline (K : OxideavCore) (data : List UInt8) : Harness Unit := do
  match data with
  | [] => throw .early
  | b0 :: payload =>
    decodeCalls K .mulaw (channelsOf b0) payload
    decodeCalls K .alaw (channelsOf b0) payload

/-! ### `factory_params` -/

/-- `SAMPLE_FORMATS`. -/
def sampleFormats : List (Option SampleFormat) :=
  [none, some .u8, some .s8, some .s16, some .s24, some .s32, some .f32, some .f64, some .u8p,
    some .s16p, some .s32p, some .f32p, some .f64p]

/-- `CODEC_IDS`. -/
def codecIds : List CodecId :=
  ["pcm_mulaw", "pcm_alaw", "g711u", "g711a", "ulaw", "alaw", "", "deadbeef"]

/-- `drive_decoder`. -/
def driveDecoder (K : OxideavCore) (factory : Outcome BoxDecoder) (channels : UInt16)
    (payload : List UInt8) : Harness Unit := do
  let dec ← orReturn factory
  let cap := if channels = 0 then payload.length else min payload.length (channels.toNat * 64)
  let dec ← sendAndReceive dec (K.packetNew 0 (K.timeBaseNew 1 8000) (payload.take cap))
  flushAndReceive dec

/-- `while enc.receive_packet().is_ok() {}`. -/
def drainAll (enc : BoxEncoder) : Harness BoxEncoder :=
  match _h : enc.receivePacket with
  | (.ok _, enc') => drainAll enc'
  | (.error (.err _), enc') => pure enc'
  | (.error (.panic msg), _) => throw (.panic msg)
termination_by enc.queue.length
decreasing_by
  rw [BoxEncoder.receivePacket_eq] at _h
  cases hq : enc.queue with
  | nil => simp [hq] at _h
  | cons p q =>
    simp only [hq, Prod.mk.injEq] at _h
    rw [← _h.2, enc.queue_withQueue]
    simp

/-- `drive_encoder`. -/
def driveEncoder (K : OxideavCore) (factory : Outcome BoxEncoder) (payload : List UInt8) :
    Harness Unit := do
  let enc ← orReturn factory
  let even := payload.length / 2 * 2
  let frame := .audio ⟨UInt32.ofNat (even / 2), some 0, [payload.take even]⟩
  let (sent, enc) := enc.sendFrame K frame
  let enc ← match sent with
    | .ok () => drainAll enc
    | .error (.err _) => pure enc
    | .error (.panic msg) => throw (.panic msg)
  let (flushed, _) := enc.flush
  discard flushed

/-- What a run of `factory_params` reads from its input. -/
structure FactoryInput where
  variant : UInt8
  params : CodecParameters
  channels : UInt16
  payload : List UInt8

/-- The input of a run, or `none` where it is too short. -/
def factoryInput (K : OxideavCore) (data : List UInt8) : Option FactoryInput :=
  match data with
  | seed :: b1 :: b2 :: b3 :: b4 :: b5 :: b6 :: b7 :: payloadRaw =>
    let codecIdIdx := ((seed >>> 2) &&& 0x07).toNat
    let channels := u16FromLeBytes b1 b2
    -- both tables are indexed within their bounds
    let sfIdx := b3.toNat % sampleFormats.length
    some {
      variant := seed &&& 0x03
      params := { K.audioParams (codecIds.getD codecIdIdx "") with
        mediaType := .audio
        channels := some channels
        sampleFormat := sampleFormats.getD sfIdx none
        sampleRate := some (u32FromLeBytes b4 b5 b6 b7) }
      channels
      payload := payloadRaw.take (min payloadRaw.length 4096) }
  | _ => none

/-- Whether the factory takes the parameters: it wants a channel, and an encoder wants S16. -/
def FactoryInput.accepted (input : FactoryInput) : Bool :=
  input.channels ≠ 0 ∧
    (input.variant = 0 ∨ input.variant = 2 ∨ input.params.sampleFormat.getD .s16 = .s16)

/-- `factory_params`. -/
def factoryParams (K : OxideavCore) (data : List UInt8) : Harness Unit :=
  match factoryInput K data with
  | none => throw .early
  | some { variant, params, channels, payload } =>
    match variant with
    | 0 => driveDecoder K (Law.mulaw.makeDecoder params) channels payload
    | 1 => driveEncoder K (Law.mulaw.makeEncoder K params) payload
    | 2 => driveDecoder K (Law.alaw.makeDecoder params) channels payload
    | 3 => driveEncoder K (Law.alaw.makeEncoder K params) payload
    | _ => throw (.panic "factory_variant masked to 0..=3")

/-! ### No run panics -/

section Calls

variable {K : OxideavCore} {law : Law} {ch : UInt16} {d : BoxDecoder}

theorem discard_sendPacket (hd : d.Has law ch) (hch : ch ≠ 0) (p : Packet) :
    discard (d.sendPacket p).1 = .ok () :=
  discard_of_noPanic (noPanic_answer hd hch (.sendPacket p))

theorem discard_receiveFrame (hd : d.Has law ch) (hch : ch ≠ 0) :
    discard d.receiveFrame.1 = .ok () :=
  discard_of_noPanic (noPanic_answer hd hch .receiveFrame)

theorem has_sendPacket (hd : d.Has law ch) (p : Packet) : (d.sendPacket p).2.Has law ch :=
  BoxDecoder.has_call hd (.sendPacket p)

theorem has_receiveFrame (hd : d.Has law ch) : d.receiveFrame.2.Has law ch :=
  BoxDecoder.has_call hd .receiveFrame

theorem sendAndReceive_ok (hd : d.Has law ch) (hch : ch ≠ 0) (p : Packet) :
    ∃ d', sendAndReceive d p = .ok d' ∧ d'.Has law ch := by
  have hsent := has_sendPacket hd p
  have hreceived := has_receiveFrame hsent
  unfold sendAndReceive
  cases hp : d.pending with
  | none =>
    rw [BoxDecoder.sendPacket_of_empty hp] at hsent hreceived ⊢
    refine ⟨_, ?_, hreceived⟩
    simp only [discard_receiveFrame hsent hch, ok_bind]
    rfl
  | some q =>
    rw [BoxDecoder.sendPacket_of_pending hp]
    exact ⟨d, rfl, hd⟩

theorem flushAndReceive_ok (hd : d.Has law ch) (hch : ch ≠ 0) : flushAndReceive d = .ok () := by
  have hflushed : d.flush.2.Has law ch := BoxDecoder.has_call hd .flush
  unfold flushAndReceive
  dsimp only
  rw [flush_decoder_fst, discard_ok, ok_bind, discard_receiveFrame hflushed hch]

theorem decodeCalls_ok (K : OxideavCore) (law : Law) (hch : ch ≠ 0) (payload : List UInt8) :
    decodeCalls K law ch payload = .ok () := by
  have hdec := law.makeDecoder_eq (decodeParams K law ch)
  rw [if_neg (show (decodeParams K law ch).channels.getD 1 ≠ 0 from hch)] at hdec
  obtain ⟨hd, -, -⟩ := Law.makeDecoder_spec hdec
  obtain ⟨d₁, hempty, hd₁⟩ := sendAndReceive_ok hd hch (K.packetNew 0 (K.timeBaseNew 1 8000) [])
  obtain ⟨d₂, hpayload, hd₂⟩ :=
    sendAndReceive_ok hd₁ hch (K.packetNew 0 (K.timeBaseNew 1 8000) payload)
  -- the two packets after it and the answer to them
  have hd₃ := has_sendPacket hd₂ (K.packetNew 0 (K.timeBaseNew 1 8000) payload)
  have hd₄ := has_sendPacket hd₃ (K.packetNew 0 (K.timeBaseNew 1 8000) payload)
  have hd₅ := has_receiveFrame hd₄
  unfold decodeCalls
  simp only [hdec, orReturn_ok, ok_bind, hempty, hpayload]
  rw [discard_sendPacket hd₂ hch, ok_bind, discard_sendPacket hd₃ hch, ok_bind,
    discard_receiveFrame hd₄ hch, ok_bind]
  exact flushAndReceive_ok hd₅ hch

end Calls

/-- **The decoding target passes** on every input with a first byte. -/
theorem decode_pipeline_passes (K : OxideavCore) (data : List UInt8) :
    decodePipeline K data = if data = [] then .error .early else .ok () := by
  cases data with
  | nil => rfl
  | cons b0 payload =>
    have hch := channelsOf_ne_zero b0
    rw [if_neg (List.cons_ne_nil b0 payload), decodePipeline, decodeCalls_ok K .mulaw hch, ok_bind,
      decodeCalls_ok K .alaw hch]

section Drivers

variable {K : OxideavCore} {law : Law} {params : CodecParameters} {ch : UInt16}

theorem driveDecoder_result (K : OxideavCore) (law : Law) (hchannels : params.channels = some ch)
    (payload : List UInt8) :
    driveDecoder K (law.makeDecoder params) ch payload
      = if ch ≠ 0 then .ok () else .error .early := by
  have hdec := law.makeDecoder_eq params
  rw [hchannels, Option.getD_some] at hdec
  by_cases hch : ch = 0
  · rw [if_pos hch] at hdec
    rw [hdec, if_neg (not_not_intro hch)]
    rfl
  · rw [if_neg hch] at hdec
    obtain ⟨hd, -, -⟩ := Law.makeDecoder_spec hdec
    rw [hchannels, Option.getD_some] at hd
    rw [hdec, if_pos hch, driveDecoder, orReturn_ok, ok_bind]
    obtain ⟨d, hsent, hd⟩ := sendAndReceive_ok hd hch
      (K.packetNew 0 (K.timeBaseNew 1 8000) (payload.take (if ch = 0 then payload.length else
        min payload.length (ch.toNat * 64))))
    dsimp only
    rw [hsent, ok_bind, flushAndReceive_ok hd hch]

/-- The loop that drains an encoder ends, and not by a panic. -/
theorem drainAll_ok (e : BoxEncoder) : drainAll e = .ok (e.withQueue []) := by
  induction hq : e.queue generalizing e with
  | nil =>
    have hsame : e.withQueue [] = e := by
      rw [← hq]
      cases e <;> rfl
    rw [drainAll]
    split <;> rename_i hreceived <;> rw [receivePacket_of_nil hq] at hreceived <;> cases hreceived
    rw [hsame]
    rfl
  | cons p q ih =>
    have htwice : (e.withQueue q).withQueue [] = e.withQueue [] := by
      cases e <;> rfl
    rw [drainAll]
    split <;> rename_i hreceived <;> rw [receivePacket_of_cons hq] at hreceived <;> cases hreceived
    rw [ih _ (e.queue_withQueue q), htwice]

theorem driveEncoder_result (K : OxideavCore) (law : Law) (hchannels : params.channels = some ch)
    (payload : List UInt8) :
    driveEncoder K (law.makeEncoder K params) payload
      = if ch ≠ 0 ∧ params.sampleFormat.getD .s16 = .s16 then .ok () else .error .early := by
  have henc := law.makeEncoder_eq K params
  rw [hchannels, Option.getD_some] at henc
  by_cases hch : ch = 0
  · rw [if_pos hch] at henc
    rw [henc, if_neg fun h => h.1 hch]
    rfl
  · by_cases hformat : params.sampleFormat.getD .s16 = .s16
    · rw [if_neg hch, if_neg (not_not_intro hformat)] at henc
      obtain ⟨he, -, -, hq⟩ := Law.makeEncoder_spec henc
      have heven : 2 ∣ (payload.take (payload.length / 2 * 2)).length := by
        rw [List.length_take]
        omega
      rw [henc, if_pos ⟨hch, hformat⟩, driveEncoder, orReturn_ok, ok_bind]
      dsimp only
      rw [sendFrame_of_even he _ _ heven]
      dsimp only
      rw [drainAll_ok, ok_bind, flush_encoder]
      rfl
    · rw [if_neg hch, if_pos hformat] at henc
      rw [henc, if_neg fun h => hformat h.2]
      rfl

end Drivers

theorem factoryInput_spec {data : List UInt8} {input : FactoryInput}
    (h : factoryInput K data = some input) :
    input.params.channels = some input.channels ∧
      (input.variant = 0 ∨ input.variant = 1 ∨ input.variant = 2 ∨ input.variant = 3) := by
  unfold factoryInput at h
  split at h
  · cases h
    refine ⟨rfl, ?_⟩
    exact forall_octet (P := fun b => b &&& 0x03 = 0 ∨ b &&& 0x03 = 1 ∨ b &&& 0x03 = 2 ∨
      b &&& 0x03 = 3) (by decide +kernel) _
  · cases h

/-- **The factory target passes**: a run ends early exactly when its input is too short or the
factory refuses the parameters, and otherwise runs to its end. -/
theorem factory_params_passes (K : OxideavCore) (data : List UInt8) :
    factoryParams K data
      = if (factoryInput K data).any FactoryInput.accepted then .ok () else .error .early := by
  unfold factoryParams
  cases hinput : factoryInput K data with
  | none => rfl
  | some input =>
    obtain ⟨hchannels, hvariant⟩ := factoryInput_spec hinput
    obtain ⟨variant, params, ch, payload⟩ := input
    dsimp only at hchannels hvariant
    rcases hvariant with rfl | rfl | rfl | rfl
    · dsimp only
      rw [driveDecoder_result K .mulaw hchannels]
      simp [FactoryInput.accepted]
    · dsimp only
      rw [driveEncoder_result K .mulaw hchannels]
      simp [FactoryInput.accepted]
    · dsimp only
      rw [driveDecoder_result K .alaw hchannels]
      simp [FactoryInput.accepted]
    · dsimp only
      rw [driveEncoder_result K .alaw hchannels]
      simp [FactoryInput.accepted]

end Fuzz
end G711
