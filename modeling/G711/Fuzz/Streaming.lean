import G711.Fuzz.Harness

/-!
# `streaming_pipeline`: a session of many frames

The fuzz target carves its input into frames, sends them through an encoder, drains the queue in one
of two orders, decodes the packets with or without flushes in between, and checks what it can see.
`streaming_pipeline_passes` says that it runs to its end on every input with a frame in it.
-/

namespace G711
namespace Fuzz

open Slices

/-! ### Carving the input -/

/-- `PendingFrame`. -/
structure PendingFrame where
  pcmBytes : List UInt8
  samplesPerChannel : UInt32
  pts : Int64

/-- `i64::saturating_add`. -/
def saturatingAdd (a b : Int64) : Int64 :=
  .ofInt (max (-2 ^ 63) (min (2 ^ 63 - 1) (a.toInt + b.toInt)))

/-- The loop that carves the frames out of the input from the cursor on; a marker byte comes before
the samples of each. -/
def carve (nch : ℕ) : ℕ → List UInt8 → Int64 → List PendingFrame
  | 0, _, _ => []
  | _ + 1, [], _ => []
  | frameCount + 1, marker :: data, nextPts =>
    let samplesPerChannel := marker.toNat % (256 + 1)
    -- an empty frame is skipped
    if samplesPerChannel = 0 then carve nch frameCount data nextPts
    else
      let bytesNeeded := samplesPerChannel * nch * 2
      let unit := max (nch * 2) 2
      let take := min bytesNeeded data.length / unit * unit
      if take = 0 then []
      else
        let actualSamples := UInt32.ofNat (take / unit)
        ⟨data.take take, actualSamples, nextPts⟩ ::
          carve nch frameCount (data.drop take)
            (saturatingAdd nextPts actualSamples.toUInt64.toInt64)

/-- What a run reads from its input. -/
structure StreamingInput where
  law : Law
  channels : UInt16
  sampleRate : UInt32
  drainEager : Bool
  midStreamFlush : Bool
  frames : List PendingFrame

/-- The input of a run, or `none` where it returns early. -/
def streamingInput (data : List UInt8) : Option StreamingInput :=
  match data with
  | b0 :: b1 :: b2 :: b3 :: b4 :: b5 :: b6 :: b7 :: rest =>
    let channels := channelsOf b1
    let rawRate := (u16FromLeBytes b2 b3).toUInt32
    let frameCount := b4.toNat % 8 + 1
    let frames := carve channels.toNat frameCount (b7 :: rest) 0
    if frames.isEmpty then none
    else some {
      law := lawOf (b0 &&& 1 ≠ 0)
      channels
      sampleRate := max (rawRate % 192000) 1
      drainEager := b5 &&& 1 ≠ 0
      midStreamFlush := b6 &&& 1 ≠ 0
      frames }
  | _ => none

/-! ### The session -/

/-- `expected_decode`. -/
def expectedDecode (law : Law) (pcmBytes : List UInt8) : List Int16 :=
  (samples pcmBytes).map fun s => law.decodeSample (law.encodeSample s)

/-- What the encoder produced for a frame: its pts, the packet's bytes, the frame's bytes. -/
structure Produced where
  pts : Int64
  encoded : List UInt8
  pcmBytes : List UInt8

/-- A `receive_packet` and its checks. -/
def drainFrame (lengthMsg ptsMsg : String) (state : BoxEncoder × List Produced)
    (frame : PendingFrame) : Harness (BoxEncoder × List Produced) := do
  let (enc, produced) := state
  let (received, enc) := enc.receivePacket
  let pkt ← orReturn received
  assertEq pkt.data.length (frame.pcmBytes.length / 2) lengthMsg
  assertEq pkt.pts (some frame.pts) ptsMsg
  return (enc, produced ++ [⟨frame.pts, pkt.data, frame.pcmBytes⟩])

/-- A round of the loop over the frames. -/
def sendFrame (K : OxideavCore) (drainEager : Bool) (state : BoxEncoder × List Produced)
    (frame : PendingFrame) : Harness (BoxEncoder × List Produced) := do
  let (enc, produced) := state
  let (sent, enc) := enc.sendFrame K
    (.audio ⟨frame.samplesPerChannel, some frame.pts, [frame.pcmBytes]⟩)
  orReturn sent
  if drainEager then
    drainFrame "eager drain: encoded packet length ≠ samples count"
      "eager drain: pts propagation drift" (enc, produced) frame
  else
    return (enc, produced)

/-- The drain after the loop, which must leave the queue empty. -/
def drainQueue (frames : List PendingFrame) (state : BoxEncoder × List Produced) :
    Harness (BoxEncoder × List Produced) := do
  let (enc, produced) ← frames.foldlM (drainFrame
    "deferred drain: encoded packet length ≠ samples count" "deferred drain: FIFO order broken") state
  let (received, enc) := enc.receivePacket
  expectError .needMore "encoder queue not drained: extra packet emerged" received
  return (enc, produced)

/-- The two orders of draining. -/
def drainRest (drainEager : Bool) (frames : List PendingFrame) (state : BoxEncoder × List Produced) :
    Harness (BoxEncoder × List Produced) :=
  if drainEager then pure state else drainQueue frames state

/-- A round of the loop over what was produced. -/
def decodeProduced (K : OxideavCore) (law : Law) (channels : UInt16) (sampleRate : UInt32)
    (midStreamFlush : Bool) (dec : BoxDecoder) (x : Produced × ℕ) : Harness BoxDecoder := do
  let (⟨pts, encoded, pcmBytes⟩, idx) := x
  let pkt := K.packetNew 0 (K.timeBaseNew 1 sampleRate.toUInt64.toInt64) encoded
  let pkt := { pkt with pts := some pts }
  let (sent, dec) := dec.sendPacket pkt
  orReturn sent
  let (received, dec) := dec.receiveFrame
  let af ← audioOrReturn received
  assertEq af.pts (some pts) "decoder pts drift"
  let got := af.data.head?.getD []
  assertEq got.length pcmBytes.length "decoded PCM length ≠ original input length"
  assertEq (samples got) (expectedDecode law pcmBytes)
    "streaming roundtrip diverges from per-sample baseline"
  if midStreamFlush && idx % 2 = 1 then
    let (flushed, dec) := dec.flush
    discard flushed
    let (received, _) := dec.receiveFrame
    expectError .eof "decoder emitted spurious frame after flush + drain" received
    -- the session goes on with a fresh decoder
    orReturn (law.makeDecoder (s16Params K law channels sampleRate))
  else
    return dec

/-- What `receive_frame` must give after the loop, before and after a flush. -/
def finishStream (dec : BoxDecoder) : Harness Unit := do
  let (received, dec) := dec.receiveFrame
  if received = .error (.err .eof) then
    throw (.panic "fresh decoder reported Eof without flush")
  expectError .needMore "decoder produced spurious frame after stream drain" received
  let (flushed, dec) := dec.flush
  discard flushed
  let (received, _) := dec.receiveFrame
  expectError .eof "decoder produced spurious frame after flush + drain" received

/-- `streaming_pipeline` once its input is read. -/
def streamingSession (K : OxideavCore) (input : StreamingInput) : Harness Unit := do
  let { law, channels, sampleRate, drainEager, midStreamFlush, frames } := input
  let params := s16Params K law channels sampleRate
  let enc ← orReturn (law.makeEncoder K params)
  let dec ← orReturn (law.makeDecoder params)
  let (enc, produced) ← frames.foldlM (sendFrame K drainEager) (enc, [])
  let (flushed, enc) := enc.flush
  discard flushed
  let (_, produced) ← drainRest drainEager frames (enc, produced)
  let dec ← produced.zipIdx.foldlM (decodeProduced K law channels sampleRate midStreamFlush) dec
  finishStream dec

/-- `streaming_pipeline`. -/
def streamingPipeline (K : OxideavCore) (data : List UInt8) : Harness Unit :=
  match streamingInput data with
  | none => throw .early
  | some input => streamingSession K input

/-! ### Every run passes -/

/-- The frames that the carving makes hold whole samples of all channels. -/
theorem carve_whole {nch : ℕ} (hnch : 0 < nch) {frameCount : ℕ} {data : List UInt8} {pts : Int64} :
    ∀ frame ∈ carve nch frameCount data pts, 2 * nch ∣ frame.pcmBytes.length := by
  fun_induction carve nch frameCount data pts with
  | case1 => simp
  | case2 => simp
  | case3 frameCount marker data pts samplesPerChannel hzero ih => exact ih
  | case4 => simp
  | case5 frameCount marker data pts samplesPerChannel hzero bytesNeeded unit take htake
      actualSamples ih =>
    intro frame hframe
    rcases List.mem_cons.1 hframe with rfl | hframe
    · have hunit : unit = 2 * nch := by
        show max (nch * 2) 2 = 2 * nch
        omega
      have hle : take ≤ data.length :=
        le_trans (Nat.div_mul_le_self _ _) (min_le_right _ _)
      show 2 * nch ∣ (data.take take).length
      rw [List.length_take, min_eq_left hle, ← hunit]
      exact Nat.dvd_mul_left _ _
    · exact ih frame hframe

section Session

variable {K : OxideavCore} {law : Law} {ch : UInt16} {tb : TimeBase} {out : CodecParameters}

/-- The packet of a frame. -/
def PendingFrame.packet (K : OxideavCore) (law : Law) (tb : TimeBase) (frame : PendingFrame) :
    Packet :=
  law.packetOf K tb ⟨frame.samplesPerChannel, some frame.pts, [frame.pcmBytes]⟩ frame.pcmBytes

/-- What is produced for a frame. -/
def PendingFrame.produced (law : Law) (frame : PendingFrame) : Produced :=
  ⟨frame.pts, law.encodePlane frame.pcmBytes, frame.pcmBytes⟩

theorem drainFrame_eq (lengthMsg ptsMsg : String) {e : BoxEncoder} {frame : PendingFrame}
    {q : List Packet} (hq : e.queue = frame.packet K law tb :: q) (produced : List Produced) :
    drainFrame lengthMsg ptsMsg (e, produced) frame
      = .ok (e.withQueue q, produced ++ [frame.produced law]) := by
  have hdata : (frame.packet K law tb).data = law.encodePlane frame.pcmBytes := law.packetOf_data ..
  have hlength : (frame.packet K law tb).data.length = frame.pcmBytes.length / 2 := by
    rw [hdata, law.length_encodePlane]
  have hpts : (frame.packet K law tb).pts = some frame.pts := rfl
  unfold drainFrame
  simp only [receivePacket_of_cons hq, orReturn_ok, ok_bind, assertEq_ok hlength, assertEq_ok hpts]
  rw [hdata]
  rfl

/-- The encoder and what was produced, after the loop over some frames. -/
structure Sent (K : OxideavCore) (law : Law) (tb : TimeBase) (out : CodecParameters)
    (drainEager : Bool) (frames : List PendingFrame) (state : BoxEncoder × List Produced) :
    Prop where
  has : state.1.Has law tb out
  queue_eq : state.1.queue = if drainEager then [] else frames.map (PendingFrame.packet K law tb)
  produced_eq : state.2 = if drainEager then frames.map (PendingFrame.produced law) else []

theorem Sent.step {drainEager : Bool} {done : List PendingFrame} {frame : PendingFrame}
    {state : BoxEncoder × List Produced} (h : Sent K law tb out drainEager done state)
    (heven : 2 ∣ frame.pcmBytes.length) :
    ∃ state', sendFrame K drainEager state frame = .ok state' ∧
      Sent K law tb out drainEager (done ++ [frame]) state' := by
  obtain ⟨e, produced⟩ := state
  obtain ⟨he, hqueue, hproduced⟩ := h
  unfold sendFrame
  simp only [sendFrame_of_even he _ _ heven, orReturn_ok, ok_bind]
  cases drainEager with
  | true =>
    have hq : (e.withQueue (e.queue ++ [frame.packet K law tb])).queue
        = frame.packet K law tb :: [] := by
      rw [e.queue_withQueue, hqueue]
      rfl
    refine ⟨_, drainFrame_eq _ _ hq produced, (he.withQueue _).withQueue _, ?_, ?_⟩
    · exact BoxEncoder.queue_withQueue _ _
    · simp_all
  | false =>
    refine ⟨_, rfl, he.withQueue _, ?_, hproduced⟩
    rw [e.queue_withQueue, hqueue]
    simp [PendingFrame.packet]

theorem sendFrames_ok (drainEager : Bool) {frames : List PendingFrame} {e : BoxEncoder}
    (he : e.Has law tb out) (hq : e.queue = []) (heven : ∀ f ∈ frames, 2 ∣ f.pcmBytes.length) :
    ∃ state, frames.foldlM (sendFrame K drainEager) (e, []) = .ok state ∧
      Sent K law tb out drainEager frames state := by
  have hloop := Loops.foldlM_ok (f := sendFrame K drainEager) (l := frames)
    (I := fun done rest state => Sent K law tb out drainEager done state ∧
      ∀ f ∈ rest, 2 ∣ f.pcmBytes.length) (s := (e, [])) ?_ ?_
  · obtain ⟨state, hstate, hsent, -⟩ := hloop
    exact ⟨state, hstate, hsent⟩
  · rintro done frame rest state ⟨hsent, hrest⟩
    obtain ⟨state', hstate', hsent'⟩ := hsent.step (hrest frame (by simp))
    exact ⟨state', hstate', hsent', fun f hf => hrest f (by simp [hf])⟩
  · exact ⟨⟨he, by simp [hq], by simp⟩, heven⟩

/-- The drain hands out the whole queue in order. -/
theorem drainQueue_ok {frames : List PendingFrame} {e : BoxEncoder}
    (hq : e.queue = frames.map (PendingFrame.packet K law tb)) :
    ∃ e', drainQueue frames (e, []) = .ok (e', frames.map (PendingFrame.produced law)) := by
  have hloop := Loops.foldlM_ok
    (f := drainFrame "deferred drain: encoded packet length ≠ samples count"
      "deferred drain: FIFO order broken") (l := frames)
    (I := fun done rest state => state.1.queue = rest.map (PendingFrame.packet K law tb) ∧
      state.2 = done.map (PendingFrame.produced law)) (s := (e, [])) ?_ ⟨hq, rfl⟩
  · obtain ⟨⟨e', produced⟩, hstate, hnil, hproduced⟩ := hloop
    refine ⟨e', ?_⟩
    unfold drainQueue
    simp only [hstate, ok_bind, receivePacket_of_nil hnil, expectError_err]
    rw [show produced = _ from hproduced]
    rfl
  · rintro done frame rest ⟨e', produced⟩ ⟨hqueue, rfl⟩
    refine ⟨_, drainFrame_eq _ _ hqueue _, e'.queue_withQueue _, ?_⟩
    simp

theorem decodeProduced_ok {d : BoxDecoder} (hd : d.Has law ch) (hch : ch ≠ 0) (hs : d.slot = .init)
    (sampleRate : UInt32) (midStreamFlush : Bool) {frame : PendingFrame}
    (hwhole : 2 * ch.toNat ∣ frame.pcmBytes.length) (idx : ℕ) :
    ∃ d', decodeProduced K law ch sampleRate midStreamFlush d (frame.produced law, idx) = .ok d' ∧
      d'.Has law ch ∧ d'.slot = .init := by
  unfold decodeProduced PendingFrame.produced
  simp only [sendPacket_of_init hs, orReturn_ok, ok_bind, receiveFrame_of_sent hd hch hs]
  rw [decodePacket_of_whole hwhole]
  · simp only [audioOrReturn_audio, ok_bind, List.head?_cons, Option.getD_some,
      assertEq_ok (length_round_trip law (dvd_of_mul_right_dvd hwhole)),
      assertEq_ok (samples_round_trip law frame.pcmBytes), expectedDecode, assertEq_ok]
    split_ifs
    · obtain ⟨d', hmake, hd', hs'⟩ := exists_decoder K law hch sampleRate
      simp only [flush_decoder_fst, discard_ok, ok_bind, receiveFrame_of_flushed hs,
        expectError_err, hmake, orReturn_ok]
      exact ⟨d', rfl, hd', hs'⟩
    · exact ⟨d, rfl, hd, hs⟩
  · exact K.packetNew_data ..

/-- A fresh decoder needs more, and after a flush it is at its end. -/
theorem finishStream_ok {d : BoxDecoder} (hs : d.slot = .init) : finishStream d = .ok () := by
  have hmore : ¬ (.error (.err .needMore) : Outcome Frame) = .error (.err .eof) := by decide
  unfold finishStream
  simp only [receiveFrame_of_init hs, if_neg hmore, expectError_err, ok_bind,
    flush_decoder_fst, discard_ok, receiveFrame_of_flushed hs]

/-- What is read from an input has at least one channel, and frames of whole samples. -/
theorem streamingInput_whole {data : List UInt8} {input : StreamingInput}
    (h : streamingInput data = some input) :
    input.channels ≠ 0 ∧ ∀ f ∈ input.frames, 2 * input.channels.toNat ∣ f.pcmBytes.length := by
  unfold streamingInput at h
  split at h
  · dsimp only at h
    split_ifs at h
    cases h
    exact ⟨channelsOf_ne_zero _, carve_whole (channelsOf_bounds _).1⟩
  · cases h

/-- Both ways to drain the encoder produce the same. -/
theorem drain_ok {drainEager : Bool} {frames : List PendingFrame}
    {state : BoxEncoder × List Produced} (h : Sent K law tb out drainEager frames state) :
    ∃ e, drainRest drainEager frames state = .ok (e, frames.map (PendingFrame.produced law)) := by
  obtain ⟨e, produced⟩ := state
  obtain ⟨-, hqueue, hproduced⟩ := h
  cases drainEager with
  | true =>
    obtain rfl : produced = frames.map (PendingFrame.produced law) := hproduced
    exact ⟨e, rfl⟩
  | false =>
    obtain rfl : produced = [] := hproduced
    exact drainQueue_ok hqueue

theorem decodeAll_ok {d : BoxDecoder} (hd : d.Has law ch) (hch : ch ≠ 0) (hs : d.slot = .init)
    (sampleRate : UInt32) (midStreamFlush : Bool) {frames : List PendingFrame}
    (hwhole : ∀ f ∈ frames, 2 * ch.toNat ∣ f.pcmBytes.length) :
    ∃ d', (frames.map (PendingFrame.produced law)).zipIdx.foldlM
        (decodeProduced K law ch sampleRate midStreamFlush) d = .ok d' ∧ d'.slot = .init := by
  have hloop := Loops.foldlM_ok (f := decodeProduced K law ch sampleRate midStreamFlush)
    (l := (frames.map (PendingFrame.produced law)).zipIdx) (s := d)
    (I := fun _ rest d => (∀ x ∈ rest, ∃ f ∈ frames, x.1 = f.produced law) ∧ d.Has law ch ∧
      d.slot = .init) ?_ ⟨?_, hd, hs⟩
  · obtain ⟨d', hd', -, -, hs'⟩ := hloop
    exact ⟨d', hd', hs'⟩
  · rintro done ⟨produced, idx⟩ rest d ⟨hrest, hd, hs⟩
    obtain ⟨f, hf, rfl⟩ := hrest (produced, idx) (by simp)
    obtain ⟨d', hround, hd', hs'⟩ := decodeProduced_ok (K := K) hd hch hs sampleRate
      midStreamFlush (hwhole f hf) idx
    exact ⟨d', hround, fun x hx => hrest x (by simp [hx]), hd', hs'⟩
  · rintro ⟨produced, idx⟩ hx
    obtain ⟨f, hf, rfl⟩ := List.mem_map.1 (List.fst_mem_of_mem_zipIdx hx)
    exact ⟨f, hf, rfl⟩

end Session

theorem streamingSession_ok (K : OxideavCore) {input : StreamingInput} (hch : input.channels ≠ 0)
    (hwhole : ∀ f ∈ input.frames, 2 * input.channels.toNat ∣ f.pcmBytes.length) :
    streamingSession K input = .ok () := by
  obtain ⟨law, ch, sampleRate, drainEager, midStreamFlush, frames⟩ := input
  dsimp only at hch hwhole
  unfold streamingSession
  obtain ⟨e, tb, out, henc, he, hq⟩ := exists_encoder K law hch sampleRate
  obtain ⟨d, hdec, hd, hs⟩ := exists_decoder K law hch sampleRate
  obtain ⟨state, hsend, hsent⟩ := sendFrames_ok (K := K) drainEager he hq
    fun f hf => dvd_of_mul_right_dvd (hwhole f hf)
  obtain ⟨e', hdrain⟩ := drain_ok hsent
  obtain ⟨d', hdecode, hs'⟩ := decodeAll_ok (K := K) hd hch hs sampleRate midStreamFlush hwhole
  simp only [henc, hdec, orReturn_ok, ok_bind, hsend, flush_encoder, discard_ok, hdrain, hdecode,
    finishStream_ok hs']

/-- **The streaming target passes**: a run ends early exactly when the input has no frame in it, and
otherwise runs to its end. -/
theorem streaming_pipeline_passes (K : OxideavCore) (data : List UInt8) :
    streamingPipeline K data
      = if (streamingInput data).isSome then .ok () else .error .early := by
  unfold streamingPipeline
  cases hinput : streamingInput data with
  | none => rfl
  | some input =>
    obtain ⟨hch, hwhole⟩ := streamingInput_whole hinput
    exact streamingSession_ok K hch hwhole

example : (streamingInput [1, 1, 0x40, 0x1F, 2, 0, 1, 1, 7, 8, 9, 10, 0]).map
    (fun input => (input.channels, input.frames.length)) = some (2, 1) := by decide

end Fuzz
end G711
