import G711.DecoderRuns
import G711.EncoderRuns

/-!
# An encoder and a decoder of one law in series

* `own_decoder_verdict`: what the decoder built from an encoder's `output_params` makes of the
  encoder's packets.  `send_frame` does not compare the plane with the channel count or with the
  declared number of samples, so the decoder refuses the packet of a plane that is no whole number
  of interleaved samples.
* `Pipe`: an encoder, the packets in transit and a decoder, driven by calls in any order.
  `stream_law` says that the frames leave in the order in which they entered, each quantised
  sample by sample, and that the others are in the pending slot, in transit or in the queue.
-/

namespace G711

open Slices

variable {K : OxideavCore} {law : Law} {tb : TimeBase} {ch : UInt16}

/-! ### One packet through the encoder's own decoder -/

/-- An empty decoder accepts a packet and answers it. -/
theorem BoxDecoder.exchange {d : BoxDecoder} (hd : d.Has law ch) (hch : ch ≠ 0)
    (hs : d.pending = none) (p : Packet) :
    (d.sendPacket p).1 = .ok () ∧
      (d.sendPacket p).2.receiveFrame.1 = law.decodePacket ch p := by
  obtain ⟨rfl, rfl⟩ := hd
  rw [sendPacket_of_empty hs]
  have hp : (d.withSlot { d.slot with held := some p }).pending = some p := by
    rw [pending, slot_withSlot]
  refine ⟨rfl, ?_⟩
  rw [receiveFrame_of_pending hp (by rwa [channels_withSlot]), law_withSlot, channels_withSlot]

/-- What a decoder built by `law`'s factory from `out` makes of the packet `p` that an encoder
made of the frame `a`, whose first plane is `bytes`. -/
structure OwnDecoderVerdict (law : Law) (out : CodecParameters) (a : AudioFrame)
    (bytes : List UInt8) (p : Packet) : Prop where
  duration_eq : p.duration.map Int64.toInt = some (a.samples.toNat : ℤ)
  /-- A whole number of interleaved samples is decoded, and counted per channel. -/
  decoded : (out.channels.getD 1).toNat ∣ bytes.length / 2 →
    ∃ d frame, law.makeDecoder out = .ok d ∧ (d.sendPacket p).1 = .ok () ∧
      (d.sendPacket p).2.receiveFrame.1 = .ok (.audio frame) ∧
      frame.samples.toNat = bytes.length / 2 / (out.channels.getD 1).toNat % 2 ^ 32
  /-- Anything else is refused as invalid data. -/
  refused : ¬ (out.channels.getD 1).toNat ∣ bytes.length / 2 →
    ∃ d, law.makeDecoder out = .ok d ∧ (d.sendPacket p).1 = .ok () ∧
      (d.sendPacket p).2.receiveFrame.1
        = .error (.err (law.lengthError (bytes.length / 2) (out.channels.getD 1).toNat))
  /-- For a well-formed frame the sample counts agree. -/
  wellFormed : bytes.length = 2 * (out.channels.getD 1).toNat * a.samples.toNat →
    ∃ d frame, law.makeDecoder out = .ok d ∧ (d.sendPacket p).1 = .ok () ∧
      (d.sendPacket p).2.receiveFrame.1 = .ok (.audio frame) ∧ frame.samples = a.samples ∧
      p.duration.map Int64.toInt = some (frame.samples.toNat : ℤ)

theorem ownDecoderVerdict_packetOf {out : CodecParameters} (hch : out.channels.getD 1 ≠ 0)
    (a : AudioFrame) (bytes : List UInt8) :
    OwnDecoderVerdict law out a bytes (law.packetOf K tb a bytes) := by
  have hpos : 0 < (out.channels.getD 1).toNat := channels_pos hch
  have hdur : (law.packetOf K tb a bytes).duration.map Int64.toInt = some (a.samples.toNat : ℤ) :=
    congrArg some (toInt_toInt64 a.samples)
  have hd : law.makeDecoder out = .ok (law.newDecoder out) := by
    rw [Law.makeDecoder_eq, if_neg hch]
  obtain ⟨hhas, -, hslot⟩ := Law.makeDecoder_spec hd
  have hex := BoxDecoder.exchange hhas hch (by rw [BoxDecoder.pending, hslot]; rfl)
    (law.packetOf K tb a bytes)
  have hlen : (law.packetOf K tb a bytes).data.length = bytes.length / 2 := by
    rw [Law.packetOf_data, Law.length_encodePlane]
  rw [Law.decodePacket, hlen] at hex
  have hdecoded : (out.channels.getD 1).toNat ∣ bytes.length / 2 →
      ((law.newDecoder out).sendPacket (law.packetOf K tb a bytes)).2.receiveFrame.1
        = .ok (law.frameOf (out.channels.getD 1) (law.packetOf K tb a bytes)) := by
    intro h
    rw [hex.2, if_pos h]
  constructor
  case duration_eq => exact hdur
  case decoded =>
    intro h
    refine ⟨_, _, hd, hex.1, hdecoded h, ?_⟩
    rw [hlen, UInt32.toNat_ofNat']
  case refused =>
    intro h
    refine ⟨_, hd, hex.1, ?_⟩
    rw [hex.2, if_neg h]
  case wellFormed =>
    intro h
    have hhalf : bytes.length / 2 = (out.channels.getD 1).toNat * a.samples.toNat := by
      rw [h, Nat.mul_assoc, Nat.mul_div_cancel_left _ (by decide)]
    have hsamples : UInt32.ofNat (bytes.length / 2 / (out.channels.getD 1).toNat) = a.samples := by
      rw [hhalf, Nat.mul_div_cancel_left _ hpos, UInt32.ofNat_toNat]
    refine ⟨_, _, hd, hex.1, hdecoded (hhalf ▸ Nat.dvd_mul_right _ _), ?_, ?_⟩
    · rw [hlen, hsamples]
    · rw [hlen, hsamples, hdur]

/-- **Every packet of an encoder, at its own decoder**: the frames accepted in a run and their
packets, returned or queued, are related by `OwnDecoderVerdict`. -/
theorem own_decoder_verdict {params : CodecParameters} {e : BoxEncoder}
    (h : law.makeEncoder K params = .ok e) (ops : List EncoderOp) :
    List.Forall₂
      (fun f p => ∃ a bytes rest, f = .audio a ∧ a.data = bytes :: rest ∧
        OwnDecoderVerdict law ((encoderMachine K).final e ops).outputParams a bytes p)
      (acceptedFrames K e ops)
      (returnedPackets K e ops ++ ((encoderMachine K).final e ops).queue) := by
  obtain ⟨he, hch, -, hq⟩ := Law.makeEncoder_spec h
  refine (encoder_history he hq ops).imp fun f p hfp => ?_
  obtain ⟨a, bytes, rest, rfl, hdata, -, rfl⟩ := admitFrame_eq_ok hfp
  have hout : (outputOf params).channels.getD 1 ≠ 0 := hch
  rw [(encoder_has_final he ops).outputParams_eq]
  exact ⟨a, bytes, rest, rfl, hdata, ownDecoderVerdict_packetOf hout a bytes⟩

/-- A stereo µ-law encoder after a frame of two samples. -/
theorem own_decoder_verdict_stereo :
    List.Forall₂
      (fun f p => ∃ a bytes rest, f = .audio a ∧ a.data = bytes :: rest ∧
        OwnDecoderVerdict .mulaw ((encoderMachine .plain).final
          (.ulaw ⟨outputOf stereo, ⟨1, 8000⟩, []⟩)
          [.sendFrame (.audio ⟨1, some 0, [[0, 0, 1, 0]]⟩)]).outputParams a bytes p)
      (acceptedFrames .plain (.ulaw ⟨outputOf stereo, ⟨1, 8000⟩, []⟩)
        [.sendFrame (.audio ⟨1, some 0, [[0, 0, 1, 0]]⟩)])
      (returnedPackets .plain (.ulaw ⟨outputOf stereo, ⟨1, 8000⟩, []⟩)
          [.sendFrame (.audio ⟨1, some 0, [[0, 0, 1, 0]]⟩)] ++
        ((encoderMachine .plain).final (.ulaw ⟨outputOf stereo, ⟨1, 8000⟩, []⟩)
          [.sendFrame (.audio ⟨1, some 0, [[0, 0, 1, 0]]⟩)]).queue) :=
  @own_decoder_verdict .plain .mulaw stereo _ rfl _

/-- One sample in a frame that declares five.  In stereo the encoder accepts the frame and its own
decoder refuses the packet; in mono the decoder counts one sample where the packet's duration is
five. -/
theorem own_decoder_refuses_half_frame :
    (∃ e p d, Law.makeEncoder .plain .mulaw stereo = .ok e ∧
      (e.sendFrame .plain (.audio ⟨5, none, [[0, 0]]⟩)).1 = .ok () ∧
      (e.sendFrame .plain (.audio ⟨5, none, [[0, 0]]⟩)).2.receivePacket.1 = .ok p ∧
      Law.makeDecoder .mulaw e.outputParams = .ok d ∧ (d.sendPacket p).1 = .ok () ∧
      (d.sendPacket p).2.receiveFrame.1 = .error (.err (Law.mulaw.lengthError 1 2))) ∧
    ∃ e p d frame, Law.makeEncoder .plain .mulaw mono = .ok e ∧
      (e.sendFrame .plain (.audio ⟨5, none, [[0, 0]]⟩)).1 = .ok () ∧
      (e.sendFrame .plain (.audio ⟨5, none, [[0, 0]]⟩)).2.receivePacket.1 = .ok p ∧
      Law.makeDecoder .mulaw e.outputParams = .ok d ∧ (d.sendPacket p).1 = .ok () ∧
      (d.sendPacket p).2.receiveFrame.1 = .ok (.audio frame) ∧
      frame.samples = 1 ∧ p.duration = some 5 := by
  constructor
  · refine ⟨.ulaw ⟨outputOf stereo, ⟨1, 8000⟩, []⟩,
      Law.mulaw.packetOf .plain ⟨1, 8000⟩ ⟨5, none, [[0, 0]]⟩ [0, 0],
      .ulaw ⟨"g711", 2, none, false⟩, rfl, ?_, ?_, rfl, ?_⟩
    · rw [BoxEncoder.sendFrame_eq]
      rfl
    · rw [BoxEncoder.sendFrame_eq]
      rfl
    · have hex := BoxDecoder.exchange (d := .ulaw ⟨"g711", 2, none, false⟩) ⟨rfl, rfl⟩
        (show (2 : UInt16) ≠ 0 by decide) rfl
        (Law.mulaw.packetOf .plain ⟨1, 8000⟩ ⟨5, none, [[0, 0]]⟩ [0, 0])
      rwa [Law.decodePacket, if_neg (by decide)] at hex
  · refine ⟨.ulaw ⟨outputOf mono, ⟨1, 8000⟩, []⟩,
      Law.mulaw.packetOf .plain ⟨1, 8000⟩ ⟨5, none, [[0, 0]]⟩ [0, 0],
      .ulaw ⟨"g711", 1, none, false⟩,
      ⟨1, none, [Law.mulaw.decodePlane (Law.mulaw.encodePlane [0, 0])]⟩, rfl, ?_, ?_, rfl, ?_⟩
    · rw [BoxEncoder.sendFrame_eq]
      rfl
    · rw [BoxEncoder.sendFrame_eq]
      rfl
    · have hex := BoxDecoder.exchange (d := .ulaw ⟨"g711", 1, none, false⟩) ⟨rfl, rfl⟩
        (show (1 : UInt16) ≠ 0 by decide) rfl
        (Law.mulaw.packetOf .plain ⟨1, 8000⟩ ⟨5, none, [[0, 0]]⟩ [0, 0])
      rw [Law.decodePacket, if_pos (by decide)] at hex
      exact ⟨hex.1, hex.2, rfl, by decide⟩

/-! ### The pipeline -/

/-- A well-formed audio frame of `ch` interleaved channels: one plane that holds exactly the
declared samples. -/
structure WellFormedFrame (ch : UInt16) where
  samples : UInt32
  pts : Option Int64
  plane : List UInt8
  length_plane : plane.length = 2 * ch.toNat * samples.toNat

namespace WellFormedFrame

def audio (f : WellFormedFrame ch) : AudioFrame := ⟨f.samples, f.pts, [f.plane]⟩

def frame (f : WellFormedFrame ch) : Frame := .audio f.audio

/-- The frame with every sample of its plane encoded and decoded again. -/
def quantised (law : Law) (f : WellFormedFrame ch) : Frame :=
  .audio ⟨f.samples, f.pts,
    [Slices.plane ((Slices.samples f.plane).map fun s => law.decodeSample (law.encodeSample s))]⟩

/-- The packet of the frame. -/
def packet (K : OxideavCore) (law : Law) (tb : TimeBase) (f : WellFormedFrame ch) : Packet :=
  law.packetOf K tb f.audio f.plane

theorem admitFrame_frame (f : WellFormedFrame ch) :
    law.admitFrame K tb f.frame = .ok (f.packet K law tb) := by
  have heven : 2 ∣ f.plane.length := by
    rw [f.length_plane, Nat.mul_assoc]
    exact Nat.dvd_mul_right _ _
  simp [Law.admitFrame, frame, audio, packet, heven]

/-- The packet of a frame decodes to the quantised frame. -/
theorem decodePacket_packet (hch : ch ≠ 0) (f : WellFormedFrame ch) :
    law.decodePacket ch (f.packet K law tb) = .ok (f.quantised law) := by
  have hlen : (f.packet K law tb).data.length = ch.toNat * f.samples.toNat := by
    rw [packet, Law.packetOf_data, Law.length_encodePlane, f.length_plane, Nat.mul_assoc,
      Nat.mul_div_cancel_left _ (by decide)]
  have hplane : law.decodePlane (f.packet K law tb).data
      = Slices.plane ((Slices.samples f.plane).map
          fun s => law.decodeSample (law.encodeSample s)) := by
    rw [packet, Law.packetOf_data, Law.decodePlane_encodePlane]
  rw [Law.decodePacket, if_pos (hlen ▸ Nat.dvd_mul_right _ _), Law.frameOf, hlen, hplane,
    Nat.mul_div_cancel_left _ (channels_pos hch), UInt32.ofNat_toNat]
  rfl

end WellFormedFrame

/-- An encoder, the packets in transit, a decoder, and what went in and came out so far. -/
structure Pipe (ch : UInt16) where
  enc : BoxEncoder
  transit : List Packet
  dec : BoxDecoder
  given : List (WellFormedFrame ch)
  obtained : List Frame

inductive PipeOp (ch : UInt16)
  | sendFrame (f : WellFormedFrame ch)
  | receivePacket
  | sendPacket
  | receiveFrame
  | flushEncoder
  | flushDecoder

/-- The response of the side that a step calls; `sendPacket` with nothing in transit calls
neither. -/
inductive PipeAnswer
  | encoder (r : EncoderAnswer)
  | decoder (r : DecoderAnswer)
  | nothing

/-- One step.  A returned packet joins the transit; the transit head leaves it only when the
decoder accepts it. -/
def Pipe.step (K : OxideavCore) (s : Pipe ch) : PipeOp ch → PipeAnswer × Pipe ch
  | .sendFrame f =>
    let (r, enc) := s.enc.sendFrame K f.frame
    (.encoder (.sent r), { s with enc, given := s.given ++ [f] })
  | .receivePacket =>
    match s.enc.receivePacket with
    | (.ok p, enc) => (.encoder (.received (.ok p)), { s with enc, transit := s.transit ++ [p] })
    | (.error e, enc) => (.encoder (.received (.error e)), { s with enc })
  | .sendPacket =>
    match s.transit with
    | [] => (.nothing, s)
    | p :: rest =>
      match s.dec.sendPacket p with
      | (.ok (), dec) => (.decoder (.sent (.ok ())), { s with dec, transit := rest })
      | (.error e, dec) => (.decoder (.sent (.error e)), { s with dec })
  | .receiveFrame =>
    match s.dec.receiveFrame with
    | (.ok f, dec) => (.decoder (.received (.ok f)), { s with dec, obtained := s.obtained ++ [f] })
    | (.error e, dec) => (.decoder (.received (.error e)), { s with dec })
  | .flushEncoder =>
    let (r, enc) := s.enc.flush
    (.encoder (.flushed r), { s with enc })
  | .flushDecoder =>
    let (r, dec) := s.dec.flush
    (.decoder (.flushed r), { s with dec })

/-- The pipeline under arbitrary schedules. -/
def pipeMachine (K : OxideavCore) (ch : UInt16) : Mealy (Pipe ch) (PipeOp ch) PipeAnswer where
  next s op := (s.step K op).2
  answer s op := (s.step K op).1

/-- The pipeline before its first step. -/
def Pipe.start (e : BoxEncoder) (d : BoxDecoder) : Pipe ch := ⟨e, [], d, [], []⟩

/-- The frames that came out are the quantised first ones, and the packets of the others are, in
order, in the pending slot, in transit and in the encoder queue. -/
structure PipeInv (K : OxideavCore) (law : Law) (tb : TimeBase) (out : CodecParameters)
    (s : Pipe ch) : Prop where
  enc_has : s.enc.Has law tb out
  dec_has : s.dec.Has law ch
  frames : ∃ done rest, s.given = done ++ rest ∧
    s.obtained = done.map (·.quantised law) ∧
    s.dec.pending.toList ++ s.transit ++ s.enc.queue = rest.map (·.packet K law tb)

/-- The responses that a pipeline of well-formed frames can get: the only errors are a busy
decoder, and nothing to receive. -/
def PipeAnswer.Benign (law : Law) : PipeAnswer → Prop
  | .encoder (.sent r) => r = .ok ()
  | .encoder (.received r) => (∃ p, r = .ok p) ∨ r = .error (.err .needMore)
  | .encoder (.flushed r) => r = .ok ()
  | .decoder (.sent r) => r = .ok () ∨ r = .error (.err law.busyError)
  | .decoder (.received r) =>
    (∃ f, r = .ok f) ∨ r = .error (.err .needMore) ∨ r = .error (.err .eof)
  | .decoder (.flushed r) => r = .ok ()
  | .nothing => True

/-- A response of either side is no panic. -/
def PipeAnswer.NoPanic : PipeAnswer → Prop
  | .encoder a => a.NoPanic
  | .decoder a => a.NoPanic
  | .nothing => True

theorem PipeAnswer.Benign.noPanic {a : PipeAnswer} (h : a.Benign law) : a.NoPanic := by
  match a, h with
  | .encoder (.sent _), rfl => exact Outcome.noPanic_ok _
  | .encoder (.received _), .inl ⟨_, rfl⟩ => exact Outcome.noPanic_ok _
  | .encoder (.received _), .inr rfl => exact Outcome.noPanic_err _
  | .encoder (.flushed _), rfl => exact Outcome.noPanic_ok _
  | .decoder (.sent _), .inl rfl => exact Outcome.noPanic_ok _
  | .decoder (.sent _), .inr rfl => exact Outcome.noPanic_err _
  | .decoder (.received _), .inl ⟨_, rfl⟩ => exact Outcome.noPanic_ok _
  | .decoder (.received _), .inr (.inl rfl) => exact Outcome.noPanic_err _
  | .decoder (.received _), .inr (.inr rfl) => exact Outcome.noPanic_err _
  | .decoder (.flushed _), rfl => exact Outcome.noPanic_ok _
  | .nothing, _ => trivial

/-! ### What one step does -/

section Step

variable {out : CodecParameters} {s : Pipe ch}

theorem PipeInv.step_sendFrame (h : PipeInv K law tb out s) (f : WellFormedFrame ch) :
    s.step K (.sendFrame f) = (.encoder (.sent (.ok ())),
      { s with
        enc := s.enc.withQueue (s.enc.queue ++ [f.packet K law tb])
        given := s.given ++ [f] }) := by
  simp [Pipe.step, BoxEncoder.sendFrame_eq, h.enc_has.law_eq, h.enc_has.timeBase_eq,
    WellFormedFrame.admitFrame_frame]

theorem Pipe.step_receivePacket_of_nil (hq : s.enc.queue = []) :
    s.step K .receivePacket = (.encoder (.received (.error (.err .needMore))), s) := by
  simp [Pipe.step, BoxEncoder.receivePacket_eq, hq]

theorem Pipe.step_receivePacket_of_cons {p : Packet} {q : List Packet}
    (hq : s.enc.queue = p :: q) :
    s.step K .receivePacket = (.encoder (.received (.ok p)),
      { s with enc := s.enc.withQueue q, transit := s.transit ++ [p] }) := by
  simp [Pipe.step, BoxEncoder.receivePacket_eq, hq]

theorem Pipe.step_sendPacket_of_nil (ht : s.transit = []) :
    s.step K .sendPacket = (.nothing, s) := by
  simp [Pipe.step, ht]

theorem Pipe.step_sendPacket_of_empty {p : Packet} {rest : List Packet}
    (ht : s.transit = p :: rest) (hp : s.dec.pending = none) :
    s.step K .sendPacket = (.decoder (.sent (.ok ())),
      { s with dec := s.dec.withSlot { s.dec.slot with held := some p }, transit := rest }) := by
  simp [Pipe.step, ht, BoxDecoder.sendPacket_of_empty hp]

theorem Pipe.step_sendPacket_of_pending {p q : Packet} {rest : List Packet}
    (ht : s.transit = p :: rest) (hp : s.dec.pending = some q) :
    s.step K .sendPacket = (.decoder (.sent (.error (.err s.dec.law.busyError))), s) := by
  obtain ⟨enc, transit, dec, given, obtained⟩ := s
  obtain rfl : transit = p :: rest := ht
  simp [Pipe.step, BoxDecoder.sendPacket_of_pending hp]

theorem Pipe.step_receiveFrame_of_empty (hp : s.dec.pending = none) :
    s.step K .receiveFrame
      = (.decoder (.received (.error (.err (if s.dec.slot.closed then .eof else .needMore)))),
        s) := by
  have hheld : s.dec.slot.held = none := hp
  have hstate : s.dec.receiveFrame.2 = s.dec := by
    rw [BoxDecoder.receiveFrame_state, ← hheld]
    exact s.dec.withSlot_slot
  have hframe : s.dec.receiveFrame
      = (.error (.err (if s.dec.slot.closed then .eof else .needMore)), s.dec) :=
    Prod.ext (by rw [BoxDecoder.receiveFrame_of_empty hp]; split_ifs <;> rfl) hstate
  simp [Pipe.step, hframe]

theorem PipeInv.step_receiveFrame_of_pending (h : PipeInv K law tb out s) (hch : ch ≠ 0)
    {f : WellFormedFrame ch} (hp : s.dec.pending = some (f.packet K law tb)) :
    s.step K .receiveFrame = (.decoder (.received (.ok (f.quantised law))),
      { s with
        dec := s.dec.withSlot { s.dec.slot with held := none }
        obtained := s.obtained ++ [f.quantised law] }) := by
  have hframe : s.dec.receiveFrame
      = (.ok (f.quantised law), s.dec.withSlot { s.dec.slot with held := none }) := by
    refine Prod.ext ?_ s.dec.receiveFrame_state
    rw [BoxDecoder.receiveFrame_of_pending hp (by rwa [h.dec_has.channels_eq]), h.dec_has.law_eq,
      h.dec_has.channels_eq, f.decodePacket_packet hch]
  simp [Pipe.step, hframe]

theorem Pipe.step_flushEncoder :
    s.step K .flushEncoder = (.encoder (.flushed (.ok ())), s) := by
  obtain ⟨enc, transit, dec, given, obtained⟩ := s
  cases enc <;> rfl

theorem Pipe.step_flushDecoder :
    s.step K .flushDecoder = (.decoder (.flushed (.ok ())),
      { s with dec := s.dec.withSlot { s.dec.slot with closed := true } }) := by
  obtain ⟨enc, transit, dec, given, obtained⟩ := s
  cases dec <;> rfl

end Step

/-! ### The stream law -/

section Invariant

variable {out : CodecParameters} {s : Pipe ch}

/-- A pending packet is the packet of the frame that comes next. -/
theorem PipeInv.pending_eq (h : PipeInv K law tb out s) {p : Packet}
    (hp : s.dec.pending = some p) :
    ∃ done f rest, s.given = done ++ f :: rest ∧ s.obtained = done.map (·.quantised law) ∧
      p = f.packet K law tb ∧ s.transit ++ s.enc.queue = rest.map (·.packet K law tb) := by
  obtain ⟨done, rest, hgiven, hobtained, hwaiting⟩ := h.frames
  rw [hp] at hwaiting
  obtain ⟨f, rest', rfl, hf, htail⟩ := List.map_eq_cons_iff.1 hwaiting.symm
  exact ⟨done, f, rest', hgiven, hobtained, hf.symm, htail.symm⟩

/-- Every step keeps the invariant and gets a benign response. -/
theorem PipeInv.step (hch : ch ≠ 0) (op : PipeOp ch) (h : PipeInv K law tb out s) :
    PipeInv K law tb out (s.step K op).2 ∧ (s.step K op).1.Benign law := by
  obtain ⟨done, rest, hgiven, hobtained, hwaiting⟩ := h.frames
  cases op with
  | sendFrame f =>
    rw [h.step_sendFrame f]
    refine ⟨⟨h.enc_has.withQueue _, h.dec_has, done, rest ++ [f], ?_, hobtained, ?_⟩, rfl⟩
    · simp [hgiven]
    · simp [← hwaiting]
  | receivePacket =>
    cases hq : s.enc.queue with
    | nil =>
      rw [Pipe.step_receivePacket_of_nil hq]
      exact ⟨h, Or.inr rfl⟩
    | cons p q =>
      rw [Pipe.step_receivePacket_of_cons hq]
      refine ⟨⟨h.enc_has.withQueue _, h.dec_has, done, rest, hgiven, hobtained, ?_⟩,
        Or.inl ⟨p, rfl⟩⟩
      simp [← hwaiting, hq]
  | sendPacket =>
    cases ht : s.transit with
    | nil =>
      rw [Pipe.step_sendPacket_of_nil ht]
      exact ⟨h, trivial⟩
    | cons p transit =>
      cases hp : s.dec.pending with
      | some q =>
        -- a refused packet stays at the head of the transit, and nothing has changed
        rw [Pipe.step_sendPacket_of_pending ht hp, h.dec_has.law_eq]
        exact ⟨h, Or.inr rfl⟩
      | none =>
        have hheld : s.dec.slot.held = none := hp
        rw [Pipe.step_sendPacket_of_empty ht hp]
        refine ⟨⟨h.enc_has, h.dec_has.withSlot _, done, rest, hgiven, hobtained, ?_⟩, Or.inl rfl⟩
        simp [← hwaiting, ht, hheld, BoxDecoder.pending]
  | receiveFrame =>
    cases hp : s.dec.pending with
    | none =>
      rw [Pipe.step_receiveFrame_of_empty hp]
      refine ⟨h, Or.inr ?_⟩
      cases s.dec.slot.closed with
      | false => exact Or.inl rfl
      | true => exact Or.inr rfl
    | some p =>
      -- the pending packet is that of the first frame not yet obtained
      obtain ⟨done, f, rest, hgiven, hobtained, rfl, hwaiting⟩ := h.pending_eq hp
      rw [h.step_receiveFrame_of_pending hch hp]
      refine ⟨⟨h.enc_has, h.dec_has.withSlot _, done ++ [f], rest, ?_, ?_, ?_⟩, Or.inl ⟨_, rfl⟩⟩
      · simp [hgiven]
      · simp [hobtained]
      · simpa [BoxDecoder.pending] using hwaiting
  | flushEncoder =>
    rw [Pipe.step_flushEncoder]
    exact ⟨h, rfl⟩
  | flushDecoder =>
    rw [Pipe.step_flushDecoder]
    refine ⟨⟨h.enc_has, h.dec_has.withSlot _, done, rest, hgiven, hobtained, ?_⟩, rfl⟩
    simpa [BoxDecoder.pending] using hwaiting

end Invariant

/-- What holds of a pipeline in the state `s`, with an encoder whose time base is `tb`. -/
structure StreamState (K : OxideavCore) (law : Law) (tb : TimeBase) (s : Pipe ch) : Prop where
  /-- No more frames came out than went in. -/
  obtained_le : s.obtained.length ≤ s.given.length
  /-- The frames that came out are the first ones given, in order, each quantised. -/
  obtained_eq : s.obtained = (s.given.take s.obtained.length).map (·.quantised law)
  /-- The other frames are, in order and exactly once, pending, in transit and queued. -/
  remaining_eq : s.dec.pending.toList ++ s.transit ++ s.enc.queue
    = (s.given.drop s.obtained.length).map (·.packet K law tb)

theorem PipeInv.streamState {out : CodecParameters} {s : Pipe ch} (h : PipeInv K law tb out s) :
    StreamState K law tb s := by
  obtain ⟨done, rest, hgiven, hobtained, hwaiting⟩ := h.frames
  have hlen : s.obtained.length = done.length := by rw [hobtained, List.length_map]
  refine ⟨?_, ?_, ?_⟩
  · rw [hlen, hgiven, List.length_append]
    omega
  · rw [hlen, hgiven, List.take_left, hobtained]
  · rw [hlen, hgiven, List.drop_left, hwaiting]

/-- **The stream law**: an encoder and a decoder of one law, built from the same parameters and
driven in any order, lose, repeat and reorder nothing, and no step panics. -/
theorem stream_law {params : CodecParameters} {e : BoxEncoder} {d : BoxDecoder}
    (he : law.makeEncoder K params = .ok e) (hd : law.makeDecoder params = .ok d)
    (ops : List (PipeOp (params.channels.getD 1))) :
    StreamState K law e.timeBase ((pipeMachine K _).final (.start e d) ops) ∧
      ∀ a ∈ (pipeMachine K _).answers (.start e d) ops, a.Benign law ∧ a.NoPanic := by
  obtain ⟨hehas, hch, -, hq⟩ := Law.makeEncoder_spec he
  obtain ⟨hdhas, -, hslot⟩ := Law.makeDecoder_spec hd
  have hstart : PipeInv K law e.timeBase (outputOf params)
      (.start e d : Pipe (params.channels.getD 1)) := by
    refine ⟨⟨hehas.law_eq, rfl, hehas.outputParams_eq⟩, hdhas, [], [], rfl, rfl, ?_⟩
    simp [Pipe.start, BoxDecoder.pending, hslot, hq, Slot.State.init]
  have hstep := fun s op (h : PipeInv K law e.timeBase (outputOf params) s) => h.step hch op
  have hnext := fun s op h => (hstep s op h).1
  refine ⟨((pipeMachine K _).final_invariant hnext hstart ops).streamState, ?_⟩
  intro a ha
  obtain ⟨x, hx, rfl⟩ := List.mem_map.1 ha
  have hbenign : x.2.Benign law := (pipeMachine K _).trace_forall (P := fun x => x.2.Benign law)
    hnext (fun s op h => (hstep s op h).2) hstart ops x hx
  exact ⟨hbenign, hbenign.noPanic⟩

/-- A stereo µ-law pipeline before its first step, for a concrete run. -/
def stereoPipe : Pipe 2 :=
  .start (.ulaw ⟨outputOf stereo, ⟨1, 8000⟩, []⟩) (.ulaw ⟨"g711", 2, none, false⟩)

/-- Two frames are sent, of which the first one is obtained; the other one stays in the queue. -/
def stereoSchedule : List (PipeOp 2) :=
  [.sendFrame ⟨1, some 0, [0, 0, 1, 0], rfl⟩, .receivePacket, .flushDecoder, .sendPacket,
    .sendFrame ⟨1, some 1, [2, 0, 3, 0], rfl⟩, .receiveFrame, .receiveFrame]

/-- Its stream law, and the frame that it obtains. -/
theorem stream_law_stereo :
    StreamState .plain .mulaw ⟨1, 8000⟩ ((pipeMachine .plain 2).final stereoPipe stereoSchedule) ∧
      (∀ a ∈ (pipeMachine .plain 2).answers stereoPipe stereoSchedule,
        a.Benign .mulaw ∧ a.NoPanic) ∧
      ((pipeMachine .plain 2).final stereoPipe stereoSchedule).obtained
        = [(⟨1, some 0, [0, 0, 1, 0], rfl⟩ : WellFormedFrame 2).quantised .mulaw] := by
  have hlaw : StreamState .plain .mulaw ⟨1, 8000⟩
      ((pipeMachine .plain 2).final stereoPipe stereoSchedule) ∧
      ∀ a ∈ (pipeMachine .plain 2).answers stereoPipe stereoSchedule, a.Benign .mulaw ∧ a.NoPanic :=
    @stream_law .plain .mulaw stereo _ _ rfl rfl stereoSchedule
  have hlength : ((pipeMachine .plain 2).final stereoPipe stereoSchedule).obtained.length = 1 := by
    decide +kernel
  have hobtained := hlaw.1.obtained_eq
  rw [hlength] at hobtained
  exact ⟨hlaw.1, hlaw.2, hobtained⟩

end G711
