import G711.Library.Interleave
import G711.Pipeline

/-!
# A multichannel codec is a bundle of mono codecs

The samples of a frame, and the octets of a packet, are interleaved by channel.  Taking channel
`k` out of what a codec of `c` channels returns gives what a mono codec returns for channel `k` of
what it is sent (`channel_law`), for any sequence of calls; nothing flows from one channel to
another.

Both sides of the equation are images of one run of a buffer: of frames in the queue of an
encoder, of whole packets in the slot of a decoder.
-/

namespace G711

open Slices

/-! ### Channels of planes, packets, frames and answers -/

/-- Channel `k` of a plane: of its 16-bit samples. -/
def channelPlane (c k : ℕ) (bytes : List UInt8) : List UInt8 :=
  unpairs (Interleave.channel c k (pairs bytes))

/-- Channel `k` of a packet: of its octets. -/
def Packet.channel (c k : ℕ) (p : Packet) : Packet :=
  { p with data := Interleave.channel c k p.data }

/-- Channel `k` of a frame: of every plane. -/
def Frame.channel (c k : ℕ) : Frame → Frame
  | .audio a => .audio { a with data := a.data.map (channelPlane c k) }
  | .nonAudio => .nonAudio

/-- Channel `k` of what an encoder answers. -/
def EncoderAnswer.channel (c k : ℕ) : EncoderAnswer → EncoderAnswer
  | .received (.ok p) => .received (.ok (p.channel c k))
  | a => a

/-- Channel `k` of what a decoder answers. -/
def DecoderAnswer.channel (c k : ℕ) : DecoderAnswer → DecoderAnswer
  | .received (.ok f) => .received (.ok (f.channel c k))
  | a => a

/-- The parameters with the channel count one. -/
def CodecParameters.toMono (params : CodecParameters) : CodecParameters :=
  { params with channels := some 1 }

theorem length_channelPlane {c k : ℕ} (hk : k < c) (bytes : List UInt8) :
    (channelPlane c k bytes).length = 2 * (bytes.length / 2 / c) := by
  rw [channelPlane, length_unpairs, Interleave.length_channel hk, length_pairs]

/-- Octets are encoded from samples one by one, so a channel of one is a channel of the other. -/
theorem Law.encodePlane_channelPlane (law : Law) (c k : ℕ) (bytes : List UInt8) :
    law.encodePlane (channelPlane c k bytes) = Interleave.channel c k (law.encodePlane bytes) := by
  unfold Law.encodePlane samples channelPlane
  rw [pairs_unpairs, Interleave.channel_map, Interleave.channel_map]

theorem Law.decodePlane_channel (law : Law) (c k : ℕ) (data : List UInt8) :
    law.decodePlane (Interleave.channel c k data) = channelPlane c k (law.decodePlane data) := by
  unfold Law.decodePlane plane channelPlane
  rw [pairs_unpairs, Interleave.channel_map, Interleave.channel_map]

/-! ### Calls with well-formed frames and whole packets -/

variable {K : OxideavCore} {law : Law} {tb : TimeBase} {ch : UInt16}

/-- Channel `k` of a well-formed frame is a well-formed mono frame. -/
def WellFormedFrame.channel (k : Fin ch.toNat) (f : WellFormedFrame ch) : WellFormedFrame 1 where
  samples := f.samples
  pts := f.pts
  plane := channelPlane ch.toNat k f.plane
  length_plane := by
    have hpos : 0 < ch.toNat := Nat.zero_lt_of_lt k.isLt
    rw [length_channelPlane k.isLt, f.length_plane, Nat.mul_assoc,
      Nat.mul_div_cancel_left _ two_pos, Nat.mul_div_cancel_left _ hpos]
    rfl

/-- A packet of whole `ch`-channel samples. -/
structure WholePacket (ch : UInt16) where
  packet : Packet
  whole : ch.toNat ∣ packet.data.length

/-- Channel `k` of a whole packet is a mono packet. -/
def WholePacket.channel (k : Fin ch.toNat) (p : WholePacket ch) : WholePacket 1 where
  packet := p.packet.channel ch.toNat k
  whole := one_dvd _

/-- A call on an encoder of `ch` channels. -/
abbrev FrameCall (ch : UInt16) := AdmittingQueue.Op (WellFormedFrame ch)

def FrameCall.op : FrameCall ch → EncoderOp
  | .push f => .sendFrame f.frame
  | .pop => .receivePacket
  | .idle => .flush

/-- The call with channel `k` of its frame. -/
def FrameCall.channel (k : Fin ch.toNat) : FrameCall ch → FrameCall 1 :=
  AdmittingQueue.Op.map (WellFormedFrame.channel k)

/-- A call on a decoder of `ch` channels. -/
abbrev PacketCall (ch : UInt16) := Slot.Op (WholePacket ch)

def PacketCall.op : PacketCall ch → DecoderOp
  | .put p => .sendPacket p.packet
  | .take => .receiveFrame
  | .close => .flush

/-- The call with channel `k` of its packet. -/
def PacketCall.channel (k : Fin ch.toNat) : PacketCall ch → PacketCall 1 :=
  Slot.Op.map (WholePacket.channel k)

/-! ### Encoders -/

theorem WellFormedFrame.packet_channel (k : Fin ch.toNat) (f : WellFormedFrame ch) :
    (f.channel k).packet K law tb = (f.packet K law tb).channel ch.toNat k := by
  have hdata : ((f.channel k).packet K law tb).data
      = Interleave.channel ch.toNat k (f.packet K law tb).data := by
    rw [WellFormedFrame.packet, WellFormedFrame.packet, Law.packetOf_data, Law.packetOf_data]
    exact law.encodePlane_channelPlane ch.toNat k f.plane
  simp only [Packet.channel, ← hdata]
  simp [WellFormedFrame.packet, Law.packetOf, WellFormedFrame.audio, WellFormedFrame.channel]

/-- The queue of an encoder, with frames in the place of their packets. -/
def frameQueue (ch : UInt16) :
    Mealy (List (WellFormedFrame ch)) (FrameCall ch)
      (AdmittingQueue.Answer (WellFormedFrame ch) Error) :=
  AdmittingQueue.machine Except.ok

/-- An encoder answers for the frame queue. -/
theorem encoder_answers {e : BoxEncoder} {out : CodecParameters} (he : e.Has law tb out)
    (hq : e.queue = []) (calls : List (FrameCall ch)) :
    (encoderMachine K).answers e (calls.map FrameCall.op)
      = ((frameQueue ch).answers [] calls).map
          fun a => ofQueue (a.map (WellFormedFrame.packet K law tb)) := by
  have hops : (calls.map FrameCall.op).map EncoderOp.toQueue
      = calls.map (AdmittingQueue.Op.map WellFormedFrame.frame) := by
    rw [List.map_map]
    exact List.map_congr_left fun call _ => by cases call <;> rfl
  have hrun := AdmittingQueue.answers_map Except.ok (law.admitFrame K tb) WellFormedFrame.frame
    (WellFormedFrame.packet K law tb) (fun f => f.admitFrame_frame) [] calls
  rw [(encoderRefines K law tb out).answers_eq he]
  show ((AdmittingQueue.machine (law.admitFrame K tb)).answers e.queue
    ((calls.map FrameCall.op).map EncoderOp.toQueue)).map ofQueue = _
  rw [hq, hops]
  exact (congrArg (List.map ofQueue) hrun).trans List.map_map

/-- The frame queue on channel `k`. -/
theorem frameQueue_channel (k : Fin ch.toNat) (calls : List (FrameCall ch)) :
    (frameQueue 1).answers [] (calls.map (FrameCall.channel k))
      = ((frameQueue ch).answers [] calls).map
          (AdmittingQueue.Answer.map (WellFormedFrame.channel k)) :=
  AdmittingQueue.answers_map Except.ok Except.ok (WellFormedFrame.channel k)
    (WellFormedFrame.channel k) (fun _ => rfl) [] calls

theorem ofQueue_channel (k : Fin ch.toNat)
    (a : AdmittingQueue.Answer (WellFormedFrame ch) Error) :
    ofQueue ((a.map (WellFormedFrame.channel k)).map (WellFormedFrame.packet K law tb))
      = (ofQueue (a.map (WellFormedFrame.packet K law tb))).channel ch.toNat k := by
  cases a with
  | popped f =>
    show EncoderAnswer.received (.ok ((f.channel k).packet K law tb)) = _
    rw [f.packet_channel k]
    rfl
  | pushed f => rfl
  | refused e => rfl
  | empty => rfl
  | idle => rfl

theorem encoder_answers_channel {e e₁ : BoxEncoder} {out out₁ : CodecParameters}
    (he : e.Has law tb out) (hq : e.queue = []) (he₁ : e₁.Has law tb out₁) (hq₁ : e₁.queue = [])
    (k : Fin ch.toNat) (calls : List (FrameCall ch)) :
    (encoderMachine K).answers e₁ ((calls.map (FrameCall.channel k)).map FrameCall.op)
      = ((encoderMachine K).answers e (calls.map FrameCall.op)).map
          (EncoderAnswer.channel ch.toNat k) := by
  rw [encoder_answers he₁ hq₁, encoder_answers he hq, frameQueue_channel, List.map_map,
    List.map_map]
  exact List.map_congr_left fun a _ => ofQueue_channel k a

/-- Encoders of well-formed frames return whole packets. -/
theorem returned_whole {e : BoxEncoder} {out : CodecParameters} (he : e.Has law tb out)
    (hq : e.queue = []) (calls : List (FrameCall ch)) {p : Packet}
    (hp : EncoderAnswer.received (.ok p) ∈ (encoderMachine K).answers e (calls.map FrameCall.op)) :
    ch.toNat ∣ p.data.length := by
  rw [encoder_answers he hq] at hp
  obtain ⟨a, -, ha⟩ := List.mem_map.1 hp
  cases a with
  | popped f =>
    cases ha
    rw [WellFormedFrame.packet, Law.packetOf_data, Law.length_encodePlane, f.length_plane,
      Nat.mul_assoc, Nat.mul_div_cancel_left _ two_pos]
    exact Nat.dvd_mul_right _ _
  | pushed f => cases ha
  | refused e => cases ha
  | empty => cases ha
  | idle => cases ha

/-! ### Decoders -/

/-- A decoder answers for the slot of whole packets. -/
theorem decoder_answers {d : BoxDecoder} (hd : d.Has law ch) (hch : ch ≠ 0) (hs : d.slot = .init)
    (calls : List (PacketCall ch)) :
    decoderMachine.answers d (calls.map PacketCall.op)
      = ((Slot.machine (WholePacket ch)).answers .init calls).map
          fun a => law.ofSlot ch (a.map WholePacket.packet) := by
  have hops : (calls.map PacketCall.op).map DecoderOp.toSlot
      = calls.map (Slot.Op.map WholePacket.packet) := by
    rw [List.map_map]
    exact List.map_congr_left fun call _ => by cases call <;> rfl
  have hrun := Slot.answers_map WholePacket.packet .init calls
  rw [(decoderRefines law hch).answers_eq hd]
  show ((Slot.machine Packet).answers d.slot
    ((calls.map PacketCall.op).map DecoderOp.toSlot)).map (law.ofSlot ch) = _
  rw [hs, hops]
  exact (congrArg (List.map (law.ofSlot ch)) hrun).trans List.map_map

/-- A whole packet and its channel `k` decode to frames with the same header. -/
theorem WholePacket.decodePacket_channel (k : Fin ch.toNat) (p : WholePacket ch) :
    law.decodePacket 1 (p.channel k).packet
      = (law.decodePacket ch p.packet).map (Frame.channel ch.toNat k) := by
  have hwhole : (1 : UInt16).toNat ∣ (p.channel k).packet.data.length := one_dvd _
  have hcount : (p.channel k).packet.data.length / (1 : UInt16).toNat
      = p.packet.data.length / ch.toNat :=
    (Nat.div_one _).trans (Interleave.length_channel k.isLt _)
  have hplane : law.decodePlane (p.channel k).packet.data
      = channelPlane ch.toNat k (law.decodePlane p.packet.data) :=
    law.decodePlane_channel ch.toNat k p.packet.data
  rw [Law.decodePacket, Law.decodePacket, if_pos hwhole, if_pos p.whole, Law.frameOf, hcount,
    hplane]
  rfl

theorem ofSlot_channel (k : Fin ch.toNat) (a : Slot.Answer (WholePacket ch)) :
    law.ofSlot 1 ((a.map (WholePacket.channel k)).map WholePacket.packet)
      = (law.ofSlot ch (a.map WholePacket.packet)).channel ch.toNat k := by
  cases a with
  | item p =>
    show DecoderAnswer.received (law.decodePacket 1 (p.channel k).packet)
      = (DecoderAnswer.received (law.decodePacket ch p.packet)).channel ch.toNat k
    rw [p.decodePacket_channel k]
    cases law.decodePacket ch p.packet <;> rfl
  | accepted => rfl
  | busy => rfl
  | empty => rfl
  | closed => rfl
  | done => rfl

theorem decoder_answers_channel {d d₁ : BoxDecoder} (hd : d.Has law ch) (hch : ch ≠ 0)
    (hs : d.slot = .init) (hd₁ : d₁.Has law 1) (hs₁ : d₁.slot = .init) (k : Fin ch.toNat)
    (calls : List (PacketCall ch)) :
    decoderMachine.answers d₁ ((calls.map (PacketCall.channel k)).map PacketCall.op)
      = (decoderMachine.answers d (calls.map PacketCall.op)).map
          (DecoderAnswer.channel ch.toNat k) := by
  have hslot := Slot.answers_map (WholePacket.channel k) .init calls
  rw [decoder_answers hd₁ (by decide) hs₁, decoder_answers hd hch hs]
  show ((Slot.machine (WholePacket 1)).answers (Slot.State.init.map (WholePacket.channel k))
    (calls.map (Slot.Op.map (WholePacket.channel k)))).map _ = _
  rw [hslot, List.map_map, List.map_map]
  exact List.map_congr_left fun a _ => ofSlot_channel k a

/-! ### The channel law -/

/-- The codec `e`, `d` of `ch` channels against the mono codec `e₁`, `d₁` at channel `k`. -/
structure ChannelLaw (K : OxideavCore) (ch : UInt16) (e : BoxEncoder) (d : BoxDecoder)
    (e₁ : BoxEncoder) (d₁ : BoxDecoder) (k : Fin ch.toNat) : Prop where
  /-- Channel `k` of the packets is what the mono encoder makes of channel `k` of the frames, with
  every other field of a packet equal. -/
  encoder : ∀ calls : List (FrameCall ch),
    (encoderMachine K).answers e₁ ((calls.map (FrameCall.channel k)).map FrameCall.op)
      = ((encoderMachine K).answers e (calls.map FrameCall.op)).map
          (EncoderAnswer.channel ch.toNat k)
  /-- The packets that come out are whole, as the decoders take them. -/
  whole : ∀ (calls : List (FrameCall ch)) (p : Packet),
    .received (.ok p) ∈ (encoderMachine K).answers e (calls.map FrameCall.op) →
      ch.toNat ∣ p.data.length
  /-- Channel `k` of the frames is what the mono decoder makes of channel `k` of the packets, with
  the same `pts` and the same `samples`. -/
  decoder : ∀ calls : List (PacketCall ch),
    decoderMachine.answers d₁ ((calls.map (PacketCall.channel k)).map PacketCall.op)
      = (decoderMachine.answers d (calls.map PacketCall.op)).map
          (DecoderAnswer.channel ch.toNat k)
  /-- Frames that agree on channel `k` give packets that agree on channel `k`. -/
  encoder_independent : ∀ calls calls' : List (FrameCall ch),
    calls.map (FrameCall.channel k) = calls'.map (FrameCall.channel k) →
      ((encoderMachine K).answers e (calls.map FrameCall.op)).map
          (EncoderAnswer.channel ch.toNat k)
        = ((encoderMachine K).answers e (calls'.map FrameCall.op)).map
            (EncoderAnswer.channel ch.toNat k)
  /-- Packets that agree on channel `k` give frames that agree on channel `k`. -/
  decoder_independent : ∀ calls calls' : List (PacketCall ch),
    calls.map (PacketCall.channel k) = calls'.map (PacketCall.channel k) →
      (decoderMachine.answers d (calls.map PacketCall.op)).map (DecoderAnswer.channel ch.toNat k)
        = (decoderMachine.answers d (calls'.map PacketCall.op)).map
            (DecoderAnswer.channel ch.toNat k)

/-- **A multichannel codec is a bundle of mono codecs**: one for each of its channels, built from
the same parameters but for the channel count. -/
theorem channel_law {params : CodecParameters} {e : BoxEncoder} {d : BoxDecoder}
    (he : law.makeEncoder K params = .ok e) (hd : law.makeDecoder params = .ok d) :
    ∃ e₁ d₁, law.makeEncoder K params.toMono = .ok e₁ ∧ law.makeDecoder params.toMono = .ok d₁ ∧
      ∀ k, ChannelLaw K (params.channels.getD 1) e d e₁ d₁ k := by
  obtain ⟨hehas, hch, hformat, hq⟩ := Law.makeEncoder_spec he
  obtain ⟨hdhas, -, hslot⟩ := Law.makeDecoder_spec hd
  have hone : params.toMono.channels.getD 1 ≠ 0 := by
    show (1 : UInt16) ≠ 0
    decide
  have hformat₁ : params.toMono.sampleFormat.getD .s16 = .s16 := hformat
  have he₁ : law.makeEncoder K params.toMono = .ok (law.newEncoder K params.toMono) := by
    rw [Law.makeEncoder_eq, if_neg hone, if_neg (not_not_intro hformat₁)]
  have hd₁ : law.makeDecoder params.toMono = .ok (law.newDecoder params.toMono) := by
    rw [Law.makeDecoder_eq, if_neg hone]
  obtain ⟨hehas₁, -, -, hq₁⟩ := Law.makeEncoder_spec he₁
  obtain ⟨hdhas₁, -, hslot₁⟩ := Law.makeDecoder_spec hd₁
  refine ⟨_, _, he₁, hd₁, fun k => ?_⟩
  have hencoder := encoder_answers_channel (K := K) hehas hq hehas₁ hq₁ k
  have hdecoder := decoder_answers_channel hdhas hch hslot hdhas₁ hslot₁ k
  constructor
  case encoder => exact hencoder
  case whole => exact fun calls p hp => returned_whole hehas hq calls hp
  case decoder => exact hdecoder
  case encoder_independent =>
    intro calls calls' h
    rw [← hencoder calls, ← hencoder calls', h]
  case decoder_independent =>
    intro calls calls' h
    rw [← hdecoder calls, ← hdecoder calls', h]

/-- The two mono codecs in a stereo µ-law codec. -/
theorem channel_law_stereo :
    ∃ e₁ d₁, Law.mulaw.makeEncoder .plain stereo.toMono = .ok e₁ ∧
      Law.mulaw.makeDecoder stereo.toMono = .ok d₁ ∧
      ∀ k, ChannelLaw .plain 2 (.ulaw ⟨outputOf stereo, ⟨1, 8000⟩, []⟩)
        (.ulaw ⟨"g711", 2, none, false⟩) e₁ d₁ k :=
  @channel_law .plain .mulaw stereo _ _ rfl rfl

end G711
