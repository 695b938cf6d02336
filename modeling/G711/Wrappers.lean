import G711.Library.Buffers
import G711.SliceHelpers

/-!
# What the framing wrappers compute

A decoder is a one-place slot whose item is answered by `Law.decodePacket`; an encoder is a queue
behind the check `Law.admitFrame`.  `decoderRefines` and `encoderRefines` connect the methods of
both laws to the buffers of the library, so that what holds of a run of the buffers holds of a run
of calls.
-/

namespace G711

open Slices

/-! ### Error texts -/

namespace Law

/-- The refusal of a decoder without channels. -/
def decoderChannelsError : Law → Error
  | .mulaw => .unsupported "G.711 µ-law decoder: channel count must be >= 1"
  | .alaw => .unsupported "G.711 A-law decoder: channel count must be >= 1"

/-- The refusal of an encoder without channels. -/
def encoderChannelsError : Law → Error
  | .mulaw => .unsupported "G.711 µ-law encoder: channel count must be >= 1"
  | .alaw => .unsupported "G.711 A-law encoder: channel count must be >= 1"

/-- The refusal of an encoder for samples other than S16; `format` is their `Debug` text. -/
def sampleFormatError (law : Law) (format : String) : Error :=
  match law with
  | .mulaw => .unsupported
      s!"G.711 µ-law encoder: input sample format {format} not supported (need S16)"
  | .alaw => .unsupported
      s!"G.711 A-law encoder: input sample format {format} not supported (need S16)"

/-- The refusal of `send_packet`. -/
def busyError : Law → Error
  | .mulaw => .other "G.711 µ-law decoder: call receive_frame before sending another packet"
  | .alaw => .other "G.711 A-law decoder: call receive_frame before sending another packet"

/-- The refusal of a packet whose length is no multiple of the channel count. -/
def lengthError (law : Law) (len ch : ℕ) : Error :=
  match law with
  | .mulaw => .invalid
      s!"G.711 µ-law decoder: packet length {len} is not a multiple of channel count {ch}"
  | .alaw => .invalid
      s!"G.711 A-law decoder: packet length {len} is not a multiple of channel count {ch}"

def audioOnlyError : Law → Error
  | .mulaw => .invalid "G.711 µ-law encoder: audio frames only"
  | .alaw => .invalid "G.711 A-law encoder: audio frames only"

def emptyFrameError : Law → Error
  | .mulaw => .invalid "G.711 µ-law encoder: empty frame"
  | .alaw => .invalid "G.711 A-law encoder: empty frame"

def oddPlaneError : Law → Error
  | .mulaw => .invalid "G.711 µ-law encoder: odd byte count"
  | .alaw => .invalid "G.711 A-law encoder: odd byte count"

/-! ### The answer to a packet and the packet of a frame -/

/-- The frame that a packet of whole `ch`-channel samples decodes to. -/
def frameOf (law : Law) (ch : UInt16) (pkt : Packet) : Frame :=
  .audio {
    samples := UInt32.ofNat (pkt.data.length / ch.toNat)
    pts := pkt.pts
    data := [law.decodePlane pkt.data] }

/-- How a decoder with `ch` channels answers for a packet. -/
def decodePacket (law : Law) (ch : UInt16) (pkt : Packet) : Outcome Frame :=
  if ch.toNat ∣ pkt.data.length then .ok (law.frameOf ch pkt)
  else .error (.err (law.lengthError pkt.data.length ch.toNat))

/-- A packet is answered by an audio frame or by the invalid-data error. -/
theorem decodePacket_cases (law : Law) (ch : UInt16) (pkt : Packet) :
    law.decodePacket ch pkt = .ok (law.frameOf ch pkt) ∨
      ∃ msg, law.decodePacket ch pkt = .error (.err (.invalid msg)) := by
  unfold decodePacket
  split_ifs
  · exact Or.inl rfl
  · cases law <;> exact Or.inr ⟨_, rfl⟩

/-- The packet of an audio frame whose first plane is `bytes`. -/
def packetOf (K : OxideavCore) (law : Law) (tb : TimeBase) (a : AudioFrame) (bytes : List UInt8) :
    Packet :=
  { K.packetNew 0 tb (law.encodePlane bytes) with
    pts := a.pts
    dts := a.pts
    duration := some a.samples.toUInt64.toInt64
    flags := ⟨true⟩ }

/-- The check that an encoder makes on a frame, and the packet it makes of it. -/
def admitFrame (K : OxideavCore) (law : Law) (tb : TimeBase) : Frame → Except Error Packet
  | .nonAudio => .error law.audioOnlyError
  | .audio a => match a.data with
    | [] => .error law.emptyFrameError
    | bytes :: _ =>
      if 2 ∣ bytes.length then .ok (law.packetOf K tb a bytes) else .error law.oddPlaneError

@[simp] theorem packetOf_data (K : OxideavCore) (law : Law) (tb : TimeBase) (a : AudioFrame)
    (bytes : List UInt8) : (law.packetOf K tb a bytes).data = law.encodePlane bytes := by
  simp [packetOf]

@[simp] theorem packetOf_timeBase (K : OxideavCore) (law : Law) (tb : TimeBase) (a : AudioFrame)
    (bytes : List UInt8) : (law.packetOf K tb a bytes).timeBase = tb := by
  simp [packetOf]

end Law

/-! ### Decoders -/

namespace BoxDecoder

def law : BoxDecoder → Law
  | .ulaw _ => .mulaw
  | .alaw _ => .alaw

def channels : BoxDecoder → UInt16
  | .ulaw d => d.channels
  | .alaw d => d.channels

/-- The slot of a decoder. -/
def slot : BoxDecoder → Slot.State Packet
  | .ulaw d => ⟨d.pending, d.eof⟩
  | .alaw d => ⟨d.pending, d.eof⟩

/-- The packet in the pending slot. -/
def pending (d : BoxDecoder) : Option Packet := d.slot.held

/-- The decoder with another slot. -/
def withSlot : BoxDecoder → Slot.State Packet → BoxDecoder
  | .ulaw d, s => .ulaw { d with pending := s.held, eof := s.closed }
  | .alaw d, s => .alaw { d with pending := s.held, eof := s.closed }

@[simp] theorem slot_withSlot (d : BoxDecoder) (s : Slot.State Packet) :
    (d.withSlot s).slot = s := by
  cases d <;> rfl

@[simp] theorem withSlot_slot (d : BoxDecoder) : d.withSlot d.slot = d := by
  cases d <;> rfl

@[simp] theorem law_withSlot (d : BoxDecoder) (s : Slot.State Packet) :
    (d.withSlot s).law = d.law := by
  cases d <;> rfl

@[simp] theorem channels_withSlot (d : BoxDecoder) (s : Slot.State Packet) :
    (d.withSlot s).channels = d.channels := by
  cases d <;> rfl

/-- A decoder of `law` with `ch` channels. -/
structure Has (d : BoxDecoder) (law : Law) (ch : UInt16) : Prop where
  law_eq : d.law = law
  channels_eq : d.channels = ch

theorem Has.withSlot {d : BoxDecoder} {law : Law} {ch : UInt16} (h : d.Has law ch)
    (s : Slot.State Packet) : (d.withSlot s).Has law ch :=
  ⟨by rw [law_withSlot, h.law_eq], by rw [channels_withSlot, h.channels_eq]⟩

theorem sendPacket_eq (d : BoxDecoder) (p : Packet) :
    (d.sendPacket p).1 = if d.pending.isSome then .error (.err d.law.busyError) else .ok () := by
  cases d with
  | ulaw d =>
    cases h : d.pending <;> simp [sendPacket, pending, slot, Mulaw.UlawDecoder.sendPacket, h, law,
      Law.busyError]
  | alaw d =>
    cases h : d.pending <;> simp [sendPacket, pending, slot, Alaw.AlawDecoder.sendPacket, h, law,
      Law.busyError]

end BoxDecoder

theorem channels_pos {ch : UInt16} (h : ch ≠ 0) : 0 < ch.toNat :=
  Nat.pos_of_ne_zero fun h0 => h (UInt16.toNat_inj.1 h0)

/-- The body of `receive_frame` once a packet has been taken, with the two laws' helper and text
left open; the empty packet is answered without looking at the channel count. -/
theorem receive_body_eq {helper : List UInt8 → List UInt8 → Outcome Unit × List UInt8}
    {law : Law} {ch : UInt16} {pkt : Packet} {text : Error}
    (hh : ∀ input output, OverwritesIf (input.length * 2 = output.length) (law.decodePlane input)
      output (helper input output))
    (ht : text = law.lengthError pkt.data.length ch.toNat) (hch : ch ≠ 0) :
    (do
      if pkt.data.isEmpty then
        return .audio { samples := 0, pts := pkt.pts, data := [[]] }
      let rem ← usizeRem pkt.data.length ch.toNat
      if rem ≠ 0 then
        throw (.err text)
      let samplesPerChannel ← usizeDiv pkt.data.length ch.toNat
      let (done, out) := helper pkt.data (List.replicate (pkt.data.length * 2) 0)
      done
      return .audio { samples := UInt32.ofNat samplesPerChannel, pts := pkt.pts, data := [out] }
      : Outcome Frame) = law.decodePacket ch pkt := by
  have hne : ch.toNat ≠ 0 := (channels_pos hch).ne'
  -- the output is sized for the packet, so the helper's length check passes
  have hcall := (hh pkt.data (List.replicate (pkt.data.length * 2) 0)).overwritten (by simp)
  rw [hcall, usizeRem, usizeDiv, if_neg hne, if_neg hne, ht, Law.decodePacket]
  by_cases hempty : pkt.data = []
  · have hframe : law.frameOf ch pkt = .audio { samples := 0, pts := pkt.pts, data := [[]] } := by
      simp [Law.frameOf, Law.decodePlane, plane, hempty]
    rw [if_pos (by simp [hempty]), if_pos (by simp [hempty]), hframe]
    rfl
  · rw [if_neg (by simpa using hempty)]
    by_cases hdvd : ch.toNat ∣ pkt.data.length
    · rw [if_pos hdvd, Nat.mod_eq_zero_of_dvd hdvd]
      rfl
    · rw [if_neg hdvd]
      have hrem : pkt.data.length % ch.toNat ≠ 0 := fun h => hdvd (Nat.dvd_of_mod_eq_zero h)
      simp only [bind, Except.bind, if_pos hrem]
      rfl

namespace BoxDecoder

/-- A filled slot is emptied and the packet answered. -/
theorem receiveFrame_of_pending {d : BoxDecoder} {pkt : Packet} (h : d.pending = some pkt)
    (hch : d.channels ≠ 0) : d.receiveFrame.1 = d.law.decodePacket d.channels pkt := by
  cases d with
  | ulaw d =>
    have hp : d.pending = some pkt := h
    simp only [receiveFrame, Mulaw.UlawDecoder.receiveFrame, hp]
    exact receive_body_eq Law.mulaw.decodeSliceToLeBytes_overwrites rfl hch
  | alaw d =>
    have hp : d.pending = some pkt := h
    simp only [receiveFrame, Alaw.AlawDecoder.receiveFrame, hp]
    exact receive_body_eq Law.alaw.decodeSliceToLeBytes_overwrites rfl hch

theorem receiveFrame_of_empty {d : BoxDecoder} (h : d.pending = none) :
    d.receiveFrame.1 = if d.slot.closed then .error (.err .eof) else .error (.err .needMore) := by
  cases d with
  | ulaw d =>
    have hp : d.pending = none := h
    simp [receiveFrame, Mulaw.UlawDecoder.receiveFrame, slot, hp]
  | alaw d =>
    have hp : d.pending = none := h
    simp [receiveFrame, Alaw.AlawDecoder.receiveFrame, slot, hp]

end BoxDecoder

/-- The call as an operation of the slot. -/
def DecoderOp.toSlot : DecoderOp → Slot.Op Packet
  | .sendPacket p => .put p
  | .receiveFrame => .take
  | .flush => .close

/-- The slot's answer as the decoder gives it. -/
def Law.ofSlot (law : Law) (ch : UInt16) : Slot.Answer Packet → DecoderAnswer
  | .accepted => .sent (.ok ())
  | .busy => .sent (.error (.err law.busyError))
  | .item pkt => .received (law.decodePacket ch pkt)
  | .empty => .received (.error (.err .needMore))
  | .closed => .received (.error (.err .eof))
  | .done => .flushed (.ok ())

/-- A call changes nothing but the slot, and the slot as the library's machine does. -/
theorem BoxDecoder.call_state (d : BoxDecoder) (op : DecoderOp) :
    (d.call op).2 = d.withSlot ((Slot.machine Packet).next d.slot op.toSlot) := by
  rcases d with ⟨codecId, channels, pending, eof⟩ | ⟨codecId, channels, pending, eof⟩ <;>
    cases op <;> cases pending <;> rfl

theorem BoxDecoder.has_call {d : BoxDecoder} {law : Law} {ch : UInt16} (h : d.Has law ch)
    (op : DecoderOp) : (d.call op).2.Has law ch := by
  rw [call_state]
  exact h.withSlot _

theorem BoxDecoder.receiveFrame_state (d : BoxDecoder) :
    d.receiveFrame.2 = d.withSlot { d.slot with held := none } :=
  d.call_state .receiveFrame

theorem BoxDecoder.sendPacket_of_empty {d : BoxDecoder} (h : d.pending = none) (p : Packet) :
    d.sendPacket p = (.ok (), d.withSlot { d.slot with held := some p }) := by
  have hheld : d.slot.held = none := h
  have hstate : (d.sendPacket p).2 = _ := d.call_state (.sendPacket p)
  apply Prod.ext
  · rw [sendPacket_eq, h]
    rfl
  · rw [hstate]
    simp [Slot.machine, DecoderOp.toSlot, hheld]

theorem BoxDecoder.sendPacket_of_pending {d : BoxDecoder} {q : Packet} (h : d.pending = some q)
    (p : Packet) : d.sendPacket p = (.error (.err d.law.busyError), d) := by
  have hheld : d.slot.held = some q := h
  have hstate : (d.sendPacket p).2 = _ := d.call_state (.sendPacket p)
  apply Prod.ext
  · rw [sendPacket_eq, h]
    rfl
  · rw [hstate]
    simp [Slot.machine, DecoderOp.toSlot, hheld]

theorem BoxDecoder.call_answer {d : BoxDecoder} {law : Law} {ch : UInt16} (hch : ch ≠ 0)
    (h : d.Has law ch) (op : DecoderOp) :
    (d.call op).1 = law.ofSlot ch ((Slot.machine Packet).answer d.slot op.toSlot) := by
  obtain ⟨rfl, rfl⟩ := h
  cases op with
  | sendPacket p =>
    show DecoderAnswer.sent (d.sendPacket p).1 = _
    rw [sendPacket_eq]
    cases hp : d.slot.held <;> simp [pending, Slot.machine, DecoderOp.toSlot, Law.ofSlot, hp]
  | receiveFrame =>
    show DecoderAnswer.received d.receiveFrame.1 = _
    cases hp : d.slot.held with
    | none =>
      rw [receiveFrame_of_empty hp]
      cases hc : d.slot.closed <;> simp [Slot.machine, DecoderOp.toSlot, Law.ofSlot, hp, hc]
    | some pkt =>
      rw [receiveFrame_of_pending hp hch]
      simp [Slot.machine, DecoderOp.toSlot, Law.ofSlot, hp]
  | flush => cases d <;> rfl

/-- A decoder refines the one-place slot. -/
def decoderRefines (law : Law) {ch : UInt16} (hch : ch ≠ 0) :
    Mealy.Refines decoderMachine (Slot.machine Packet) where
  inv d := d.Has law ch
  abs d := d.slot
  op := DecoderOp.toSlot
  ans := law.ofSlot ch
  inv_next _ op h := BoxDecoder.has_call h op
  abs_next d op _ := (congrArg BoxDecoder.slot (d.call_state op)).trans (d.slot_withSlot _)
  answer_eq _ op h := BoxDecoder.call_answer hch h op

/-! ### Decoder factories -/

/-- The decoder that a factory builds. -/
def Law.newDecoder (law : Law) (params : CodecParameters) : BoxDecoder :=
  match law with
  | .mulaw => .ulaw ⟨params.codecId, params.channels.getD 1, none, false⟩
  | .alaw => .alaw ⟨params.codecId, params.channels.getD 1, none, false⟩

/-- The decoder factories refuse the channel count zero, and nothing else. -/
theorem Law.makeDecoder_eq (law : Law) (params : CodecParameters) :
    law.makeDecoder params
      = if params.channels.getD 1 = 0 then .error (.err law.decoderChannelsError)
        else .ok (law.newDecoder params) := by
  by_cases hc : params.channels.getD 1 = 0
  · cases law <;> simp [makeDecoder, Mulaw.makeDecoder, Alaw.makeDecoder, hc, bind, Except.bind,
      throw, throwThe, MonadExceptOf.throw, Except.map, decoderChannelsError]
  · rw [if_neg hc]
    cases law <;> simp only [makeDecoder, Mulaw.makeDecoder, Alaw.makeDecoder, if_neg hc] <;> rfl

/-- What a factory hands out: a decoder of its law with at least one channel and an empty, open
slot. -/
theorem Law.makeDecoder_spec {law : Law} {params : CodecParameters} {d : BoxDecoder}
    (h : law.makeDecoder params = .ok d) :
    d.Has law (params.channels.getD 1) ∧ params.channels.getD 1 ≠ 0 ∧ d.slot = .init := by
  rw [makeDecoder_eq] at h
  split_ifs at h with hc
  cases h
  cases law <;> exact ⟨⟨rfl, rfl⟩, hc, rfl⟩

/-! ### Encoders -/

namespace BoxEncoder

def law : BoxEncoder → Law
  | .ulaw _ => .mulaw
  | .alaw _ => .alaw

def timeBase : BoxEncoder → TimeBase
  | .ulaw e => e.timeBase
  | .alaw e => e.timeBase

/-- The packets waiting in an encoder. -/
def queue : BoxEncoder → List Packet
  | .ulaw e => e.queue
  | .alaw e => e.queue

/-- The encoder with another queue. -/
def withQueue : BoxEncoder → List Packet → BoxEncoder
  | .ulaw e, q => .ulaw { e with queue := q }
  | .alaw e, q => .alaw { e with queue := q }

@[simp] theorem queue_withQueue (e : BoxEncoder) (q : List Packet) :
    (e.withQueue q).queue = q := by
  cases e <;> rfl

@[simp] theorem law_withQueue (e : BoxEncoder) (q : List Packet) :
    (e.withQueue q).law = e.law := by
  cases e <;> rfl

@[simp] theorem timeBase_withQueue (e : BoxEncoder) (q : List Packet) :
    (e.withQueue q).timeBase = e.timeBase := by
  cases e <;> rfl

@[simp] theorem outputParams_withQueue (e : BoxEncoder) (q : List Packet) :
    (e.withQueue q).outputParams = e.outputParams := by
  cases e <;> rfl

/-- An encoder of `law` with time base `tb` and output parameters `out`. -/
structure Has (e : BoxEncoder) (law : Law) (tb : TimeBase) (out : CodecParameters) : Prop where
  law_eq : e.law = law
  timeBase_eq : e.timeBase = tb
  outputParams_eq : e.outputParams = out

theorem Has.withQueue {e : BoxEncoder} {law : Law} {tb : TimeBase} {out : CodecParameters}
    (h : e.Has law tb out) (q : List Packet) : (e.withQueue q).Has law tb out :=
  ⟨by rw [law_withQueue, h.law_eq], by rw [timeBase_withQueue, h.timeBase_eq],
    by rw [outputParams_withQueue, h.outputParams_eq]⟩

end BoxEncoder

/-- The call as an operation of the queue. -/
def EncoderOp.toQueue : EncoderOp → AdmittingQueue.Op Frame
  | .sendFrame f => .push f
  | .receivePacket => .pop
  | .flush => .idle

/-- The queue's answer as the encoder gives it. -/
def ofQueue : AdmittingQueue.Answer Packet Error → EncoderAnswer
  | .pushed _ => .sent (.ok ())
  | .refused e => .sent (.error (.err e))
  | .popped pkt => .received (.ok pkt)
  | .empty => .received (.error (.err .needMore))
  | .idle => .flushed (.ok ())

/-- `send_frame` admits or refuses as `admitFrame` says, and queues what that makes. -/
theorem BoxEncoder.sendFrame_eq (K : OxideavCore) (e : BoxEncoder) (f : Frame) :
    e.sendFrame K f = match e.law.admitFrame K e.timeBase f with
      | .ok pkt => (.ok (), e.withQueue (e.queue ++ [pkt]))
      | .error err => (.error (.err err), e) := by
  cases f with
  | nonAudio => cases e <;> rfl
  | audio a =>
    obtain ⟨samples, pts, data⟩ := a
    cases data with
    | nil => cases e <;> rfl
    | cons bytes rest =>
      by_cases hodd : 2 ∣ bytes.length
      · have hlen : bytes.length = (List.replicate (bytes.length / 2) (0 : UInt8)).length * 2 := by
          simp only [List.length_replicate]
          omega
        have heven : ¬ bytes.length % 2 ≠ 0 := by omega
        cases e with
        | ulaw e =>
          have hcall := (Law.mulaw.encodeSliceFromLeBytes_overwrites bytes
            (List.replicate (bytes.length / 2) 0)).overwritten hlen
          simp only [Law.encodeSliceFromLeBytes] at hcall
          simp only [sendFrame, Mulaw.UlawEncoder.sendFrame, List.head?_cons, if_neg heven, hcall,
            law, Law.admitFrame, if_pos hodd]
          rfl
        | alaw e =>
          have hcall := (Law.alaw.encodeSliceFromLeBytes_overwrites bytes
            (List.replicate (bytes.length / 2) 0)).overwritten hlen
          simp only [Law.encodeSliceFromLeBytes] at hcall
          simp only [sendFrame, Alaw.AlawEncoder.sendFrame, List.head?_cons, if_neg heven, hcall,
            law, Law.admitFrame, if_pos hodd]
          rfl
      · have hrem : bytes.length % 2 ≠ 0 := by omega
        cases e <;> simp [sendFrame, Mulaw.UlawEncoder.sendFrame, Alaw.AlawEncoder.sendFrame, law,
          Law.admitFrame, Law.oddPlaneError, hodd, hrem]

/-- A call changes nothing but the queue, and the queue as the library's machine does. -/
theorem BoxEncoder.call_state (K : OxideavCore) (e : BoxEncoder) (op : EncoderOp) :
    (e.call K op).2 = e.withQueue
      ((AdmittingQueue.machine (e.law.admitFrame K e.timeBase)).next e.queue op.toQueue) := by
  cases op with
  | sendFrame f =>
    show (e.sendFrame K f).2 = _
    rw [sendFrame_eq]
    cases h : e.law.admitFrame K e.timeBase f with
    | ok pkt => simp [AdmittingQueue.machine, EncoderOp.toQueue, h]
    | error err =>
      simp only [AdmittingQueue.machine, EncoderOp.toQueue, h]
      cases e <;> rfl
  | receivePacket =>
    rcases e with ⟨output, timeBase, queue⟩ | ⟨output, timeBase, queue⟩ <;> cases queue <;> rfl
  | flush => cases e <;> rfl

theorem BoxEncoder.call_answer (K : OxideavCore) (e : BoxEncoder) (op : EncoderOp) :
    (e.call K op).1 = ofQueue
      ((AdmittingQueue.machine (e.law.admitFrame K e.timeBase)).answer e.queue op.toQueue) := by
  cases op with
  | sendFrame f =>
    show EncoderAnswer.sent (e.sendFrame K f).1 = _
    rw [sendFrame_eq]
    cases h : e.law.admitFrame K e.timeBase f <;>
      simp [AdmittingQueue.machine, EncoderOp.toQueue, ofQueue, h]
  | receivePacket =>
    rcases e with ⟨output, timeBase, queue⟩ | ⟨output, timeBase, queue⟩ <;> cases queue <;> rfl
  | flush => cases e <;> rfl

theorem BoxEncoder.has_call {K : OxideavCore} {e : BoxEncoder} {law : Law} {tb : TimeBase}
    {out : CodecParameters} (h : e.Has law tb out) (op : EncoderOp) :
    (e.call K op).2.Has law tb out := by
  rw [call_state]
  exact h.withQueue _

theorem BoxEncoder.receivePacket_eq (e : BoxEncoder) :
    e.receivePacket = match e.queue with
      | [] => (.error (.err .needMore), e)
      | pkt :: q => (.ok pkt, e.withQueue q) := by
  rcases e with ⟨output, timeBase, queue⟩ | ⟨output, timeBase, queue⟩ <;> cases queue <;> rfl

/-- An encoder refines the queue behind `admitFrame`. -/
def encoderRefines (K : OxideavCore) (law : Law) (tb : TimeBase) (out : CodecParameters) :
    Mealy.Refines (encoderMachine K) (AdmittingQueue.machine (law.admitFrame K tb)) where
  inv e := e.Has law tb out
  abs e := e.queue
  op := EncoderOp.toQueue
  ans := ofQueue
  inv_next _ op h := BoxEncoder.has_call h op
  abs_next e op h := by
    obtain ⟨rfl, rfl, -⟩ := h
    exact (congrArg BoxEncoder.queue (e.call_state K op)).trans (e.queue_withQueue _)
  answer_eq e op h := by
    obtain ⟨rfl, rfl, -⟩ := h
    exact e.call_answer K op

/-! ### Encoder factories -/

/-- The parameters that an encoder reports for the parameters it was built from. -/
def outputOf (params : CodecParameters) : CodecParameters :=
  { params with
    mediaType := .audio
    sampleFormat := some .s16
    channels := some (params.channels.getD 1)
    sampleRate := some (params.sampleRate.getD 8000) }

/-- The time base of an encoder: one over the sample rate. -/
def timeBaseOf (K : OxideavCore) (params : CodecParameters) : TimeBase :=
  K.timeBaseNew 1 (params.sampleRate.getD 8000).toUInt64.toInt64

/-- The encoder that a factory builds. -/
def Law.newEncoder (K : OxideavCore) (law : Law) (params : CodecParameters) : BoxEncoder :=
  match law with
  | .mulaw => .ulaw ⟨outputOf params, timeBaseOf K params, []⟩
  | .alaw => .alaw ⟨outputOf params, timeBaseOf K params, []⟩

/-- The encoder factories refuse the channel count zero and then any sample format but S16, and
nothing else. -/
theorem Law.makeEncoder_eq (K : OxideavCore) (law : Law) (params : CodecParameters) :
    law.makeEncoder K params
      = if params.channels.getD 1 = 0 then .error (.err law.encoderChannelsError)
        else if params.sampleFormat.getD .s16 ≠ .s16 then
          .error (.err (law.sampleFormatError
            (K.debugSampleFormat (params.sampleFormat.getD .s16))))
        else .ok (law.newEncoder K params) := by
  by_cases hc : params.channels.getD 1 = 0
  · cases law <;> simp [makeEncoder, Mulaw.makeEncoder, Alaw.makeEncoder, hc, bind, Except.bind,
      throw, throwThe, MonadExceptOf.throw, Except.map, encoderChannelsError]
  · rw [if_neg hc]
    by_cases hf : params.sampleFormat.getD .s16 = .s16
    · rw [if_neg (not_not_intro hf)]
      cases law <;>
        simp only [makeEncoder, Mulaw.makeEncoder, Alaw.makeEncoder, if_neg hc, hf] <;> rfl
    · rw [if_pos hf]
      cases law <;> simp [makeEncoder, Mulaw.makeEncoder, Alaw.makeEncoder, hc, hf, bind,
        Except.bind, throw, throwThe, MonadExceptOf.throw, Except.map, sampleFormatError]

/-- What a factory hands out: an encoder of its law with an empty queue. -/
theorem Law.makeEncoder_spec {K : OxideavCore} {law : Law} {params : CodecParameters}
    {e : BoxEncoder} (h : law.makeEncoder K params = .ok e) :
    e.Has law (timeBaseOf K params) (outputOf params) ∧ params.channels.getD 1 ≠ 0 ∧
      params.sampleFormat.getD .s16 = .s16 ∧ e.queue = [] := by
  rw [makeEncoder_eq] at h
  split_ifs at h with hc hf
  cases h
  cases law <;> exact ⟨⟨rfl, rfl, rfl⟩, hc, not_not.1 hf, rfl⟩

end G711
