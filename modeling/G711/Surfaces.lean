import G711.DecoderRuns
import G711.EncoderRuns

/-!
# All call surfaces refine the formulas

The single-sample functions, the batch helpers and the methods of the trait objects give the same
pointwise images of `mulaw_decode`, `alaw_decode`, `mulaw_encode_arith` and `alaw_encode_arith`.
The images are written out here: `samples` and `plane` read and write little-endian byte pairs.
-/

namespace G711

open Slices

variable {K : OxideavCore} {law : Law}

theorem Mulaw.encodeSampleZeroSuppress_eq (s : Int16) :
    Mulaw.encodeSampleZeroSuppress s = zeroSuppress (mulawEncodeArith s) := by
  rw [encodeSampleZeroSuppress, mulawEncodeZeroSuppressTable_get]
  rfl

/-- The packet that a `send_frame` queues carries the image of the frame's first plane. -/
theorem sendFrame_image {e : BoxEncoder} {f : Frame} (h : (e.sendFrame K f).1 = .ok ()) :
    ∃ a bytes rest p, f = .audio a ∧ a.data = bytes :: rest ∧
      (e.sendFrame K f).2.queue = e.queue ++ [p] ∧
      p.data = (samples bytes).map e.law.encodeArith := by
  rw [BoxEncoder.sendFrame_eq] at h ⊢
  cases hf : e.law.admitFrame K e.timeBase f with
  | error err => simp [hf] at h
  | ok p =>
    obtain ⟨a, bytes, rest, rfl, hdata, -, rfl⟩ := admitFrame_eq_ok hf
    exact ⟨a, bytes, rest, _, rfl, hdata, BoxEncoder.queue_withQueue _ _, Law.packetOf_data ..⟩

/-- A frame that a decoder gives has one plane, the image of the bytes of the packet it held. -/
theorem receiveFrame_image {d : BoxDecoder} {ch : UInt16} (hd : d.Has law ch) (hch : ch ≠ 0)
    {f : Frame} (h : d.receiveFrame.1 = .ok f) :
    ∃ p a, d.pending = some p ∧ f = .audio a ∧
      a.data = [plane (p.data.map law.decodeArith)] := by
  cases hp : d.pending with
  | none =>
    rw [BoxDecoder.receiveFrame_of_empty hp] at h
    split_ifs at h
  | some p =>
    rw [BoxDecoder.receiveFrame_of_pending hp (by rwa [hd.channels_eq]), hd.law_eq,
      Law.decodePacket] at h
    split_ifs at h
    cases h
    exact ⟨p, _, rfl, rfl, rfl⟩

/-- Every call surface of `law` computes the formulas of `law`. -/
structure SurfacesRefine (K : OxideavCore) (law : Law) : Prop where
  decodeSample_eq : ∀ b, law.decodeSample b = law.decodeArith b
  encodeSample_eq : ∀ s, law.encodeSample s = law.encodeArith s
  encodeSampleArith_eq : ∀ s, law.encodeSampleArith s = law.encodeArith s
  decodeSlice : ∀ input output,
    OverwritesIf (input.length = output.length) (input.map law.decodeArith) output
      (law.decodeSlice input output)
  decodeSliceToLeBytes : ∀ input output,
    OverwritesIf (input.length * 2 = output.length) (plane (input.map law.decodeArith)) output
      (law.decodeSliceToLeBytes input output)
  encodeSlice : ∀ input output,
    OverwritesIf (input.length = output.length) (input.map law.encodeArith) output
      (law.encodeSlice input output)
  encodeSliceFromLeBytes : ∀ input output,
    OverwritesIf (input.length = output.length * 2) ((samples input).map law.encodeArith) output
      (law.encodeSliceFromLeBytes input output)
  /-- After any calls on an encoder, a frame that it accepts adds a packet with the image of the
  first plane. -/
  sendFrame : ∀ params e ops f, law.makeEncoder K params = .ok e →
    (((encoderMachine K).final e ops).sendFrame K f).1 = .ok () →
    ∃ a bytes rest p, f = .audio a ∧ a.data = bytes :: rest ∧
      (((encoderMachine K).final e ops).sendFrame K f).2.queue
        = ((encoderMachine K).final e ops).queue ++ [p] ∧
      p.data = (samples bytes).map law.encodeArith
  /-- After any calls on a decoder, a frame that it gives has one plane, the image of the bytes of
  the accepted packet whose turn it is. -/
  receiveFrame : ∀ params d ops f, law.makeDecoder params = .ok d →
    (decoderMachine.final d ops).receiveFrame.1 = .ok f →
    ∃ p a, (acceptedPackets d ops)[(replies d ops).length]? = some p ∧ f = .audio a ∧
      a.data = [plane (p.data.map law.decodeArith)]

/-- **All call surfaces refine the arithmetic definition**, zero suppression included. -/
theorem surfaces_refine (K : OxideavCore) :
    (∀ law, SurfacesRefine K law) ∧
      (∀ s, Mulaw.encodeSampleZeroSuppress s = zeroSuppress (mulawEncodeArith s)) ∧
      ∀ input output, OverwritesIf (input.length = output.length)
        (input.map fun s => zeroSuppress (mulawEncodeArith s)) output
        (Mulaw.encodeSliceZeroSuppress input output) := by
  refine ⟨?_, Mulaw.encodeSampleZeroSuppress_eq, Mulaw.encodeSliceZeroSuppress_overwrites⟩
  intro law
  constructor
  case decodeSample_eq => exact congrFun law.decodeSample_eq
  case encodeSample_eq => exact congrFun law.encodeSample_eq
  case encodeSampleArith_eq => cases law <;> exact fun s => rfl
  case decodeSlice => exact law.decodeSlice_overwrites
  case decodeSliceToLeBytes => exact law.decodeSliceToLeBytes_overwrites
  case encodeSlice => exact law.encodeSlice_overwrites
  case encodeSliceFromLeBytes => exact law.encodeSliceFromLeBytes_overwrites
  case sendFrame =>
    intro params e ops f he h
    obtain ⟨hhas, -, -, -⟩ := Law.makeEncoder_spec he
    have himage := sendFrame_image h
    rwa [(encoder_has_final hhas ops).law_eq] at himage
  case receiveFrame =>
    intro params d ops f hd h
    obtain ⟨hhas, hch, hslot⟩ := Law.makeDecoder_spec hd
    obtain ⟨p, a, hp, rfl, hdata⟩ := receiveFrame_image (has_final hhas ops) hch h
    exact ⟨p, a, by rw [outstanding_eq_pending hhas hch hslot, hp], rfl, hdata⟩

end G711
