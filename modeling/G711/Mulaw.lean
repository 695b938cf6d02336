import G711.OxideavCore
import G711.Tables

/-!
# `mulaw.rs`: the µ-law codec

The single-sample functions, the batch helpers over caller-provided buffers, and `UlawDecoder` and
`UlawEncoder` with their factories.  A method on `&mut self` returns how the call ended and the
state it leaves; a batch helper returns how the call ended and the output buffer it leaves.
-/

namespace G711
namespace Mulaw

open Slices

/-- `decode_sample`. -/
def decodeSample (byte : UInt8) : Int16 := mulawDecodeTable.get (byteIndex byte)

/-- `encode_sample`. -/
def encodeSample (sample : Int16) : UInt8 := mulawEncodeTable.get (sampleIndex sample)

/-- `encode_sample_zero_suppress`. -/
def encodeSampleZeroSuppress (sample : Int16) : UInt8 :=
  mulawEncodeZeroSuppressTable.get (sampleIndex sample)

/-- `encode_sample_arith`. -/
def encodeSampleArith (sample : Int16) : UInt8 := mulawEncodeArith sample

/-! ### Batch (slice) helpers -/

/-- `decode_slice`. -/
def decodeSlice (input : List UInt8) (output : List Int16) : Outcome Unit × List Int16 :=
  if input.length = output.length then
    (.ok (), zipWrite (fun b => mulawDecodeTable.get (byteIndex b)) input output)
  else
    (.error (.panic "G.711 µ-law decode_slice: input and output lengths must match"), output)

/-- `decode_slice_to_le_bytes`. -/
def decodeSliceToLeBytes (input output : List UInt8) : Outcome Unit × List UInt8 :=
  if input.length * 2 = output.length then
    (.ok (), zipWritePairs (fun b => mulawDecodeLeTable.get (byteIndex b)) input output)
  else
    (.error (.panic
      "G.711 µ-law decode_slice_to_le_bytes: output must be exactly 2 bytes per input byte"),
      output)

/-- `encode_slice`. -/
def encodeSlice (input : List Int16) (output : List UInt8) : Outcome Unit × List UInt8 :=
  if input.length = output.length then
    (.ok (), zipWrite (fun s => mulawEncodeTable.get (sampleIndex s)) input output)
  else
    (.error (.panic "G.711 µ-law encode_slice: input and output lengths must match"), output)

/-- `encode_slice_from_le_bytes`. -/
def encodeSliceFromLeBytes (input output : List UInt8) : Outcome Unit × List UInt8 :=
  if input.length = output.length * 2 then
    (.ok (), zipWrite (fun src => mulawEncodeTable.get (sampleIndex (ofLeBytes src)))
      (pairs input) output)
  else
    (.error (.panic
      "G.711 µ-law encode_slice_from_le_bytes: input must be exactly 2 bytes per output byte"),
      output)

/-- `encode_slice_zero_suppress`. -/
def encodeSliceZeroSuppress (input : List Int16) (output : List UInt8) :
    Outcome Unit × List UInt8 :=
  if input.length = output.length then
    (.ok (), zipWrite (fun s => mulawEncodeZeroSuppressTable.get (sampleIndex s)) input output)
  else
    (.error (.panic
      "G.711 µ-law encode_slice_zero_suppress: input and output lengths must match"), output)

/-! ### The decoder -/

structure UlawDecoder where
  codecId : CodecId
  channels : UInt16
  pending : Option Packet
  eof : Bool
  deriving DecidableEq

/-- `make_decoder`. -/
def makeDecoder (params : CodecParameters) : Outcome UlawDecoder := do
  let channels := params.channels.getD 1
  if channels = 0 then
    throw (.err (.unsupported "G.711 µ-law decoder: channel count must be >= 1"))
  return { codecId := params.codecId, channels, pending := none, eof := false }

/-- `UlawDecoder::send_packet`. -/
def UlawDecoder.sendPacket (self : UlawDecoder) (packet : Packet) : Outcome Unit × UlawDecoder :=
  if self.pending.isSome then
    (.error (.err (.other
      "G.711 µ-law decoder: call receive_frame before sending another packet")), self)
  else
    (.ok (), { self with pending := some packet })

/-- `UlawDecoder::receive_frame`. -/
def UlawDecoder.receiveFrame (self : UlawDecoder) : Outcome Frame × UlawDecoder :=
  match self.pending with
  | none => (if self.eof then .error (.err .eof) else .error (.err .needMore), self)
  | some pkt =>
    -- `take` has emptied the slot before the packet is looked at
    let self := { self with pending := none }
    let frame : Outcome Frame := do
      if pkt.data.isEmpty then
        return .audio { samples := 0, pts := pkt.pts, data := [[]] }
      let ch := self.channels.toNat
      let len := pkt.data.length
      let rem ← usizeRem len ch
      if rem ≠ 0 then
        throw (.err (.invalid
          s!"G.711 µ-law decoder: packet length {len} is not a multiple of channel count {ch}"))
      let samplesPerChannel ← usizeDiv len ch
      let (done, out) := decodeSliceToLeBytes pkt.data (List.replicate (len * 2) 0)
      done
      return .audio { samples := UInt32.ofNat samplesPerChannel, pts := pkt.pts, data := [out] }
    (frame, self)

/-- `UlawDecoder::flush`. -/
def UlawDecoder.flush (self : UlawDecoder) : Outcome Unit × UlawDecoder :=
  (.ok (), { self with eof := true })

/-! ### The encoder -/

structure UlawEncoder where
  output : CodecParameters
  timeBase : TimeBase
  queue : List Packet
  deriving DecidableEq

/-- `make_encoder`. -/
def makeEncoder (K : OxideavCore) (params : CodecParameters) : Outcome UlawEncoder := do
  let channels := params.channels.getD 1
  if channels = 0 then
    throw (.err (.unsupported "G.711 µ-law encoder: channel count must be >= 1"))
  let sampleFormat := params.sampleFormat.getD .s16
  if sampleFormat ≠ .s16 then
    let format := K.debugSampleFormat sampleFormat
    throw (.err (.unsupported
      s!"G.711 µ-law encoder: input sample format {format} not supported (need S16)"))
  let sampleRate := params.sampleRate.getD 8000
  return {
    output := { params with
      mediaType := .audio
      sampleFormat := some .s16
      channels := some channels
      sampleRate := some sampleRate
      codecId := params.codecId }
    timeBase := K.timeBaseNew 1 sampleRate.toUInt64.toInt64
    queue := [] }

/-- `UlawEncoder::codec_id`. -/
def UlawEncoder.codecId (self : UlawEncoder) : CodecId := self.output.codecId

/-- `UlawEncoder::output_params`. -/
def UlawEncoder.outputParams (self : UlawEncoder) : CodecParameters := self.output

/-- `UlawEncoder::send_frame`. -/
def UlawEncoder.sendFrame (K : OxideavCore) (self : UlawEncoder) (frame : Frame) :
    Outcome Unit × UlawEncoder :=
  match frame with
  | .nonAudio => (.error (.err (.invalid "G.711 µ-law encoder: audio frames only")), self)
  | .audio a =>
    match a.data.head? with
    | none => (.error (.err (.invalid "G.711 µ-law encoder: empty frame")), self)
    | some bytes =>
      if bytes.length % 2 ≠ 0 then
        (.error (.err (.invalid "G.711 µ-law encoder: odd byte count")), self)
      else
        let n := bytes.length / 2
        match encodeSliceFromLeBytes bytes (List.replicate n 0) with
        | (.error fault, _) => (.error fault, self)
        | (.ok (), out) =>
          let pkt := K.packetNew 0 self.timeBase out
          let pkt := { pkt with
            pts := a.pts
            dts := a.pts
            duration := some a.samples.toUInt64.toInt64
            flags := { pkt.flags with keyframe := true } }
          (.ok (), { self with queue := self.queue ++ [pkt] })

/-- `UlawEncoder::receive_packet`. -/
def UlawEncoder.receivePacket (self : UlawEncoder) : Outcome Packet × UlawEncoder :=
  match self.queue with
  | [] => (.error (.err .needMore), self)
  | pkt :: queue => (.ok pkt, { self with queue })

/-- `UlawEncoder::flush`. -/
def UlawEncoder.flush (self : UlawEncoder) : Outcome Unit × UlawEncoder := (.ok (), self)

end Mulaw
end G711
