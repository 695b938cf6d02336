import G711.OxideavCore
import G711.Tables

/-!
# `alaw.rs`: the A-law codec

The twin of `mulaw.rs`, kept by hand in a file of its own: same functions and methods, without the
all-zero suppression.
-/

namespace G711
namespace Alaw

open Slices

/-- `decode_sample`. -/
def decodeSample (byte : UInt8) : Int16 := alawDecodeTable.get (byteIndex byte)

/-- `encode_sample`. -/
def encodeSample (sample : Int16) : UInt8 := alawEncodeTable.get (sampleIndex sample)

/-- `encode_sample_arith`. -/
def encodeSampleArith (sample : Int16) : UInt8 := alawEncodeArith sample

/-! ### Batch (slice) helpers -/

/-- `decode_slice`. -/
def decodeSlice (input : List UInt8) (output : List Int16) : Outcome Unit × List Int16 :=
  if input.length = output.length then
    (.ok (), zipWrite (fun b => alawDecodeTable.get (byteIndex b)) input output)
  else
    (.error (.panic "G.711 A-law decode_slice: input and output lengths must match"), output)

/-- `decode_slice_to_le_bytes`. -/
def decodeSliceToLeBytes (input output : List UInt8) : Outcome Unit × List UInt8 :=
  if input.length * 2 = output.length then
    (.ok (), zipWritePairs (fun b => alawDecodeLeTable.get (byteIndex b)) input output)
  else
    (.error (.panic
      "G.711 A-law decode_slice_to_le_bytes: output must be exactly 2 bytes per input byte"),
      output)

/-- `encode_slice`. -/
def encodeSlice (input : List Int16) (output : List UInt8) : Outcome Unit × List UInt8 :=
  if input.length = output.length then
    (.ok (), zipWrite (fun s => alawEncodeTable.get (sampleIndex s)) input output)
  else
    (.error (.panic "G.711 A-law encode_slice: input and output lengths must match"), output)

/-- `encode_slice_from_le_bytes`. -/
def encodeSliceFromLeBytes (input output : List UInt8) : Outcome Unit × List UInt8 :=
  if input.length = output.length * 2 then
    (.ok (), zipWrite (fun src => alawEncodeTable.get (sampleIndex (ofLeBytes src)))
      (pairs input) output)
  else
    (.error (.panic
      "G.711 A-law encode_slice_from_le_bytes: input must be exactly 2 bytes per output byte"),
      output)

/-! ### The decoder -/

structure AlawDecoder where
  codecId : CodecId
  channels : UInt16
  pending : Option Packet
  eof : Bool
  deriving DecidableEq

/-- `make_decoder`. -/
def makeDecoder (params : CodecParameters) : Outcome AlawDecoder := do
  let channels := params.channels.getD 1
  if channels = 0 then
    throw (.err (.unsupported "G.711 A-law decoder: channel count must be >= 1"))
  return { codecId := params.codecId, channels, pending := none, eof := false }

/-- `AlawDecoder::send_packet`. -/
def AlawDecoder.sendPacket (self : AlawDecoder) (packet : Packet) : Outcome Unit × AlawDecoder :=
  if self.pending.isSome then
    (.error (.err (.other
      "G.711 A-law decoder: call receive_frame before sending another packet")), self)
  else
    (.ok (), { self with pending := some packet })

/-- `AlawDecoder::receive_frame`. -/
def AlawDecoder.receiveFrame (self : AlawDecoder) : Outcome Frame × AlawDecoder :=
  match self.pending with
  | none => (if self.eof then .error (.err .eof) else .error (.err .needMore), self)
  | some pkt =>
    -- `take` has emptied the slot before the packet is looked at
    let self := { self with pending := none }
    let frame : Outcome Frame := do
      if pkt.data.isEmpty then
        return .audio { samples := 0, pts := pkt.pts, data := [[]] }
      let ch := self.channels.toNat
      let len := pkt.data.length
      let rem ← usizeRem len ch
      if rem ≠ 0 then
        throw (.err (.invalid
          s!"G.711 A-law decoder: packet length {len} is not a multiple of channel count {ch}"))
      let samplesPerChannel ← usizeDiv len ch
      let (done, out) := decodeSliceToLeBytes pkt.data (List.replicate (len * 2) 0)
      done
      return .audio { samples := UInt32.ofNat samplesPerChannel, pts := pkt.pts, data := [out] }
    (frame, self)

/-- `AlawDecoder::flush`. -/
def AlawDecoder.flush (self : AlawDecoder) : Outcome Unit × AlawDecoder :=
  (.ok (), { self with eof := true })

/-! ### The encoder -/

structure AlawEncoder where
  output : CodecParameters
  timeBase : TimeBase
  queue : List Packet
  deriving DecidableEq

/-- `make_encoder`. -/
def makeEncoder (K : OxideavCore) (params : CodecParameters) : Outcome AlawEncoder := do
  let channels := params.channels.getD 1
  if channels = 0 then
    throw (.err (.unsupported "G.711 A-law encoder: channel count must be >= 1"))
  let sampleFormat := params.sampleFormat.getD .s16
  if sampleFormat ≠ .s16 then
    let format := K.debugSampleFormat sampleFormat
    throw (.err (.unsupported
      s!"G.711 A-law encoder: input sample format {format} not supported (need S16)"))
  let sampleRate := params.sampleRate.getD 8000
  return {
    output := { params with
      mediaType := .audio
      sampleFormat := some .s16
      channels := some channels
      sampleRate := some sampleRate
      codecId := params.codecId }
    timeBase := K.timeBaseNew 1 sampleRate.toUInt64.toInt64
    queue := [] }

/-- `AlawEncoder::codec_id`. -/
def AlawEncoder.codecId (self : AlawEncoder) : CodecId := self.output.codecId

/-- `AlawEncoder::output_params`. -/
def AlawEncoder.outputParams (self : AlawEncoder) : CodecParameters := self.output

/-- `AlawEncoder::send_frame`. -/
def AlawEncoder.sendFrame (K : OxideavCore) (self : AlawEncoder) (frame : Frame) :
    Outcome Unit × AlawEncoder :=
  match frame with
  | .nonAudio => (.error (.err (.invalid "G.711 A-law encoder: audio frames only")), self)
  | .audio a =>
    match a.data.head? with
    | none => (.error (.err (.invalid "G.711 A-law encoder: empty frame")), self)
    | some bytes =>
      if bytes.length % 2 ≠ 0 then
        (.error (.err (.invalid "G.711 A-law encoder: odd byte count")), self)
      else
        let n := bytes.length / 2
        match encodeSliceFromLeBytes bytes (List.replicate n 0) with
        | (.error fault, _) => (.error fault, self)
        | (.ok (), out) =>
          let pkt := K.packetNew 0 self.timeBase out
          let pkt := { pkt with
            pts := a.pts
            dts := a.pts
            duration := some a.samples.toUInt64.toInt64
            flags := { pkt.flags with keyframe := true } }
          (.ok (), { self with queue := self.queue ++ [pkt] })

/-- `AlawEncoder::receive_packet`. -/
def AlawEncoder.receivePacket (self : AlawEncoder) : Outcome Packet × AlawEncoder :=
  match self.queue with
  | [] => (.error (.err .needMore), self)
  | pkt :: queue => (.ok pkt, { self with queue })

/-- `AlawEncoder::flush`. -/
def AlawEncoder.flush (self : AlawEncoder) : Outcome Unit × AlawEncoder := (.ok (), self)

end Alaw
end G711
