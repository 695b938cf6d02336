import G711.Library.Mealy
import G711.Mulaw
import G711.Alaw

/-!
# The two laws side by side

`Law` selects one of the two modules.  `BoxDecoder` and `BoxEncoder` are the trait objects
`Box<dyn Decoder>` and `Box<dyn Encoder>` that the factories return: a method call dispatches to
the law's own method.  `decoderMachine` and `encoderMachine` run arbitrary sequences of such calls.
-/

namespace G711

open Slices

inductive Law
  | mulaw
  | alaw
  deriving DecidableEq

namespace Law

/-- The other law. -/
def other : Law → Law
  | .mulaw => .alaw
  | .alaw => .mulaw

/-! ### Samples and slices -/

def decodeSample : Law → UInt8 → Int16
  | .mulaw => Mulaw.decodeSample
  | .alaw => Alaw.decodeSample

def encodeSample : Law → Int16 → UInt8
  | .mulaw => Mulaw.encodeSample
  | .alaw => Alaw.encodeSample

def encodeSampleArith : Law → Int16 → UInt8
  | .mulaw => Mulaw.encodeSampleArith
  | .alaw => Alaw.encodeSampleArith

/-- The decode formula of a law. -/
def decodeArith : Law → UInt8 → Int16
  | .mulaw => mulawDecode
  | .alaw => alawDecode

/-- The encode formula of a law. -/
def encodeArith : Law → Int16 → UInt8
  | .mulaw => mulawEncodeArith
  | .alaw => alawEncodeArith

def decodeSlice : Law → List UInt8 → List Int16 → Outcome Unit × List Int16
  | .mulaw => Mulaw.decodeSlice
  | .alaw => Alaw.decodeSlice

def decodeSliceToLeBytes : Law → List UInt8 → List UInt8 → Outcome Unit × List UInt8
  | .mulaw => Mulaw.decodeSliceToLeBytes
  | .alaw => Alaw.decodeSliceToLeBytes

def encodeSlice : Law → List Int16 → List UInt8 → Outcome Unit × List UInt8
  | .mulaw => Mulaw.encodeSlice
  | .alaw => Alaw.encodeSlice

def encodeSliceFromLeBytes : Law → List UInt8 → List UInt8 → Outcome Unit × List UInt8
  | .mulaw => Mulaw.encodeSliceFromLeBytes
  | .alaw => Alaw.encodeSliceFromLeBytes

theorem decodeSample_eq (law : Law) : law.decodeSample = law.decodeArith := by
  funext b
  cases law with
  | mulaw => exact mulawDecodeTable_get b
  | alaw => exact alawDecodeTable_get b

theorem encodeSample_eq (law : Law) : law.encodeSample = law.encodeArith := by
  funext s
  cases law with
  | mulaw => exact mulawEncodeTable_get s
  | alaw => exact alawEncodeTable_get s

end Law

/-! ### Trait objects -/

/-- `Box<dyn Decoder>`. -/
inductive BoxDecoder
  | ulaw (d : Mulaw.UlawDecoder)
  | alaw (d : Alaw.AlawDecoder)
  deriving DecidableEq

/-- `Box<dyn Encoder>`. -/
inductive BoxEncoder
  | ulaw (e : Mulaw.UlawEncoder)
  | alaw (e : Alaw.AlawEncoder)
  deriving DecidableEq

/-- The decoder factory of a law. -/
def Law.makeDecoder : Law → CodecParameters → Outcome BoxDecoder
  | .mulaw, params => (Mulaw.makeDecoder params).map .ulaw
  | .alaw, params => (Alaw.makeDecoder params).map .alaw

/-- The encoder factory of a law. -/
def Law.makeEncoder (K : OxideavCore) : Law → CodecParameters → Outcome BoxEncoder
  | .mulaw, params => (Mulaw.makeEncoder K params).map .ulaw
  | .alaw, params => (Alaw.makeEncoder K params).map .alaw

namespace BoxDecoder

def codecId : BoxDecoder → CodecId
  | .ulaw d => d.codecId
  | .alaw d => d.codecId

def sendPacket : BoxDecoder → Packet → Outcome Unit × BoxDecoder
  | .ulaw d, p => (d.sendPacket p).map id .ulaw
  | .alaw d, p => (d.sendPacket p).map id .alaw

def receiveFrame : BoxDecoder → Outcome Frame × BoxDecoder
  | .ulaw d => d.receiveFrame.map id .ulaw
  | .alaw d => d.receiveFrame.map id .alaw

def flush : BoxDecoder → Outcome Unit × BoxDecoder
  | .ulaw d => d.flush.map id .ulaw
  | .alaw d => d.flush.map id .alaw

end BoxDecoder

namespace BoxEncoder

def codecId : BoxEncoder → CodecId
  | .ulaw e => e.codecId
  | .alaw e => e.codecId

def outputParams : BoxEncoder → CodecParameters
  | .ulaw e => e.outputParams
  | .alaw e => e.outputParams

def sendFrame (K : OxideavCore) : BoxEncoder → Frame → Outcome Unit × BoxEncoder
  | .ulaw e, f => (e.sendFrame K f).map id .ulaw
  | .alaw e, f => (e.sendFrame K f).map id .alaw

def receivePacket : BoxEncoder → Outcome Packet × BoxEncoder
  | .ulaw e => e.receivePacket.map id .ulaw
  | .alaw e => e.receivePacket.map id .alaw

def flush : BoxEncoder → Outcome Unit × BoxEncoder
  | .ulaw e => e.flush.map id .ulaw
  | .alaw e => e.flush.map id .alaw

end BoxEncoder

/-! ### Sequences of calls -/

/-- A call on a decoder. -/
inductive DecoderOp
  | sendPacket (p : Packet)
  | receiveFrame
  | flush
  deriving DecidableEq

/-- The response to a call on a decoder. -/
inductive DecoderAnswer
  | sent (r : Outcome Unit)
  | received (r : Outcome Frame)
  | flushed (r : Outcome Unit)
  deriving DecidableEq

/-- One call on a decoder. -/
def BoxDecoder.call (d : BoxDecoder) : DecoderOp → DecoderAnswer × BoxDecoder
  | .sendPacket p => (d.sendPacket p).map .sent id
  | .receiveFrame => d.receiveFrame.map .received id
  | .flush => d.flush.map .flushed id

/-- A decoder under arbitrary sequences of calls. -/
def decoderMachine : Mealy BoxDecoder DecoderOp DecoderAnswer where
  next d op := (d.call op).2
  answer d op := (d.call op).1

/-- A call on an encoder. -/
inductive EncoderOp
  | sendFrame (f : Frame)
  | receivePacket
  | flush
  deriving DecidableEq

/-- The response to a call on an encoder. -/
inductive EncoderAnswer
  | sent (r : Outcome Unit)
  | received (r : Outcome Packet)
  | flushed (r : Outcome Unit)
  deriving DecidableEq

/-- One call on an encoder. -/
def BoxEncoder.call (K : OxideavCore) (e : BoxEncoder) : EncoderOp → EncoderAnswer × BoxEncoder
  | .sendFrame f => (e.sendFrame K f).map .sent id
  | .receivePacket => e.receivePacket.map .received id
  | .flush => e.flush.map .flushed id

/-- An encoder under arbitrary sequences of calls. -/
def encoderMachine (K : OxideavCore) : Mealy BoxEncoder EncoderOp EncoderAnswer where
  next e op := (e.call K op).2
  answer e op := (e.call K op).1

/-- A response of a decoder is no panic. -/
def DecoderAnswer.NoPanic : DecoderAnswer → Prop
  | .sent r => r.NoPanic
  | .received r => r.NoPanic
  | .flushed r => r.NoPanic

/-- A response of an encoder is no panic. -/
def EncoderAnswer.NoPanic : EncoderAnswer → Prop
  | .sent r => r.NoPanic
  | .received r => r.NoPanic
  | .flushed r => r.NoPanic

end G711
