import Mathlib.Tactic

/-!
# What the codec takes from `oxideav_core`

The framework's data types, with the fields that the codec reads or writes, and `OxideavCore`, the
framework functions it calls.  The code of the framework is not part of the repository, so these
functions are parameters, and the fields of `OxideavCore` below them say what their documentation
promises: a constructor stores the values it is given.

A call may end in a value, in an `Error` or in a panic; `Outcome` is the result of such a call.
Lengths and indices (`usize`) are natural numbers: a slice is never longer than `isize::MAX` bytes,
so doubling a length does not wrap.
-/

namespace G711

/-- `oxideav_core::Error`: the variants that the codec builds. -/
inductive Error
  | unsupported (msg : String)
  | invalid (msg : String)
  | other (msg : String)
  | needMore
  | eof
  deriving DecidableEq

/-- The kind of an error, without its text. -/
inductive ErrorKind
  | unsupported
  | invalid
  | other
  | needMore
  | eof
  deriving DecidableEq

def Error.kind : Error → ErrorKind
  | .unsupported _ => .unsupported
  | .invalid _ => .invalid
  | .other _ => .other
  | .needMore => .needMore
  | .eof => .eof

/-- How a call can fail: by a panic, or by returning `Err`. -/
inductive Fault
  | panic (msg : String)
  | err (e : Error)
  deriving DecidableEq

/-- The result of a call. -/
abbrev Outcome (α : Type) := Except Fault α

/-- A call did not panic. -/
def Outcome.NoPanic {α : Type} (r : Outcome α) : Prop := ∀ msg, r ≠ .error (.panic msg)

@[simp] theorem Outcome.noPanic_ok {α : Type} (a : α) : Outcome.NoPanic (.ok a : Outcome α) := by
  intro msg h
  cases h

@[simp] theorem Outcome.noPanic_err {α : Type} (e : Error) :
    Outcome.NoPanic (.error (.err e) : Outcome α) := by
  intro msg h
  cases h

/-- `a % b` on `usize`. -/
def usizeRem (a b : ℕ) : Outcome ℕ :=
  if b = 0 then .error (.panic "attempt to calculate the remainder with a divisor of zero")
  else .ok (a % b)

/-- `a / b` on `usize`. -/
def usizeDiv (a b : ℕ) : Outcome ℕ :=
  if b = 0 then .error (.panic "attempt to divide by zero") else .ok (a / b)

/-- `oxideav_core::SampleFormat`. -/
inductive SampleFormat
  | u8 | s8 | s16 | s24 | s32 | f32 | f64
  | u8p | s16p | s32p | f32p | f64p
  deriving DecidableEq

/-- `oxideav_core::MediaType`; the codec only sets it to `Audio`. -/
inductive MediaType
  | audio
  | nonAudio
  deriving DecidableEq

/-- `oxideav_core::CodecId`, a name. -/
abbrev CodecId := String

/-- `oxideav_core::CodecParameters`. -/
structure CodecParameters where
  codecId : CodecId
  mediaType : MediaType
  sampleRate : Option UInt32
  channels : Option UInt16
  sampleFormat : Option SampleFormat
  deriving DecidableEq

/-- `oxideav_core::TimeBase`. -/
structure TimeBase where
  num : Int64
  den : Int64
  deriving DecidableEq

/-- `oxideav_core::PacketFlags`. -/
structure PacketFlags where
  keyframe : Bool
  deriving DecidableEq

/-- `oxideav_core::Packet`. -/
structure Packet where
  streamIndex : UInt32
  timeBase : TimeBase
  pts : Option Int64
  dts : Option Int64
  duration : Option Int64
  flags : PacketFlags
  data : List UInt8
  deriving DecidableEq

/-- `oxideav_core::AudioFrame`: `data` holds the planes. -/
structure AudioFrame where
  samples : UInt32
  pts : Option Int64
  data : List (List UInt8)
  deriving DecidableEq

/-- `oxideav_core::Frame`; of a frame that is not audio the codec reads nothing. -/
inductive Frame
  | audio (a : AudioFrame)
  | nonAudio
  deriving DecidableEq

/-- The functions of `oxideav_core` that the codec and its callers call. -/
structure OxideavCore where
  /-- `Packet::new`. -/
  packetNew : UInt32 → TimeBase → List UInt8 → Packet
  /-- `TimeBase::new`. -/
  timeBaseNew : Int64 → Int64 → TimeBase
  /-- The `Debug` text of a sample format. -/
  debugSampleFormat : SampleFormat → String
  /-- `CodecParameters::audio`, of which callers set what else they use. -/
  audioParams : CodecId → CodecParameters
  packetNew_streamIndex : ∀ i tb data, (packetNew i tb data).streamIndex = i
  packetNew_timeBase : ∀ i tb data, (packetNew i tb data).timeBase = tb
  packetNew_data : ∀ i tb data, (packetNew i tb data).data = data
  timeBaseNew_num : ∀ num den, (timeBaseNew num den).num = num
  timeBaseNew_den : ∀ num den, (timeBaseNew num den).den = den
  audioParams_codecId : ∀ id, (audioParams id).codecId = id

attribute [simp] OxideavCore.packetNew_streamIndex OxideavCore.packetNew_timeBase
  OxideavCore.packetNew_data OxideavCore.timeBaseNew_num OxideavCore.timeBaseNew_den
  OxideavCore.audioParams_codecId

/-- A framework whose constructors store their arguments and leave the timestamps unset. -/
def OxideavCore.plain : OxideavCore where
  packetNew i tb data := ⟨i, tb, none, none, none, ⟨false⟩, data⟩
  timeBaseNew num den := ⟨num, den⟩
  debugSampleFormat
    | .u8 => "U8" | .s8 => "S8" | .s16 => "S16" | .s24 => "S24" | .s32 => "S32"
    | .f32 => "F32" | .f64 => "F64" | .u8p => "U8P" | .s16p => "S16P" | .s32p => "S32P"
    | .f32p => "F32P" | .f64p => "F64P"
  audioParams id := ⟨id, .audio, none, none, none⟩
  packetNew_streamIndex _ _ _ := rfl
  packetNew_timeBase _ _ _ := rfl
  packetNew_data _ _ _ := rfl
  timeBaseNew_num _ _ := rfl
  timeBaseNew_den _ _ := rfl
  audioParams_codecId _ := rfl

/-- Stereo at 8 kHz, for concrete runs. -/
def stereo : CodecParameters := ⟨"g711", .audio, some 8000, some 2, none⟩

/-- Parameters that leave everything to the defaults, for concrete runs. -/
def mono : CodecParameters := ⟨"g711", .audio, none, none, none⟩

end G711
