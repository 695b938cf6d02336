import G711.Library.Loops
import G711.Registration

/-!
# What the fuzz targets are written in

A fuzz target is a program over the public functions of the crate that runs on arbitrary bytes.  It
may return early, and it panics when one of its assertions fails or a call panics; `Harness` is the
result of such a run.
-/

namespace G711
namespace Fuzz

open Slices

/-- How a run can end before the last line of its target. -/
inductive Stop
  | panic (msg : String)
  | early
  deriving DecidableEq

/-- The result of a run, or of a part of one. -/
abbrev Harness (α : Type) := Except Stop α

/-- `assert_eq!`. -/
def assertEq {α : Type} [DecidableEq α] (a b : α) (msg : String) : Harness Unit :=
  if a = b then .ok () else .error (.panic msg)

/-- `assert!`. -/
def assertTrue (b : Bool) (msg : String) : Harness Unit :=
  if b then .ok () else .error (.panic msg)

section Calls

variable {α : Type}

/-- `match r { Ok(a) => a, Err(_) => return }`. -/
def orReturn : Outcome α → Harness α
  | .ok a => .ok a
  | .error (.err _) => .error .early
  | .error (.panic msg) => .error (.panic msg)

/-- `let _ = r`. -/
def discard : Outcome α → Harness Unit
  | .error (.panic msg) => .error (.panic msg)
  | _ => .ok ()

/-- `match r { Ok(Frame::Audio(a)) => a, _ => return }`. -/
def audioOrReturn : Outcome Frame → Harness AudioFrame
  | .ok (.audio a) => .ok a
  | .error (.panic msg) => .error (.panic msg)
  | _ => .error .early

/-- `match r { Err(e) => {}, Err(_) => return, Ok(_) => panic!(msg) }`. -/
def expectError (e : Error) (msg : String) : Outcome α → Harness Unit
  | .ok _ => .error (.panic msg)
  | .error (.err e') => if e' = e then .ok () else .error .early
  | .error (.panic msg) => .error (.panic msg)

@[simp] theorem ok_bind {β : Type} (a : α) (f : α → Harness β) :
    ((.ok a : Harness α) >>= f) = f a := rfl

@[simp] theorem orReturn_ok (a : α) : orReturn (.ok a : Outcome α) = .ok a := rfl

@[simp] theorem orReturn_err (e : Error) : orReturn (.error (.err e) : Outcome α) = .error .early :=
  rfl

@[simp] theorem discard_ok (a : α) : discard (.ok a : Outcome α) = .ok () := rfl

@[simp] theorem audioOrReturn_audio (a : AudioFrame) : audioOrReturn (.ok (.audio a)) = .ok a := rfl

@[simp] theorem expectError_err (e : Error) (msg : String) :
    expectError e msg (.error (.err e) : Outcome α) = .ok () :=
  if_pos rfl

theorem assertEq_ok [DecidableEq α] {a b : α} (h : a = b) (msg : String) :
    assertEq a b msg = .ok () :=
  if_pos h

theorem assertTrue_ok {p : Prop} [Decidable p] (h : p) (msg : String) :
    assertTrue (decide p) msg = .ok () :=
  if_pos (decide_eq_true h)

/-- What does not panic can be discarded. -/
theorem discard_of_noPanic {r : Outcome α} (h : r.NoPanic) : discard r = .ok () := by
  match r, h with
  | .ok _, _ => rfl
  | .error (.err _), _ => rfl
  | .error (.panic msg), h => exact absurd rfl (h msg)

end Calls

/-! ### Reading the fuzz input -/

/-- The law that a bit of the input selects. -/
def lawOf (useAlaw : Bool) : Law := if useAlaw then .alaw else .mulaw

/-- A channel count between 1 and 8. -/
def channelsOf (b : UInt8) : UInt16 := b.toUInt16 % 8 + 1

theorem channelsOf_bounds (b : UInt8) : 1 ≤ (channelsOf b).toNat ∧ (channelsOf b).toNat ≤ 8 := by
  have hmod : (b.toUInt16 % 8).toNat = b.toNat % 8 := by
    rw [UInt16.toNat_mod, UInt8.toNat_toUInt16]
    rfl
  have hsum : (channelsOf b).toNat = (b.toNat % 8 + 1) % 2 ^ 16 := by
    rw [channelsOf, UInt16.toNat_add, hmod]
    rfl
  omega

theorem channelsOf_ne_zero (b : UInt8) : channelsOf b ≠ 0 := by
  intro h
  have hpos := (channelsOf_bounds b).1
  rw [h] at hpos
  exact absurd hpos (by decide)

/-- The parameters that the pipelines build their codecs from. -/
def s16Params (K : OxideavCore) (law : Law) (channels : UInt16) (sampleRate : UInt32) :
    CodecParameters :=
  { K.audioParams law.codecId with
    channels := some channels
    sampleRate := some sampleRate
    sampleFormat := some .s16 }

/-! ### Calls that succeed -/

section Codecs

variable {K : OxideavCore} {law : Law} {ch : UInt16} {tb : TimeBase} {out : CodecParameters}
  {e : BoxEncoder} {d : BoxDecoder}

theorem exists_encoder (K : OxideavCore) (law : Law) (hch : ch ≠ 0) (sampleRate : UInt32) :
    ∃ e tb out, law.makeEncoder K (s16Params K law ch sampleRate) = .ok e ∧ e.Has law tb out ∧
      e.queue = [] := by
  have hchannels : (s16Params K law ch sampleRate).channels.getD 1 ≠ 0 := hch
  have hformat : (s16Params K law ch sampleRate).sampleFormat.getD .s16 = .s16 := rfl
  have henc := law.makeEncoder_eq K (s16Params K law ch sampleRate)
  rw [if_neg hchannels, if_neg (not_not_intro hformat)] at henc
  obtain ⟨he, -, -, hq⟩ := Law.makeEncoder_spec henc
  exact ⟨_, _, _, henc, he, hq⟩

theorem exists_decoder (K : OxideavCore) (law : Law) (hch : ch ≠ 0) (sampleRate : UInt32) :
    ∃ d, law.makeDecoder (s16Params K law ch sampleRate) = .ok d ∧ d.Has law ch ∧
      d.slot = .init := by
  have hchannels : (s16Params K law ch sampleRate).channels.getD 1 ≠ 0 := hch
  have hdec := law.makeDecoder_eq (s16Params K law ch sampleRate)
  rw [if_neg hchannels] at hdec
  obtain ⟨hd, -, hs⟩ := Law.makeDecoder_spec hdec
  exact ⟨_, hdec, hd, hs⟩

theorem sendFrame_of_even (he : e.Has law tb out) (count : UInt32) (pts : Option Int64)
    {bytes : List UInt8} (heven : 2 ∣ bytes.length) :
    e.sendFrame K (.audio ⟨count, pts, [bytes]⟩)
      = (.ok (), e.withQueue (e.queue ++ [law.packetOf K tb ⟨count, pts, [bytes]⟩ bytes])) := by
  have hadmit : law.admitFrame K tb (.audio ⟨count, pts, [bytes]⟩)
      = .ok (law.packetOf K tb ⟨count, pts, [bytes]⟩ bytes) := if_pos heven
  rw [e.sendFrame_eq, he.law_eq, he.timeBase_eq, hadmit]

theorem receivePacket_of_cons {p : Packet} {q : List Packet} (hq : e.queue = p :: q) :
    e.receivePacket = (.ok p, e.withQueue q) := by
  rw [e.receivePacket_eq, hq]

theorem receivePacket_of_nil (hq : e.queue = []) :
    e.receivePacket = (.error (.err .needMore), e) := by
  rw [e.receivePacket_eq, hq]

theorem flush_encoder (e : BoxEncoder) : e.flush = (.ok (), e) := by
  cases e <;> rfl

/-- A fresh decoder takes a packet. -/
theorem sendPacket_of_init (hs : d.slot = .init) (p : Packet) :
    d.sendPacket p = (.ok (), d.withSlot ⟨some p, false⟩) := by
  have hpending : d.pending = none := by
    rw [BoxDecoder.pending, hs]
    rfl
  rw [d.sendPacket_of_empty hpending, hs]
  rfl

/-- It answers the packet and is as fresh as before. -/
theorem receiveFrame_of_sent (hd : d.Has law ch) (hch : ch ≠ 0) (hs : d.slot = .init) (p : Packet) :
    (d.withSlot ⟨some p, false⟩).receiveFrame = (law.decodePacket ch p, d) := by
  have hsent := hd.withSlot ⟨some p, false⟩
  have hpending : (d.withSlot ⟨some p, false⟩).pending = some p := by
    rw [BoxDecoder.pending, d.slot_withSlot]
  have hback : (d.withSlot ⟨some p, false⟩).withSlot .init = d := by
    rw [← hs]
    cases d <;> rfl
  apply Prod.ext
  · rw [BoxDecoder.receiveFrame_of_pending hpending (by rwa [hsent.channels_eq]), hsent.law_eq,
      hsent.channels_eq]
  · rw [BoxDecoder.receiveFrame_state, d.slot_withSlot]
    exact hback

/-- Without a packet a fresh decoder needs more, and a flushed one is at its end. -/
theorem receiveFrame_of_init (hs : d.slot = .init) :
    d.receiveFrame = (.error (.err .needMore), d) := by
  have hsame : d.withSlot .init = d := by rw [← hs, d.withSlot_slot]
  apply Prod.ext
  · rw [BoxDecoder.receiveFrame_of_empty (by rw [BoxDecoder.pending, hs]; rfl), hs]
    rfl
  · rw [BoxDecoder.receiveFrame_state, hs]
    exact hsame

theorem flush_decoder_fst (d : BoxDecoder) : d.flush.1 = .ok () := by
  cases d <;> rfl

theorem flush_decoder_snd (d : BoxDecoder) :
    d.flush.2 = d.withSlot { d.slot with closed := true } := by
  cases d <;> rfl

theorem receiveFrame_of_flushed (hs : d.slot = .init) :
    d.flush.2.receiveFrame.1 = .error (.err .eof) := by
  rw [flush_decoder_snd, BoxDecoder.receiveFrame_of_empty, d.slot_withSlot]
  · rfl
  · rw [BoxDecoder.pending, d.slot_withSlot, hs]
    rfl

/-! ### Round trips -/

theorem samples_round_trip (law : Law) (bytes : List UInt8) :
    samples (law.decodePlane (law.encodePlane bytes))
      = (samples bytes).map fun s => law.decodeSample (law.encodeSample s) := by
  rw [law.decodePlane_encodePlane, samples_plane]

theorem length_round_trip (law : Law) {bytes : List UInt8} (heven : 2 ∣ bytes.length) :
    (law.decodePlane (law.encodePlane bytes)).length = bytes.length := by
  rw [law.length_decodePlane, law.length_encodePlane]
  omega

/-- A packet made of whole samples is decoded to their round trip. -/
theorem decodePacket_of_whole {bytes : List UInt8} (hwhole : 2 * ch.toNat ∣ bytes.length)
    {p : Packet} (hdata : p.data = law.encodePlane bytes) :
    law.decodePacket ch p = .ok (.audio ⟨UInt32.ofNat (bytes.length / 2 / ch.toNat), p.pts,
      [law.decodePlane (law.encodePlane bytes)]⟩) := by
  have hlength : p.data.length = bytes.length / 2 := by rw [hdata, law.length_encodePlane]
  rw [Law.decodePacket, hlength, if_pos (Nat.dvd_div_of_mul_dvd hwhole), Law.frameOf, hlength, hdata]

end Codecs

end Fuzz
end G711
