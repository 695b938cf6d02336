import G711.Library.Slices

/-!
# `tables.rs`: the formulas of the two laws and their tables

The bit-field decode formulas, the arithmetic encoders with their segment searches, and the five
families of compile-time tables: wire byte to sample, wire byte to little-endian sample, and
sample (read as `u16`) to wire byte, plain and with all-zero suppression.  Every table is filled
by a counting loop from a formula; `get` lemmas say so entry by entry.

The formulas are computed in `i32`, as `Int32` here.
-/

namespace G711

open Slices

/-! ### µ-law -/

/-- `MULAW_BIAS`. -/
def mulawBias : Int32 := 0x84

/-- `mulaw_decode`. -/
def mulawDecode (b : UInt8) : Int16 :=
  let inv := ~~~b
  let sign := inv &&& 0x80
  let exp := ((inv >>> 4) &&& 0x07).toUInt32
  let mant := (inv &&& 0x0F).toUInt32.toInt32
  let mag := (((mant <<< 3) + mulawBias) <<< exp.toInt32) - mulawBias
  if sign = 0 then mag.toInt16 else (-mag).toInt16

/-- `MULAW_DECODE`. -/
def mulawDecodeTable : Vector Int16 256 := fillTable 256 0 fun i => mulawDecode (UInt8.ofNat i)

/-- `MULAW_DECODE_LE`. -/
def mulawDecodeLeTable : Vector (UInt8 × UInt8) 256 :=
  fillTable 256 (0, 0) fun i => leBytes (mulawDecodeTable.get (Fin.ofNat 256 i))

/-! ### A-law -/

/-- `ALAW_XOR`. -/
def alawXor : UInt8 := 0x55

/-- `alaw_decode`. -/
def alawDecode (b : UInt8) : Int16 :=
  let inv := b ^^^ alawXor
  let sign := inv &&& 0x80
  let exp := ((inv >>> 4) &&& 0x07).toUInt32
  let mant := (inv &&& 0x0F).toUInt32.toInt32
  let mag := if exp = 0 then (mant <<< 4) + 8 else ((mant <<< 4) + 0x108) <<< (exp - 1).toInt32
  if sign ≠ 0 then mag.toInt16 else (-mag).toInt16

/-- `ALAW_DECODE`. -/
def alawDecodeTable : Vector Int16 256 := fillTable 256 0 fun i => alawDecode (UInt8.ofNat i)

/-- `ALAW_DECODE_LE`. -/
def alawDecodeLeTable : Vector (UInt8 × UInt8) 256 :=
  fillTable 256 (0, 0) fun i => leBytes (alawDecodeTable.get (Fin.ofNat 256 i))

/-! ### The arithmetic encoders -/

/-- The µ-law segment search `while seg > 0 && (mag & mask) == 0 { seg -= 1; mask >>= 1 }`. -/
def mulawSegment (mag : Int32) : ℕ → Int32 → ℕ
  | 0, _ => 0
  | seg + 1, mask => if mag &&& mask = 0 then mulawSegment mag seg (mask >>> 1) else seg + 1

/-- `mulaw_encode_arith`. -/
def mulawEncodeArith (sample : Int16) : UInt8 :=
  let mag := sample.toInt32
  let signBit : UInt8 := if mag < 0 then 0x80 else 0
  let mag := if mag < 0 then -mag else mag
  let mag := if mag > 32635 then 32635 else mag
  let mag := mag + mulawBias
  let seg := mulawSegment mag 7 0x4000
  let mantissa := ((mag >>> Int32.ofNat (seg + 3)) &&& 0x0F).toUInt32.toUInt8
  let byte := signBit ||| (UInt8.ofNat seg <<< 4) ||| mantissa
  ~~~byte

/-- The A-law segment search `while seg < 7 && mag >= threshold { seg += 1; threshold <<= 1 }`;
the first argument after `mag` is `7 - seg`, what the guard leaves. -/
def alawSegment (mag : Int32) : ℕ → ℕ → Int32 → ℕ
  | 0, seg, _ => seg
  | left + 1, seg, threshold =>
    if mag ≥ threshold then alawSegment mag left (seg + 1) (threshold <<< 1) else seg

/-- `alaw_encode_arith`. -/
def alawEncodeArith (sample : Int16) : UInt8 :=
  let mag := sample.toInt32
  let signBit : UInt8 := if mag < 0 then 0x00 else 0x80
  let mag := if mag < 0 then -mag else mag
  let mag := if mag > 32256 then 32256 else mag
  let (seg, mant) : ℕ × UInt32 :=
    if mag < 256 then (0, (mag >>> 4).toUInt32 &&& 0x0F)
    else
      let seg := alawSegment mag 6 1 512
      let shift := seg + 3
      (seg, ((mag >>> Int32.ofNat shift) &&& 0x0F).toUInt32)
  let byte := signBit ||| (UInt8.ofNat seg <<< 4) ||| mant.toUInt8
  byte ^^^ alawXor

/-! ### The encode tables -/

/-- `MULAW_ENCODE`, indexed by the sample read as `u16`. -/
def mulawEncodeTable : Vector UInt8 65536 :=
  fillTable 65536 0 fun i => mulawEncodeArith (Int16.ofNat i)

/-- `ALAW_ENCODE`. -/
def alawEncodeTable : Vector UInt8 65536 :=
  fillTable 65536 0 fun i => alawEncodeArith (Int16.ofNat i)

/-- `mulaw::MULAW_ZERO_CODEWORD`. -/
def mulawZeroCodeword : UInt8 := 0x00

/-- `mulaw::MULAW_ZERO_SUPPRESS_CODEWORD`. -/
def mulawZeroSuppressCodeword : UInt8 := 0x02

/-- `MULAW_ENCODE_ZERO_SUPPRESS`. -/
def mulawEncodeZeroSuppressTable : Vector UInt8 65536 :=
  fillTable 65536 0 fun i =>
    let b := mulawEncodeArith (Int16.ofNat i)
    if b = mulawZeroCodeword then mulawZeroSuppressCodeword else b

/-! ### What the tables hold -/

/-- The index `b as usize`. -/
def byteIndex (b : UInt8) : Fin 256 := ⟨b.toNat, b.toNat_lt⟩

/-- The index `s as u16 as usize`. -/
def sampleIndex (s : Int16) : Fin 65536 := ⟨s.toUInt16.toNat, s.toUInt16.toNat_lt⟩

@[simp] theorem ofNat_byteIndex (b : UInt8) : UInt8.ofNat (byteIndex b) = b := by
  simp [byteIndex]

/-- Reading the index back as `i16` undoes the reinterpretation as `u16`. -/
@[simp] theorem ofNat_sampleIndex (s : Int16) : Int16.ofNat (sampleIndex s) = s := by
  change (UInt16.ofNat s.toUInt16.toNat).toInt16 = s
  rw [UInt16.ofNat_toNat]
  rfl

theorem mulawDecodeTable_get (b : UInt8) : mulawDecodeTable.get (byteIndex b) = mulawDecode b := by
  unfold mulawDecodeTable
  rw [get_fillTable, ofNat_byteIndex]

theorem alawDecodeTable_get (b : UInt8) : alawDecodeTable.get (byteIndex b) = alawDecode b := by
  unfold alawDecodeTable
  rw [get_fillTable, ofNat_byteIndex]

theorem mulawDecodeLeTable_get (b : UInt8) :
    mulawDecodeLeTable.get (byteIndex b) = leBytes (mulawDecode b) := by
  have h : Fin.ofNat 256 (byteIndex b) = byteIndex b := by simp
  unfold mulawDecodeLeTable
  rw [get_fillTable, h, mulawDecodeTable_get]

theorem alawDecodeLeTable_get (b : UInt8) :
    alawDecodeLeTable.get (byteIndex b) = leBytes (alawDecode b) := by
  have h : Fin.ofNat 256 (byteIndex b) = byteIndex b := by simp
  unfold alawDecodeLeTable
  rw [get_fillTable, h, alawDecodeTable_get]

theorem mulawEncodeTable_get (s : Int16) :
    mulawEncodeTable.get (sampleIndex s) = mulawEncodeArith s := by
  unfold mulawEncodeTable
  rw [get_fillTable, ofNat_sampleIndex]

theorem alawEncodeTable_get (s : Int16) :
    alawEncodeTable.get (sampleIndex s) = alawEncodeArith s := by
  unfold alawEncodeTable
  rw [get_fillTable, ofNat_sampleIndex]

theorem mulawEncodeZeroSuppressTable_get (s : Int16) :
    mulawEncodeZeroSuppressTable.get (sampleIndex s)
      = if mulawEncodeArith s = mulawZeroCodeword then mulawZeroSuppressCodeword
        else mulawEncodeArith s := by
  unfold mulawEncodeZeroSuppressTable
  rw [get_fillTable, ofNat_sampleIndex]

end G711
