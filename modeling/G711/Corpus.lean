import G711.Fuzz.Harness
import G711.Library.Riff

/-!
# `docs_corpus.rs`: files decoded and compared

The integration test that decodes recorded files: it takes a G.711 stream out of a WAVE or Sun
container, sends it through the decoder that the registry finds for it, and compares the samples
with those of a second WAVE file.

* `parseWav_eq_ok_iff`: which files the WAVE parser accepts, and what it reads from them;
* `bit_exact_iff`: the test passes exactly when the second file holds, byte by byte, what the
  payload of the first is decoded to.
-/

namespace G711
namespace Corpus

open Fuzz Loops Riff Slices

/-! ### Containers -/

/-- What `parse_wav` reads from a `fmt ` chunk. -/
structure WavFormat where
  formatTag : UInt16
  channels : UInt16
  sampleRate : UInt32
  bitsPerSample : UInt16
  deriving DecidableEq

/-- The bytes of an ASCII text. -/
def ascii (text : List Char) : List UInt8 := text.map Char.toUInt8

/-- What is read from the first 16 bytes of a `fmt ` chunk, if it has them. -/
def wavFormat (body : List UInt8) : Option WavFormat :=
  if body.length < 16 then none
  else
    let byte i := body.getD i 0
    some {
      formatTag := u16FromLeBytes (byte 0) (byte 1)
      channels := u16FromLeBytes (byte 2) (byte 3)
      sampleRate := u32FromLeBytes (byte 4) (byte 5) (byte 6) (byte 7)
      bitsPerSample := u16FromLeBytes (byte 14) (byte 15) }

/-- The chunks read so far: the last `fmt ` chunk and the last `data` chunk. -/
abbrev WavState := Option WavFormat × Option (List UInt8)

/-- What a chunk does in the loop of `parse_wav`. -/
def wavChunk (state : WavState) (c : Chunk) : Except String WavState :=
  if c.id = ascii ['f', 'm', 't', ' '] then
    match wavFormat c.body with
    | none =>
      let size := c.body.length
      .error s!"fmt chunk too small: {size}"
    | some fmt => .ok (some fmt, state.2)
  else if c.id = ascii ['d', 'a', 't', 'a'] then .ok (state.1, some c.body)
  else .ok state

/-- `parse_wav`; `debugId` renders the identifier of a chunk for the message. -/
def parseWav (debugId : List UInt8 → String) (bytes : List UInt8) :
    Except String (WavFormat × List UInt8) :=
  if bytes.length < 12 ∨ bytes.take 4 ≠ ascii ['R', 'I', 'F', 'F'] ∨
      (bytes.drop 8).take 4 ≠ ascii ['W', 'A', 'V', 'E'] then
    .error "not a RIFF/WAVE file"
  else
    let len := bytes.length
    let truncated id size bodyOff :=
      let id := debugId id
      s!"WAV chunk {id} body truncated (size {size} from off {bodyOff} > {len})"
    match scan truncated wavChunk 12 (bytes.drop 12) (none, none) with
    | .error e => .error e
    | .ok (none, _) => .error "WAV missing fmt chunk"
    | .ok (some _, none) => .error "WAV missing data chunk"
    | .ok (some fmt, some data) => .ok (fmt, data)

/-- `u32::from_be_bytes`. -/
def u32FromBeBytes (a b c d : UInt8) : UInt32 := u32FromLeBytes d c b a

/-- `G711Stream`. -/
structure G711Stream where
  codecAlias : CodecId
  sampleRate : UInt32
  channels : UInt16
  payload : List UInt8
  deriving DecidableEq

/-- `parse_au`, with its result as a stream. -/
def parseAu (bytes : List UInt8) : Except String G711Stream :=
  match bytes with
  | m₀ :: m₁ :: m₂ :: m₃ :: h₀ :: h₁ :: h₂ :: h₃ :: _ :: _ :: _ :: _ :: e₀ :: e₁ :: e₂ :: e₃ ::
      r₀ :: r₁ :: r₂ :: r₃ :: c₀ :: c₁ :: c₂ :: c₃ :: _ =>
    if [m₀, m₁, m₂, m₃] ≠ ascii ['.', 's', 'n', 'd'] then
      .error "not a Sun .au file (.snd magic missing)"
    else
      let headerSize := (u32FromBeBytes h₀ h₁ h₂ h₃).toNat
      let encoding := u32FromBeBytes e₀ e₁ e₂ e₃
      let sampleRate := u32FromBeBytes r₀ r₁ r₂ r₃
      -- `as u16` keeps the low half
      let channels := (u32FromBeBytes c₀ c₁ c₂ c₃).toUInt16
      let codecAlias := if encoding = 1 then some "pcm_mulaw" else
        if encoding = 27 then some "pcm_alaw" else none
      match codecAlias with
      | none => .error s!".au encoding {encoding} not supported by this driver"
      | some codecAlias =>
        let len := bytes.length
        if headerSize > len then .error s!".au header_size {headerSize} > file length {len}"
        else .ok ⟨codecAlias, sampleRate, channels, bytes.drop headerSize⟩
  | _ => .error "not a Sun .au file (.snd magic missing)"

/-- `PcmS16`. -/
structure PcmS16 where
  sampleRate : UInt32
  channels : UInt16
  bytes : List UInt8

/-- The files of a fixture, as far as they are there. -/
structure Fixture where
  inputWav : Option (List UInt8)
  inputAu : Option (List UInt8)
  inputRaw : Option (List UInt8)
  expected : Option (List UInt8)

/-- The stream of an `input.wav`. -/
def loadWav (debugId : List UInt8 → String) (bytes : List UInt8) : Option G711Stream :=
  match parseWav debugId bytes with
  | .error _ => none
  | .ok (fmt, data) =>
    if fmt.bitsPerSample ≠ 8 then none
    else if fmt.formatTag = 0x0006 then some ⟨"pcm_alaw", fmt.sampleRate, fmt.channels, data⟩
    else if fmt.formatTag = 0x0007 then some ⟨"pcm_mulaw", fmt.sampleRate, fmt.channels, data⟩
    else none

/-- `load_input`; the parameters of a raw file come from the test. -/
def loadInput (debugId : List UInt8 → String) (files : Fixture)
    (rawMeta : Option (CodecId × UInt16 × UInt32)) : Harness (Option G711Stream) :=
  match files.inputWav, files.inputAu, files.inputRaw with
  | some bytes, _, _ => .ok (loadWav debugId bytes)
  | none, some bytes, _ => .ok (parseAu bytes).toOption
  | none, none, some bytes =>
    match rawMeta with
    | none => .error (.panic "raw fixture requires explicit (alias, channels, sample_rate)")
    | some (codecAlias, channels, sampleRate) =>
      .ok (some ⟨codecAlias, sampleRate, channels, bytes⟩)
  | none, none, none => .ok none

/-- `load_expected_pcm`. -/
def loadExpectedPcm (debugId : List UInt8 → String) (files : Fixture) : Option PcmS16 :=
  match files.expected with
  | none => none
  | some bytes =>
    match parseWav debugId bytes with
    | .error _ => none
    | .ok (fmt, data) =>
      if fmt.formatTag ≠ 0x0001 then none
      else if fmt.bitsPerSample ≠ 16 then none
      else some ⟨fmt.sampleRate, fmt.channels, data⟩

/-! ### Decoding and comparing -/

/-- The parameters of a stream. -/
def G711Stream.params (K : OxideavCore) (stream : G711Stream) : CodecParameters :=
  { K.audioParams stream.codecAlias with
    sampleRate := some stream.sampleRate
    channels := some stream.channels
    sampleFormat := some .s16 }

/-- What `decode_stream` does with the decoder it found. -/
def decodeWith (K : OxideavCore) (stream : G711Stream) (dec : BoxDecoder) :
    Outcome (List UInt8) := do
  let tb := K.timeBaseNew 1 stream.sampleRate.toUInt64.toInt64
  let (sent, dec) := dec.sendPacket (K.packetNew 0 tb stream.payload)
  sent
  let (received, _) := dec.receiveFrame
  match ← received with
  | .nonAudio => throw (.err (.other "decoder returned non-audio frame"))
  | .audio af =>
    match af.data.head? with
    | none => throw (.err (.other "decoder produced empty audio frame"))
    | some bytes => return bytes

/-- `decode_stream`, with the registry that holds this crate alone. -/
def decodeStream (K : OxideavCore) (R : CodecRegistry (DynDecoder Empty) (DynEncoder Empty))
    (stream : G711Stream) : Outcome (List UInt8) := do
  let reg := registerCodecs K R R.new
  match ← R.firstDecoder reg (stream.params K) with
  | .inl dec => decodeWith K stream dec
  | .inr foreign => nomatch foreign

/-- `PerChannel`, without what is only printed. -/
structure PerChannel where
  n : ℕ
  exact : ℕ
  maxAbsDiff : ℕ

/-- A sample of a channel compared. -/
def PerChannel.add (entry : PerChannel) (ourV refV : Int16) : PerChannel :=
  let abs := (ourV.toInt - refV.toInt).natAbs
  { n := entry.n + 1
    exact := if abs = 0 then entry.exact + 1 else entry.exact
    maxAbsDiff := if abs > entry.maxAbsDiff then abs else entry.maxAbsDiff }

/-- The sample at an offset; the offsets of the loop are in bounds. -/
def sampleAt (bytes : List UInt8) (off : ℕ) : Int16 :=
  ofLeBytes (bytes.getD off 0, bytes.getD (off + 1) 0)

/-- `compare_per_channel`. -/
def comparePerChannel (ourS16 refS16 : List UInt8) (channels : UInt16) : List PerChannel :=
  let out := List.replicate channels.toNat ⟨0, 0, 0⟩
  let pairSize := channels.toNat * 2
  if pairSize = 0 then out
  else
    let n := min ourS16.length refS16.length / pairSize
    (List.range n).foldl (fun out i => out.mapIdx fun c entry =>
      let off := i * pairSize + c * 2
      entry.add (sampleAt ourS16 off) (sampleAt refS16 off)) out

/-- `Tier`. -/
inductive Tier
  | bitExact
  | reportOnly

/-- The end of `evaluate`, with the decoded stream. -/
def judge (tier : Tier) (ourS16 refS16 : List UInt8) (channels : UInt16) : Harness Unit :=
  let stats := comparePerChannel ourS16 refS16 channels
  let totalN := (stats.map PerChannel.n).sum
  let totalExact := (stats.map PerChannel.exact).sum
  let lengthMatch := ourS16.length = refS16.length
  match tier with
  | .bitExact => do
    assertTrue lengthMatch "length mismatch"
    assertEq totalExact totalN "not bit-exact"
  | .reportOnly => return

/-- `evaluate`. -/
def evaluate (K : OxideavCore) (R : CodecRegistry (DynDecoder Empty) (DynEncoder Empty))
    (debugId : List UInt8 → String) (tier : Tier) (files : Fixture)
    (rawMeta : Option (CodecId × UInt16 × UInt32)) : Harness Unit := do
  match ← loadInput debugId files rawMeta with
  | none => throw .early
  | some stream =>
    match loadExpectedPcm debugId files with
    | none => throw .early
    | some expected =>
      match decodeStream K R stream, tier with
      | .ok ourS16, tier => judge tier ourS16 expected.bytes stream.channels
      | .error (.panic msg), _ => throw (.panic msg)
      | .error (.err _), .bitExact => throw (.panic "decoder error")
      | .error (.err _), .reportOnly => throw .early

/-! ### The WAVE parser -/

/-- The chunks of one kind. -/
def chunksOf (kind : List Char) (cs : List Chunk) : List Chunk := cs.filter (·.id = ascii kind)

/-- What the last `fmt ` chunk says. -/
def lastFormat (cs : List Chunk) : Option WavFormat :=
  (chunksOf ['f', 'm', 't', ' '] cs).getLast?.bind fun c => wavFormat c.body

/-- The body of the last `data` chunk. -/
def lastData (cs : List Chunk) : Option (List UInt8) :=
  (chunksOf ['d', 'a', 't', 'a'] cs).getLast?.map Chunk.body

/-- Every `fmt ` chunk is long enough. -/
def FormatsWhole (cs : List Chunk) : Prop :=
  ∀ c ∈ chunksOf ['f', 'm', 't', ' '] cs, 16 ≤ c.body.length

/-- A WAVE file: the header, then chunks, of which every `fmt ` chunk has its 16 bytes; the last of
them and the last `data` chunk count. -/
def IsWav (bytes : List UInt8) (fmt : WavFormat) (data : List UInt8) : Prop :=
  ∃ size rest cs, bytes = ascii ['R', 'I', 'F', 'F'] ++ size ++ ascii ['W', 'A', 'V', 'E'] ++ rest ∧
    size.length = 4 ∧ Chunks rest cs ∧ FormatsWhole cs ∧ lastFormat cs = some fmt ∧
    lastData cs = some data

theorem exists_wavFormat {body : List UInt8} (h : 16 ≤ body.length) :
    ∃ fmt, wavFormat body = some fmt :=
  ⟨_, if_neg (not_lt.2 h)⟩

theorem chunksOf_cons_of_eq {kind : List Char} {c : Chunk} (h : c.id = ascii kind)
    (cs : List Chunk) : chunksOf kind (c :: cs) = c :: chunksOf kind cs :=
  List.filter_cons_of_pos (by simpa using h)

theorem chunksOf_cons_of_ne {kind : List Char} {c : Chunk} (h : c.id ≠ ascii kind)
    (cs : List Chunk) : chunksOf kind (c :: cs) = chunksOf kind cs :=
  List.filter_cons_of_neg (by simpa using h)

/-- A `fmt ` chunk only counts when no other follows. -/
theorem lastFormat_cons {c : Chunk} (hc : c.id = ascii ['f', 'm', 't', ' ']) {fmt : WavFormat}
    (hfmt : wavFormat c.body = some fmt) {cs : List Chunk} (hcs : FormatsWhole cs)
    (fmt' : Option WavFormat) : (lastFormat (c :: cs)).or fmt' = (lastFormat cs).or (some fmt) := by
  unfold lastFormat
  rw [chunksOf_cons_of_eq hc, List.getLast?_cons]
  cases hlast : (chunksOf ['f', 'm', 't', ' '] cs).getLast? with
  | none => simp [hfmt]
  | some c' =>
    obtain ⟨fmt₁, hfmt₁⟩ := exists_wavFormat (hcs c' (List.mem_of_getLast? hlast))
    simp [hfmt₁]

theorem lastData_cons {c : Chunk} (hc : c.id = ascii ['d', 'a', 't', 'a']) (cs : List Chunk)
    (data : Option (List UInt8)) :
    (lastData (c :: cs)).or data = (lastData cs).or (some c.body) := by
  unfold lastData
  rw [chunksOf_cons_of_eq hc, List.getLast?_cons]
  cases (chunksOf ['d', 'a', 't', 'a'] cs).getLast? <;> simp

/-- What the chunks leave in the state of the loop. -/
theorem foldlM_wavChunk_eq_ok_iff {cs : List Chunk} {state state' : WavState} :
    cs.foldlM wavChunk state = .ok state' ↔ FormatsWhole cs ∧
      state' = ((lastFormat cs).or state.1, (lastData cs).or state.2) := by
  induction cs generalizing state with
  | nil => simp [FormatsWhole, lastFormat, lastData, chunksOf, pure, Except.pure, eq_comm]
  | cons c cs ih =>
    rw [List.foldlM_cons, bind_eq_ok_iff]
    by_cases hfmt : c.id = ascii ['f', 'm', 't', ' ']
    · have hdata : c.id ≠ ascii ['d', 'a', 't', 'a'] := by
        rw [hfmt]
        decide
      by_cases hsize : 16 ≤ c.body.length
      · obtain ⟨fmt, hread⟩ := exists_wavFormat hsize
        have hc : wavChunk state c = .ok (some fmt, state.2) := by
          rw [wavChunk, if_pos hfmt, hread]
        have hwhole : FormatsWhole (c :: cs) ↔ FormatsWhole cs := by
          simp [FormatsWhole, chunksOf_cons_of_eq hfmt, hsize]
        simp only [hc, Except.ok.injEq, exists_eq_left', ih, hwhole]
        refine and_congr_right fun hcs => ?_
        rw [lastFormat_cons hfmt hread hcs, lastData, lastData, chunksOf_cons_of_ne hdata]
      · have hc : ∃ e, wavChunk state c = .error e := by
          rw [wavChunk, if_pos hfmt, wavFormat, if_pos (not_le.1 hsize)]
          exact ⟨_, rfl⟩
        obtain ⟨e, hc⟩ := hc
        have hshort : ¬ FormatsWhole (c :: cs) := by
          simp [FormatsWhole, chunksOf_cons_of_eq hfmt, hsize]
        simp [hc, hshort]
    · have hwhole : FormatsWhole (c :: cs) ↔ FormatsWhole cs := by
        rw [FormatsWhole, chunksOf_cons_of_ne hfmt, FormatsWhole]
      have hformat : lastFormat (c :: cs) = lastFormat cs := by
        rw [lastFormat, chunksOf_cons_of_ne hfmt, lastFormat]
      by_cases hdata : c.id = ascii ['d', 'a', 't', 'a']
      · have hc : wavChunk state c = .ok (state.1, some c.body) := by
          rw [wavChunk, if_neg hfmt, if_pos hdata]
        simp only [hc, Except.ok.injEq, exists_eq_left', ih, hwhole, hformat, lastData_cons hdata]
      · have hc : wavChunk state c = .ok state := by
          rw [wavChunk, if_neg hfmt, if_neg hdata]
        have hlast : lastData (c :: cs) = lastData cs := by
          rw [lastData, chunksOf_cons_of_ne hdata, lastData]
        simp only [hc, Except.ok.injEq, exists_eq_left', ih, hwhole, hformat, hlast]

/-- What the loop of `parse_wav` ends with. -/
theorem scan_wavChunk_eq_ok_iff {truncated : List UInt8 → ℕ → ℕ → String} {off : ℕ}
    {rest : List UInt8} {fmt : Option WavFormat} {data : Option (List UInt8)} :
    scan truncated wavChunk off rest (none, none) = .ok (fmt, data) ↔
      ∃ cs, Chunks rest cs ∧ FormatsWhole cs ∧ lastFormat cs = fmt ∧ lastData cs = data := by
  rw [scan_eq_ok_iff]
  refine exists_congr fun cs => and_congr_right fun _ => ?_
  rw [foldlM_wavChunk_eq_ok_iff, Option.or_none, Option.or_none, Prod.mk.injEq]
  exact and_congr_right fun _ => and_congr eq_comm eq_comm

/-- The header of twelve bytes. -/
theorem header_iff {bytes rest : List UInt8} :
    (¬ (bytes.length < 12 ∨ bytes.take 4 ≠ ascii ['R', 'I', 'F', 'F'] ∨
      (bytes.drop 8).take 4 ≠ ascii ['W', 'A', 'V', 'E']) ∧ rest = bytes.drop 12) ↔
    ∃ size, bytes = ascii ['R', 'I', 'F', 'F'] ++ size ++ ascii ['W', 'A', 'V', 'E'] ++ rest ∧
      size.length = 4 := by
  constructor
  · rintro ⟨hheader, rfl⟩
    rw [not_or, not_or, not_not, not_not, not_lt] at hheader
    obtain ⟨hlength, hriff, hwave⟩ := hheader
    refine ⟨(bytes.drop 4).take 4, ?_, by simp; omega⟩
    have hdrop : ∀ k, bytes.drop k = (bytes.drop k).take 4 ++ bytes.drop (k + 4) := fun k => by
      rw [← List.drop_drop, List.take_append_drop]
    rw [← hriff, ← hwave, List.append_assoc, List.append_assoc, ← hdrop 8, ← hdrop 4,
      List.take_append_drop]
  · rintro ⟨size, rfl, hsize⟩
    have htag : ∀ a b c d, (ascii [a, b, c, d]).length = 4 := fun _ _ _ _ => rfl
    have hriff : (ascii ['R', 'I', 'F', 'F'] ++ size).length = 8 := by
      rw [List.length_append, htag, hsize]
    have hwave : (ascii ['R', 'I', 'F', 'F'] ++ size ++ ascii ['W', 'A', 'V', 'E']).length = 12 := by
      rw [List.length_append, htag, hriff]
    refine ⟨?_, (List.drop_left' hwave).symm⟩
    rw [not_or, not_or, not_not, not_not, not_lt, List.append_assoc, List.drop_left' hriff,
      List.take_left' (htag ..), List.append_assoc, List.take_left' (htag ..)]
    exact ⟨by simp [ascii, hsize]; omega, rfl, rfl⟩

/-- The parser accepts the WAVE files and reads their last format and their last data. -/
theorem parseWav_eq_ok_iff {debugId : List UInt8 → String} {bytes : List UInt8} {fmt : WavFormat}
    {data : List UInt8} : parseWav debugId bytes = .ok (fmt, data) ↔ IsWav bytes fmt data := by
  have hresult : ∀ r : Except String WavState,
      (match r with
        | .error e => (.error e : Except String (WavFormat × List UInt8))
        | .ok (none, _) => .error "WAV missing fmt chunk"
        | .ok (some _, none) => .error "WAV missing data chunk"
        | .ok (some fmt, some data) => .ok (fmt, data)) = .ok (fmt, data) ↔
      r = .ok (some fmt, some data) := by
    rintro (e | ⟨_ | f, _ | d⟩) <;> simp
  unfold parseWav IsWav
  split_ifs with hheader
  · refine iff_of_false (fun h => nomatch h) ?_
    rintro ⟨size, rest, cs, hbytes, hsize, -⟩
    exact (header_iff.2 ⟨size, hbytes, hsize⟩).1 hheader
  · dsimp only
    rw [hresult, scan_wavChunk_eq_ok_iff]
    constructor
    · rintro ⟨cs, hcs⟩
      obtain ⟨size, hbytes, hsize⟩ := header_iff.1 ⟨hheader, rfl⟩
      exact ⟨size, _, cs, hbytes, hsize, hcs⟩
    · rintro ⟨size, rest, cs, hbytes, hsize, hcs⟩
      obtain ⟨-, rfl⟩ := header_iff.2 ⟨size, hbytes, hsize⟩
      exact ⟨cs, hcs⟩

/-! ### The files of a fixture -/

/-- The stream of a fixture: of its WAVE file, if it has one, else of its Sun file, else the raw
bytes with the parameters of the test. -/
inductive HasStream (files : Fixture) (rawMeta : Option (CodecId × UInt16 × UInt32)) :
    G711Stream → Prop
  | wav {bytes : List UInt8} {fmt : WavFormat} {data : List UInt8} (law : Law)
      (file : files.inputWav = some bytes) (parses : IsWav bytes fmt data)
      (bits : fmt.bitsPerSample = 8) (tag : fmt.formatTag = law.waveFormat) :
      HasStream files rawMeta ⟨law.codecId, fmt.sampleRate, fmt.channels, data⟩
  | au {bytes : List UInt8} {stream : G711Stream} (noWav : files.inputWav = none)
      (file : files.inputAu = some bytes) (parses : parseAu bytes = .ok stream) :
      HasStream files rawMeta stream
  | raw {codecAlias : CodecId} {channels : UInt16} {sampleRate : UInt32} {bytes : List UInt8}
      (noWav : files.inputWav = none) (noAu : files.inputAu = none)
      (file : files.inputRaw = some bytes)
      (params : rawMeta = some (codecAlias, channels, sampleRate)) :
      HasStream files rawMeta ⟨codecAlias, sampleRate, channels, bytes⟩

/-- The samples that a fixture expects: the data of a 16-bit PCM file. -/
def HasExpected (files : Fixture) (pcm : List UInt8) : Prop :=
  ∃ bytes fmt, files.expected = some bytes ∧ IsWav bytes fmt pcm ∧ fmt.formatTag = 0x0001 ∧
    fmt.bitsPerSample = 16

/-- Raw bytes that the test gives no parameters for. -/
def RawWithoutParams (files : Fixture) (rawMeta : Option (CodecId × UInt16 × UInt32)) : Prop :=
  files.inputWav = none ∧ files.inputAu = none ∧ files.inputRaw.isSome ∧ rawMeta = none

section Load

variable {debugId : List UInt8 → String} {files : Fixture}
  {rawMeta : Option (CodecId × UInt16 × UInt32)}

theorem loadWav_eq_some_iff {bytes : List UInt8} {stream : G711Stream} :
    loadWav debugId bytes = some stream ↔ ∃ fmt data, ∃ law : Law, IsWav bytes fmt data ∧
      fmt.bitsPerSample = 8 ∧ fmt.formatTag = law.waveFormat ∧
      stream = ⟨law.codecId, fmt.sampleRate, fmt.channels, data⟩ := by
  have htags : Law.alaw.waveFormat ≠ Law.mulaw.waveFormat := by decide
  unfold loadWav
  constructor
  · intro h
    split at h
    · cases h
    · rename_i fmt data hparse
      split_ifs at h with hbits halaw hmulaw
      · cases h
        exact ⟨fmt, data, .alaw, parseWav_eq_ok_iff.1 hparse, not_not.1 hbits, halaw, rfl⟩
      · cases h
        exact ⟨fmt, data, .mulaw, parseWav_eq_ok_iff.1 hparse, not_not.1 hbits, hmulaw, rfl⟩
  · rintro ⟨fmt, data, law, hwav, hbits, htag, rfl⟩
    rw [parseWav_eq_ok_iff.2 hwav]
    dsimp only
    rw [if_neg (not_not_intro hbits)]
    cases law with
    | mulaw => exact (if_neg fun h => htags (h.symm.trans htag)).trans (if_pos htag)
    | alaw => exact if_pos htag

theorem loadInput_eq_some_iff {stream : G711Stream} :
    loadInput debugId files rawMeta = .ok (some stream) ↔ HasStream files rawMeta stream := by
  unfold loadInput
  constructor
  · intro h
    split at h
    · rename_i bytes hfile
      obtain ⟨fmt, data, law, hwav, hbits, htag, rfl⟩ := loadWav_eq_some_iff.1 (Except.ok.inj h)
      exact .wav law hfile hwav hbits htag
    · rename_i bytes hwav hfile
      cases hparse : parseAu bytes with
      | error e =>
        rw [hparse] at h
        cases h
      | ok au =>
        rw [hparse] at h
        cases h
        exact .au hwav hfile hparse
    · rename_i bytes hwav hau hfile
      split at h
      · cases h
      · cases h
        exact .raw hwav hau hfile rfl
    · cases h
  · rintro (⟨law, file, parses, bits, tag⟩ | ⟨noWav, file, parses⟩ | ⟨noWav, noAu, file, params⟩)
    · rw [file]
      exact congrArg Except.ok (loadWav_eq_some_iff.2 ⟨_, _, law, parses, bits, tag, rfl⟩)
    · rw [noWav, file]
      dsimp only
      rw [parses]
      rfl
    · rw [noWav, noAu, file, params]

theorem loadInput_eq_error_iff {stop : Stop} (h : loadInput debugId files rawMeta = .error stop) :
    RawWithoutParams files rawMeta ∧ stop ≠ .early := by
  unfold loadInput at h
  split at h
  · cases h
  · cases h
  · rename_i bytes hwav hau hfile
    split at h
    · cases h
      exact ⟨⟨hwav, hau, by rw [hfile]; rfl, rfl⟩, fun h => nomatch h⟩
    · cases h
  · cases h

theorem not_rawWithoutParams {found : Option G711Stream}
    (h : loadInput debugId files rawMeta = .ok found) : ¬ RawWithoutParams files rawMeta := by
  rintro ⟨hwav, hau, hraw, hmeta⟩
  obtain ⟨bytes, hfile⟩ := Option.isSome_iff_exists.1 hraw
  unfold loadInput at h
  rw [hwav, hau, hfile, hmeta] at h
  cases h

theorem loadExpectedPcm_iff {pcm : List UInt8} :
    (∃ expected, loadExpectedPcm debugId files = some expected ∧ expected.bytes = pcm) ↔
      HasExpected files pcm := by
  unfold loadExpectedPcm HasExpected
  constructor
  · rintro ⟨expected, h, rfl⟩
    split at h
    · cases h
    · rename_i bytes hfile
      split at h
      · cases h
      · rename_i fmt data hparse
        split_ifs at h with htag hbits
        cases h
        exact ⟨bytes, fmt, hfile, parseWav_eq_ok_iff.1 hparse, not_not.1 htag, not_not.1 hbits⟩
  · rintro ⟨bytes, fmt, hfile, hwav, htag, hbits⟩
    refine ⟨⟨fmt.sampleRate, fmt.channels, pcm⟩, ?_, rfl⟩
    rw [hfile]
    dsimp only
    rw [parseWav_eq_ok_iff.2 hwav]
    dsimp only
    rw [if_neg (not_not_intro htag), if_neg (not_not_intro hbits)]

end Load

/-! ### The verdict -/

section Decode

variable {K : OxideavCore} {R : CodecRegistry (DynDecoder Empty) (DynEncoder Empty)}

/-- The registry finds decoders for the names of the two laws. -/
theorem firstDecoder_eq_ok_iff {params : CodecParameters} {dec : DynDecoder Empty} :
    R.firstDecoder (registerCodecs K R R.new) params = .ok dec ↔
      ∃ law : Law, params.codecId ∈ law.aliases ∧
        ∃ d, law.makeDecoder params = .ok d ∧ dec = .inl d := by
  have hforeign : Foreign (D := Empty) (E := Empty) [.g711] := by
    intro info hinfo
    cases List.mem_singleton.1 hinfo
  have hspec := R.firstDecoder_spec (contextOf K R [.g711]).codecs
  have hlaw : ∀ law : Law, params.codecId ∈ law.aliases →
      (R.firstDecoder (registerCodecs K R R.new) params = .ok dec ↔
        .g711 ∈ [Registration.g711 (D := Empty) (E := Empty)] ∧
          ∃ d, law.makeDecoder params = .ok d ∧ dec = .inl d) := fun law hid =>
    first_iff K hspec (fun _ h => h.decoder_eq) hforeign hid
  constructor
  · intro h
    by_cases hid : ∃ law : Law, params.codecId ∈ law.aliases
    · obtain ⟨law, hid⟩ := hid
      exact ⟨law, hid, ((hlaw law hid).1 h).2⟩
    · obtain ⟨info, hinfo, -⟩ := foreign_of_first K hspec (not_exists.1 hid) h
      cases List.mem_singleton.1 hinfo
  · rintro ⟨law, hid, hdec⟩
    exact (hlaw law hid).2 ⟨List.mem_singleton.2 rfl, hdec⟩

theorem params_codecId (K : OxideavCore) (stream : G711Stream) :
    (stream.params K).codecId = stream.codecAlias := K.audioParams_codecId stream.codecAlias

theorem decodeWith_eq {law : Law} {stream : G711Stream} {d : BoxDecoder}
    (hd : d.Has law stream.channels) (hch : stream.channels ≠ 0) (hs : d.slot = .init) :
    decodeWith K stream d = if stream.channels.toNat ∣ stream.payload.length
      then .ok (law.decodePlane stream.payload)
      else .error (.err (law.lengthError stream.payload.length stream.channels.toNat)) := by
  unfold decodeWith
  simp only [sendPacket_of_init hs, receiveFrame_of_sent hd hch hs, Law.decodePacket,
    K.packetNew_data]
  split_ifs with hdvd
  · rw [Law.frameOf, K.packetNew_data]
    rfl
  · rfl

theorem decodeStream_eq_ok_iff {stream : G711Stream} {bytes : List UInt8} :
    decodeStream K R stream = .ok bytes ↔ ∃ law : Law, stream.codecAlias ∈ law.aliases ∧
      stream.channels ≠ 0 ∧ stream.channels.toNat ∣ stream.payload.length ∧
      bytes = law.decodePlane stream.payload := by
  unfold decodeStream
  rw [bind_eq_ok_iff]
  constructor
  · rintro ⟨dec, hdec, h⟩
    obtain ⟨law, hid, d, hmake, rfl⟩ := firstDecoder_eq_ok_iff.1 hdec
    obtain ⟨hd, hch, hs⟩ := Law.makeDecoder_spec hmake
    have hdecoded := decodeWith_eq (K := K) hd hch hs
    by_cases hdvd : stream.channels.toNat ∣ stream.payload.length
    · rw [if_pos hdvd] at hdecoded
      rw [params_codecId] at hid
      exact ⟨law, hid, hch, hdvd, Except.ok.inj (h.symm.trans hdecoded)⟩
    · rw [if_neg hdvd] at hdecoded
      cases h.symm.trans hdecoded
  · rintro ⟨law, hid, hch, hdvd, rfl⟩
    have hmake := law.makeDecoder_eq (stream.params K)
    rw [if_neg (show (stream.params K).channels.getD 1 ≠ 0 from hch)] at hmake
    obtain ⟨hd, -, hs⟩ := Law.makeDecoder_spec hmake
    rw [← params_codecId K stream] at hid
    refine ⟨_, firstDecoder_eq_ok_iff.2 ⟨law, hid, _, hmake, rfl⟩, ?_⟩
    exact (decodeWith_eq hd hch hs).trans (if_pos hdvd)

end Decode

/-! ### The comparison -/

/-- A channel counts its samples, and those that agree. -/
theorem foldl_add {ι : Type} (ours theirs : ι → Int16) (l : List ι) (entry : PerChannel) :
    (l.foldl (fun entry i => entry.add (ours i) (theirs i)) entry).n = entry.n + l.length ∧
      (l.foldl (fun entry i => entry.add (ours i) (theirs i)) entry).exact
        = entry.exact + l.countP fun i => ours i = theirs i := by
  induction l generalizing entry with
  | nil => exact ⟨rfl, rfl⟩
  | cons i l ih =>
    obtain ⟨hn, hexact⟩ := ih (entry.add (ours i) (theirs i))
    have hagree : ((ours i).toInt - (theirs i).toInt).natAbs = 0 ↔ ours i = theirs i := by
      rw [Int.natAbs_eq_zero, sub_eq_zero, Int16.toInt_inj]
    rw [List.foldl_cons, hn, hexact, List.countP_cons, List.length_cons]
    unfold PerChannel.add
    dsimp only
    by_cases h : ours i = theirs i
    · rw [if_pos (hagree.2 h), if_pos (by simpa using h)]
      omega
    · rw [if_neg fun hzero => h (hagree.1 hzero), if_neg (by simpa using h)]
      omega

/-- The two totals agree when every sample of every channel does. -/
theorem totals_eq_iff (ourS16 refS16 : List UInt8) {channels : UInt16} (hch : channels ≠ 0) :
    ((comparePerChannel ourS16 refS16 channels).map PerChannel.exact).sum
        = ((comparePerChannel ourS16 refS16 channels).map PerChannel.n).sum ↔
      ∀ c < channels.toNat,
        ∀ i < min ourS16.length refS16.length / (channels.toNat * 2),
          sampleAt ourS16 (i * (channels.toNat * 2) + c * 2)
            = sampleAt refS16 (i * (channels.toNat * 2) + c * 2) := by
  have hpos := channels_pos hch
  unfold comparePerChannel
  dsimp only
  rw [if_neg (by omega), foldl_mapIdx, mapIdx_replicate, List.map_map, List.map_map,
    sum_map_eq_sum_map_iff]
  · simp only [List.mem_range, Function.comp_apply, (foldl_add ..).1, (foldl_add ..).2, zero_add,
      List.countP_eq_length, decide_eq_true_eq]
  · intro c _
    simp only [Function.comp_apply, (foldl_add ..).1, (foldl_add ..).2, zero_add]
    exact List.countP_le_length

/-- The offsets of the comparison are those of all samples. -/
theorem forall_offset_iff {ch n : ℕ} (hch : 0 < ch) {P : ℕ → Prop} :
    (∀ c < ch, ∀ i < n, P (i * (ch * 2) + c * 2)) ↔ ∀ k < n * ch, P (2 * k) := by
  constructor
  · intro h k hk
    have hoffset := h (k % ch) (Nat.mod_lt k hch) (k / ch) (Nat.div_lt_of_lt_mul (by linarith))
    have hk := Nat.div_add_mod k ch
    rwa [show k / ch * (ch * 2) + k % ch * 2 = 2 * (ch * (k / ch) + k % ch) by ring, hk] at hoffset
  · intro h c hc i hi
    have hlt : i * ch + c < n * ch := by nlinarith
    rw [show i * (ch * 2) + c * 2 = 2 * (i * ch + c) by ring]
    exact h _ hlt

/-- Two planes of one length are equal when all their samples are. -/
theorem forall_sampleAt_iff {ourS16 refS16 : List UInt8} (hlength : ourS16.length = refS16.length)
    (heven : 2 ∣ ourS16.length) :
    (∀ k < ourS16.length / 2, sampleAt ourS16 (2 * k) = sampleAt refS16 (2 * k)) ↔
      refS16 = ourS16 := by
  constructor
  · intro h
    have hsamples : samples refS16 = samples ourS16 := by
      refine List.ext_getElem? fun k => ?_
      rw [getElem?_samples, getElem?_samples, ← hlength]
      split_ifs with hk
      · exact congrArg some (h k (by omega)).symm
      · rfl
    have hours := plane_samples heven
    have hrefs := plane_samples (hlength ▸ heven : 2 ∣ refS16.length)
    rw [← hrefs, hsamples, hours]
  · rintro rfl k -
    rfl

/-- The verdict is about the bytes. -/
theorem judge_bitExact_iff {ourS16 refS16 : List UInt8} {channels : UInt16} (hch : channels ≠ 0)
    (hdvd : 2 * channels.toNat ∣ ourS16.length) :
    judge .bitExact ourS16 refS16 channels = .ok () ↔ refS16 = ourS16 := by
  have hpos := channels_pos hch
  by_cases hlength : ourS16.length = refS16.length
  · obtain ⟨n, hn⟩ := hdvd
    have hcount : min ourS16.length refS16.length / (channels.toNat * 2) = n := by
      rw [← hlength, min_self, hn, Nat.mul_comm 2, Nat.mul_div_cancel_left _ (by omega)]
    have hsamples : n * channels.toNat = ourS16.length / 2 := by
      rw [hn, Nat.mul_assoc, Nat.mul_div_cancel_left _ (by decide), Nat.mul_comm]
    have htotals := totals_eq_iff ourS16 refS16 hch
    rw [hcount, forall_offset_iff hpos (P := fun off => sampleAt ourS16 off = sampleAt refS16 off),
      hsamples, forall_sampleAt_iff hlength (hn ▸ Nat.mul_assoc .. ▸ Nat.dvd_mul_right ..)] at htotals
    rw [← htotals]
    unfold judge
    dsimp only
    rw [assertTrue_ok hlength, ok_bind]
    unfold assertEq
    split_ifs with htotal
    · exact iff_of_true rfl htotal
    · exact iff_of_false (fun h => nomatch h) htotal
  · refine iff_of_false ?_ fun h => hlength (by rw [h])
    unfold judge
    dsimp only
    rw [assertTrue, if_neg (by simpa using hlength)]
    exact fun h => nomatch h

theorem judge_ne_early (ourS16 refS16 : List UInt8) (channels : UInt16) :
    judge .bitExact ourS16 refS16 channels ≠ .error .early := by
  unfold judge assertTrue assertEq
  dsimp only
  split
  · rw [ok_bind]
    split_ifs <;> exact fun h => nomatch h
  · exact fun h => nomatch h

/-- A stream that the decoder found for it decodes to `pcm`. -/
def DecodesTo (stream : G711Stream) (pcm : List UInt8) : Prop :=
  ∃ law : Law, stream.codecAlias ∈ law.aliases ∧ stream.channels ≠ 0 ∧
    stream.channels.toNat ∣ stream.payload.length ∧ pcm = law.decodePlane stream.payload

section Verdict

variable {K : OxideavCore} {R : CodecRegistry (DynDecoder Empty) (DynEncoder Empty)}
  {debugId : List UInt8 → String} {files : Fixture}
  {rawMeta : Option (CodecId × UInt16 × UInt32)} {stream : G711Stream} {expected : PcmS16}

theorem evaluate_of_error {tier : Tier} {stop : Stop}
    (hload : loadInput debugId files rawMeta = .error stop) :
    evaluate K R debugId tier files rawMeta = .error stop := by
  unfold evaluate
  rw [hload]
  rfl

theorem evaluate_of_no_stream {tier : Tier} (hload : loadInput debugId files rawMeta = .ok none) :
    evaluate K R debugId tier files rawMeta = .error .early := by
  unfold evaluate
  rw [hload]
  rfl

theorem evaluate_of_no_expected {tier : Tier}
    (hload : loadInput debugId files rawMeta = .ok (some stream))
    (hexpected : loadExpectedPcm debugId files = none) :
    evaluate K R debugId tier files rawMeta = .error .early := by
  unfold evaluate
  rw [hload, ok_bind]
  dsimp only
  rw [hexpected]
  rfl

/-- With both files there the test passes or panics. -/
theorem evaluate_of_loaded (hload : loadInput debugId files rawMeta = .ok (some stream))
    (hexpected : loadExpectedPcm debugId files = some expected) :
    (evaluate K R debugId .bitExact files rawMeta = .ok () ↔ DecodesTo stream expected.bytes) ∧
      evaluate K R debugId .bitExact files rawMeta ≠ .error .early := by
  unfold evaluate
  rw [hload, ok_bind]
  dsimp only
  rw [hexpected]
  cases hdecoded : decodeStream K R stream with
  | ok ourS16 =>
    obtain ⟨law, hid, hch, hdvd, rfl⟩ := decodeStream_eq_ok_iff.1 hdecoded
    have hwhole : 2 * stream.channels.toNat ∣ (law.decodePlane stream.payload).length := by
      rw [law.length_decodePlane]
      exact Nat.mul_dvd_mul_left 2 hdvd
    refine ⟨(judge_bitExact_iff hch hwhole).trans ⟨fun h => ⟨law, hid, hch, hdvd, h⟩, ?_⟩,
      judge_ne_early _ _ _⟩
    rintro ⟨law', hid', -, -, h⟩
    rwa [Law.eq_of_mem_aliases hid hid']
  | error fault =>
    have hnone : ¬ DecodesTo stream expected.bytes := by
      rintro ⟨law, hid, hch, hdvd, -⟩
      have hok := (decodeStream_eq_ok_iff (K := K) (R := R)).2 ⟨law, hid, hch, hdvd, rfl⟩
      cases hdecoded.symm.trans hok
    cases fault with
    | err e => exact ⟨iff_of_false (fun h => nomatch h) hnone, fun h => nomatch h⟩
    | panic msg => exact ⟨iff_of_false (fun h => nomatch h) hnone, fun h => nomatch h⟩

theorem evaluate_bitExact_eq_ok_iff :
    evaluate K R debugId .bitExact files rawMeta = .ok () ↔
      ∃ stream expected, loadInput debugId files rawMeta = .ok (some stream) ∧
        loadExpectedPcm debugId files = some expected ∧ DecodesTo stream expected.bytes := by
  constructor
  · intro h
    cases hload : loadInput debugId files rawMeta with
    | error stop => cases (evaluate_of_error hload).symm.trans h
    | ok found =>
      cases found with
      | none => cases (evaluate_of_no_stream hload).symm.trans h
      | some stream =>
        cases hexpected : loadExpectedPcm debugId files with
        | none => cases (evaluate_of_no_expected hload hexpected).symm.trans h
        | some expected =>
          exact ⟨stream, expected, rfl, rfl, (evaluate_of_loaded hload hexpected).1.1 h⟩
  · rintro ⟨stream, expected, hload, hexpected, h⟩
    exact (evaluate_of_loaded hload hexpected).1.2 h

theorem evaluate_bitExact_eq_early_iff :
    evaluate K R debugId .bitExact files rawMeta = .error .early ↔
      ∃ found, loadInput debugId files rawMeta = .ok found ∧
        (found = none ∨ loadExpectedPcm debugId files = none) := by
  constructor
  · intro h
    cases hload : loadInput debugId files rawMeta with
    | error stop =>
      exact absurd (Except.error.inj ((evaluate_of_error hload).symm.trans h))
        (loadInput_eq_error_iff hload).2
    | ok found =>
      refine ⟨found, rfl, ?_⟩
      cases found with
      | none => exact .inl rfl
      | some stream =>
        cases hexpected : loadExpectedPcm debugId files with
        | none => exact .inr rfl
        | some expected => exact absurd h (evaluate_of_loaded hload hexpected).2
  · rintro ⟨found, hload, h⟩
    cases found with
    | none => exact evaluate_of_no_stream hload
    | some stream => exact evaluate_of_no_expected hload (h.resolve_left (Option.some_ne_none _))

/-- There is a stream or there is none, unless the raw bytes lack parameters. -/
theorem exists_loaded_iff :
    (∃ found, loadInput debugId files rawMeta = .ok found) ↔ ¬ RawWithoutParams files rawMeta := by
  constructor
  · rintro ⟨found, hload⟩
    exact not_rawWithoutParams hload
  · intro h
    cases hload : loadInput debugId files rawMeta with
    | error stop => exact absurd (loadInput_eq_error_iff hload).1 h
    | ok found => exact ⟨found, rfl⟩

end Verdict

/-- **The bit-exact test**, on all files: it passes exactly when the expected file holds, byte by
byte, what the stream decodes to, and it is skipped exactly when there is no stream or no expected
file, and no raw bytes without parameters. -/
theorem bit_exact_iff (K : OxideavCore)
    (R : CodecRegistry (DynDecoder Empty) (DynEncoder Empty)) (debugId : List UInt8 → String)
    (files : Fixture) (rawMeta : Option (CodecId × UInt16 × UInt32)) :
    (evaluate K R debugId .bitExact files rawMeta = .ok () ↔
      ∃ stream pcm, HasStream files rawMeta stream ∧ HasExpected files pcm ∧
        DecodesTo stream pcm) ∧
    (evaluate K R debugId .bitExact files rawMeta = .error .early ↔
      ¬ RawWithoutParams files rawMeta ∧
        ((¬ ∃ stream, HasStream files rawMeta stream) ∨ ¬ ∃ pcm, HasExpected files pcm)) := by
  constructor
  · rw [evaluate_bitExact_eq_ok_iff]
    constructor
    · rintro ⟨stream, expected, hload, hexpected, h⟩
      exact ⟨stream, _, loadInput_eq_some_iff.1 hload,
        loadExpectedPcm_iff.1 ⟨expected, hexpected, rfl⟩, h⟩
    · rintro ⟨stream, pcm, hstream, hpcm, h⟩
      obtain ⟨expected, hexpected, rfl⟩ := loadExpectedPcm_iff.2 hpcm
      exact ⟨stream, expected, loadInput_eq_some_iff.2 hstream, hexpected, h⟩
  · rw [evaluate_bitExact_eq_early_iff, ← exists_loaded_iff]
    constructor
    · rintro ⟨found, hload, rfl | hnone⟩
      · refine ⟨⟨none, hload⟩, .inl ?_⟩
        rintro ⟨stream, hstream⟩
        cases hload.symm.trans (loadInput_eq_some_iff.2 hstream)
      · refine ⟨⟨found, hload⟩, .inr ?_⟩
        rintro ⟨pcm, hpcm⟩
        obtain ⟨expected, hexpected, -⟩ := loadExpectedPcm_iff.2 hpcm
        cases hnone.symm.trans hexpected
    · rintro ⟨⟨found, hload⟩, h⟩
      refine ⟨found, hload, h.imp (fun hstream => ?_) fun hpcm => ?_⟩
      · cases found with
        | none => rfl
        | some stream => exact absurd ⟨stream, loadInput_eq_some_iff.1 hload⟩ hstream
      · cases hexpected : loadExpectedPcm debugId files with
        | none => rfl
        | some expected => exact absurd ⟨_, loadExpectedPcm_iff.1 ⟨expected, hexpected, rfl⟩⟩ hpcm

end Corpus
end G711
