import G711.Codewords
import G711.DecoderRuns
import G711.EncoderRuns

/-!
# Framing independence

An interleaved PCM stream may be cut into `send_frame` calls anywhere between whole samples, and
the wire bytes may be cut into packets anywhere between whole samples again.  `sentPlanes` are the
pieces of the first cut, `wireBytes` what an encoder makes of them.  `framing_independence` says
that neither cut, nor the order of the calls, shows in the bytes or in the PCM.
-/

namespace G711

open Slices

variable {K : OxideavCore} {law : Law} {tb : TimeBase} {out : CodecParameters} {ch : UInt16}

/-- The plane that an encoder reads of a frame. -/
def Frame.firstPlane : Frame → Option (List UInt8)
  | .audio a => a.data.head?
  | .nonAudio => none

/-- The first planes of the frames that are sent, in order. -/
def sentPlanes (ops : List EncoderOp) : List (List UInt8) :=
  ops.filterMap fun
    | .sendFrame f => f.firstPlane
    | _ => none

/-- The bytes that an encoder has returned, over all packets. -/
def wireBytes (K : OxideavCore) (e : BoxEncoder) (ops : List EncoderOp) : List UInt8 :=
  ((returnedPackets K e ops).map Packet.data).flatten

/-- The calls `ops` send the PCM stream `pcm` in frames of whole `ch`-channel samples, and drain
the encoder. -/
structure CutsPcm (K : OxideavCore) (ch : UInt16) (pcm : List UInt8) (e : BoxEncoder)
    (ops : List EncoderOp) : Prop where
  flatten_eq : (sentPlanes ops).flatten = pcm
  whole : ∀ bytes ∈ sentPlanes ops, 2 * ch.toNat ∣ bytes.length
  drained : (returnedPackets K e ops).length = (acceptedFrames K e ops).length

/-- The calls `ops` get the stream `wire` accepted in packets of whole `ch`-channel samples, and
drain the decoder. -/
structure CutsWire (ch : UInt16) (wire : List UInt8) (d : BoxDecoder) (ops : List DecoderOp) :
    Prop where
  flatten_eq : ((acceptedPackets d ops).map Packet.data).flatten = wire
  whole : ∀ p ∈ acceptedPackets d ops, ch.toNat ∣ p.data.length
  drained : (replies d ops).length = (acceptedPackets d ops).length

/-! ### Planes of streams -/

theorem Law.encodePlane_flatten {pieces : List (List UInt8)} (h : ∀ b ∈ pieces, 2 ∣ b.length) :
    (pieces.map law.encodePlane).flatten = law.encodePlane pieces.flatten := by
  unfold Law.encodePlane
  rw [samples_flatten h, List.map_flatten, List.map_map]
  rfl

theorem Law.decodePlane_flatten (pieces : List (List UInt8)) :
    (pieces.map law.decodePlane).flatten = law.decodePlane pieces.flatten := by
  unfold Law.decodePlane
  rw [List.map_flatten, plane_flatten, List.map_map]
  rfl

/-! ### The encoder side -/

theorem firstPlane_eq_of_admitFrame {f : Frame} {p : Packet} (h : law.admitFrame K tb f = .ok p) :
    ∃ bytes, f.firstPlane = some bytes ∧ p.data = law.encodePlane bytes := by
  obtain ⟨a, bytes, rest, rfl, hdata, -, rfl⟩ := admitFrame_eq_ok h
  exact ⟨bytes, by rw [Frame.firstPlane, hdata, List.head?_cons], Law.packetOf_data ..⟩

/-- A refused frame with a first plane has an odd one. -/
theorem odd_of_admitFrame_error {f : Frame} {err : Error} {bytes : List UInt8}
    (h : law.admitFrame K tb f = .error err) (hf : f.firstPlane = some bytes) :
    ¬ 2 ∣ bytes.length := by
  intro heven
  have hsend : Sendable f := by
    cases f with
    | nonAudio => cases hf
    | audio a =>
      obtain ⟨rest, hrest⟩ := List.head?_eq_some_iff.1 hf
      exact ⟨bytes, rest, hrest, heven⟩
  obtain ⟨p, hp⟩ := (admitFrame_ok_iff K law tb f).2 hsend
  rw [h] at hp
  cases hp

/-- If all pieces are of even length, the accepted ones are all. -/
theorem firstPlane_acceptedFrames {e : BoxEncoder} {ops : List EncoderOp}
    (h : ∀ bytes ∈ sentPlanes ops, 2 ∣ bytes.length) :
    (acceptedFrames K e ops).filterMap Frame.firstPlane = sentPlanes ops := by
  induction ops generalizing e with
  | nil => rfl
  | cons op ops ih =>
    have htail := @ih ((encoderMachine K).next e op) fun bytes hb => h bytes (by
      simp only [sentPlanes, List.filterMap_cons]
      split
      · exact hb
      · exact List.mem_cons_of_mem _ hb)
    simp only [acceptedFrames, sentPlanes, Mealy.trace_cons, List.filterMap_cons] at htail ⊢
    cases op with
    | sendFrame f =>
      -- a refused frame has no first plane to contribute, since its length would be even
      rw [answer_sendFrame]
      cases hf : e.law.admitFrame K e.timeBase f with
      | ok p =>
        obtain ⟨bytes, hbytes, -⟩ := firstPlane_eq_of_admitFrame hf
        simp only [acceptedFrame, List.filterMap_cons, hbytes, htail]
      | error err =>
        cases hbytes : f.firstPlane with
        | none => simpa only [acceptedFrame, hbytes] using htail
        | some bytes =>
          exact absurd (h bytes (by simp [sentPlanes, hbytes])) (odd_of_admitFrame_error hf hbytes)
    | receivePacket =>
      cases (encoderMachine K).answer e .receivePacket <;> exact htail
    | flush =>
      cases (encoderMachine K).answer e .flush <;> exact htail

theorem data_of_admitted {fs : List Frame} {ps : List Packet}
    (h : List.Forall₂ (fun f p => law.admitFrame K tb f = .ok p) fs ps) :
    ps.map Packet.data = (fs.filterMap Frame.firstPlane).map law.encodePlane := by
  induction h with
  | nil => rfl
  | cons hfp _ ih =>
    obtain ⟨bytes, hbytes, hdata⟩ := firstPlane_eq_of_admitFrame hfp
    rw [List.map_cons, ih, hdata, List.filterMap_cons, hbytes]
    rfl

/-- However the stream is cut, the encoder returns the bytes of the whole stream. -/
theorem wireBytes_eq {e : BoxEncoder} (he : e.Has law tb out) (hq : e.queue = [])
    {ops : List EncoderOp} {pcm : List UInt8} (h : CutsPcm K ch pcm e ops) :
    wireBytes K e ops = law.encodePlane pcm := by
  have heven : ∀ bytes ∈ sentPlanes ops, 2 ∣ bytes.length := fun bytes hb =>
    (Nat.dvd_mul_right _ _).trans (h.whole bytes hb)
  have hhist := encoder_history (K := K) he hq ops
  rw [(queue_eq_nil_iff he hq ops).2 h.drained, List.append_nil] at hhist
  unfold wireBytes
  rw [data_of_admitted hhist, firstPlane_acceptedFrames heven,
    Law.encodePlane_flatten heven, h.flatten_eq]

/-! ### The decoder side -/

/-- The frames of a drained decoder that accepted only whole packets. -/
theorem replies_eq_of_cuts {d : BoxDecoder} (hd : d.Has law ch) (hch : ch ≠ 0)
    (hs : d.slot = .init) {ops : List DecoderOp} {wire : List UInt8} (h : CutsWire ch wire d ops) :
    replies d ops = (acceptedPackets d ops).map fun p => .ok (law.frameOf ch p) := by
  obtain ⟨taken, hacc, hrep⟩ := decoder_history hd hch hs ops
  rw [(pending_eq_none_iff hd hch hs ops).2 h.drained, Option.toList_none, List.append_nil] at hacc
  rw [hrep, ← hacc]
  exact List.map_congr_left fun p hp => if_pos (h.whole p hp)

theorem sum_map_div {c : ℕ} {l : List ℕ} (h : ∀ n ∈ l, c ∣ n) :
    (l.map (· / c)).sum = l.sum / c := by
  induction l with
  | nil => simp
  | cons n l ih =>
    rw [List.map_cons, List.sum_cons, List.sum_cons, ih fun m hm => h m (by simp [hm]),
      Nat.add_div_of_dvd_right (h n (by simp))]

/-! ### Both cuts -/

/-- What a decoder that got the wire bytes of `pcm` in whole packets has given in `ops`. -/
structure DecodesTo (law : Law) (ch : UInt16) (pcm : List UInt8) (d : BoxDecoder)
    (ops : List DecoderOp) (frames : List AudioFrame) : Prop where
  replies_eq : replies d ops = frames.map fun a => .ok (.audio a)
  planes_eq : (frames.flatMap AudioFrame.data).flatten
    = plane ((samples pcm).map fun s => law.decodeSample (law.encodeSample s))
  samples_sum : (∀ p ∈ acceptedPackets d ops, p.data.length / ch.toNat < 2 ^ 32) →
    (frames.map fun a => a.samples.toNat).sum = pcm.length / (2 * ch.toNat)

theorem decodesTo_of_cuts {d : BoxDecoder} (hd : d.Has law ch) (hch : ch ≠ 0)
    (hs : d.slot = .init) {ops : List DecoderOp} {pcm : List UInt8}
    (h : CutsWire ch (law.encodePlane pcm) d ops) :
    ∃ frames, DecodesTo law ch pcm d ops frames := by
  refine ⟨(acceptedPackets d ops).map fun p =>
    ⟨UInt32.ofNat (p.data.length / ch.toNat), p.pts, [law.decodePlane p.data]⟩, ?_, ?_, ?_⟩
  · rw [replies_eq_of_cuts hd hch hs h, List.map_map]
    rfl
  · have hplanes : ((acceptedPackets d ops).map fun p => (⟨UInt32.ofNat (p.data.length / ch.toNat),
          p.pts, [law.decodePlane p.data]⟩ : AudioFrame)).flatMap AudioFrame.data
        = ((acceptedPackets d ops).map Packet.data).map law.decodePlane := by
      rw [List.flatMap_map, List.map_map, List.map_eq_flatMap]
      rfl
    rw [hplanes, Law.decodePlane_flatten, h.flatten_eq, Law.decodePlane_encodePlane]
  · intro hlt
    have hcount : (acceptedPackets d ops).map
          (fun p => (UInt32.ofNat (p.data.length / ch.toNat)).toNat)
        = ((acceptedPackets d ops).map fun p => p.data.length).map (· / ch.toNat) := by
      rw [List.map_map]
      exact List.map_congr_left fun p hp => UInt32.toNat_ofNat_of_lt' (hlt p hp)
    have hlen : ((acceptedPackets d ops).map fun p => p.data.length).sum = pcm.length / 2 := by
      rw [← Law.length_encodePlane law pcm, ← h.flatten_eq, List.length_flatten, List.map_map]
      rfl
    rw [List.map_map]
    refine (congrArg List.sum hcount).trans ?_
    rw [sum_map_div (by simpa using h.whole), hlen, Nat.div_div_eq_div_mul]

/-! ### Runs that drain -/

/-- The queue is emptied by as many calls as it holds packets, which sends nothing more. -/
theorem cutsPcm_of_sent {e : BoxEncoder} (he : e.Has law tb out) (hq : e.queue = [])
    {ops : List EncoderOp} {pcm : List UInt8} (hflatten : (sentPlanes ops).flatten = pcm)
    (hwhole : ∀ bytes ∈ sentPlanes ops, 2 * ch.toNat ∣ bytes.length) :
    ∃ n, CutsPcm K ch pcm e (ops ++ List.replicate n .receivePacket) := by
  let n := ((encoderMachine K).final e ops).queue.length
  have hsent : sentPlanes (ops ++ List.replicate n .receivePacket) = sentPlanes ops := by
    unfold sentPlanes
    rw [List.filterMap_append, List.append_right_eq_self, List.filterMap_eq_nil_iff]
    intro op hop
    rw [List.eq_of_mem_replicate hop]
  refine ⟨n, ⟨by rwa [hsent], by rwa [hsent], ?_⟩⟩
  refine (queue_eq_nil_iff he hq _).1 ?_
  rw [Mealy.final_append, queue_final (encoder_has_final he ops), List.map_replicate]
  exact AdmittingQueue.final_pops _ _

/-- A packet after the other, each with its reply. -/
def exchanges (packets : List Packet) : List DecoderOp :=
  packets.flatMap fun p => [.sendPacket p, .receiveFrame]

/-- Exchanges get every packet accepted and leave none pending, with flushes anywhere between. -/
theorem exchanges_accepted {d : BoxDecoder} (hd : d.Has law ch) (hch : ch ≠ 0)
    (hs : d.slot = .init) {packets : List Packet} {calls : List DecoderOp}
    (h : calls.filter (· ≠ .flush) = exchanges packets) :
    acceptedPackets d calls = packets ∧ (decoderMachine.final d calls).pending = none := by
  have hcalls : (calls.map DecoderOp.toSlot).filter (!·.isClose)
      = packets.flatMap fun p => [.put p, .take] := by
    have hkept : (!·.isClose) ∘ DecoderOp.toSlot = fun op => decide (op ≠ .flush) := by
      funext op
      cases op <;> rfl
    rw [List.filter_map, hkept, h, exchanges, List.map_flatMap]
    rfl
  obtain ⟨hputs, hheld⟩ := Slot.erase_closes (s := d.slot) rfl (calls.map DecoderOp.toSlot)
  obtain ⟨haccepted, hnone⟩ := Slot.exchanges d.slot (by rw [hs]; rfl) packets
  rw [hcalls] at hputs hheld
  rw [acceptedPackets_eq hd hch, BoxDecoder.pending, slot_final hd hch, ← hputs, ← hheld]
  exact ⟨haccepted, hnone⟩

/-- One more `receive_frame` drains a decoder, whatever was called before. -/
theorem cutsWire_of_accepted {d : BoxDecoder} (hd : d.Has law ch) (hch : ch ≠ 0)
    (hs : d.slot = .init) {calls : List DecoderOp} {wire : List UInt8}
    (hflatten : ((acceptedPackets d calls).map Packet.data).flatten = wire)
    (hwhole : ∀ p ∈ acceptedPackets d calls, ch.toNat ∣ p.data.length) :
    CutsWire ch wire d (calls ++ [.receiveFrame]) := by
  have haccepted : acceptedPackets d (calls ++ [.receiveFrame]) = acceptedPackets d calls := by
    unfold acceptedPackets
    rw [Mealy.trace_append, List.filterMap_append]
    exact List.append_nil _
  refine ⟨by rwa [haccepted], by rwa [haccepted], (pending_eq_none_iff hd hch hs _).1 ?_⟩
  rw [BoxDecoder.pending, slot_final_receive]

/-! ### Framing independence -/

/-- What cutting the PCM stream `pcm` for the encoder `e`, and its wire bytes for the decoder `d`,
comes to. -/
structure FramingIndependence (K : OxideavCore) (law : Law) (ch : UInt16) (pcm : List UInt8)
    (e : BoxEncoder) (d : BoxDecoder) : Prop where
  /-- Whatever the calls that send the stream in pieces of whole samples, receives drain the
  encoder. -/
  encoder_drains : ∀ ops, (sentPlanes ops).flatten = pcm →
    (∀ bytes ∈ sentPlanes ops, 2 * ch.toNat ∣ bytes.length) →
    ∃ n, CutsPcm K ch pcm e (ops ++ List.replicate n .receivePacket)
  /-- Whatever the pieces and the order of the calls, the encoder returns the same bytes. -/
  one_wire : ∀ ops ops', CutsPcm K ch pcm e ops → CutsPcm K ch pcm e ops' →
    wireBytes K e ops = wireBytes K e ops'
  /-- Whatever packets of whole samples these bytes are cut into, and wherever flushes are called,
  sending the packets and receiving after each drains the decoder. -/
  decoder_drains : ∀ ops, CutsPcm K ch pcm e ops →
    ∀ packets, (packets.map Packet.data).flatten = wireBytes K e ops →
      (∀ p ∈ packets, ch.toNat ∣ p.data.length) →
      ∀ calls, calls.filter (· ≠ .flush) = exchanges packets →
        acceptedPackets d calls = packets ∧ CutsWire ch (wireBytes K e ops) d calls
  /-- So does one more receive after any calls that got such packets accepted. -/
  decoder_completes : ∀ ops, CutsPcm K ch pcm e ops →
    ∀ calls, ((acceptedPackets d calls).map Packet.data).flatten = wireBytes K e ops →
      (∀ p ∈ acceptedPackets d calls, ch.toNat ∣ p.data.length) →
      CutsWire ch (wireBytes K e ops) d (calls ++ [.receiveFrame])
  /-- A drained decoder has given the quantised stream and counted all its samples. -/
  decodes : ∀ ops, CutsPcm K ch pcm e ops →
    ∀ calls, CutsWire ch (wireBytes K e ops) d calls → ∃ frames, DecodesTo law ch pcm d calls frames

/-- **Framing independence**: whatever the pieces in which an encoder gets a PCM stream, it returns
the same bytes, and a decoder that gets these bytes in any packets of whole samples gives the
quantised stream and counts all its samples. -/
theorem framing_independence {params : CodecParameters} {e : BoxEncoder} {d : BoxDecoder}
    (he : law.makeEncoder K params = .ok e) (hd : law.makeDecoder params = .ok d)
    (pcm : List UInt8) : FramingIndependence K law (params.channels.getD 1) pcm e d := by
  obtain ⟨hhas, hch, -, hq⟩ := Law.makeEncoder_spec he
  obtain ⟨hdhas, -, hslot⟩ := Law.makeDecoder_spec hd
  constructor
  case encoder_drains => exact fun ops hflatten hwhole => cutsPcm_of_sent hhas hq hflatten hwhole
  case one_wire =>
    intro ops ops' h h'
    rw [wireBytes_eq hhas hq h, wireBytes_eq hhas hq h']
  case decoder_drains =>
    intro ops _ packets hflatten hwhole calls hcalls
    obtain ⟨haccepted, hpending⟩ := exchanges_accepted hdhas hch hslot hcalls
    refine ⟨haccepted, by rwa [haccepted], by rwa [haccepted], ?_⟩
    exact (pending_eq_none_iff hdhas hch hslot calls).1 hpending
  case decoder_completes =>
    exact fun ops _ calls hflatten hwhole => cutsWire_of_accepted hdhas hch hslot hflatten hwhole
  case decodes =>
    intro ops h calls hcalls
    rw [wireBytes_eq hhas hq h] at hcalls
    exact decodesTo_of_cuts hdhas hch hslot hcalls

/-- A packet with the given data, for concrete runs. -/
def plainPacket (data : List UInt8) : Packet := OxideavCore.plain.packetNew 0 ⟨1, 8000⟩ data

/-- Three stereo samples in one frame, or in three of which one is empty; and their octets in two
packets cut elsewhere, with an empty one and flushes in between. -/
theorem framing_independence_stereo :
    wireBytes .plain (.ulaw ⟨outputOf stereo, ⟨1, 8000⟩, []⟩)
        [.sendFrame (.audio ⟨3, none, [[0, 0, 1, 0, 2, 0, 3, 0, 4, 0, 5, 0]]⟩), .receivePacket]
      = wireBytes .plain (.ulaw ⟨outputOf stereo, ⟨1, 8000⟩, []⟩)
        [.sendFrame (.audio ⟨1, none, [[0, 0, 1, 0]]⟩), .flush, .receivePacket,
          .sendFrame (.audio ⟨0, none, [[]]⟩),
          .sendFrame (.audio ⟨2, none, [[2, 0, 3, 0, 4, 0, 5, 0]]⟩), .receivePacket,
          .receivePacket] ∧
      acceptedPackets (.ulaw ⟨"g711", 2, none, false⟩)
        [.sendPacket (plainPacket [0xFF, 0xFF, 0xFF, 0xFF]), .flush, .receiveFrame,
          .sendPacket (plainPacket []), .receiveFrame, .flush,
          .sendPacket (plainPacket [0xFE, 0xFE]), .receiveFrame]
        = [plainPacket [0xFF, 0xFF, 0xFF, 0xFF], plainPacket [], plainPacket [0xFE, 0xFE]] ∧
      ∃ frames, DecodesTo .mulaw 2 [0, 0, 1, 0, 2, 0, 3, 0, 4, 0, 5, 0]
        (.ulaw ⟨"g711", 2, none, false⟩)
        [.sendPacket (plainPacket [0xFF, 0xFF, 0xFF, 0xFF]), .flush, .receiveFrame,
          .sendPacket (plainPacket []), .receiveFrame, .flush,
          .sendPacket (plainPacket [0xFE, 0xFE]), .receiveFrame] frames := by
  have hhas : BoxEncoder.Has (.ulaw ⟨outputOf stereo, ⟨1, 8000⟩, []⟩) .mulaw ⟨1, 8000⟩
      (outputOf stereo) := ⟨rfl, rfl, rfl⟩
  have hlaw := @framing_independence .plain .mulaw stereo (.ulaw ⟨outputOf stereo, ⟨1, 8000⟩, []⟩)
    (.ulaw ⟨"g711", 2, none, false⟩) rfl rfl [0, 0, 1, 0, 2, 0, 3, 0, 4, 0, 5, 0]
  have hcut : CutsPcm .plain 2 [0, 0, 1, 0, 2, 0, 3, 0, 4, 0, 5, 0]
      (.ulaw ⟨outputOf stereo, ⟨1, 8000⟩, []⟩)
      [.sendFrame (.audio ⟨3, none, [[0, 0, 1, 0, 2, 0, 3, 0, 4, 0, 5, 0]]⟩), .receivePacket] := by
    refine ⟨rfl, by decide, (queue_eq_nil_iff hhas rfl _).1 ?_⟩
    rw [queue_final hhas]
    rfl
  have hwire := wireBytes_eq hhas rfl hcut
  obtain ⟨haccepted, hcalls⟩ := hlaw.decoder_drains _ hcut
    [plainPacket [0xFF, 0xFF, 0xFF, 0xFF], plainPacket [], plainPacket [0xFE, 0xFE]]
    (hwire ▸ by decide) (by decide)
    [.sendPacket (plainPacket [0xFF, 0xFF, 0xFF, 0xFF]), .flush, .receiveFrame,
      .sendPacket (plainPacket []), .receiveFrame, .flush,
      .sendPacket (plainPacket [0xFE, 0xFE]), .receiveFrame] (by decide)
  refine ⟨hlaw.one_wire _ _ hcut ⟨rfl, by decide, ?_⟩, haccepted, hlaw.decodes _ hcut _ hcalls⟩
  refine (queue_eq_nil_iff hhas rfl _).1 ?_
  rw [queue_final hhas]
  rfl

end G711
