import G711.Pipeline

/-!
# Headers at the limits of their widths

Two headers are computed by a narrowing or a default that does not cover every value.

* `receive_frame` casts the per-channel count from `usize` to `u32`: `frame_header_iff` says that
  the header agrees with the plane exactly for packets below `2 ^ 32` octets a channel.
* `make_encoder` replaces a missing sample rate by 8000, but not the rate zero:
  `time_base_usable_iff` says that the packets of all runs have a usable time base exactly for
  the other rates.
-/

namespace G711

variable {K : OxideavCore} {law : Law} {ch : UInt16}

/-! ### The sample count of a decoded frame -/

/-- A frame of one plane, of two bytes for each of `n` octets, whose header counts those octets
per channel. -/
def HeaderAgrees (ch : UInt16) (n : ℕ) (f : Frame) : Prop :=
  ∃ a bytes, f = .audio a ∧ a.data = [bytes] ∧ bytes.length = 2 * n ∧
    a.samples.toNat * ch.toNat = n

/-- The cast keeps the count of whole samples exactly when it fits. -/
theorem count_mul_iff {n c : ℕ} (hc : 0 < c) (hdvd : c ∣ n) :
    (UInt32.ofNat (n / c)).toNat * c = n ↔ n / c < 2 ^ 32 := by
  obtain ⟨q, rfl⟩ := hdvd
  rw [Nat.mul_div_cancel_left q hc, UInt32.toNat_ofNat', Nat.mul_comm c q,
    Nat.mul_left_inj (Nat.ne_of_gt hc)]
  constructor
  · intro h
    rw [← h]
    exact Nat.mod_lt _ (by omega)
  · exact Nat.mod_eq_of_lt

theorem headerAgrees_frameOf (hch : ch ≠ 0) {p : Packet} (hdvd : ch.toNat ∣ p.data.length) :
    HeaderAgrees ch p.data.length (law.frameOf ch p) ↔ p.data.length / ch.toNat < 2 ^ 32 := by
  rw [← count_mul_iff (channels_pos hch) hdvd]
  constructor
  · rintro ⟨a, bytes, hf, -, -, hcount⟩
    cases hf
    exact hcount
  · intro hcount
    exact ⟨_, _, rfl, rfl, law.length_decodePlane p.data, hcount⟩

/-- **When a decoded header agrees with its plane**: for every packet that a decoder accepts, in
any state that calls can reach, there is one plane of the right length, and the header counts its
samples exactly when the count per channel fits in 32 bits. -/
theorem frame_header_iff {params : CodecParameters} {d : BoxDecoder}
    (hd : law.makeDecoder params = .ok d) (ops : List DecoderOp) {p : Packet} {f : Frame}
    (hp : (decoderMachine.final d ops).pending = some p)
    (hf : (decoderMachine.final d ops).receiveFrame.1 = .ok f) :
    (∃ a bytes, f = .audio a ∧ a.data = [bytes] ∧ bytes.length = 2 * p.data.length) ∧
      (HeaderAgrees (params.channels.getD 1) p.data.length f ↔
        p.data.length / (params.channels.getD 1).toNat < 2 ^ 32) := by
  obtain ⟨hhas, hch, -⟩ := Law.makeDecoder_spec hd
  have hfin := has_final hhas ops
  rw [BoxDecoder.receiveFrame_of_pending hp (by rw [hfin.channels_eq]; exact hch), hfin.law_eq,
    hfin.channels_eq, Law.decodePacket] at hf
  split_ifs at hf with hdvd
  cases hf
  constructor
  · exact ⟨_, _, rfl, rfl, law.length_decodePlane p.data⟩
  · exact headerAgrees_frameOf hch hdvd

/-- A stereo µ-law decoder that holds a packet of two octets. -/
theorem frame_header_iff_stereo :
    (∃ a bytes, Frame.audio ⟨1, none, [[0, 0, 0, 0]]⟩ = .audio a ∧ a.data = [bytes] ∧
        bytes.length = 2 * 2) ∧
      (HeaderAgrees 2 2 (.audio ⟨1, none, [[0, 0, 0, 0]]⟩) ↔ 2 / 2 < 2 ^ 32) :=
  @frame_header_iff .mulaw stereo (.ulaw ⟨"g711", 2, none, false⟩) rfl
    [.sendPacket (OxideavCore.plain.packetNew 0 ⟨1, 8000⟩ [0xFF, 0xFF])]
    (OxideavCore.plain.packetNew 0 ⟨1, 8000⟩ [0xFF, 0xFF]) (.audio ⟨1, none, [[0, 0, 0, 0]]⟩)
    rfl ((BoxDecoder.receiveFrame_of_pending rfl (by decide)).trans (by decide))

/-- A mono packet of `2 ^ 32` octets, of which the frame's header counts none. -/
theorem frame_header_wraps (law : Law) {p : Packet} (hp : p.data.length = 2 ^ 32) :
    ∃ d f, law.makeDecoder mono = .ok d ∧ (d.sendPacket p).1 = .ok () ∧
      (d.sendPacket p).2.receiveFrame.1 = .ok f ∧ ¬ HeaderAgrees 1 (2 ^ 32) f := by
  have hone : (1 : UInt16) ≠ 0 := by decide
  have hdvd : (1 : UInt16).toNat ∣ p.data.length := one_dvd _
  have hd : law.makeDecoder mono = .ok (law.newDecoder mono) := by
    rw [Law.makeDecoder_eq]
    rfl
  obtain ⟨hhas, -, hslot⟩ := Law.makeDecoder_spec hd
  obtain ⟨hsend, hreceive⟩ := BoxDecoder.exchange hhas hone
    (by rw [BoxDecoder.pending, hslot]; rfl) p
  refine ⟨_, law.frameOf 1 p, hd, hsend, ?_, ?_⟩
  · rw [hreceive]
    exact if_pos hdvd
  · rw [← hp, headerAgrees_frameOf hone hdvd, hp]
    decide

/-- The payload of four gibibytes, whose plane of eight is far below the largest allocation. -/
theorem frame_header_disagrees :
    2 * 2 ^ 32 ≤ 2 ^ 63 - 1 ∧
      ∀ law : Law, ∃ d p f, law.makeDecoder mono = .ok d ∧ p.data = List.replicate (2 ^ 32) 0xFF ∧
        (d.sendPacket p).1 = .ok () ∧ (d.sendPacket p).2.receiveFrame.1 = .ok f ∧
        ¬ HeaderAgrees 1 p.data.length f := by
  constructor
  · omega
  · intro law
    obtain ⟨p, hdata⟩ : ∃ p : Packet, p.data = List.replicate (2 ^ 32) 0xFF :=
      ⟨_, OxideavCore.plain.packetNew_data 0 ⟨1, 8000⟩ _⟩
    have hlen : p.data.length = 2 ^ 32 := by
      rw [hdata, List.length_replicate]
    obtain ⟨d, f, hd, hsend, hreceive, hnot⟩ := frame_header_wraps law hlen
    rw [← hlen] at hnot
    exact ⟨d, p, f, hd, hdata, hsend, hreceive, hnot⟩

/-! ### The time base of a packet -/

/-- A time base of one over the sample rate that the encoder reports, which is not zero. -/
structure UsableTimeBase (out : CodecParameters) (p : Packet) : Prop where
  num_eq : p.timeBase.num = 1
  den_pos : 0 < p.timeBase.den.toInt
  rate_eq : out.sampleRate.map (fun r => (r.toNat : ℤ)) = some p.timeBase.den.toInt

/-- Every packet of a run carries the encoder's time base. -/
theorem timeBase_of_returned {tb : TimeBase} {out : CodecParameters} {e : BoxEncoder}
    (he : e.Has law tb out) (hq : e.queue = []) {ops : List EncoderOp} {p : Packet}
    (hp : p ∈ returnedPackets K e ops) : p.timeBase = tb := by
  have hall : List.Forall₂ (fun p f => p.timeBase = tb ∧ law.admitFrame K tb f = .ok p)
      (returnedPackets K e ops ++ ((encoderMachine K).final e ops).queue)
      (acceptedFrames K e ops) := by
    refine (encoder_history he hq ops).flip.imp ?_
    intro p f hadmit
    obtain ⟨a, bytes, rest, -, -, -, rfl⟩ := admitFrame_eq_ok hadmit
    exact ⟨Law.packetOf_timeBase K law tb a bytes, hadmit⟩
  exact ((List.forall₂_and_left _ _).1 hall).1 p (List.mem_append_left _ hp)

/-- A frame sent to a fresh encoder is returned as its packet. -/
theorem returnedPackets_send_receive {tb : TimeBase} {out : CodecParameters} {e : BoxEncoder}
    (he : e.Has law tb out) (hq : e.queue = []) {f : Frame} {p : Packet}
    (h : law.admitFrame K tb f = .ok p) :
    returnedPackets K e [.sendFrame f, .receivePacket] = [p] := by
  rw [returnedPackets_eq he, hq]
  simp only [EncoderOp.toQueue, AdmittingQueue.machine, h, List.map_cons, List.map_nil,
    Mealy.trace_cons, Mealy.trace_nil, List.nil_append]
  rfl

theorem timeBaseOf_den (K : OxideavCore) (params : CodecParameters) :
    (timeBaseOf K params).den.toInt = ((params.sampleRate.getD 8000).toNat : ℤ) := by
  rw [timeBaseOf, K.timeBaseNew_den, toInt_toInt64]

/-- The time base that a factory computes is usable unless the rate is zero. -/
theorem usableTimeBase_iff {params : CodecParameters} {p : Packet}
    (hp : p.timeBase = timeBaseOf K params) :
    UsableTimeBase (outputOf params) p ↔ params.sampleRate ≠ some 0 := by
  have hden := timeBaseOf_den K params
  constructor
  · intro h hzero
    have hpos := h.den_pos
    rw [hp, hden, hzero] at hpos
    simp at hpos
  · intro h
    constructor
    case num_eq => rw [hp, timeBaseOf, K.timeBaseNew_num]
    case den_pos =>
      rw [hp, hden]
      cases hrate : params.sampleRate with
      | none => decide
      | some r =>
        have hr : r ≠ 0 := fun hr => h (by rw [hrate, hr])
        have : r.toNat ≠ 0 := fun h0 => hr (UInt32.toNat_inj.1 h0)
        simp only [Option.getD_some]
        omega
    case rate_eq =>
      rw [hp, hden]
      rfl

/-- **When the packets of an encoder have a usable time base**: in every run, for every packet
returned, exactly when the sample rate it was built with is not zero. -/
theorem time_base_usable_iff {params : CodecParameters} {e : BoxEncoder}
    (he : law.makeEncoder K params = .ok e) :
    (∀ ops, ∀ p ∈ returnedPackets K e ops,
        UsableTimeBase ((encoderMachine K).final e ops).outputParams p) ↔
      params.sampleRate ≠ some 0 := by
  obtain ⟨hhas, -, -, hq⟩ := Law.makeEncoder_spec he
  constructor
  · intro h
    -- one empty frame is enough for a packet
    have hadmit : law.admitFrame K (timeBaseOf K params) (.audio ⟨0, none, [[]]⟩)
        = .ok (law.packetOf K (timeBaseOf K params) ⟨0, none, [[]]⟩ []) := rfl
    have hreturned := returnedPackets_send_receive hhas hq hadmit
    have husable := h _ _ (hreturned ▸ List.mem_singleton_self _)
    rw [(encoder_has_final hhas _).outputParams_eq] at husable
    exact (usableTimeBase_iff (Law.packetOf_timeBase K law _ _ _)).1 husable
  · intro h ops p hp
    rw [(encoder_has_final hhas ops).outputParams_eq]
    exact (usableTimeBase_iff (timeBase_of_returned hhas hq hp)).2 h

/-- An encoder for stereo at 8 kHz. -/
theorem time_base_usable_iff_stereo :
    (∀ ops, ∀ p ∈ returnedPackets .plain (.ulaw ⟨outputOf stereo, ⟨1, 8000⟩, []⟩) ops,
        UsableTimeBase ((encoderMachine .plain).final
          (.ulaw ⟨outputOf stereo, ⟨1, 8000⟩, []⟩) ops).outputParams p) ↔
      stereo.sampleRate ≠ some 0 :=
  @time_base_usable_iff .plain .mulaw stereo _ rfl

/-- Mono at the rate zero, for concrete runs. -/
def rateZero : CodecParameters := { mono with sampleRate := some 0 }

/-- The factories accept the rate zero, and the first packet has a time base of one over zero. -/
theorem rate_zero_time_base :
    rateZero.sampleRate = some 0 ∧ ∀ law : Law, ∃ e p, law.makeEncoder .plain rateZero = .ok e ∧
      returnedPackets .plain e [.sendFrame (.audio ⟨1, none, [[0, 0]]⟩), .receivePacket] = [p] ∧
      p.timeBase = ⟨1, 0⟩ ∧
      ¬ UsableTimeBase ((encoderMachine .plain).final e
        [.sendFrame (.audio ⟨1, none, [[0, 0]]⟩), .receivePacket]).outputParams p := by
  refine ⟨rfl, fun law => ?_⟩
  have he : law.makeEncoder .plain rateZero = .ok (law.newEncoder .plain rateZero) := by
    cases law <;> rfl
  obtain ⟨hhas, -, -, hq⟩ := Law.makeEncoder_spec he
  have hadmit : law.admitFrame .plain (timeBaseOf .plain rateZero) (.audio ⟨1, none, [[0, 0]]⟩)
      = .ok (law.packetOf .plain (timeBaseOf .plain rateZero) ⟨1, none, [[0, 0]]⟩ [0, 0]) := by
    simp [Law.admitFrame]
  refine ⟨_, _, he, returnedPackets_send_receive hhas hq hadmit,
    Law.packetOf_timeBase _ _ _ _ _, ?_⟩
  rw [(encoder_has_final hhas _).outputParams_eq,
    usableTimeBase_iff (Law.packetOf_timeBase _ _ _ _ _)]
  simp [rateZero]

end G711
