import G711.Library.Stages
import G711.Pipeline
import G711.Tandem

/-!
# Lines of codecs

A line of stations: at every station an encoder of some law and its decoder, the frames of one
station going to the next.  The caller of each method is modelled with it: a packet that a busy
decoder refuses stays in transit, and a frame or a packet that is refused as invalid is dropped.

* `line_law`: under any schedule of the calls a line delivers what each station in turn makes of
  the frames, in order, and every schedule can be completed;
* `lines_indistinguishable`: what a line delivers tells no more of it than its reduced chain of laws.
-/

namespace G711

open Slices

variable {K : OxideavCore} {law : Law} {tb : TimeBase} {out : CodecParameters} {ch : UInt16}

/-! ### The two sides of a codec as stages -/

/-- An encoder with its caller, who gives up a frame that `send_frame` refuses; its own work is
`flush`. -/
abbrev encoderStage (K : OxideavCore) : Stage Frame Packet where
  State := BoxEncoder
  Work := Unit
  put e f := (true, (e.sendFrame K f).2)
  take e := match e.receivePacket with
    | (.ok p, e) => (some p, e)
    | (.error _, e) => (none, e)
  work e _ := e.flush.2

/-- A decoder with its caller, who keeps a packet that `send_packet` refuses; its own work is
`flush`. -/
abbrev decoderStage : Stage Packet Frame where
  State := BoxDecoder
  Work := Unit
  put d p := match d.sendPacket p with
    | (.ok (), d) => (true, d)
    | (.error _, d) => (false, d)
  take d := match d.receiveFrame with
    | (.ok f, d) => (some f, d)
    | (.error _, d) => (none, d)
  work d _ := d.flush.2

theorem encoderStage_put (e : BoxEncoder) (f : Frame) :
    (encoderStage K).put e f = (true, match e.law.admitFrame K e.timeBase f with
      | .ok p => e.withQueue (e.queue ++ [p])
      | .error _ => e) := by
  show (true, (e.sendFrame K f).2) = _
  rw [BoxEncoder.sendFrame_eq]
  cases e.law.admitFrame K e.timeBase f <;> rfl

theorem encoderStage_take (e : BoxEncoder) :
    (encoderStage K).take e = match e.queue with
      | [] => (none, e)
      | p :: queue => (some p, e.withQueue queue) := by
  simp only [encoderStage, BoxEncoder.receivePacket_eq]
  cases e.queue <;> rfl

theorem encoderStage_work (e : BoxEncoder) (w : Unit) : (encoderStage K).work e w = e := by
  cases e <;> rfl

/-- The packets that an encoder owes are those in its queue. -/
def encoderFifo (K : OxideavCore) (law : Law) (tb : TimeBase) (out : CodecParameters) :
    (encoderStage K).Fifo fun f => (law.admitFrame K tb f).toOption where
  inv e := e.Has law tb out
  owed e := e.queue
  ready e := e.queue = []
  inv_put e f h := by
    rw [encoderStage_put]
    cases e.law.admitFrame K e.timeBase f with
    | ok p => exact h.withQueue _
    | error err => exact h
  inv_take e h := by
    rw [encoderStage_take]
    cases e.queue with
    | nil => exact h
    | cons p queue => exact h.withQueue _
  inv_work e w h := by
    rwa [encoderStage_work]
  owed_put e f h := by
    rw [encoderStage_put, h.law_eq, h.timeBase_eq]
    cases law.admitFrame K tb f with
    | ok p => exact e.queue_withQueue _
    | error err => exact (List.append_nil _).symm
  owed_take e _ := by
    rw [encoderStage_take]
    cases hq : e.queue with
    | nil => exact hq.symm
    | cons p queue => exact congrArg (p :: ·) (e.queue_withQueue queue).symm
  owed_work e w _ := by
    rw [encoderStage_work]
  owed_ready _ _ hr := hr
  put_ready _ _ _ _ := rfl
  drains e h := by
    -- one `receive_packet` for every packet in the queue
    generalize hq : e.queue = queue
    induction queue generalizing e with
    | nil => exact ⟨e, .refl, hq⟩
    | cons p queue ih =>
      have hstep := Stage.Rest.take (S := encoderStage K) e
      rw [encoderStage_take, hq] at hstep
      obtain ⟨e', hrests, hempty⟩ := ih (e.withQueue queue) (h.withQueue queue)
        (e.queue_withQueue queue)
      exact ⟨e', hrests.head hstep, hempty⟩

theorem decoderStage_put_of_empty {d : BoxDecoder} (h : d.pending = none) (p : Packet) :
    decoderStage.put d p = (true, d.withSlot { d.slot with held := some p }) := by
  simp [decoderStage, BoxDecoder.sendPacket_of_empty h]

theorem decoderStage_put_of_pending {d : BoxDecoder} {q : Packet} (h : d.pending = some q)
    (p : Packet) : decoderStage.put d p = (false, d) := by
  simp [decoderStage, BoxDecoder.sendPacket_of_pending h]

theorem decoderStage_take {d : BoxDecoder} (h : d.Has law ch) (hch : ch ≠ 0) :
    decoderStage.take d = (d.pending.bind fun p => (law.decodePacket ch p).toOption,
      d.withSlot { d.slot with held := none }) := by
  have hreceive : decoderStage.take d = (d.receiveFrame.1.toOption, d.receiveFrame.2) := by
    rcases hframe : d.receiveFrame with ⟨_ | _, _⟩ <;> simp only [decoderStage, hframe] <;> rfl
  rw [hreceive, BoxDecoder.receiveFrame_state]
  congr 1
  cases hp : d.pending with
  | none =>
    rw [BoxDecoder.receiveFrame_of_empty hp]
    split_ifs <;> rfl
  | some p =>
    rw [BoxDecoder.receiveFrame_of_pending hp (by rwa [h.channels_eq]), h.law_eq, h.channels_eq]
    rfl

/-- What a decoder owes is the frame of its pending packet, if that is valid. -/
def decoderFifo (law : Law) (hch : ch ≠ 0) :
    decoderStage.Fifo fun p => (law.decodePacket ch p).toOption where
  inv d := d.Has law ch
  owed d := (d.pending.bind fun p => (law.decodePacket ch p).toOption).toList
  ready d := d.pending = none
  inv_put d p h := by
    cases hp : d.pending with
    | none =>
      rw [decoderStage_put_of_empty hp]
      exact h.withSlot _
    | some q =>
      rw [decoderStage_put_of_pending hp]
      exact h
  inv_take d h := by
    rw [decoderStage_take h hch]
    exact h.withSlot _
  inv_work d _ h := by
    cases d <;> exact ⟨h.law_eq, h.channels_eq⟩
  owed_put d p h := by
    cases hp : d.pending with
    | none =>
      rw [decoderStage_put_of_empty hp]
      simp [BoxDecoder.pending]
    | some q =>
      rw [decoderStage_put_of_pending hp, hp]
      simp
  owed_take d h := by
    rw [decoderStage_take h hch]
    simp [BoxDecoder.pending]
  owed_work d _ _ := by
    cases d <;> rfl
  owed_ready d _ hr := by
    rw [hr]
    rfl
  put_ready d p _ hr := by
    rw [decoderStage_put_of_empty hr]
  drains d h := by
    refine ⟨_, .single (.take d), ?_⟩
    rw [decoderStage_take h hch]
    simp [BoxDecoder.pending]

/-! ### Stations -/

/-- An encoder and a decoder of one law, as the factories build them from one set of parameters. -/
structure Station (K : OxideavCore) where
  law : Law
  params : CodecParameters
  enc : BoxEncoder
  dec : BoxDecoder
  makeEncoder_eq : law.makeEncoder K params = .ok enc
  makeDecoder_eq : law.makeDecoder params = .ok dec

def Station.channels (st : Station K) : UInt16 := st.params.channels.getD 1

/-- A frame after a chain of codecs with `ch` channels: its first plane with every sample hopped
through the laws, and the count of its samples.  What is no audio or holds no whole number of
samples of all channels is lost. -/
def relay (ch : UInt16) (laws : List Law) : Frame → Option Frame
  | .nonAudio => none
  | .audio a => match a.data with
    | [] => none
    | bytes :: _ =>
      if 2 * ch.toNat ∣ bytes.length then
        some (.audio {
          samples := UInt32.ofNat (bytes.length / 2 / ch.toNat)
          pts := a.pts
          data := [plane (hops (samples bytes) laws)] })
      else none

/-- The encoder of a station and its decoder, with the packets on their way. -/
abbrev codec (K : OxideavCore) : Stage Frame Frame := (encoderStage K).comp decoderStage

theorem admit_decode_eq_relay (law : Law) (hch : ch ≠ 0) (f : Frame) :
    ((law.admitFrame K tb f).toOption.bind fun p => (law.decodePacket ch p).toOption)
      = relay ch [law] f := by
  cases f with
  | nonAudio => rfl
  | audio a =>
    obtain ⟨count, pts, data⟩ := a
    cases data with
    | nil => rfl
    | cons bytes rest =>
      have hpos := channels_pos hch
      by_cases heven : 2 ∣ bytes.length
      · have hdvd : 2 * ch.toNat ∣ bytes.length ↔ ch.toNat ∣ bytes.length / 2 := by
          rw [Nat.dvd_div_iff_mul_dvd heven]
        have hplane : law.decodePlane (law.encodePlane bytes)
            = plane (hops (samples bytes) [law]) := law.decodePlane_encodePlane bytes
        simp only [Law.admitFrame, if_pos heven, relay, hdvd]
        show (law.decodePacket ch (law.packetOf K tb ⟨count, pts, bytes :: rest⟩ bytes)).toOption = _
        rw [Law.decodePacket, Law.packetOf_data, Law.length_encodePlane]
        by_cases hwhole : ch.toNat ∣ bytes.length / 2
        · rw [if_pos hwhole, if_pos hwhole, Law.frameOf, Law.packetOf_data,
            Law.length_encodePlane, hplane]
          rfl
        · rw [if_neg hwhole, if_neg hwhole]
          rfl
      · have hdvd : ¬ 2 * ch.toNat ∣ bytes.length := fun h => heven (dvd_of_mul_right_dvd h)
        simp only [Law.admitFrame, if_neg heven, relay, if_neg hdvd]
        rfl

theorem Station.channels_ne_zero (st : Station K) : st.channels ≠ 0 :=
  (Law.makeDecoder_spec st.makeDecoder_eq).2.1

/-- What a station makes of a frame. -/
def codecFifo (st : Station K) : (codec K).Fifo (relay st.channels [st.law]) :=
  ((encoderFifo K st.law (timeBaseOf K st.params) (outputOf st.params)).comp
    (decoderFifo st.law st.channels_ne_zero)).ofEq
      (admit_decode_eq_relay st.law st.channels_ne_zero)

/-! ### Lines -/

/-- The codecs of some stations in series. -/
def line : Station K → List (Station K) → Stage Frame Frame
  | _, [] => codec K
  | _, st :: rest => (codec K).comp (line st rest)

/-- A line before its first frame. -/
def lineStart : (st : Station K) → (rest : List (Station K)) → (line st rest).State
  | st, [] => ⟨st.enc, [], st.dec⟩
  | st, st' :: rest => ⟨⟨st.enc, [], st.dec⟩, [], lineStart st' rest⟩

/-- What becomes of a frame along a line. -/
def relays : Station K → List (Station K) → Frame → Option Frame
  | st, [], f => relay st.channels [st.law] f
  | st, st' :: rest, f => (relay st.channels [st.law] f).bind (relays st' rest)

def lineFifo : (st : Station K) → (rest : List (Station K)) → (line st rest).Fifo (relays st rest)
  | st, [] => codecFifo st
  | st, st' :: rest => (codecFifo st).comp (lineFifo st' rest)

theorem codec_start (st : Station K) :
    (codecFifo st).inv ⟨st.enc, [], st.dec⟩ ∧ (codecFifo st).ready ⟨st.enc, [], st.dec⟩ := by
  obtain ⟨henc, -, -, hq⟩ := Law.makeEncoder_spec st.makeEncoder_eq
  obtain ⟨hdec, -, hslot⟩ := Law.makeDecoder_spec st.makeDecoder_eq
  refine ⟨⟨henc, hdec⟩, hq, rfl, ?_⟩
  show st.dec.pending = none
  rw [BoxDecoder.pending, hslot]
  rfl

theorem line_start (st : Station K) (rest : List (Station K)) :
    (lineFifo st rest).inv (lineStart st rest) ∧ (lineFifo st rest).ready (lineStart st rest) := by
  induction rest generalizing st with
  | nil => exact codec_start st
  | cons st' rest ih =>
    obtain ⟨hinv, hready⟩ := ih st'
    obtain ⟨hinv', hready'⟩ := codec_start st
    exact ⟨⟨hinv', hinv⟩, hready', rfl, hready⟩

/-- The first encoder of a line takes in whatever it is offered. -/
theorem line_accepts (st : Station K) (rest : List (Station K)) (s : (line st rest).State)
    (f : Frame) : ((line st rest).put s f).1 = true := by
  cases rest <;> rfl

/-- **The line law**: whatever the order of the calls, a line delivers what becomes of the frames
sent, in order and each once; and every run can be completed without sending anything more. -/
theorem line_law (st : Station K) (rest : List (Station K))
    (ops : List (Stage.Op Frame (line st rest).Work)) :
    (line st rest).delivered (lineStart st rest) ops
        <+: (ops.filterMap Stage.Op.offered).filterMap (relays st rest) ∧
      ∃ more, more.filterMap Stage.Op.offered = [] ∧
        (line st rest).delivered (lineStart st rest) (ops ++ more)
          = (ops.filterMap Stage.Op.offered).filterMap (relays st rest) := by
  obtain ⟨hinv, hready⟩ := line_start st rest
  rw [← (line st rest).entered_of_accepts (line_accepts st rest) (lineStart st rest) ops]
  exact ⟨(lineFifo st rest).delivered_isPrefix hinv hready ops,
    (lineFifo st rest).exists_completion hinv hready ops⟩

/-! ### Lines of one channel count -/

/-- Only the reduced chain of laws matters to a PCM stream. -/
theorem hops_reduced (xs : List Int16) (laws : List Law) :
    hops xs (Code.reduced laws) = hops xs laws := by
  rw [hops_eq_chain, hops_eq_chain]
  exact Code.chain_reduced _ Law.other_other (fun _ _ => Law.eq_other)
    (fun law => law.settles.pointwise) xs laws

theorem relay_reduced (ch : UInt16) (laws : List Law) :
    relay ch (Code.reduced laws) = relay ch laws := by
  funext f
  simp only [relay, hops_reduced]

theorem length_quantise (law : Law) (xs : List Int16) : (law.quantise xs).length = xs.length :=
  List.length_map _

/-- A frame that has passed one codec passes the next ones, with the same header. -/
theorem relay_bind (ch : UInt16) (law : Law) (laws : List Law) (f : Frame) :
    (relay ch [law] f).bind (relay ch laws) = relay ch (law :: laws) f := by
  cases f with
  | nonAudio => rfl
  | audio a =>
    obtain ⟨count, pts, data⟩ := a
    cases data with
    | nil => rfl
    | cons bytes rest =>
      by_cases hdvd : 2 * ch.toNat ∣ bytes.length
      · have hlen : (plane (law.quantise (samples bytes))).length = bytes.length := by
          have heven : 2 ∣ bytes.length := dvd_of_mul_right_dvd hdvd
          rw [length_plane, length_quantise, length_samples, Nat.mul_div_cancel' heven]
        simp only [relay, if_pos hdvd, Option.bind_some]
        show relay ch laws (.audio ⟨UInt32.ofNat (bytes.length / 2 / ch.toNat), pts,
          [plane (law.quantise (samples bytes))]⟩) = _
        simp only [relay, hlen, if_pos hdvd, samples_plane]
        rfl
      · simp only [relay, if_neg hdvd, Option.bind_none]

/-- Along a line of one channel count a frame hops through all the laws. -/
theorem relays_eq {st : Station K} {rest : List (Station K)}
    (h : ∀ s ∈ st :: rest, s.channels = ch) :
    relays st rest = relay ch ((st :: rest).map Station.law) := by
  induction rest generalizing st with
  | nil =>
    rw [← h st (by simp)]
    rfl
  | cons st' rest ih =>
    have htail := ih (fun s hs => h s (List.mem_cons_of_mem _ hs))
    funext f
    rw [relays, htail, h st (by simp), relay_bind]
    rfl

/-- **Lines are indistinguishable** when they have one channel count and their laws the same
reduced chain: from the same frames, under any two schedules, one has delivered a beginning of what
the other has, and both can be completed to deliver the same. -/
theorem lines_indistinguishable {st st' : Station K} {rest rest' : List (Station K)}
    (hch : ∀ s ∈ st :: rest, s.channels = ch) (hch' : ∀ s ∈ st' :: rest', s.channels = ch)
    (hlaws : Code.reduced ((st :: rest).map Station.law)
      = Code.reduced ((st' :: rest').map Station.law))
    (ops : List (Stage.Op Frame (line st rest).Work))
    (ops' : List (Stage.Op Frame (line st' rest').Work))
    (hsent : ops.filterMap Stage.Op.offered = ops'.filterMap Stage.Op.offered) :
    ((line st rest).delivered (lineStart st rest) ops
        <+: (line st' rest').delivered (lineStart st' rest') ops' ∨
      (line st' rest').delivered (lineStart st' rest') ops'
        <+: (line st rest).delivered (lineStart st rest) ops) ∧
    ∃ more more', more.filterMap Stage.Op.offered = [] ∧ more'.filterMap Stage.Op.offered = [] ∧
      (line st rest).delivered (lineStart st rest) (ops ++ more)
        = (line st' rest').delivered (lineStart st' rest') (ops' ++ more') := by
  have hrelays : relays st rest = relays st' rest' := by
    rw [relays_eq hch, relays_eq hch', ← relay_reduced, hlaws, relay_reduced]
  obtain ⟨hinv, hready⟩ := line_start st rest
  obtain ⟨hinv', hready'⟩ := line_start st' rest'
  have hprefix := (lineFifo st rest).delivered_isPrefix hinv hready ops
  have hprefix' := (lineFifo st' rest').delivered_isPrefix hinv' hready' ops'
  obtain ⟨more, hmore, hdone⟩ := (lineFifo st rest).exists_completion hinv hready ops
  obtain ⟨more', hmore', hdone'⟩ := (lineFifo st' rest').exists_completion hinv' hready' ops'
  rw [Stage.entered_of_accepts _ (line_accepts st rest), hsent, hrelays] at hprefix hdone
  rw [Stage.entered_of_accepts _ (line_accepts st' rest')] at hprefix' hdone'
  refine ⟨List.prefix_or_prefix_of_prefix hprefix hprefix', more, more', hmore, hmore', ?_⟩
  rw [hdone, hdone']

/-- A mono station, for concrete lines. -/
def monoStation (law : Law) : Station .plain where
  law := law
  params := mono
  enc := law.newEncoder .plain mono
  dec := law.newDecoder mono
  makeEncoder_eq := by cases law <;> rfl
  makeDecoder_eq := by cases law <;> rfl

/-- One frame on a line of two stations and on one of four. -/
theorem lines_indistinguishable_mono :
    ((line (monoStation .mulaw) [monoStation .alaw]).delivered
          (lineStart (monoStation .mulaw) [monoStation .alaw])
          [.put (.audio ⟨1, none, [[0, 1]]⟩), .take]
        <+: (line (monoStation .mulaw)
            [monoStation .alaw, monoStation .mulaw, monoStation .alaw]).delivered
          (lineStart (monoStation .mulaw)
            [monoStation .alaw, monoStation .mulaw, monoStation .alaw])
          [.put (.audio ⟨1, none, [[0, 1]]⟩)] ∨
      (line (monoStation .mulaw)
            [monoStation .alaw, monoStation .mulaw, monoStation .alaw]).delivered
          (lineStart (monoStation .mulaw)
            [monoStation .alaw, monoStation .mulaw, monoStation .alaw])
          [.put (.audio ⟨1, none, [[0, 1]]⟩)]
        <+: (line (monoStation .mulaw) [monoStation .alaw]).delivered
          (lineStart (monoStation .mulaw) [monoStation .alaw])
          [.put (.audio ⟨1, none, [[0, 1]]⟩), .take]) ∧
    ∃ more more', more.filterMap Stage.Op.offered = [] ∧ more'.filterMap Stage.Op.offered = [] ∧
      (line (monoStation .mulaw) [monoStation .alaw]).delivered
          (lineStart (monoStation .mulaw) [monoStation .alaw])
          ([.put (.audio ⟨1, none, [[0, 1]]⟩), .take] ++ more)
        = (line (monoStation .mulaw)
            [monoStation .alaw, monoStation .mulaw, monoStation .alaw]).delivered
          (lineStart (monoStation .mulaw)
            [monoStation .alaw, monoStation .mulaw, monoStation .alaw])
          ([.put (.audio ⟨1, none, [[0, 1]]⟩)] ++ more') :=
  @lines_indistinguishable .plain 1 (monoStation .mulaw) (monoStation .mulaw) [monoStation .alaw]
    [monoStation .alaw, monoStation .mulaw, monoStation .alaw]
    (by simp [Station.channels, monoStation, mono])
    (by simp [Station.channels, monoStation, mono]) (by decide)
    [.put (.audio ⟨1, none, [[0, 1]]⟩), .take] [.put (.audio ⟨1, none, [[0, 1]]⟩)] rfl

end G711
