import Mathlib
import G711.Codewords
import G711.DecoderRuns
import G711.EncoderRuns

/-!
# Which codecs can be told apart

Two codecs are alike when no further calls tell them apart by their responses.  After any calls on
codecs that factories returned, `decoders_alike_iff` and `encoders_alike_iff` say when they are, in
terms of the calls made and their responses so far: for each thing that has to agree there is a
run that shows a difference in it, and nothing else shows in any run.
-/

namespace G711

open Slices

/-! ### Packets with the same reply -/

/-- Packets of one length which, if they hold whole `ch`-channel samples, also agree in their pts
and, octet by octet, in the value of their data. -/
def SameReply (law : Law) (ch : UInt16) (p q : Packet) : Prop :=
  p.data.length = q.data.length ∧ (ch.toNat ∣ p.data.length →
    p.pts = q.pts ∧ p.data.map law.canonical = q.data.map law.canonical)

/-- The refusals of a second packet show the law. -/
theorem Law.busyError_inj {law law' : Law} : law.busyError = law'.busyError ↔ law = law' := by
  cases law <;> cases law' <;> decide

/-- The text of the length error shows the length. -/
theorem Law.lengthError_inj (law : Law) {m n ch : ℕ} :
    law.lengthError m ch = law.lengthError n ch ↔ m = n := by
  constructor
  · intro h
    cases law <;> simpa [lengthError, toString] using h
  · rintro rfl
    rfl

theorem Law.frameOf_eq_iff (law : Law) {ch : UInt16} {p q : Packet} :
    law.frameOf ch p = law.frameOf ch q
      ↔ p.pts = q.pts ∧ p.data.map law.canonical = q.data.map law.canonical := by
  rw [← law.decodePlane_eq_iff]
  constructor
  · intro h
    simp only [frameOf, Frame.audio.injEq, AudioFrame.mk.injEq, List.cons.injEq, and_true] at h
    exact h.2
  · rintro ⟨hpts, hplane⟩
    have hlen : p.data.length = q.data.length := by
      simpa using congrArg List.length (law.decodePlane_eq_iff.1 hplane)
    rw [frameOf, frameOf, hlen, hpts, hplane]

theorem Law.decodePacket_eq_iff (law : Law) {ch : UInt16} {p q : Packet} :
    law.decodePacket ch p = law.decodePacket ch q ↔ SameReply law ch p q := by
  unfold decodePacket SameReply
  by_cases hp : ch.toNat ∣ p.data.length <;> by_cases hq : ch.toNat ∣ q.data.length
  · rw [if_pos hp, if_pos hq, Except.ok.injEq, law.frameOf_eq_iff]
    constructor
    · intro h
      exact ⟨by simpa using congrArg List.length h.2, fun _ => h⟩
    · intro h
      exact h.2 hp
  · rw [if_pos hp, if_neg hq]
    exact ⟨nofun, fun h => absurd (h.1 ▸ hp) hq⟩
  · rw [if_neg hp, if_pos hq]
    exact ⟨nofun, fun h => absurd (h.1 ▸ hq) hp⟩
  · rw [if_neg hp, if_neg hq, Except.error.injEq, Fault.err.injEq, law.lengthError_inj]
    exact ⟨fun h => ⟨h, fun hdvd => absurd hdvd hp⟩, fun h => h.1⟩

theorem Law.map_decodePacket_eq_iff (law : Law) {ch : UInt16} {o o' : Option Packet} :
    o.map (law.decodePacket ch) = o'.map (law.decodePacket ch)
      ↔ Option.Rel (SameReply law ch) o o' := by
  cases o <;> cases o' <;> simp [law.decodePacket_eq_iff]

/-! ### Decoders -/

section Decoders

variable {law law' : Law} {ch ch' : UInt16} {d d' : BoxDecoder}

/-- The answer that the law and the channel count give to a slot holding replies. -/
def Law.ofReply (law : Law) : Slot.Answer (Outcome Frame) → DecoderAnswer
  | .accepted => .sent (.ok ())
  | .busy => .sent (.error (.err law.busyError))
  | .item r => .received r
  | .empty => .received (.error (.err .needMore))
  | .closed => .received (.error (.err .eof))
  | .done => .flushed (.ok ())

/-- A decoder is a slot of replies: of the packet it holds only the reply shows. -/
theorem answers_eq_ofReply (hd : d.Has law ch) (hch : ch ≠ 0) (ops : List DecoderOp) :
    decoderMachine.answers d ops
      = ((Slot.machine _).answers (d.slot.map (law.decodePacket ch))
          ((ops.map DecoderOp.toSlot).map (Slot.Op.map (law.decodePacket ch)))).map law.ofReply := by
  rw [(decoderRefines law hch).answers_eq hd ops, Slot.answers_map, List.map_map]
  refine List.map_congr_left fun b _ => ?_
  cases b <;> rfl

theorem answer_final (hd : d.Has law ch) (hch : ch ≠ 0) (ops : List DecoderOp) (op : DecoderOp) :
    decoderMachine.answer (decoderMachine.final d ops) op
      = law.ofSlot ch ((Slot.machine Packet).answer
          ((Slot.machine Packet).final d.slot (ops.map DecoderOp.toSlot)) op.toSlot) := by
  rw [← slot_final hd hch]
  exact BoxDecoder.call_answer hch (has_final hd ops) op

/-- A packet of the given bytes without timestamps. -/
def probe (data : List UInt8) : Packet := ⟨0, ⟨1, 8000⟩, none, none, none, ⟨false⟩, data⟩

/-- A second packet in a row is refused with the law's own text. -/
theorem law_eq_of_alike (hd : d.Has law ch) (hd' : d'.Has law' ch') (hch : ch ≠ 0)
    (hch' : ch' ≠ 0) (h : decoderMachine.Alike d d') : law = law' := by
  have hbusy := (h.final [.sendPacket (probe [])]).answer (.sendPacket (probe []))
  have hanswer : ∀ s : Slot.State Packet, (Slot.machine Packet).answer
      ((Slot.machine Packet).final s [.put (probe [])]) (.put (probe [])) = .busy := by
    rintro ⟨held, closed⟩
    cases held <;> rfl
  rw [answer_final hd hch, answer_final hd' hch'] at hbusy
  simp only [List.map_cons, List.map_nil, DecoderOp.toSlot, hanswer, Law.ofSlot,
    DecoderAnswer.sent.injEq, Except.error.injEq, Fault.err.injEq] at hbusy
  exact Law.busyError_inj.1 hbusy

/-- An emptied slot answers whether the decoder was flushed. -/
theorem closed_eq_of_alike (hd : d.Has law ch) (hd' : d'.Has law' ch') (hch : ch ≠ 0)
    (hch' : ch' ≠ 0) (h : decoderMachine.Alike d d') : d.slot.closed = d'.slot.closed := by
  have hempty := (h.final [.receiveFrame]).answer .receiveFrame
  rw [answer_final hd hch, answer_final hd' hch'] at hempty
  cases hc : d.slot.closed <;> cases hc' : d'.slot.closed <;>
    simp [DecoderOp.toSlot, Slot.machine, Law.ofSlot, hc, hc'] at hempty ⊢

/-- A packet of `ch * ch'` octets is decoded to as many samples as the other decoder has
channels. -/
theorem channels_eq_of_alike (hd : d.Has law ch) (hd' : d'.Has law' ch') (hch : ch ≠ 0)
    (hch' : ch' ≠ 0) (h : decoderMachine.Alike d d') : ch = ch' := by
  have hlen : (probe (List.replicate (ch.toNat * ch'.toNat) 0)).data.length
      = ch.toNat * ch'.toNat := List.length_replicate
  generalize probe (List.replicate (ch.toNat * ch'.toNat) 0) = p at hlen
  have hreply := (h.final [.receiveFrame, .sendPacket p]).answer .receiveFrame
  have hanswer : ∀ s : Slot.State Packet, (Slot.machine Packet).answer
      ((Slot.machine Packet).final s [.take, .put p]) .take = .item p := by
    rintro ⟨held, closed⟩
    rfl
  rw [answer_final hd hch, answer_final hd' hch'] at hreply
  simp only [List.map_cons, List.map_nil, DecoderOp.toSlot, hanswer, Law.ofSlot] at hreply
  have hdvd : ch.toNat ∣ p.data.length := hlen ▸ Nat.dvd_mul_right _ _
  have hdvd' : ch'.toNat ∣ p.data.length := hlen ▸ Nat.dvd_mul_left _ _
  rw [Law.decodePacket, if_pos hdvd, Law.decodePacket, if_pos hdvd'] at hreply
  simp only [Law.frameOf, hlen, DecoderAnswer.received.injEq, Except.ok.injEq, Frame.audio.injEq,
    AudioFrame.mk.injEq, Nat.mul_div_cancel_left _ (channels_pos hch),
    Nat.mul_div_cancel _ (channels_pos hch')] at hreply
  have hnat := congrArg UInt32.toNat hreply.1
  have hlt := ch.toNat_lt
  have hlt' := ch'.toNat_lt
  rw [UInt32.toNat_ofNat', UInt32.toNat_ofNat'] at hnat
  exact UInt16.toNat_inj.1 (by omega)

/-- The reply is all that shows of the packet in the slot. -/
theorem replies_eq_of_alike (hd : d.Has law ch) (hd' : d'.Has law ch) (hch : ch ≠ 0)
    (h : decoderMachine.Alike d d') :
    d.pending.map (law.decodePacket ch) = d'.pending.map (law.decodePacket ch) := by
  have htaken : ∀ s : Slot.State Packet,
      Slot.takenOp (Slot.Op.take, (Slot.machine Packet).answer s .take) = s.held := by
    rintro ⟨held, closed⟩
    cases held <;> cases closed <;> rfl
  have hreply := congrArg (fun a => reply (.receiveFrame, a)) (h.answer .receiveFrame)
  have hanswer := answer_final hd hch [] .receiveFrame
  have hanswer' := answer_final hd' hch [] .receiveFrame
  simp only [Mealy.final_nil, List.map_nil] at hanswer hanswer'
  simp only [hanswer, hanswer', reply_ofSlot] at hreply
  simp only [DecoderOp.toSlot, htaken] at hreply
  exact hreply

/-- **Decoders are alike** when they agree in law, channel count and flush mark, and hold packets
with the same reply. -/
theorem alike_iff_of_has (hd : d.Has law ch) (hd' : d'.Has law' ch') (hch : ch ≠ 0)
    (hch' : ch' ≠ 0) : decoderMachine.Alike d d' ↔ law = law' ∧ ch = ch' ∧
      d.slot.closed = d'.slot.closed ∧ Option.Rel (SameReply law ch) d.pending d'.pending := by
  constructor
  · intro h
    obtain rfl := law_eq_of_alike hd hd' hch hch' h
    obtain rfl := channels_eq_of_alike hd hd' hch hch' h
    refine ⟨rfl, rfl, closed_eq_of_alike hd hd' hch hch' h, ?_⟩
    exact law.map_decodePacket_eq_iff.1 (replies_eq_of_alike hd hd' hch h)
  · rintro ⟨rfl, rfl, hclosed, hpending⟩ ops
    have hheld : d.slot.held.map (law.decodePacket ch) = d'.slot.held.map (law.decodePacket ch) :=
      law.map_decodePacket_eq_iff.2 hpending
    rw [answers_eq_ofReply hd hch, answers_eq_ofReply hd' hch, Slot.State.map, Slot.State.map,
      hheld, hclosed]

theorem closed_final_iff (hd : d.Has law ch) (hch : ch ≠ 0) (hs : d.slot = .init)
    (ops : List DecoderOp) :
    (decoderMachine.final d ops).slot.closed = true ↔ DecoderOp.flush ∈ ops := by
  rw [closed_final hd hch, hs]
  simp [Slot.State.init]

/-- The packet that was accepted in a run and has no reply yet. -/
def outstanding (d : BoxDecoder) (ops : List DecoderOp) : Option Packet :=
  (acceptedPackets d ops)[(replies d ops).length]?

end Decoders

section Encoders

variable {K : OxideavCore} {law law' : Law} {tb tb' : TimeBase} {out out' : CodecParameters}
  {e e' : BoxEncoder}

/-- The refusals of a frame that is not audio show the law. -/
theorem Law.audioOnlyError_inj {law law' : Law} :
    law.audioOnlyError = law'.audioOnlyError ↔ law = law' := by
  cases law <;> cases law' <;> decide

/-- An encoder responds by its law, its time base and its queue. -/
theorem answers_eq_ofQueue (he : e.Has law tb out) (ops : List EncoderOp) :
    (encoderMachine K).answers e ops
      = ((AdmittingQueue.machine (law.admitFrame K tb)).answers e.queue
          (ops.map EncoderOp.toQueue)).map ofQueue :=
  (encoderRefines K law tb out).answers_eq he ops

theorem encoder_law_eq_of_alike (he : e.Has law tb out) (he' : e'.Has law' tb' out')
    (h : (encoderMachine K).Alike e e') : law = law' := by
  have hrefused := h.answer (.sendFrame .nonAudio)
  rw [answer_sendFrame, answer_sendFrame, he.law_eq, he'.law_eq] at hrefused
  simp only [Law.admitFrame, EncoderAnswer.sent.injEq, Except.error.injEq,
    Fault.err.injEq] at hrefused
  exact Law.audioOnlyError_inj.1 hrefused

/-- Draining an encoder shows its queue. -/
theorem queue_eq_of_alike (h : (encoderMachine K).Alike e e') : e.queue = e'.queue := by
  have hanswer : ∀ e : BoxEncoder, (encoderMachine K).answer e .receivePacket
      = .received e.receivePacket.1 := fun e => rfl
  have hnext : ∀ e : BoxEncoder, (encoderMachine K).next e .receivePacket
      = e.receivePacket.2 := fun e => rfl
  generalize hq : e.queue = q
  induction q generalizing e e' with
  | nil =>
    have hpop := h.answer .receivePacket
    rw [hanswer, hanswer, e.receivePacket_eq, e'.receivePacket_eq, hq] at hpop
    cases hq' : e'.queue with
    | nil => rfl
    | cons p q' => simp [hq'] at hpop
  | cons p q ih =>
    have hpop := h.answer .receivePacket
    have hrest := h.next .receivePacket
    rw [hanswer, hanswer, e.receivePacket_eq, e'.receivePacket_eq, hq] at hpop
    rw [hnext, hnext, e.receivePacket_eq, e'.receivePacket_eq, hq] at hrest
    cases hq' : e'.queue with
    | nil => simp [hq'] at hpop
    | cons p' q' =>
      rw [hq'] at hpop hrest
      obtain rfl : p = p' := by simpa using hpop
      have htail := ih hrest (e.queue_withQueue q)
      rw [e'.queue_withQueue] at htail
      rw [htail]

/-- An empty audio frame. -/
def silence : AudioFrame := ⟨0, none, [[]]⟩

/-- The packet of a further frame shows the time base. -/
theorem timeBase_eq_of_alike (he : e.Has law tb out) (he' : e'.Has law tb' out')
    (h : (encoderMachine K).Alike e e') : tb = tb' := by
  have hadmit : ∀ tb, law.admitFrame K tb (.audio silence)
      = .ok (law.packetOf K tb silence []) := fun tb => rfl
  have hqueue := queue_eq_of_alike (h.next (.sendFrame (.audio silence)))
  have hnext : ∀ e : BoxEncoder, (encoderMachine K).next e (.sendFrame (.audio silence))
      = (e.sendFrame K (.audio silence)).2 := fun e => rfl
  rw [hnext, hnext, e.sendFrame_eq, e'.sendFrame_eq, he.law_eq, he'.law_eq, he.timeBase_eq,
    he'.timeBase_eq, hadmit, hadmit] at hqueue
  simp only [BoxEncoder.queue_withQueue, queue_eq_of_alike h, List.append_cancel_left_eq,
    List.cons.injEq, and_true] at hqueue
  simpa using congrArg Packet.timeBase hqueue

theorem alike_encoders_iff (he : e.Has law tb out) (he' : e'.Has law' tb' out') :
    (encoderMachine K).Alike e e' ↔ law = law' ∧ tb = tb' ∧ e.queue = e'.queue := by
  constructor
  · intro h
    obtain rfl := encoder_law_eq_of_alike he he' h
    exact ⟨rfl, timeBase_eq_of_alike he he' h, queue_eq_of_alike h⟩
  · rintro ⟨rfl, rfl, hqueue⟩ ops
    rw [answers_eq_ofQueue he, answers_eq_ofQueue he', hqueue]

end Encoders

/-- Frames of which a law makes the same packet. -/
def SamePacket (law : Law) : Frame → Frame → Prop
  | .audio a, .audio b => a.samples = b.samples ∧ a.pts = b.pts ∧
      a.data.head?.map law.encodePlane = b.data.head?.map law.encodePlane
  | _, _ => False

/-- The frames that were accepted in a run and whose packets have not been returned yet. -/
def unreturned (K : OxideavCore) (e : BoxEncoder) (ops : List EncoderOp) : List Frame :=
  (acceptedFrames K e ops).drop (returnedPackets K e ops).length

theorem toInt64_inj {m n : UInt32} : m.toUInt64.toInt64 = n.toUInt64.toInt64 ↔ m = n := by
  constructor
  · intro h
    have hint := congrArg Int64.toInt h
    rw [toInt_toInt64, toInt_toInt64] at hint
    exact UInt32.toNat_inj.1 (by omega)
  · rintro rfl
    rfl

theorem timeBaseOf_inj (K : OxideavCore) {params params' : CodecParameters} :
    timeBaseOf K params = timeBaseOf K params'
      ↔ params.sampleRate.getD 8000 = params'.sampleRate.getD 8000 := by
  constructor
  · intro h
    have hden := congrArg TimeBase.den h
    rw [timeBaseOf, timeBaseOf, K.timeBaseNew_den, K.timeBaseNew_den] at hden
    exact toInt64_inj.1 hden
  · intro h
    rw [timeBaseOf, timeBaseOf, h]

section Packets

variable {K : OxideavCore} {law : Law} {tb : TimeBase}

theorem packetOf_eq_iff {a b : AudioFrame} {bytes bytes' : List UInt8} :
    law.packetOf K tb a bytes = law.packetOf K tb b bytes'
      ↔ a.samples = b.samples ∧ a.pts = b.pts ∧ law.encodePlane bytes = law.encodePlane bytes' := by
  constructor
  · intro h
    have hdata := congrArg Packet.data h
    rw [law.packetOf_data, law.packetOf_data] at hdata
    have hduration := Option.some.inj (congrArg Packet.duration h)
    exact ⟨toInt64_inj.1 hduration, congrArg Packet.pts h, hdata⟩
  · rintro ⟨hsamples, hpts, hplane⟩
    rw [Law.packetOf, Law.packetOf, hsamples, hpts, hplane]

theorem packet_eq_iff {f g : Frame} {p q : Packet} (hf : law.admitFrame K tb f = .ok p)
    (hg : law.admitFrame K tb g = .ok q) : p = q ↔ SamePacket law f g := by
  obtain ⟨a, bytes, rest, rfl, hdata, -, rfl⟩ := admitFrame_eq_ok hf
  obtain ⟨b, bytes', rest', rfl, hdata', -, rfl⟩ := admitFrame_eq_ok hg
  rw [packetOf_eq_iff, SamePacket, hdata, hdata']
  simp

/-- Queues are equal when their frames make the same packets, one by one. -/
theorem packets_eq_iff {fs gs : List Frame} {ps qs : List Packet}
    (hf : List.Forall₂ (fun f p => law.admitFrame K tb f = .ok p) fs ps)
    (hg : List.Forall₂ (fun f p => law.admitFrame K tb f = .ok p) gs qs) :
    ps = qs ↔ List.Forall₂ (SamePacket law) fs gs := by
  induction hf generalizing gs qs with
  | nil =>
    cases hg with
    | nil => simp
    | cons _ _ => simp
  | cons h _ ih =>
    cases hg with
    | nil => simp
    | cons h' hg => rw [List.cons.injEq, List.forall₂_cons, packet_eq_iff h h', ih hg]

end Packets

end G711
