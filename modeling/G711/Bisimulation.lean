import G711.Wrappers

/-!
# The wrappers of the two laws are bisimilar

The µ-law and the A-law wrapper step in lockstep when corresponding calls agree in everything but
the sample bytes: they give the same kind of response, and the payloads of the responses agree in
everything but the sample bytes.  `MatchedDecoders` and `MatchedEncoders` are the relations on
states that every call preserves.
-/

namespace G711

variable {K : OxideavCore} {ch : UInt16} {tb : TimeBase} {out : CodecParameters}

/-! ### What has to agree -/

/-- Two outcomes of one kind: values related by `S`, or errors of the same kind; no panic. -/
def Outcome.Agree {α β : Type} (S : α → β → Prop) : Outcome α → Outcome β → Prop
  | .ok a, .ok b => S a b
  | .error (.err e), .error (.err e') => e.kind = e'.kind
  | _, _ => False

/-- Audio frames equal in samples, pts, number of planes and plane lengths; the bytes may differ. -/
def SameFrameShape : Frame → Frame → Prop
  | .audio a, .audio b => a.samples = b.samples ∧ a.pts = b.pts ∧
      a.data.map List.length = b.data.map List.length
  | .nonAudio, .nonAudio => True
  | _, _ => False

/-- Packets equal in every field except the bytes of `data`. -/
structure SamePacketShape (p q : Packet) : Prop where
  fields_eq : { p with data := [] } = { q with data := [] }
  length_eq : p.data.length = q.data.length

/-- Packets of equal length and pts. -/
def SameLengthAndPts (p q : Packet) : Prop := p.data.length = q.data.length ∧ p.pts = q.pts

def DecoderOp.Match : DecoderOp → DecoderOp → Prop
  | .sendPacket p, .sendPacket q => SameLengthAndPts p q
  | .receiveFrame, .receiveFrame => True
  | .flush, .flush => True
  | _, _ => False

def DecoderAnswer.Agree : DecoderAnswer → DecoderAnswer → Prop
  | .sent r, .sent r' => Outcome.Agree Eq r r'
  | .received r, .received r' => Outcome.Agree SameFrameShape r r'
  | .flushed r, .flushed r' => Outcome.Agree Eq r r'
  | _, _ => False

def EncoderOp.Match : EncoderOp → EncoderOp → Prop
  | .sendFrame f, .sendFrame g => SameFrameShape f g
  | .receivePacket, .receivePacket => True
  | .flush, .flush => True
  | _, _ => False

def EncoderAnswer.Agree : EncoderAnswer → EncoderAnswer → Prop
  | .sent r, .sent r' => Outcome.Agree Eq r r'
  | .received r, .received r' => Outcome.Agree SamePacketShape r r'
  | .flushed r, .flushed r' => Outcome.Agree Eq r r'
  | _, _ => False

/-! ### Decoders -/

/-- Slots with the same flush mark that hold nothing, or packets of equal length and pts. -/
structure MatchedSlots (s t : Slot.State Packet) : Prop where
  held : Option.Rel SameLengthAndPts s.held t.held
  closed : s.closed = t.closed

/-- Packets of equal length and pts are answered alike. -/
theorem decodePacket_agree {p q : Packet} (h : SameLengthAndPts p q) (law law' : Law) :
    Outcome.Agree SameFrameShape (law.decodePacket ch p) (law'.decodePacket ch q) := by
  obtain ⟨hlen, hpts⟩ := h
  unfold Law.decodePacket
  rw [hlen]
  by_cases hdvd : ch.toNat ∣ q.data.length
  · rw [if_pos hdvd, if_pos hdvd]
    exact ⟨by rw [hlen], hpts, by simp [hlen]⟩
  · rw [if_neg hdvd, if_neg hdvd]
    cases law <;> cases law' <;> rfl

theorem MatchedSlots.next {s t : Slot.State Packet} {op op' : DecoderOp} (h : MatchedSlots s t)
    (hop : op.Match op') :
    MatchedSlots ((Slot.machine Packet).next s op.toSlot)
      ((Slot.machine Packet).next t op'.toSlot) := by
  obtain ⟨held, closed⟩ := s
  obtain ⟨held', closed'⟩ := t
  obtain ⟨hheld, rfl⟩ := h
  match op, op', hop with
  | .sendPacket _, .sendPacket _, hpq =>
    cases hheld with
    | some hxy => exact ⟨.some hxy, rfl⟩
    | none => exact ⟨.some hpq, rfl⟩
  | .receiveFrame, .receiveFrame, _ => exact ⟨.none, rfl⟩
  | .flush, .flush, _ => exact ⟨hheld, rfl⟩

theorem MatchedSlots.agree {s t : Slot.State Packet} {op op' : DecoderOp} (h : MatchedSlots s t)
    (hop : op.Match op') (law law' : Law) :
    (law.ofSlot ch ((Slot.machine Packet).answer s op.toSlot)).Agree
      (law'.ofSlot ch ((Slot.machine Packet).answer t op'.toSlot)) := by
  obtain ⟨held, closed⟩ := s
  obtain ⟨held', closed'⟩ := t
  obtain ⟨hheld, rfl⟩ := h
  match op, op', hop with
  | .sendPacket _, .sendPacket _, _ =>
    cases hheld with
    | some _ => cases law <;> cases law' <;> rfl
    | none => rfl
  | .receiveFrame, .receiveFrame, _ =>
    cases hheld with
    | some hxy => exact decodePacket_agree hxy law law'
    | none => cases closed <;> rfl
  | .flush, .flush, _ => rfl

/-- A µ-law and an A-law decoder with one channel count and matched slots. -/
structure MatchedDecoders (ch : UInt16) (d d' : BoxDecoder) : Prop where
  has : d.Has .mulaw ch
  has' : d'.Has .alaw ch
  slots : MatchedSlots d.slot d'.slot

theorem MatchedDecoders.next {d d' : BoxDecoder} {op op' : DecoderOp}
    (h : MatchedDecoders ch d d') (hop : op.Match op') :
    MatchedDecoders ch (decoderMachine.next d op) (decoderMachine.next d' op') := by
  have hstate : decoderMachine.next d op = _ := d.call_state op
  have hstate' : decoderMachine.next d' op' = _ := d'.call_state op'
  rw [hstate, hstate']
  refine ⟨h.has.withSlot _, h.has'.withSlot _, ?_⟩
  rw [BoxDecoder.slot_withSlot, BoxDecoder.slot_withSlot]
  exact h.slots.next hop

theorem MatchedDecoders.agree {d d' : BoxDecoder} {op op' : DecoderOp}
    (h : MatchedDecoders ch d d') (hch : ch ≠ 0) (hop : op.Match op') :
    (decoderMachine.answer d op).Agree (decoderMachine.answer d' op') := by
  have hans : decoderMachine.answer d op = _ := BoxDecoder.call_answer hch h.has op
  have hans' : decoderMachine.answer d' op' = _ := BoxDecoder.call_answer hch h.has' op'
  rw [hans, hans']
  exact h.slots.agree hop .mulaw .alaw

/-- Matched decoders answer matching calls alike. -/
theorem MatchedDecoders.run {d d' : BoxDecoder} (h : MatchedDecoders ch d d') (hch : ch ≠ 0)
    {ops ops' : List DecoderOp} (hops : List.Forall₂ DecoderOp.Match ops ops') :
    List.Forall₂ DecoderAnswer.Agree (decoderMachine.answers d ops)
      (decoderMachine.answers d' ops') :=
  Mealy.forall₂_trace (fun _ _ _ _ h hop => h.next hop) (fun _ _ _ _ h hop => h.agree hch hop)
    h hops

/-! ### Encoders -/

/-- Frames of one shape get packets of one shape, or refusals of one kind. -/
theorem admitFrame_agree (K : OxideavCore) (tb : TimeBase) (law law' : Law) {f g : Frame}
    (h : SameFrameShape f g) :
    (∃ p q, law.admitFrame K tb f = .ok p ∧ law'.admitFrame K tb g = .ok q ∧
        SamePacketShape p q) ∨
      ∃ err err', law.admitFrame K tb f = .error err ∧ law'.admitFrame K tb g = .error err' ∧
        err.kind = err'.kind := by
  match f, g, h with
  | .nonAudio, .nonAudio, _ =>
    exact Or.inr ⟨_, _, rfl, rfl, by cases law <;> cases law' <;> rfl⟩
  | .audio ⟨samples, pts, data⟩, .audio ⟨_, _, data'⟩, ⟨rfl, rfl, hlen⟩ =>
    cases data with
    | nil =>
      obtain rfl : data' = [] := by simpa using hlen.symm
      exact Or.inr ⟨_, _, rfl, rfl, by cases law <;> cases law' <;> rfl⟩
    | cons bytes rest =>
      cases data' with
      | nil => simp at hlen
      | cons bytes' rest' =>
        have hbytes : bytes.length = bytes'.length := by simpa using (List.cons.inj hlen).1
        simp only [Law.admitFrame, hbytes]
        by_cases heven : 2 ∣ bytes'.length
        · refine Or.inl ⟨_, _, if_pos heven, if_pos heven, ⟨?_, by simp [hbytes]⟩⟩
          simp [Law.packetOf]
        · refine Or.inr ⟨_, _, if_neg heven, if_neg heven, ?_⟩
          cases law <;> cases law' <;> rfl

/-- Queues of packets of one shape stay so. -/
theorem queue_next {q q' : List Packet} {op op' : EncoderOp}
    (h : List.Forall₂ SamePacketShape q q') (hop : op.Match op') (law law' : Law) :
    List.Forall₂ SamePacketShape
      ((AdmittingQueue.machine (law.admitFrame K tb)).next q op.toQueue)
      ((AdmittingQueue.machine (law'.admitFrame K tb)).next q' op'.toQueue) := by
  match op, op', hop with
  | .sendFrame f, .sendFrame g, hfg =>
    rcases admitFrame_agree K tb law law' hfg with
      ⟨p, p', hf, hg, hp⟩ | ⟨err, err', hf, hg, -⟩
    · simp only [AdmittingQueue.machine, EncoderOp.toQueue, hf, hg]
      exact List.rel_append h (.cons hp .nil)
    · simpa only [AdmittingQueue.machine, EncoderOp.toQueue, hf, hg] using h
  | .receivePacket, .receivePacket, _ =>
    cases h with
    | nil => exact .nil
    | cons _ htail => exact htail
  | .flush, .flush, _ => exact h

theorem queue_agree {q q' : List Packet} {op op' : EncoderOp}
    (h : List.Forall₂ SamePacketShape q q') (hop : op.Match op') (law law' : Law) :
    (ofQueue ((AdmittingQueue.machine (law.admitFrame K tb)).answer q op.toQueue)).Agree
      (ofQueue ((AdmittingQueue.machine (law'.admitFrame K tb)).answer q' op'.toQueue)) := by
  match op, op', hop with
  | .sendFrame f, .sendFrame g, hfg =>
    rcases admitFrame_agree K tb law law' hfg with
      ⟨p, p', hf, hg, -⟩ | ⟨err, err', hf, hg, hkind⟩
    · simp only [AdmittingQueue.machine, EncoderOp.toQueue, hf, hg]
      rfl
    · simp only [AdmittingQueue.machine, EncoderOp.toQueue, hf, hg]
      exact hkind
  | .receivePacket, .receivePacket, _ =>
    cases h with
    | nil => rfl
    | cons hhead _ => exact hhead
  | .flush, .flush, _ => rfl

/-- A µ-law and an A-law encoder with one time base, one set of output parameters and queues of
packets of one shape. -/
structure MatchedEncoders (tb : TimeBase) (out : CodecParameters) (e e' : BoxEncoder) : Prop where
  has : e.Has .mulaw tb out
  has' : e'.Has .alaw tb out
  queue : List.Forall₂ SamePacketShape e.queue e'.queue

theorem MatchedEncoders.next {e e' : BoxEncoder} {op op' : EncoderOp}
    (h : MatchedEncoders tb out e e') (hop : op.Match op') :
    MatchedEncoders tb out ((encoderMachine K).next e op) ((encoderMachine K).next e' op') := by
  have hstate : (encoderMachine K).next e op = _ := e.call_state K op
  have hstate' : (encoderMachine K).next e' op' = _ := e'.call_state K op'
  rw [hstate, hstate', h.has.law_eq, h.has.timeBase_eq, h.has'.law_eq, h.has'.timeBase_eq]
  refine ⟨h.has.withQueue _, h.has'.withQueue _, ?_⟩
  rw [BoxEncoder.queue_withQueue, BoxEncoder.queue_withQueue]
  exact queue_next h.queue hop .mulaw .alaw

theorem MatchedEncoders.agree {e e' : BoxEncoder} {op op' : EncoderOp}
    (h : MatchedEncoders tb out e e') (hop : op.Match op') :
    ((encoderMachine K).answer e op).Agree ((encoderMachine K).answer e' op') := by
  have hans : (encoderMachine K).answer e op = _ := e.call_answer K op
  have hans' : (encoderMachine K).answer e' op' = _ := e'.call_answer K op'
  rw [hans, hans', h.has.law_eq, h.has.timeBase_eq, h.has'.law_eq, h.has'.timeBase_eq]
  exact queue_agree h.queue hop .mulaw .alaw

/-- Matched encoders answer matching calls alike, and stay matched. -/
theorem MatchedEncoders.run {e e' : BoxEncoder} (h : MatchedEncoders tb out e e')
    {ops ops' : List EncoderOp} (hops : List.Forall₂ EncoderOp.Match ops ops') :
    List.Forall₂ EncoderAnswer.Agree ((encoderMachine K).answers e ops)
        ((encoderMachine K).answers e' ops') ∧
      MatchedEncoders tb out ((encoderMachine K).final e ops)
        ((encoderMachine K).final e' ops') :=
  have hnext := fun _ _ _ _ (h : MatchedEncoders tb out _ _) hop => h.next (K := K) hop
  ⟨Mealy.forall₂_trace hnext (fun _ _ _ _ h hop => h.agree hop) h hops,
    Mealy.final_related hnext h hops⟩

/-! ### The bisimulation -/

/-- Whether the two factories succeed and what the two wrappers answer, for one set of
parameters. -/
structure WrappersBisimilar (K : OxideavCore) (params : CodecParameters) : Prop where
  /-- Both decoder factories succeed or fail in one kind of error; and the decoders answer matching
  calls alike. -/
  decoders : Outcome.Agree
    (fun d d' => ∀ ops ops', List.Forall₂ DecoderOp.Match ops ops' →
      List.Forall₂ DecoderAnswer.Agree (decoderMachine.answers d ops)
        (decoderMachine.answers d' ops'))
    (Law.mulaw.makeDecoder params) (Law.alaw.makeDecoder params)
  /-- Both encoder factories succeed or fail in one kind of error; and the encoders answer matching
  calls alike and report the same parameters. -/
  encoders : Outcome.Agree
    (fun e e' => ∀ ops ops', List.Forall₂ EncoderOp.Match ops ops' →
      List.Forall₂ EncoderAnswer.Agree ((encoderMachine K).answers e ops)
        ((encoderMachine K).answers e' ops') ∧
      ((encoderMachine K).final e ops).outputParams
        = ((encoderMachine K).final e' ops').outputParams)
    (Law.mulaw.makeEncoder K params) (Law.alaw.makeEncoder K params)

/-- **The wrappers of the two laws are bisimilar**, for every set of parameters. -/
theorem wrappers_bisimilar (K : OxideavCore) (params : CodecParameters) :
    WrappersBisimilar K params where
  decoders := by
    rw [Law.makeDecoder_eq, Law.makeDecoder_eq]
    by_cases hc : params.channels.getD 1 = 0
    · rw [if_pos hc, if_pos hc]
      rfl
    · rw [if_neg hc, if_neg hc]
      intro ops ops' hops
      have hstart : MatchedDecoders (params.channels.getD 1) (Law.mulaw.newDecoder params)
          (Law.alaw.newDecoder params) := ⟨⟨rfl, rfl⟩, ⟨rfl, rfl⟩, ⟨.none, rfl⟩⟩
      exact hstart.run hc hops
  encoders := by
    rw [Law.makeEncoder_eq, Law.makeEncoder_eq]
    by_cases hc : params.channels.getD 1 = 0
    · rw [if_pos hc, if_pos hc]
      rfl
    · rw [if_neg hc, if_neg hc]
      by_cases hf : params.sampleFormat.getD .s16 ≠ .s16
      · rw [if_pos hf, if_pos hf]
        rfl
      · rw [if_neg hf, if_neg hf]
        intro ops ops' hops
        have hstart : MatchedEncoders (timeBaseOf K params) (outputOf params)
            (Law.mulaw.newEncoder K params) (Law.alaw.newEncoder K params) :=
          ⟨⟨rfl, rfl, rfl⟩, ⟨rfl, rfl, rfl⟩, .nil⟩
        obtain ⟨hagree, hfinal⟩ := hstart.run (K := K) hops
        exact ⟨hagree, by rw [hfinal.has.outputParams_eq, hfinal.has'.outputParams_eq]⟩

end G711
