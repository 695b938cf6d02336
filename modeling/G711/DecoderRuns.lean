import G711.Wrappers

/-!
# Runs of a decoder

For any finite sequence of `send_packet`, `receive_frame` and `flush` on a decoder that a factory
returned.  `acceptedPackets` and `replies` are the two histories of a run: the packets whose
`send_packet` succeeded, and what `receive_frame` gave other than `NeedMore` and `Eof`.
`decoder_history` relates them through the pending slot; everything else is read off it.
-/

namespace G711

open Slices

/-- The packet that a call got accepted. -/
def acceptedPacket : DecoderOp × DecoderAnswer → Option Packet
  | (.sendPacket p, .sent (.ok ())) => some p
  | _ => none

/-- What a call gave for a packet: a frame or an error other than `NeedMore` and `Eof`. -/
def reply : DecoderOp × DecoderAnswer → Option (Outcome Frame)
  | (_, .received (.error (.err .needMore))) => none
  | (_, .received (.error (.err .eof))) => none
  | (_, .received r) => some r
  | _ => none

/-- The packets accepted in a run, in order. -/
def acceptedPackets (d : BoxDecoder) (ops : List DecoderOp) : List Packet :=
  (decoderMachine.trace d ops).filterMap acceptedPacket

/-- The replies given in a run, in order. -/
def replies (d : BoxDecoder) (ops : List DecoderOp) : List (Outcome Frame) :=
  (decoderMachine.trace d ops).filterMap reply

theorem acceptedPacket_ofSlot (law : Law) (ch : UInt16) (op : DecoderOp)
    (b : Slot.Answer Packet) : acceptedPacket (op, law.ofSlot ch b) = Slot.putOp (op.toSlot, b) := by
  cases op <;> cases b <;> rfl

theorem reply_ofSlot (law : Law) (ch : UInt16) (op : DecoderOp) (b : Slot.Answer Packet) :
    reply (op, law.ofSlot ch b) = (Slot.takenOp (op.toSlot, b)).map (law.decodePacket ch) := by
  cases b with
  | item pkt =>
    -- the answer to a packet is never `NeedMore` or `Eof`, so it counts as a reply
    show reply (op, .received (law.decodePacket ch pkt))
      = (Slot.takenOp (op.toSlot, .item pkt)).map (law.decodePacket ch)
    rcases law.decodePacket_cases ch pkt with h | ⟨msg, h⟩ <;> cases op <;>
      simp [reply, Slot.takenOp, h]
  | accepted => cases op <;> rfl
  | busy => cases op <;> rfl
  | empty => cases op <;> rfl
  | closed => cases op <;> rfl
  | done => cases op <;> rfl

/-! ### The slot after a run -/

section Run

variable {law : Law} {ch : UInt16} {d : BoxDecoder}

theorem has_final (hd : d.Has law ch) (ops : List DecoderOp) :
    (decoderMachine.final d ops).Has law ch :=
  decoderMachine.final_invariant (I := fun d => d.Has law ch)
    (fun _ op h => BoxDecoder.has_call h op) hd ops

theorem slot_final (hd : d.Has law ch) (hch : ch ≠ 0) (ops : List DecoderOp) :
    (decoderMachine.final d ops).slot
      = (Slot.machine Packet).final d.slot (ops.map DecoderOp.toSlot) :=
  (decoderRefines law hch).abs_final hd ops

/-- Responses depend on a decoder only through its law, its channel count and its slot. -/
theorem answers_eq_of_slot_eq {d' : BoxDecoder} (hd : d.Has law ch) (hd' : d'.Has law ch)
    (hch : ch ≠ 0) (h : d.slot = d'.slot) (ops : List DecoderOp) :
    decoderMachine.answers d ops = decoderMachine.answers d' ops := by
  rw [(decoderRefines law hch).answers_eq hd ops, (decoderRefines law hch).answers_eq hd' ops]
  exact congrArg (fun s => (((Slot.machine Packet).answers s _).map (law.ofSlot ch))) h

theorem closed_final (hd : d.Has law ch) (hch : ch ≠ 0) (ops : List DecoderOp) :
    (decoderMachine.final d ops).slot.closed = (d.slot.closed || ops.any (· = .flush)) := by
  have hop : Slot.Op.isClose ∘ DecoderOp.toSlot = fun op => decide (op = .flush) := by
    funext op
    cases op <;> rfl
  rw [slot_final hd hch, Slot.closed_final, List.any_map, hop]

theorem acceptedPackets_eq (hd : d.Has law ch) (hch : ch ≠ 0) (ops : List DecoderOp) :
    acceptedPackets d ops
      = ((Slot.machine Packet).trace d.slot (ops.map DecoderOp.toSlot)).filterMap Slot.putOp :=
  (decoderRefines law hch).filterMap_trace (acceptedPacket_ofSlot law ch) hd ops

/-- The accepted packets are those already answered, in order, followed by the pending one. -/
theorem decoder_history (hd : d.Has law ch) (hch : ch ≠ 0) (hs : d.slot = .init)
    (ops : List DecoderOp) :
    ∃ taken, acceptedPackets d ops = taken ++ (decoderMachine.final d ops).pending.toList ∧
      replies d ops = taken.map (law.decodePacket ch) := by
  have hreply : replies d ops
      = ((Slot.machine Packet).trace d.slot (ops.map DecoderOp.toSlot)).filterMap
          fun x => (Slot.takenOp x).map (law.decodePacket ch) :=
    (decoderRefines law hch).filterMap_trace (reply_ofSlot law ch) hd ops
  have hcons := Slot.conservation d.slot (ops.map DecoderOp.toSlot)
  rw [← slot_final hd hch, ← acceptedPackets_eq hd hch, hs] at hcons
  refine ⟨((Slot.machine Packet).trace d.slot (ops.map DecoderOp.toSlot)).filterMap Slot.takenOp,
    hs ▸ hcons, ?_⟩
  rw [hreply, List.map_filterMap]

/-- The packet whose reply is outstanding is the pending one. -/
theorem outstanding_eq_pending (hd : d.Has law ch) (hch : ch ≠ 0) (hs : d.slot = .init)
    (ops : List DecoderOp) :
    (acceptedPackets d ops)[(replies d ops).length]? = (decoderMachine.final d ops).pending := by
  obtain ⟨taken, hacc, hrep⟩ := decoder_history hd hch hs ops
  rw [hacc, hrep, List.length_map, List.getElem?_append_right le_rfl, Nat.sub_self]
  cases (decoderMachine.final d ops).pending <;> rfl

/-- The slot is filled exactly when an accepted packet has no reply yet. -/
theorem pending_isSome_iff (hd : d.Has law ch) (hch : ch ≠ 0) (hs : d.slot = .init)
    (ops : List DecoderOp) :
    (decoderMachine.final d ops).pending.isSome ↔
      (replies d ops).length < (acceptedPackets d ops).length := by
  rw [← outstanding_eq_pending hd hch hs, isSome_getElem?]

/-- The slot is empty exactly when every accepted packet has its reply. -/
theorem pending_eq_none_iff (hd : d.Has law ch) (hch : ch ≠ 0) (hs : d.slot = .init)
    (ops : List DecoderOp) :
    (decoderMachine.final d ops).pending = none ↔
      (replies d ops).length = (acceptedPackets d ops).length := by
  obtain ⟨taken, hacc, hrep⟩ := decoder_history hd hch hs ops
  rw [hacc, hrep, List.length_map, List.length_append]
  cases (decoderMachine.final d ops).pending <;> simp

/-! ### Responses after a run -/

theorem answer_sendPacket (hd : d.Has law ch) (hch : ch ≠ 0) (hs : d.slot = .init)
    (ops : List DecoderOp) (p : Packet) :
    decoderMachine.answer (decoderMachine.final d ops) (.sendPacket p)
      = .sent (if (replies d ops).length < (acceptedPackets d ops).length
          then .error (.err law.busyError) else .ok ()) := by
  show DecoderAnswer.sent ((decoderMachine.final d ops).sendPacket p).1 = _
  rw [BoxDecoder.sendPacket_eq, (has_final hd ops).law_eq]
  exact congrArg _ (if_congr (pending_isSome_iff hd hch hs ops) rfl rfl)

theorem answer_receiveFrame (hd : d.Has law ch) (hch : ch ≠ 0) (hs : d.slot = .init)
    (ops : List DecoderOp) :
    decoderMachine.answer (decoderMachine.final d ops) .receiveFrame
      = .received (match (acceptedPackets d ops)[(replies d ops).length]? with
        | some p => law.decodePacket ch p
        | none => if DecoderOp.flush ∈ ops then .error (.err .eof)
          else .error (.err .needMore)) := by
  have hfin := has_final hd ops
  show DecoderAnswer.received (decoderMachine.final d ops).receiveFrame.1 = _
  rw [outstanding_eq_pending hd hch hs]
  cases hp : (decoderMachine.final d ops).pending with
  | none =>
    rw [BoxDecoder.receiveFrame_of_empty hp, closed_final hd hch, hs]
    simp [Slot.State.init]
  | some p =>
    rw [BoxDecoder.receiveFrame_of_pending hp (by rwa [hfin.channels_eq]), hfin.law_eq,
      hfin.channels_eq]

theorem noPanic_answer (hd : d.Has law ch) (hch : ch ≠ 0) (op : DecoderOp) :
    (decoderMachine.answer d op).NoPanic := by
  have hans : decoderMachine.answer d op = _ := BoxDecoder.call_answer hch hd op
  rw [hans]
  cases (Slot.machine Packet).answer d.slot op.toSlot with
  | item p =>
    rcases law.decodePacket_cases ch p with h | ⟨msg, h⟩ <;>
      simp [Law.ofSlot, DecoderAnswer.NoPanic, h]
  | accepted => simp [Law.ofSlot, DecoderAnswer.NoPanic]
  | busy => simp [Law.ofSlot, DecoderAnswer.NoPanic]
  | empty => simp [Law.ofSlot, DecoderAnswer.NoPanic]
  | closed => simp [Law.ofSlot, DecoderAnswer.NoPanic]
  | done => simp [Law.ofSlot, DecoderAnswer.NoPanic]

/-! ### Erased calls -/

/-- A refused `send_packet` leaves the decoder as it was. -/
theorem final_refused (p : Packet)
    (h : ∃ e, decoderMachine.answer d (.sendPacket p) = .sent (.error e)) :
    decoderMachine.final d [.sendPacket p] = d := by
  obtain ⟨e, he⟩ := h
  cases hp : d.pending with
  | none =>
    have hsent : DecoderAnswer.sent (d.sendPacket p).1 = .sent (.error e) := he
    rw [BoxDecoder.sendPacket_of_empty hp] at hsent
    cases hsent
  | some q =>
    show (d.sendPacket p).2 = d
    rw [BoxDecoder.sendPacket_of_pending hp]

/-- `receive_frame` always leaves the slot empty. -/
theorem slot_final_receive (mid : List DecoderOp) :
    (decoderMachine.final d (mid ++ [.receiveFrame])).slot
      = ⟨none, (decoderMachine.final d mid).slot.closed⟩ := by
  rw [Mealy.final_append]
  have hstate := (decoderMachine.final d mid).call_state .receiveFrame
  exact (congrArg BoxDecoder.slot hstate).trans (BoxDecoder.slot_withSlot _ _)

/-- Once a packet has been answered, the decoder responds as if it had never been sent. -/
theorem answers_after_reply (hd : d.Has law ch) (hch : ch ≠ 0) (p : Packet)
    (mid post : List DecoderOp) :
    decoderMachine.answers (decoderMachine.final d (.sendPacket p :: (mid ++ [.receiveFrame]))) post
      = decoderMachine.answers (decoderMachine.final d (mid ++ [.receiveFrame])) post := by
  refine answers_eq_of_slot_eq (has_final hd _) (has_final hd _) hch ?_ post
  rw [← List.cons_append, slot_final_receive, slot_final_receive, closed_final hd hch,
    closed_final hd hch]
  simp

/-- A flushed decoder gives the responses that it would have given, with `Eof` for `NeedMore`. -/
def DecoderAnswer.afterFlush : DecoderAnswer → DecoderAnswer
  | .received (.error (.err .needMore)) => .received (.error (.err .eof))
  | b => b

theorem ofSlot_close (b : Slot.Answer Packet) :
    law.ofSlot ch b.close = (law.ofSlot ch b).afterFlush := by
  cases b with
  | item p =>
    rcases law.decodePacket_cases ch p with h | ⟨msg, h⟩ <;>
      simp [Slot.Answer.close, Law.ofSlot, DecoderAnswer.afterFlush, h]
  | accepted => rfl
  | busy => rfl
  | empty => rfl
  | closed => rfl
  | done => rfl

theorem answers_after_flush (hd : d.Has law ch) (hch : ch ≠ 0) (post : List DecoderOp) :
    decoderMachine.answers (decoderMachine.final d [.flush]) post
      = (decoderMachine.answers d post).map DecoderAnswer.afterFlush := by
  have hslot : (decoderMachine.final d [.flush]).slot = { d.slot with closed := true } := by
    rw [slot_final hd hch]
    rfl
  have h₁ : decoderMachine.answers (decoderMachine.final d [.flush]) post
      = ((Slot.machine Packet).answers (decoderMachine.final d [.flush]).slot
          (post.map DecoderOp.toSlot)).map (law.ofSlot ch) :=
    (decoderRefines law hch).answers_eq (has_final hd [.flush]) post
  have h₂ : decoderMachine.answers d post
      = ((Slot.machine Packet).answers d.slot (post.map DecoderOp.toSlot)).map (law.ofSlot ch) :=
    (decoderRefines law hch).answers_eq hd post
  rw [h₁, h₂, hslot, Slot.answers_close, List.map_map, List.map_map]
  exact List.map_congr_left fun b _ => ofSlot_close b

/-- A packet is accepted only into an empty slot. -/
theorem pending_of_accepted {p : Packet}
    (h : decoderMachine.answer d (.sendPacket p) = .sent (.ok ())) : d.pending = none := by
  cases hp : d.pending with
  | none => rfl
  | some q =>
    have hsent : DecoderAnswer.sent (d.sendPacket p).1 = .sent (.ok ()) := h
    rw [BoxDecoder.sendPacket_of_pending hp] at hsent
    cases hsent

/-- Until `receive_frame` is called, an accepted packet stays in the slot. -/
theorem pending_after_send (hd : d.Has law ch) (hch : ch ≠ 0) {p : Packet}
    (h : decoderMachine.answer d (.sendPacket p) = .sent (.ok ())) {mid : List DecoderOp}
    (hmid : DecoderOp.receiveFrame ∉ mid) :
    (decoderMachine.final d (.sendPacket p :: mid)).pending = some p := by
  have hempty : d.slot.held = none := pending_of_accepted h
  have hput : ((Slot.machine Packet).next d.slot (.put p)).held = some p := by
    simp [Slot.machine, hempty]
  have htake : Slot.Op.take ∉ mid.map DecoderOp.toSlot := by
    intro hm
    obtain ⟨op, hop, heq⟩ := List.mem_map.1 hm
    cases op <;> simp [DecoderOp.toSlot] at heq
    exact hmid hop
  rw [BoxDecoder.pending, slot_final hd hch]
  exact Slot.held_final_of_no_take hput htake

/-- The reply to an accepted packet, whatever was called since, is the one for that packet. -/
theorem answer_after_send (hd : d.Has law ch) (hch : ch ≠ 0) {p : Packet}
    (h : decoderMachine.answer d (.sendPacket p) = .sent (.ok ())) {mid : List DecoderOp}
    (hmid : DecoderOp.receiveFrame ∉ mid) :
    decoderMachine.answer (decoderMachine.final d (.sendPacket p :: mid)) .receiveFrame
      = .received (law.decodePacket ch p) := by
  have hfin := has_final hd (.sendPacket p :: mid)
  have hreply := BoxDecoder.receiveFrame_of_pending (pending_after_send hd hch h hmid)
    (by rwa [hfin.channels_eq])
  rw [hfin.law_eq, hfin.channels_eq] at hreply
  exact congrArg DecoderAnswer.received hreply

/-- Once an accepted packet has been answered, the decoder responds as if neither the packet nor
the sends refused meanwhile nor the reply had been there; only the flushes count. -/
theorem answers_after_exchange (hd : d.Has law ch) (hch : ch ≠ 0) {p : Packet}
    (h : decoderMachine.answer d (.sendPacket p) = .sent (.ok ())) (mid post : List DecoderOp) :
    decoderMachine.answers (decoderMachine.final d (.sendPacket p :: (mid ++ [.receiveFrame]))) post
      = decoderMachine.answers (decoderMachine.final d (mid.filter (· = .flush))) post := by
  refine answers_eq_of_slot_eq (has_final hd _) (has_final hd _) hch ?_ post
  -- flushes alone leave the slot as empty as it was
  have hheld : (decoderMachine.final d (mid.filter (· = .flush))).slot.held = none := by
    rw [slot_final hd hch, Slot.held_final_of_closes, ← pending_of_accepted h]
    · rfl
    · intro i hi
      obtain ⟨op, hop, rfl⟩ := List.mem_map.1 hi
      simp only [List.mem_filter, decide_eq_true_eq] at hop
      rw [hop.2]
      rfl
  have hclosed : (decoderMachine.final d (.sendPacket p :: mid)).slot.closed
      = (decoderMachine.final d (mid.filter (· = .flush))).slot.closed := by
    rw [closed_final hd hch, closed_final hd hch, List.any_filter]
    simp
  rw [← List.cons_append, slot_final_receive, hclosed, ← hheld]

end Run

/-! ### The run law -/

/-- What holds after the calls `ops` on a decoder `d` of `law` with `ch` channels. -/
structure DecoderRunLaw (law : Law) (ch : UInt16) (d : BoxDecoder) (ops : List DecoderOp) :
    Prop where
  /-- `send_packet` is refused exactly when an accepted packet has no reply yet. -/
  send_iff : ∀ p, decoderMachine.answer (decoderMachine.final d ops) (.sendPacket p)
    = .sent (if (replies d ops).length < (acceptedPackets d ops).length
        then .error (.err law.busyError) else .ok ())
  /-- A refused `send_packet` changes no later response. -/
  refused_erased : ∀ p post,
    (∃ e, decoderMachine.answer (decoderMachine.final d ops) (.sendPacket p) = .sent (.error e)) →
    decoderMachine.answers (decoderMachine.final d (ops ++ [.sendPacket p])) post
      = decoderMachine.answers (decoderMachine.final d ops) post
  /-- The replies are, in order, those to the first accepted packets; at most one is missing. -/
  replies_eq : replies d ops
    = ((acceptedPackets d ops).take (replies d ops).length).map (law.decodePacket ch)
  replies_length : (replies d ops).length ≤ (acceptedPackets d ops).length ∧
    (acceptedPackets d ops).length ≤ (replies d ops).length + 1
  /-- `receive_frame` gives the missing reply; with none missing, `NeedMore` before the first
  `flush` and `Eof` ever after. -/
  receive_eq : decoderMachine.answer (decoderMachine.final d ops) .receiveFrame
    = .received (match (acceptedPackets d ops)[(replies d ops).length]? with
      | some p => law.decodePacket ch p
      | none => if DecoderOp.flush ∈ ops then .error (.err .eof) else .error (.err .needMore))
  /-- A packet of the wrong length is answered by the invalid-data error, and every later response
  is the one of the run without that packet, and of the run that also lacks the sends it got
  refused and its reply. -/
  malformed_erased : ∀ p mid post,
    decoderMachine.answer (decoderMachine.final d ops) (.sendPacket p) = .sent (.ok ()) →
    ¬ ch.toNat ∣ p.data.length → DecoderOp.receiveFrame ∉ mid →
    decoderMachine.answer (decoderMachine.final d (ops ++ .sendPacket p :: mid)) .receiveFrame
      = .received (.error (.err (law.lengthError p.data.length ch.toNat))) ∧
    decoderMachine.answers
        (decoderMachine.final d (ops ++ .sendPacket p :: (mid ++ [.receiveFrame]))) post
      = decoderMachine.answers (decoderMachine.final d (ops ++ (mid ++ [.receiveFrame]))) post ∧
    decoderMachine.answers
        (decoderMachine.final d (ops ++ .sendPacket p :: (mid ++ [.receiveFrame]))) post
      = decoderMachine.answers (decoderMachine.final d (ops ++ mid.filter (· = .flush))) post
  /-- `flush` succeeds, and all it changes is that `NeedMore` becomes `Eof`. -/
  flush_eq : decoderMachine.answer (decoderMachine.final d ops) .flush = .flushed (.ok ())
  flush_transparent : ∀ post,
    decoderMachine.answers (decoderMachine.final d (ops ++ [.flush])) post
      = (decoderMachine.answers (decoderMachine.final d ops) post).map DecoderAnswer.afterFlush
  /-- No call panics. -/
  no_panic : ∀ op, (decoderMachine.answer (decoderMachine.final d ops) op).NoPanic

/-- **Every run of a decoder that a factory returns obeys the run law.** -/
theorem decoder_run_law {law : Law} {params : CodecParameters} {d : BoxDecoder}
    (h : law.makeDecoder params = .ok d) (ops : List DecoderOp) :
    DecoderRunLaw law (params.channels.getD 1) d ops := by
  obtain ⟨hd, hch, hs⟩ := Law.makeDecoder_spec h
  have hfin := has_final hd ops
  obtain ⟨taken, hacc, hrep⟩ := decoder_history hd hch hs ops
  have hlen : (replies d ops).length = taken.length := by rw [hrep, List.length_map]
  constructor
  case send_iff => exact answer_sendPacket hd hch hs ops
  case refused_erased =>
    intro p post hp
    rw [Mealy.final_append, final_refused p hp]
  case replies_eq => rw [hlen, hacc, List.take_left, hrep]
  case replies_length =>
    rw [hlen, hacc, List.length_append]
    cases (decoderMachine.final d ops).pending <;> simp
  case receive_eq => exact answer_receiveFrame hd hch hs ops
  case malformed_erased =>
    intro p mid post hp hlen hmid
    simp only [Mealy.final_append decoderMachine d ops]
    refine ⟨?_, answers_after_reply hfin hch p mid post,
      answers_after_exchange hfin hch hp mid post⟩
    rw [answer_after_send hfin hch hp hmid, Law.decodePacket, if_neg hlen]
  case flush_eq =>
    show DecoderAnswer.flushed ((decoderMachine.final d ops).flush).1 = _
    cases decoderMachine.final d ops <;> rfl
  case flush_transparent =>
    intro post
    rw [Mealy.final_append]
    exact answers_after_flush hfin hch post
  case no_panic => exact noPanic_answer hfin hch

/-- A stereo A-law decoder after a one-byte packet, its reply and a flush. -/
theorem decoder_run_law_stereo :
    DecoderRunLaw .alaw 2 (.alaw ⟨"g711", 2, none, false⟩)
      [.sendPacket (OxideavCore.plain.packetNew 0 ⟨1, 8000⟩ [0xD5]), .receiveFrame, .flush] :=
  @decoder_run_law .alaw stereo _ rfl _

end G711
