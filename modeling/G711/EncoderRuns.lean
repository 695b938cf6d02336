import G711.Wrappers

/-!
# Runs of an encoder

For any finite sequence of `send_frame`, `receive_packet` and `flush` on an encoder that a factory
returned.  `acceptedFrames` and `returnedPackets` are the two histories of a run; by
`encoder_history` the packets returned and those still queued are, one by one, the packets of the
accepted frames.
-/

namespace G711

open Slices

/-- The frame that a call got accepted. -/
def acceptedFrame : EncoderOp × EncoderAnswer → Option Frame
  | (.sendFrame f, .sent (.ok ())) => some f
  | _ => none

/-- The packet that a call returned. -/
def returnedPacket : EncoderOp × EncoderAnswer → Option Packet
  | (_, .received (.ok p)) => some p
  | _ => none

/-- The frames accepted in a run, in order. -/
def acceptedFrames (K : OxideavCore) (e : BoxEncoder) (ops : List EncoderOp) : List Frame :=
  ((encoderMachine K).trace e ops).filterMap acceptedFrame

/-- The packets returned in a run, in order. -/
def returnedPackets (K : OxideavCore) (e : BoxEncoder) (ops : List EncoderOp) : List Packet :=
  ((encoderMachine K).trace e ops).filterMap returnedPacket

/-- A refused `send_frame`. -/
def isRefusedSend : EncoderOp × EncoderAnswer → Bool
  | (.sendFrame _, .sent (.error _)) => true
  | _ => false

theorem acceptedFrame_ofQueue (op : EncoderOp) (b : AdmittingQueue.Answer Packet Error) :
    acceptedFrame (op, ofQueue b) = AdmittingQueue.acceptedOp (op.toQueue, b) := by
  cases op <;> cases b <;> rfl

theorem returnedPacket_ofQueue (op : EncoderOp) (b : AdmittingQueue.Answer Packet Error) :
    returnedPacket (op, ofQueue b) = AdmittingQueue.handedOp (op.toQueue, b) := by
  cases op <;> cases b <;> rfl

/-! ### The check of `send_frame` -/

/-- A frame that `send_frame` accepts: audio, with a first plane of an even number of bytes. -/
def Sendable : Frame → Prop
  | .nonAudio => False
  | .audio a => ∃ bytes rest, a.data = bytes :: rest ∧ 2 ∣ bytes.length

/-- The packet of an accepted frame, field by field. -/
structure IsPacketOf (law : Law) (tb : TimeBase) (a : AudioFrame) (p : Packet) : Prop where
  data_eq : ∃ bytes rest, a.data = bytes :: rest ∧ 2 ∣ bytes.length ∧
    p.data = (samples bytes).map law.encodeSample
  pts_eq : p.pts = a.pts
  dts_eq : p.dts = a.pts
  duration_eq : p.duration.map Int64.toInt = some (a.samples.toNat : ℤ)
  keyframe_eq : p.flags.keyframe = true
  timeBase_eq : p.timeBase = tb

/-- The cast of a `u32` to `i64` keeps its value. -/
theorem toInt_toInt64 (n : UInt32) : n.toUInt64.toInt64.toInt = (n.toNat : ℤ) := by
  have hn : n.toNat < 4294967296 := n.toNat_lt
  rw [← Int64.toInt_toBitVec, UInt64.toBitVec_toInt64, UInt32.toBitVec_toUInt64,
    BitVec.toInt_setWidth]
  simp only [UInt32.toNat_toBitVec]
  rw [Int.bmod_eq_of_le] <;> omega

variable {K : OxideavCore} {law : Law} {tb : TimeBase}

theorem admitFrame_eq_ok {f : Frame} {p : Packet} (h : law.admitFrame K tb f = .ok p) :
    ∃ a bytes rest, f = .audio a ∧ a.data = bytes :: rest ∧ 2 ∣ bytes.length ∧
      p = law.packetOf K tb a bytes := by
  cases f with
  | nonAudio => cases h
  | audio a =>
    cases hdata : a.data with
    | nil => simp [Law.admitFrame, hdata] at h
    | cons bytes rest =>
      simp only [Law.admitFrame, hdata] at h
      split_ifs at h with heven
      cases h
      exact ⟨a, bytes, rest, rfl, hdata, heven, rfl⟩

theorem admitFrame_ok_iff (K : OxideavCore) (law : Law) (tb : TimeBase) (f : Frame) :
    (∃ p, law.admitFrame K tb f = .ok p) ↔ Sendable f := by
  constructor
  · rintro ⟨p, hp⟩
    obtain ⟨a, bytes, rest, rfl, hdata, heven, -⟩ := admitFrame_eq_ok hp
    exact ⟨bytes, rest, hdata, heven⟩
  · intro h
    cases f with
    | nonAudio => exact h.elim
    | audio a =>
      obtain ⟨bytes, rest, hdata, heven⟩ := h
      exact ⟨law.packetOf K tb a bytes, by simp [Law.admitFrame, hdata, heven]⟩

theorem isPacketOf_packetOf {a : AudioFrame} {bytes : List UInt8} {rest : List (List UInt8)}
    (hdata : a.data = bytes :: rest) (heven : 2 ∣ bytes.length) :
    IsPacketOf law tb a (law.packetOf K tb a bytes) where
  data_eq := ⟨bytes, rest, hdata, heven, by
    rw [Law.packetOf_data, Law.encodePlane, Law.encodeSample_eq]⟩
  pts_eq := rfl
  dts_eq := rfl
  duration_eq := congrArg some (toInt_toInt64 a.samples)
  keyframe_eq := rfl
  timeBase_eq := Law.packetOf_timeBase K law tb a bytes

/-! ### Histories -/

section Run

variable {out : CodecParameters} {e : BoxEncoder}

theorem encoder_has_final (he : e.Has law tb out) (ops : List EncoderOp) :
    ((encoderMachine K).final e ops).Has law tb out :=
  (encoderRefines K law tb out).inv_final he ops

theorem queue_final (he : e.Has law tb out) (ops : List EncoderOp) :
    ((encoderMachine K).final e ops).queue
      = (AdmittingQueue.machine (law.admitFrame K tb)).final e.queue (ops.map EncoderOp.toQueue) :=
  (encoderRefines K law tb out).abs_final he ops

theorem acceptedFrames_eq (he : e.Has law tb out) (ops : List EncoderOp) :
    acceptedFrames K e ops = ((AdmittingQueue.machine (law.admitFrame K tb)).trace e.queue
      (ops.map EncoderOp.toQueue)).filterMap AdmittingQueue.acceptedOp :=
  (encoderRefines K law tb out).filterMap_trace acceptedFrame_ofQueue he ops

theorem returnedPackets_eq (he : e.Has law tb out) (ops : List EncoderOp) :
    returnedPackets K e ops = ((AdmittingQueue.machine (law.admitFrame K tb)).trace e.queue
      (ops.map EncoderOp.toQueue)).filterMap AdmittingQueue.handedOp :=
  (encoderRefines K law tb out).filterMap_trace returnedPacket_ofQueue he ops

/-- What was returned and what is still queued are, in order, the packets of the accepted
frames. -/
theorem encoder_history (he : e.Has law tb out) (hq : e.queue = []) (ops : List EncoderOp) :
    List.Forall₂ (fun f p => law.admitFrame K tb f = .ok p) (acceptedFrames K e ops)
      (returnedPackets K e ops ++ ((encoderMachine K).final e ops).queue) := by
  rw [acceptedFrames_eq he, returnedPackets_eq he, queue_final he, hq]
  exact AdmittingQueue.accepted_handed _ _

theorem queue_eq_nil_iff (he : e.Has law tb out) (hq : e.queue = []) (ops : List EncoderOp) :
    ((encoderMachine K).final e ops).queue = [] ↔
      (returnedPackets K e ops).length = (acceptedFrames K e ops).length := by
  rw [acceptedFrames_eq he, returnedPackets_eq he, queue_final he, hq]
  exact AdmittingQueue.final_eq_nil_iff _ _

/-! ### Responses -/

theorem answer_sendFrame (f : Frame) :
    (encoderMachine K).answer e (.sendFrame f)
      = .sent (match e.law.admitFrame K e.timeBase f with
        | .ok _ => .ok ()
        | .error err => .error (.err err)) := by
  show EncoderAnswer.sent (e.sendFrame K f).1 = _
  rw [BoxEncoder.sendFrame_eq]
  cases e.law.admitFrame K e.timeBase f <;> rfl

theorem sendFrame_refused_iff (f : Frame) :
    (∃ err, (encoderMachine K).answer e (.sendFrame f) = .sent (.error err)) ↔ ¬ Sendable f := by
  rw [answer_sendFrame, ← admitFrame_ok_iff K e.law e.timeBase]
  cases h : e.law.admitFrame K e.timeBase f <;> simp

theorem receivePacket_needMore_iff :
    (encoderMachine K).answer e .receivePacket = .received (.error (.err .needMore))
      ↔ e.queue = [] := by
  rcases e with ⟨output, timeBase, queue⟩ | ⟨output, timeBase, queue⟩ <;> cases queue <;>
    simp [encoderMachine, BoxEncoder.call, BoxEncoder.receivePacket, BoxEncoder.queue,
      Mulaw.UlawEncoder.receivePacket, Alaw.AlawEncoder.receivePacket]

/-- The packet whose turn it is, whatever was called before. -/
theorem answer_receivePacket (he : e.Has law tb out) (hq : e.queue = []) (ops : List EncoderOp) :
    (encoderMachine K).answer ((encoderMachine K).final e ops) .receivePacket
      = .received (match (acceptedFrames K e ops)[(returnedPackets K e ops).length]? with
        | some f => (law.admitFrame K tb f).mapError .err
        | none => .error (.err .needMore)) := by
  -- the frames not answered yet have their packets in the queue
  have hwaiting := List.forall₂_drop_append _ _ _ (encoder_history (K := K) he hq ops)
  show EncoderAnswer.received ((encoderMachine K).final e ops).receivePacket.1 = _
  rw [BoxEncoder.receivePacket_eq, ← List.head?_drop]
  cases hqueue : ((encoderMachine K).final e ops).queue with
  | nil =>
    rw [hqueue, List.forall₂_nil_right_iff] at hwaiting
    rw [hwaiting]
    rfl
  | cons p q =>
    rw [hqueue] at hwaiting
    obtain ⟨f, fs, hpacket, -, hdrop⟩ := List.forall₂_cons_right_iff.1 hwaiting
    rw [hdrop, List.head?_cons]
    dsimp only
    rw [hpacket]
    rfl

theorem encoder_noPanic (op : EncoderOp) : ((encoderMachine K).answer e op).NoPanic := by
  have hans : (encoderMachine K).answer e op = _ := BoxEncoder.call_answer K e op
  rw [hans]
  cases (AdmittingQueue.machine (e.law.admitFrame K e.timeBase)).answer e.queue op.toQueue <;>
    simp [ofQueue, EncoderAnswer.NoPanic]

theorem next_refused (op : EncoderOp)
    (h : (!isRefusedSend (op, (encoderMachine K).answer e op)) = false) :
    (encoderMachine K).next e op = e := by
  cases op with
  | sendFrame f =>
    rw [answer_sendFrame] at h
    show (e.sendFrame K f).2 = e
    rw [BoxEncoder.sendFrame_eq]
    cases hf : e.law.admitFrame K e.timeBase f with
    | ok p => simp [hf, isRefusedSend] at h
    | error err => rfl
  | receivePacket => simp [isRefusedSend] at h
  | flush => simp [isRefusedSend] at h

theorem next_flush : (encoderMachine K).next e .flush = e := by
  cases e <;> rfl

end Run

/-! ### The run law -/

/-- What holds after the calls `ops` on an encoder `e` of `law`. -/
structure EncoderRunLaw (K : OxideavCore) (law : Law) (e : BoxEncoder) (ops : List EncoderOp) :
    Prop where
  /-- The packets returned, then those queued, are the packets of the accepted frames, in order
  and one for each. -/
  conserved : List.Forall₂ (fun f p => ∃ a, f = .audio a ∧ IsPacketOf law e.timeBase a p)
    (acceptedFrames K e ops)
    (returnedPackets K e ops ++ ((encoderMachine K).final e ops).queue)
  /-- `send_frame` is refused exactly for a frame that is not audio, has no plane, or whose first
  plane has an odd length. -/
  refused_iff : ∀ f,
    (∃ err, (encoderMachine K).answer ((encoderMachine K).final e ops) (.sendFrame f)
      = .sent (.error err)) ↔ ¬ Sendable f
  /-- Without the refused calls the run has the same response to every other call. -/
  refused_erased : (encoderMachine K).trace e
      ((((encoderMachine K).trace e ops).filter (!isRefusedSend ·)).map Prod.fst)
    = ((encoderMachine K).trace e ops).filter (!isRefusedSend ·)
  /-- `receive_packet` gives `NeedMore` exactly when every accepted frame's packet was returned. -/
  needMore_iff : (encoderMachine K).answer ((encoderMachine K).final e ops) .receivePacket
      = .received (.error (.err .needMore)) ↔
    (returnedPackets K e ops).length = (acceptedFrames K e ops).length
  /-- `receive_packet` gives the packet of the accepted frame whose turn it is, else `NeedMore`. -/
  receive_eq : (encoderMachine K).answer ((encoderMachine K).final e ops) .receivePacket
    = .received (match (acceptedFrames K e ops)[(returnedPackets K e ops).length]? with
      | some f => (law.admitFrame K e.timeBase f).mapError .err
      | none => .error (.err .needMore))
  /-- `flush` succeeds, and without the flushes the run has the same response to every other
  call. -/
  flush_eq : (encoderMachine K).answer ((encoderMachine K).final e ops) .flush = .flushed (.ok ())
  flush_erased : (encoderMachine K).trace e (ops.filter (· ≠ .flush))
    = ((encoderMachine K).trace e ops).filter (·.1 ≠ .flush)
  /-- No call panics. -/
  no_panic : ∀ op, ((encoderMachine K).answer ((encoderMachine K).final e ops) op).NoPanic

/-- **Every run of an encoder that a factory returns obeys the run law.** -/
theorem encoder_run_law {params : CodecParameters} {e : BoxEncoder}
    (h : law.makeEncoder K params = .ok e) (ops : List EncoderOp) : EncoderRunLaw K law e ops := by
  obtain ⟨he, -, -, hq⟩ := Law.makeEncoder_spec h
  have htb := he.timeBase_eq
  constructor
  case conserved =>
    refine (encoder_history he hq ops).imp fun f p hfp => ?_
    obtain ⟨a, bytes, rest, rfl, hdata, heven, rfl⟩ := admitFrame_eq_ok hfp
    exact ⟨a, rfl, htb ▸ isPacketOf_packetOf hdata heven⟩
  case refused_iff => exact sendFrame_refused_iff
  case refused_erased => exact (encoderMachine K).trace_erase (fun _ op => next_refused op) e ops
  case needMore_iff => exact receivePacket_needMore_iff.trans (queue_eq_nil_iff he hq ops)
  case receive_eq => rw [htb, answer_receivePacket he hq ops]
  case flush_eq => cases (encoderMachine K).final e ops <;> rfl
  case flush_erased =>
    have herase := (encoderMachine K).trace_erase (k := fun x => x.1 ≠ .flush)
      (fun e op hop => by
        rw [show op = .flush by simpa using hop]
        exact next_flush) e ops
    -- the operations that are kept are those of the run without its flushes
    have hfst : (((encoderMachine K).trace e ops).filter (·.1 ≠ .flush)).map Prod.fst
        = ops.filter (· ≠ .flush) := by
      conv_rhs => rw [← (encoderMachine K).map_fst_trace e ops, List.filter_map]
      rfl
    rwa [hfst] at herase
  case no_panic => exact encoder_noPanic

/-- A stereo µ-law encoder after a frame without planes, a frame of one sample for each channel, a
flush, the packet of that frame and `NeedMore`. -/
theorem encoder_run_law_stereo :
    EncoderRunLaw .plain .mulaw (.ulaw ⟨outputOf stereo, ⟨1, 8000⟩, []⟩)
        [.sendFrame (.audio ⟨0, none, []⟩), .sendFrame (.audio ⟨1, some 0, [[0, 0, 1, 0]]⟩), .flush,
          .receivePacket, .receivePacket] ∧
      returnedPackets .plain (.ulaw ⟨outputOf stereo, ⟨1, 8000⟩, []⟩)
        [.sendFrame (.audio ⟨0, none, []⟩), .sendFrame (.audio ⟨1, some 0, [[0, 0, 1, 0]]⟩), .flush,
          .receivePacket, .receivePacket]
        = [Law.mulaw.packetOf .plain ⟨1, 8000⟩ ⟨1, some 0, [[0, 0, 1, 0]]⟩ [0, 0, 1, 0]] := by
  have hhas : BoxEncoder.Has (.ulaw ⟨outputOf stereo, ⟨1, 8000⟩, []⟩) .mulaw ⟨1, 8000⟩
      (outputOf stereo) := ⟨rfl, rfl, rfl⟩
  refine ⟨@encoder_run_law .plain .mulaw stereo _ rfl _, ?_⟩
  rw [returnedPackets_eq hhas]
  rfl

end G711
