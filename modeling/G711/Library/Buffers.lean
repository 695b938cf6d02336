import G711.Library.Mealy

/-!
# Two buffers: an admitting queue and a one-place slot

* `AdmittingQueue`: inputs are checked and converted by `check`; what is admitted is queued and
  handed out first in, first out.
* `Slot`: one place that is filled by `put` and emptied by `take`; `close` only changes the answer
  that an empty slot gives.

For both, `conservation` says that what was accepted is, in order and exactly once, what was
handed out and what is still held, after any run.
-/

/-! ### The admitting queue -/

namespace AdmittingQueue

variable {α β ε : Type*}

inductive Op (α : Type*)
  | push (a : α)
  | pop
  | idle

inductive Answer (β ε : Type*)
  | pushed (b : β)
  | refused (e : ε)
  | popped (b : β)
  | empty
  | idle

/-- The queue: `check` refuses an input or converts it to the item that is queued. -/
def machine (check : α → Except ε β) : Mealy (List β) (Op α) (Answer β ε) where
  next q
    | .push a => match check a with
      | .ok b => q ++ [b]
      | .error _ => q
    | .pop => q.tail
    | .idle => q
  answer q
    | .push a => match check a with
      | .ok b => .pushed b
      | .error e => .refused e
    | .pop => match q with
      | [] => .empty
      | b :: _ => .popped b
    | .idle => .idle

/-- The input that a step admitted. -/
def acceptedOp : Op α × Answer β ε → Option α
  | (.push a, .pushed _) => some a
  | _ => none

/-- The item that a step queued. -/
def queuedOp : Op α × Answer β ε → Option β
  | (_, .pushed b) => some b
  | _ => none

/-- The item that a step handed out. -/
def handedOp : Op α × Answer β ε → Option β
  | (_, .popped b) => some b
  | _ => none

variable (check : α → Except ε β)

/-- Items leave the queue in the order in which they entered, and none is lost or repeated. -/
theorem conservation (q : List β) (l : List (Op α)) :
    q ++ ((machine check).trace q l).filterMap queuedOp
      = ((machine check).trace q l).filterMap handedOp ++ (machine check).final q l := by
  have hstep : ∀ (q : List β) (i : Op α),
      q ++ (queuedOp (i, (machine check).answer q i)).toList
        = (handedOp (i, (machine check).answer q i)).toList ++ (machine check).next q i := by
    intro q i
    cases i with
    | push a => cases h : check a <;> simp [machine, queuedOp, handedOp, h]
    | pop => cases q <;> simp [machine, queuedOp, handedOp]
    | idle => simp [machine, queuedOp, handedOp]
  have h := (machine check).conservation id (fun x => (queuedOp x).toList)
    (fun x => (handedOp x).toList) hstep q l
  simpa [List.filterMap_eq_flatMap_toList] using h

/-- Exactly one item is queued for each accepted input, and it is the admitted one. -/
theorem forall₂_check (q : List β) (l : List (Op α)) :
    List.Forall₂ (fun a b => check a = .ok b) (((machine check).trace q l).filterMap acceptedOp)
      (((machine check).trace q l).filterMap queuedOp) := by
  induction l generalizing q with
  | nil => exact List.Forall₂.nil
  | cons i l ih =>
    rw [Mealy.trace_cons, List.filterMap_cons, List.filterMap_cons]
    have htail := ih ((machine check).next q i)
    cases i with
    | push a =>
      cases h : check a with
      | ok b =>
        have hans : (machine check).answer q (.push a) = .pushed b := by simp [machine, h]
        rw [hans]
        exact List.Forall₂.cons h htail
      | error e =>
        have hans : (machine check).answer q (.push a) = .refused e := by simp [machine, h]
        rw [hans]
        exact htail
    | pop => cases q <;> exact htail
    | idle => exact htail

/-- From the empty queue: the accepted inputs answer, one by one, to what was handed out followed
by what is still queued. -/
theorem accepted_handed (l : List (Op α)) :
    List.Forall₂ (fun a b => check a = .ok b) (((machine check).trace [] l).filterMap acceptedOp)
      (((machine check).trace [] l).filterMap handedOp ++ (machine check).final [] l) := by
  have h := conservation check [] l
  rw [List.nil_append] at h
  exact h ▸ forall₂_check check [] l

/-- The queue is empty exactly when as many items were handed out as inputs were accepted. -/
theorem final_eq_nil_iff (l : List (Op α)) :
    (machine check).final [] l = [] ↔
      (((machine check).trace [] l).filterMap handedOp).length
        = (((machine check).trace [] l).filterMap acceptedOp).length := by
  rw [(accepted_handed check l).length_eq, List.length_append, ← List.length_eq_zero_iff]
  omega

/-- As many pops as there are items empty the queue, and admit nothing. -/
theorem final_pops (q : List β) : (machine check).final q (List.replicate q.length .pop) = [] := by
  induction q with
  | nil => rfl
  | cons b q ih => exact ih

/-! ### Inputs and items under maps -/

/-- The operation with its input mapped. -/
def Op.map {α' : Type*} (f : α → α') : Op α → Op α'
  | .push a => .push (f a)
  | .pop => .pop
  | .idle => .idle

/-- The answer with its item mapped. -/
def Answer.map {β' : Type*} (g : β → β') : Answer β ε → Answer β' ε
  | .pushed b => .pushed (g b)
  | .refused e => .refused e
  | .popped b => .popped (g b)
  | .empty => .empty
  | .idle => .idle

/-- If the checks agree along the maps, then so do the runs. -/
theorem answers_map {α' β' : Type*} (check' : α' → Except ε β') (f : α → α') (g : β → β')
    (h : ∀ a, check' (f a) = (check a).map g) (q : List β) (l : List (Op α)) :
    (machine check').answers (q.map g) (l.map (Op.map f))
      = ((machine check).answers q l).map (Answer.map g) := by
  apply Mealy.answers_map
  · intro q i
    cases i with
    | push a => cases hc : check a <;> simp [machine, Op.map, h, hc, Except.map]
    | pop => cases q <;> rfl
    | idle => rfl
  · intro q i
    cases i with
    | push a => cases hc : check a <;> simp [machine, Op.map, Answer.map, h, hc, Except.map]
    | pop => cases q <;> rfl
    | idle => rfl

end AdmittingQueue

/-! ### The one-place slot -/

namespace Slot

variable {α : Type*}

/-- What the slot holds, and whether it was closed. -/
structure State (α : Type*) where
  held : Option α
  closed : Bool

inductive Op (α : Type*)
  | put (a : α)
  | take
  | close

inductive Answer (α : Type*)
  | accepted
  | busy
  | item (a : α)
  | empty
  | closed
  | done

/-- The slot. Closing it neither drops what it holds nor keeps it from being filled again. -/
def machine (α : Type*) : Mealy (State α) (Op α) (Answer α) where
  next s
    | .put a => if s.held.isSome then s else { s with held := some a }
    | .take => { s with held := none }
    | .close => { s with closed := true }
  answer s
    | .put _ => if s.held.isSome then .busy else .accepted
    | .take => match s.held with
      | some a => .item a
      | none => if s.closed then .closed else .empty
    | .close => .done

/-- The initial state: empty and open. -/
def State.init : State α := ⟨none, false⟩

/-- The item that a step put into the slot. -/
def putOp : Op α × Answer α → Option α
  | (.put a, .accepted) => some a
  | _ => none

/-- The item that a step took out of the slot. -/
def takenOp : Op α × Answer α → Option α
  | (_, .item a) => some a
  | _ => none

/-- Whether an operation is a `close`. -/
def Op.isClose : Op α → Bool
  | .close => true
  | _ => false

/-- Items leave the slot in the order in which they were accepted; none is lost or repeated. -/
theorem conservation (s : State α) (l : List (Op α)) :
    s.held.toList ++ ((machine α).trace s l).filterMap putOp
      = ((machine α).trace s l).filterMap takenOp ++ ((machine α).final s l).held.toList := by
  have hstep : ∀ (s : State α) (i : Op α),
      s.held.toList ++ (putOp (i, (machine α).answer s i)).toList
        = (takenOp (i, (machine α).answer s i)).toList ++ ((machine α).next s i).held.toList := by
    rintro ⟨held, closed⟩ i
    cases i with
    | put a => cases held <;> simp [machine, putOp, takenOp]
    | take => cases held <;> cases closed <;> simp [machine, putOp, takenOp]
    | close => simp [machine, putOp, takenOp]
  have h := (machine α).conservation (fun s => s.held.toList) (fun x => (putOp x).toList)
    (fun x => (takenOp x).toList) hstep s l
  simpa [List.filterMap_eq_flatMap_toList] using h

/-- The slot is closed exactly when a `close` was run. -/
theorem closed_final (s : State α) (l : List (Op α)) :
    ((machine α).final s l).closed = (s.closed || l.any Op.isClose) := by
  induction l generalizing s with
  | nil => simp
  | cons i l ih =>
    rw [Mealy.final_cons, ih, List.any_cons, ← Bool.or_assoc]
    congr 1
    cases i with
    | put a => cases h : s.held <;> simp [machine, Op.isClose, h]
    | take => simp [machine, Op.isClose]
    | close => simp [machine, Op.isClose]

/-- The answer of a closed slot in the place of an open one's. -/
def Answer.close : Answer α → Answer α
  | .empty => .closed
  | b => b

/-- Closing the slot changes the answer of an empty slot, and no other answer. -/
theorem answers_close (s : State α) (l : List (Op α)) :
    (machine α).answers { s with closed := true } l
      = ((machine α).answers s l).map Answer.close := by
  have hnext : ∀ (s : State α) (i : Op α), (machine α).next { s with closed := true } i
      = { (machine α).next s i with closed := true } := by
    rintro ⟨held, closed⟩ i
    cases i <;> cases held <;> rfl
  have hans : ∀ (s : State α) (i : Op α), (machine α).answer { s with closed := true } i
      = ((machine α).answer s i).close := by
    rintro ⟨held, closed⟩ i
    cases i <;> cases held <;> cases closed <;> rfl
  have hrun := Mealy.answers_map hnext hans s l
  rwa [List.map_id'] at hrun

/-- The state with what it holds mapped. -/
def State.map {α' : Type*} (f : α → α') (s : State α) : State α' := ⟨s.held.map f, s.closed⟩

/-- The operation with its item mapped. -/
def Op.map {α' : Type*} (f : α → α') : Op α → Op α'
  | .put a => .put (f a)
  | .take => .take
  | .close => .close

/-- The answer with its item mapped. -/
def Answer.map {α' : Type*} (f : α → α') : Answer α → Answer α'
  | .accepted => .accepted
  | .busy => .busy
  | .item a => .item (f a)
  | .empty => .empty
  | .closed => .closed
  | .done => .done

/-- The slot does not look at the items. -/
theorem answers_map {α' : Type*} (f : α → α') (s : State α) (l : List (Op α)) :
    (machine α').answers (s.map f) (l.map (Op.map f))
      = ((machine α).answers s l).map (Answer.map f) := by
  apply Mealy.answers_map
  · rintro ⟨held, closed⟩ i
    cases i <;> cases held <;> rfl
  · rintro ⟨held, closed⟩ i
    cases i <;> cases held <;> cases closed <;> rfl

/-- Closing alone never changes what the slot holds. -/
theorem held_final_of_closes (s : State α) {l : List (Op α)} (hl : ∀ i ∈ l, i = .close) :
    ((machine α).final s l).held = s.held := by
  induction l generalizing s with
  | nil => rfl
  | cons i l ih =>
    rw [Mealy.final_cons, ih _ (fun j hj => hl j (by simp [hj])), hl i (by simp)]
    rfl

/-- Without a `take`, what the slot holds stays there. -/
theorem held_final_of_no_take {s : State α} {a : α} (ha : s.held = some a) {l : List (Op α)}
    (hl : Op.take ∉ l) : ((machine α).final s l).held = some a := by
  induction l generalizing s with
  | nil => exact ha
  | cons i l ih =>
    refine ih ?_ (fun h => hl (by simp [h]))
    cases i with
    | put b => simp [machine, ha]
    | take => simp at hl
    | close => exact ha

/-- Closing makes no difference to what is put into the slot and what it holds. -/
theorem erase_closes {s s' : State α} (h : s.held = s'.held) (l : List (Op α)) :
    ((machine α).trace s (l.filter (!·.isClose))).filterMap putOp
        = ((machine α).trace s' l).filterMap putOp ∧
      ((machine α).final s (l.filter (!·.isClose))).held = ((machine α).final s' l).held := by
  induction l generalizing s s' with
  | nil => exact ⟨rfl, h⟩
  | cons i l ih =>
    cases i with
    | put a =>
      have hnext : ((machine α).next s (.put a)).held = ((machine α).next s' (.put a)).held := by
        cases hheld : s'.held <;> simp [machine, h, hheld]
      obtain ⟨hputs, hheld⟩ := ih hnext
      have hanswer : (machine α).answer s (.put a) = (machine α).answer s' (.put a) := by
        simp [machine, h]
      rw [List.filter_cons_of_pos rfl, Mealy.trace_cons, Mealy.trace_cons, List.filterMap_cons,
        List.filterMap_cons, hanswer, hputs]
      exact ⟨rfl, hheld⟩
    | take =>
      have hnext : ((machine α).next s .take).held = ((machine α).next s' .take).held := rfl
      obtain ⟨hputs, hheld⟩ := ih hnext
      exact ⟨hputs, hheld⟩
    | close =>
      have hnext : s.held = ((machine α).next s' .close).held := h
      exact ih hnext

/-- Items put and taken one by one are all accepted, and none is left. -/
theorem exchanges (s : State α) (h : s.held = none) (items : List α) :
    ((machine α).trace s (items.flatMap fun a => [.put a, .take])).filterMap putOp = items ∧
      ((machine α).final s (items.flatMap fun a => [.put a, .take])).held = none := by
  induction items generalizing s with
  | nil => exact ⟨rfl, h⟩
  | cons a items ih =>
    obtain ⟨hputs, hheld⟩ := ih ((machine α).next ((machine α).next s (.put a)) .take) rfl
    have hanswer : (machine α).answer s (.put a) = .accepted := by simp [machine, h]
    rw [List.flatMap_cons, List.cons_append, List.cons_append, List.nil_append, Mealy.trace_cons,
      Mealy.trace_cons, List.filterMap_cons, List.filterMap_cons, hanswer, hputs]
    exact ⟨rfl, hheld⟩

end Slot
