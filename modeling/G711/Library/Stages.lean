import G711.Library.Mealy

/-!
# Stages that pass items on, first in, first out

A `Stage` takes items in, hands items out and does work of its own; its surroundings decide when,
and a stage may refuse an item.  `Fifo S f` says that `S` converts its items by `f`, in order, and
that it can always be brought to hand out what it owes.

* `machine`, `entered`, `delivered`: a stage under arbitrary schedules;
* `Fifo.conservation`: what was owed and came in is, converted, what went out and is still owed;
* `Fifo.delivered_isPrefix`, `Fifo.exists_completion`: nothing but the converted items comes out, and
  every run can be continued until all of them have;
* `comp` and `Fifo.comp`: two stages in series, with the items in between in transit, are a stage
  for the composed conversion.
-/

/-- A stage with inputs `α` and outputs `β`.  `put` says whether the item was taken in. -/
structure Stage (α β : Type) where
  State : Type
  Work : Type
  put : State → α → Bool × State
  take : State → Option β × State
  work : State → Work → State

namespace Stage

variable {α β γ : Type}

inductive Op (α ω : Type)
  | put (a : α)
  | take
  | work (w : ω)

inductive Answer (β : Type)
  | put (accepted : Bool)
  | take (item : Option β)
  | work

/-- The item that an operation offers. -/
def Op.offered {ω : Type} : Op α ω → Option α
  | .put a => some a
  | _ => none

/-- The item that a step took in. -/
def enteredOp {ω : Type} : Op α ω × Answer β → Option α
  | (.put a, .put true) => some a
  | _ => none

/-- The item that a step handed out. -/
def deliveredOp {ω : Type} : Op α ω × Answer β → Option β
  | (.take, .take b) => b
  | _ => none

section Runs

variable (S : Stage α β)

/-- The stage under arbitrary schedules. -/
def machine : Mealy S.State (Op α S.Work) (Answer β) where
  next s
    | .put a => (S.put s a).2
    | .take => (S.take s).2
    | .work w => S.work s w
  answer s
    | .put a => .put (S.put s a).1
    | .take => .take (S.take s).1
    | .work _ => .work

/-- The items taken in along a run. -/
def entered (s : S.State) (l : List (Op α S.Work)) : List α :=
  (S.machine.trace s l).filterMap enteredOp

/-- The items handed out along a run. -/
def delivered (s : S.State) (l : List (Op α S.Work)) : List β :=
  (S.machine.trace s l).filterMap deliveredOp

/-- A step that offers nothing: a `take` or some work. -/
inductive Rest : S.State → S.State → Prop
  | take (s : S.State) : Rest s (S.take s).2
  | work (s : S.State) (w : S.Work) : Rest s (S.work s w)

theorem delivered_append (s : S.State) (l m : List (Op α S.Work)) :
    S.delivered s (l ++ m) = S.delivered s l ++ S.delivered (S.machine.final s l) m := by
  unfold delivered
  induction l generalizing s with
  | nil => rfl
  | cons i l ih =>
    rw [List.cons_append, Mealy.trace_cons, Mealy.trace_cons, List.filterMap_cons,
      List.filterMap_cons, ih]
    cases deliveredOp (i, S.machine.answer s i) <;> rfl

/-- A run that offers nothing takes nothing in. -/
theorem entered_of_rest (s : S.State) {l : List (Op α S.Work)} (hl : l.filterMap Op.offered = []) :
    S.entered s l = [] := by
  unfold entered
  induction l generalizing s with
  | nil => rfl
  | cons i l ih =>
    cases i with
    | put a => simp [Op.offered] at hl
    | take => exact ih _ (by simpa [Op.offered] using hl)
    | work w => exact ih _ (by simpa [Op.offered] using hl)

/-- A stage that refuses nothing takes in whatever it is offered. -/
theorem entered_of_accepts (h : ∀ s a, (S.put s a).1 = true) (s : S.State)
    (l : List (Op α S.Work)) : S.entered s l = l.filterMap Op.offered := by
  unfold entered
  induction l generalizing s with
  | nil => rfl
  | cons i l ih =>
    rw [Mealy.trace_cons, List.filterMap_cons, List.filterMap_cons, ih]
    cases i with
    | put a => simp [machine, enteredOp, Op.offered, h]
    | take => rfl
    | work w => rfl

/-- The steps that offer nothing, as a run. -/
theorem exists_run_of_rest {s t : S.State} (h : Relation.ReflTransGen S.Rest s t) :
    ∃ l : List (Op α S.Work), l.filterMap Op.offered = [] ∧ S.machine.final s l = t := by
  induction h using Relation.ReflTransGen.head_induction_on with
  | refl => exact ⟨[], rfl, rfl⟩
  | head hstep _ ih =>
    obtain ⟨l, hl, ht⟩ := ih
    cases hstep with
    | take => exact ⟨.take :: l, by simpa [Op.offered] using hl, ht⟩
    | work w => exact ⟨.work w :: l, by simpa [Op.offered] using hl, ht⟩

end Runs

/-! ### First in, first out -/

/-- `S` hands out the images under `f` of the items it takes in, in order; an item without an image
is dropped.  In a `ready` state nothing is owed and every item is taken in, and steps that offer
nothing lead to such a state. -/
structure Fifo (S : Stage α β) (f : α → Option β) where
  inv : S.State → Prop
  owed : S.State → List β
  ready : S.State → Prop
  inv_put : ∀ s a, inv s → inv (S.put s a).2
  inv_take : ∀ s, inv s → inv (S.take s).2
  inv_work : ∀ s w, inv s → inv (S.work s w)
  owed_put : ∀ s a, inv s →
    owed (S.put s a).2 = owed s ++ if (S.put s a).1 then (f a).toList else []
  owed_take : ∀ s, inv s → owed s = (S.take s).1.toList ++ owed (S.take s).2
  owed_work : ∀ s w, inv s → owed (S.work s w) = owed s
  owed_ready : ∀ s, inv s → ready s → owed s = []
  put_ready : ∀ s a, inv s → ready s → (S.put s a).1 = true
  drains : ∀ s, inv s → ∃ t, Relation.ReflTransGen S.Rest s t ∧ ready t

namespace Fifo

variable {S : Stage α β} {f : α → Option β} (F : Fifo S f)

theorem inv_rest {s t : S.State} (h : S.Rest s t) (hs : F.inv s) : F.inv t := by
  cases h with
  | take => exact F.inv_take s hs
  | work w => exact F.inv_work s w hs

theorem inv_rests {s t : S.State} (h : Relation.ReflTransGen S.Rest s t) (hs : F.inv s) :
    F.inv t := by
  induction h with
  | refl => exact hs
  | tail _ hstep ih => exact F.inv_rest hstep ih

theorem inv_next (s : S.State) (i : Op α S.Work) (hs : F.inv s) : F.inv (S.machine.next s i) := by
  cases i with
  | put a => exact F.inv_put s a hs
  | take => exact F.inv_take s hs
  | work w => exact F.inv_work s w hs

theorem inv_final {s : S.State} (hs : F.inv s) (l : List (Op α S.Work)) :
    F.inv (S.machine.final s l) :=
  S.machine.final_invariant F.inv_next hs l

/-- What one step takes in and hands out. -/
theorem owed_next (s : S.State) (i : Op α S.Work) (hs : F.inv s) :
    F.owed s ++ (enteredOp (i, S.machine.answer s i)).toList.filterMap f
      = (deliveredOp (i, S.machine.answer s i)).toList ++ F.owed (S.machine.next s i) := by
  cases i with
  | put a =>
    have h := F.owed_put s a hs
    show _ = [] ++ F.owed (S.put s a).2
    rw [h]
    cases hput : (S.put s a).1 <;> cases hf : f a <;> simp [machine, enteredOp, hput, hf]
  | take =>
    have h := F.owed_take s hs
    show F.owed s ++ [] = (S.take s).1.toList ++ F.owed (S.take s).2
    rw [List.append_nil, ← h]
  | work w =>
    have h := F.owed_work s w hs
    show F.owed s ++ [] = [] ++ F.owed (S.work s w)
    rw [List.append_nil, List.nil_append, h]

/-- What was owed and came in is, converted and in order, what went out and is owed. -/
theorem conservation {s : S.State} (hs : F.inv s) (l : List (Op α S.Work)) :
    F.owed s ++ (S.entered s l).filterMap f
      = S.delivered s l ++ F.owed (S.machine.final s l) := by
  have h := S.machine.conservation_of_invariant F.inv_next F.owed
    (fun x => (enteredOp x).toList.filterMap f) (fun x => (deliveredOp x).toList) F.owed_next hs l
  unfold entered delivered
  rw [List.filterMap_eq_flatMap_toList enteredOp, List.filterMap_flatMap,
    List.filterMap_eq_flatMap_toList deliveredOp]
  exact h

/-- From a ready state, nothing comes out but what the items taken in are converted to. -/
theorem delivered_isPrefix {s : S.State} (hs : F.inv s) (hr : F.ready s)
    (l : List (Op α S.Work)) : S.delivered s l <+: (S.entered s l).filterMap f := by
  have h := F.conservation hs l
  rw [F.owed_ready s hs hr, List.nil_append] at h
  exact ⟨_, h.symm⟩

/-- Every run from a ready state can be continued, without offering anything, until all that the
items taken in are converted to has come out. -/
theorem exists_completion {s : S.State} (hs : F.inv s) (hr : F.ready s)
    (l : List (Op α S.Work)) :
    ∃ m, m.filterMap Op.offered = [] ∧
      S.delivered s (l ++ m) = (S.entered s l).filterMap f := by
  have hfinal := F.inv_final hs l
  obtain ⟨t, hrests, ht⟩ := F.drains _ hfinal
  obtain ⟨m, hm, rfl⟩ := S.exists_run_of_rest hrests
  refine ⟨m, hm, ?_⟩
  have h := F.conservation hs l
  have hrest := F.conservation hfinal m
  rw [S.entered_of_rest _ hm, List.filterMap_nil, List.append_nil,
    F.owed_ready _ (F.inv_final hfinal m) ht, List.append_nil] at hrest
  rw [F.owed_ready s hs hr, List.nil_append, hrest] at h
  rw [S.delivered_append, h]

/-- The same conversion, written in another way. -/
def ofEq {g : α → Option β} (h : ∀ a, f a = g a) : Fifo S g where
  inv := F.inv
  owed := F.owed
  ready := F.ready
  inv_put := F.inv_put
  inv_take := F.inv_take
  inv_work := F.inv_work
  owed_put s a hs := by
    rw [← h a]
    exact F.owed_put s a hs
  owed_take := F.owed_take
  owed_work := F.owed_work
  owed_ready := F.owed_ready
  put_ready := F.put_ready
  drains := F.drains

end Fifo

/-! ### Two stages in series -/

/-- The states of two stages, and the items that have left the first and not entered the second. -/
structure Series (σ β τ : Type) where
  first : σ
  transit : List β
  second : τ

/-- Work in one of the stages, or between them: `fetch` moves an item from the first stage to the
transit, `feed` offers the second stage the first item in transit. -/
inductive SeriesWork (ω ω' : Type)
  | first (w : ω)
  | second (w : ω')
  | fetch
  | feed

/-- `S` and then `T`. An item that `T` refuses stays at the head of the transit. -/
def comp (S : Stage α β) (T : Stage β γ) : Stage α γ where
  State := Series S.State β T.State
  Work := SeriesWork S.Work T.Work
  put s a :=
    let (accepted, first) := S.put s.first a
    (accepted, { s with first })
  take s :=
    let (item, second) := T.take s.second
    (item, { s with second })
  work s
    | .first w => { s with first := S.work s.first w }
    | .second w => { s with second := T.work s.second w }
    | .fetch =>
      let (item, first) := S.take s.first
      { s with first, transit := s.transit ++ item.toList }
    | .feed => match s.transit with
      | [] => s
      | b :: transit =>
        let (accepted, second) := T.put s.second b
        { s with second, transit := if accepted then transit else b :: transit }

section Comp

variable {S : Stage α β} {T : Stage β γ} {f : α → Option β} {g : β → Option γ}

/-- A step of the second stage is a step of the series. -/
theorem rest_second (first : S.State) (transit : List β) {t t' : T.State}
    (h : Relation.ReflTransGen T.Rest t t') :
    Relation.ReflTransGen (S.comp T).Rest ⟨first, transit, t⟩ ⟨first, transit, t'⟩ := by
  induction h with
  | refl => exact .refl
  | @tail t₁ t₂ _ hstep ih =>
    cases hstep with
    | take => exact ih.tail (Rest.take (S := S.comp T) ⟨first, transit, t₁⟩)
    | work w => exact ih.tail (Rest.work (S := S.comp T) ⟨first, transit, t₁⟩ (.second w))

/-- The first stage rests while its items pile up in transit. -/
theorem rest_first {s s' : S.State} (h : Relation.ReflTransGen S.Rest s s') (transit : List β)
    (t : T.State) :
    ∃ transit', Relation.ReflTransGen (S.comp T).Rest ⟨s, transit, t⟩ ⟨s', transit', t⟩ := by
  induction h with
  | refl => exact ⟨transit, .refl⟩
  | @tail s₁ s₂ _ hstep ih =>
    obtain ⟨transit', hrests⟩ := ih
    cases hstep with
    | take =>
      exact ⟨_, hrests.tail (Rest.work (S := S.comp T) ⟨s₁, transit', t⟩ .fetch)⟩
    | work w =>
      exact ⟨_, hrests.tail (Rest.work (S := S.comp T) ⟨s₁, transit', t⟩ (.first w))⟩

/-- The transit empties into the second stage, which is drained before every item. -/
theorem rest_transit (G : Fifo T g) (s : S.State) (transit : List β) {t : T.State}
    (ht : G.inv t) :
    ∃ t', Relation.ReflTransGen (S.comp T).Rest ⟨s, transit, t⟩ ⟨s, [], t'⟩ ∧ G.ready t' := by
  induction transit generalizing t with
  | nil =>
    obtain ⟨t', hrests, hready⟩ := G.drains t ht
    exact ⟨t', rest_second s [] hrests, hready⟩
  | cons b transit ih =>
    obtain ⟨t₁, hrests, hready⟩ := G.drains t ht
    have ht₁ := G.inv_rests hrests ht
    have hput := G.put_ready t₁ b ht₁ hready
    have hfeed := Rest.work (S := S.comp T) ⟨s, b :: transit, t₁⟩ .feed
    have hstate : (S.comp T).work ⟨s, b :: transit, t₁⟩ .feed = ⟨s, transit, (T.put t₁ b).2⟩ := by
      simp [comp, hput]
    rw [hstate] at hfeed
    obtain ⟨t', hrests', hready'⟩ := ih (G.inv_put t₁ b ht₁)
    exact ⟨t', ((rest_second s _ hrests).tail hfeed).trans hrests', hready'⟩

/-- **Stages in series** convert by the composition of their conversions. -/
def Fifo.comp (F : Fifo S f) (G : Fifo T g) : Fifo (S.comp T) fun a => (f a).bind g where
  inv s := F.inv s.first ∧ G.inv s.second
  owed s := G.owed s.second ++ s.transit.filterMap g ++ (F.owed s.first).filterMap g
  ready s := F.ready s.first ∧ s.transit = [] ∧ G.ready s.second
  inv_put s a h := ⟨F.inv_put s.first a h.1, h.2⟩
  inv_take s h := ⟨h.1, G.inv_take s.second h.2⟩
  inv_work s w h := by
    cases w with
    | first w => exact ⟨F.inv_work s.first w h.1, h.2⟩
    | second w => exact ⟨h.1, G.inv_work s.second w h.2⟩
    | fetch => exact ⟨F.inv_take s.first h.1, h.2⟩
    | feed =>
      obtain ⟨first, transit, second⟩ := s
      cases transit with
      | nil => exact h
      | cons b transit => exact ⟨h.1, G.inv_put second b h.2⟩
  owed_put s a h := by
    show _ ++ _ ++ (F.owed (S.put s.first a).2).filterMap g = _
    have hcomp : ((S.comp T).put s a).1 = (S.put s.first a).1 := rfl
    rw [F.owed_put s.first a h.1, hcomp, List.filterMap_append, ← List.append_assoc]
    congr 1
    cases (S.put s.first a).1 with
    | false => rfl
    | true =>
      cases f a with
      | none => rfl
      | some b => cases hg : g b <;> simp [hg]
  owed_take s h := by
    show G.owed s.second ++ _ ++ _ = (T.take s.second).1.toList ++ (_ ++ _ ++ _)
    rw [G.owed_take s.second h.2, List.append_assoc, List.append_assoc, List.append_assoc]
    rfl
  owed_work s w h := by
    cases w with
    | first w =>
      show _ ++ _ ++ (F.owed (S.work s.first w)).filterMap g = _
      rw [F.owed_work s.first w h.1]
      rfl
    | second w =>
      show G.owed (T.work s.second w) ++ _ ++ _ = _
      rw [G.owed_work s.second w h.2]
      rfl
    | fetch =>
      show _ ++ (s.transit ++ (S.take s.first).1.toList).filterMap g
        ++ (F.owed (S.take s.first).2).filterMap g = _
      rw [F.owed_take s.first h.1, List.filterMap_append, List.filterMap_append]
      simp only [List.append_assoc]
      rfl
    | feed =>
      obtain ⟨first, transit, second⟩ := s
      cases transit with
      | nil => rfl
      | cons b transit =>
        show G.owed (T.put second b).2
            ++ (if (T.put second b).1 then transit else b :: transit).filterMap g
            ++ (F.owed first).filterMap g
          = G.owed second ++ (b :: transit).filterMap g ++ (F.owed first).filterMap g
        rw [G.owed_put second b h.2]
        cases (T.put second b).1 <;> cases hg : g b <;> simp [hg]
  owed_ready s h hr := by
    obtain ⟨hfirst, htransit, hsecond⟩ := hr
    rw [F.owed_ready _ h.1 hfirst, htransit, G.owed_ready _ h.2 hsecond]
    rfl
  put_ready s a h hr := F.put_ready s.first a h.1 hr.1
  drains s h := by
    obtain ⟨s₁, hrests, hready⟩ := F.drains s.first h.1
    obtain ⟨transit, hfirst⟩ := rest_first hrests s.transit s.second
    obtain ⟨t, hsecond, hready'⟩ := rest_transit (S := S) G s₁ transit h.2
    exact ⟨⟨s₁, [], t⟩, hfirst.trans hsecond, hready, rfl, hready'⟩

end Comp

end Stage
