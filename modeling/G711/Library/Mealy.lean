import Mathlib.Data.List.Forall2
import Mathlib.Tactic

/-!
# Deterministic machines that answer every operation

A machine in state `s` answers the operation `i` by `answer s i` and moves to `next s i`.  A run
is a finite list of operations; its `trace` pairs every operation with its answer.

* `final`, `trace`, `answers`;
* `final_invariant`, `trace_forall`: what one step preserves, a run preserves;
* `conservation`: if every step moves items through a first-in first-out stock, so does a run;
* `trace_erase`: operations that leave the state unchanged can be erased from a run, and all
  other answers stay the same;
* `forall₂_trace`: two machines related step by step give related traces;
* `answers_map`: a map between machines maps the answers of runs;
* `Alike`: states that no run tells apart;
* `Refines`: a machine that computes another one through an abstraction of its states.
-/

/-- A deterministic machine that answers every operation. -/
structure Mealy (σ ι ο : Type*) where
  next : σ → ι → σ
  answer : σ → ι → ο

namespace Mealy

variable {σ ι ο τ κ π α : Type*} (M : Mealy σ ι ο) (N : Mealy τ κ π)

/-- The state after a run. -/
def final (s : σ) : List ι → σ
  | [] => s
  | i :: l => final (M.next s i) l

/-- The operations of a run, each with its answer. -/
def trace (s : σ) : List ι → List (ι × ο)
  | [] => []
  | i :: l => (i, M.answer s i) :: trace (M.next s i) l

/-- The answers of a run. -/
def answers (s : σ) (l : List ι) : List ο := (M.trace s l).map Prod.snd

@[simp] theorem final_nil (s : σ) : M.final s [] = s := rfl
@[simp] theorem final_cons (s : σ) (i : ι) (l : List ι) :
    M.final s (i :: l) = M.final (M.next s i) l := rfl
@[simp] theorem trace_nil (s : σ) : M.trace s [] = [] := rfl
@[simp] theorem trace_cons (s : σ) (i : ι) (l : List ι) :
    M.trace s (i :: l) = (i, M.answer s i) :: M.trace (M.next s i) l := rfl

@[simp] theorem final_append (s : σ) (l m : List ι) :
    M.final s (l ++ m) = M.final (M.final s l) m := by
  induction l generalizing s with
  | nil => rfl
  | cons i l ih => exact ih (M.next s i)

@[simp] theorem trace_append (s : σ) (l m : List ι) :
    M.trace s (l ++ m) = M.trace s l ++ M.trace (M.final s l) m := by
  induction l generalizing s with
  | nil => rfl
  | cons i l ih => rw [List.cons_append, trace_cons, ih, trace_cons, List.cons_append, final_cons]

@[simp] theorem map_fst_trace (s : σ) (l : List ι) : (M.trace s l).map Prod.fst = l := by
  induction l generalizing s with
  | nil => rfl
  | cons i l ih => rw [trace_cons, List.map_cons, ih]

/-! ### Invariants -/

/-- What every operation preserves, every run preserves. -/
theorem final_invariant {I : σ → Prop} (hI : ∀ s i, I s → I (M.next s i)) {s : σ} (hs : I s)
    (l : List ι) : I (M.final s l) := by
  induction l generalizing s with
  | nil => exact hs
  | cons i l ih => exact ih (hI s i hs)

/-- An answer property that holds in every state of an invariant holds all along a run. -/
theorem trace_forall {I : σ → Prop} {P : ι × ο → Prop} (hI : ∀ s i, I s → I (M.next s i))
    (hP : ∀ s i, I s → P (i, M.answer s i)) {s : σ} (hs : I s) (l : List ι) :
    ∀ x ∈ M.trace s l, P x := by
  induction l generalizing s with
  | nil => simp
  | cons i l ih =>
    intro x hx
    rcases List.mem_cons.1 hx with rfl | hx
    · exact hP s i hs
    · exact ih (hI s i hs) x hx

/-- If every step takes its items from the front of a stock and adds its items at the back, then
a run does too: what was in stock and came in is, in this order, what went out and is in stock. -/
theorem conservation (stock : σ → List α) (inflow outflow : ι × ο → List α)
    (hstep : ∀ s i, stock s ++ inflow (i, M.answer s i)
      = outflow (i, M.answer s i) ++ stock (M.next s i)) (s : σ) (l : List ι) :
    stock s ++ (M.trace s l).flatMap inflow
      = (M.trace s l).flatMap outflow ++ stock (M.final s l) := by
  induction l generalizing s with
  | nil => simp
  | cons i l ih =>
    rw [trace_cons, List.flatMap_cons, List.flatMap_cons, final_cons, ← List.append_assoc,
      hstep s i, List.append_assoc, ih, List.append_assoc]

/-- The same for a stock that is only kept in the states of an invariant. -/
theorem conservation_of_invariant {I : σ → Prop} (hI : ∀ s i, I s → I (M.next s i))
    (stock : σ → List α) (inflow outflow : ι × ο → List α)
    (hstep : ∀ s i, I s → stock s ++ inflow (i, M.answer s i)
      = outflow (i, M.answer s i) ++ stock (M.next s i)) {s : σ} (hs : I s) (l : List ι) :
    stock s ++ (M.trace s l).flatMap inflow
      = (M.trace s l).flatMap outflow ++ stock (M.final s l) := by
  induction l generalizing s with
  | nil => simp
  | cons i l ih =>
    rw [trace_cons, List.flatMap_cons, List.flatMap_cons, final_cons, ← List.append_assoc,
      hstep s i hs, List.append_assoc, ih (hI s i hs), List.append_assoc]

/-! ### Erasing operations without effect -/

section Erase

variable {k : ι × ο → Bool} (h : ∀ s i, k (i, M.answer s i) = false → M.next s i = s)
include h

/-- The run without the erased operations has the same answers to all the others. -/
theorem trace_erase (s : σ) (l : List ι) :
    M.trace s (((M.trace s l).filter k).map Prod.fst) = (M.trace s l).filter k := by
  induction l generalizing s with
  | nil => rfl
  | cons i l ih =>
    rw [trace_cons]
    cases hk : k (i, M.answer s i) with
    | true => rw [List.filter_cons_of_pos hk, List.map_cons, trace_cons, ih]
    | false => rw [List.filter_cons_of_neg (by simp [hk]), h s i hk, ih]

end Erase

/-! ### Two machines side by side -/

variable {M N}

/-- Matching operations keep the states related. -/
theorem final_related {R : σ → τ → Prop} {Match : ι → κ → Prop}
    (hR : ∀ s t i j, R s t → Match i j → R (M.next s i) (N.next t j))
    {s : σ} {t : τ} (hst : R s t) {l : List ι} {m : List κ} (hlm : List.Forall₂ Match l m) :
    R (M.final s l) (N.final t m) := by
  induction hlm generalizing s t with
  | nil => exact hst
  | cons hij _ ih => exact ih (hR _ _ _ _ hst hij)

/-- Matching operations on related states give related answers, all along the run. -/
theorem forall₂_trace {R : σ → τ → Prop} {Match : ι → κ → Prop} {Agree : ο → π → Prop}
    (hR : ∀ s t i j, R s t → Match i j → R (M.next s i) (N.next t j))
    (hA : ∀ s t i j, R s t → Match i j → Agree (M.answer s i) (N.answer t j))
    {s : σ} {t : τ} (hst : R s t) {l : List ι} {m : List κ} (hlm : List.Forall₂ Match l m) :
    List.Forall₂ Agree (M.answers s l) (N.answers t m) := by
  induction hlm generalizing s t with
  | nil => exact List.Forall₂.nil
  | cons hij _ ih => exact List.Forall₂.cons (hA _ _ _ _ hst hij) (ih (hR _ _ _ _ hst hij))

/-- A map of states and operations that steps respect maps the answers of every run. -/
theorem answers_map {state : σ → τ} {op : ι → κ} {ans : ο → π}
    (hnext : ∀ s i, N.next (state s) (op i) = state (M.next s i))
    (hans : ∀ s i, N.answer (state s) (op i) = ans (M.answer s i)) (s : σ) (l : List ι) :
    N.answers (state s) (l.map op) = (M.answers s l).map ans := by
  induction l generalizing s with
  | nil => rfl
  | cons i l ih =>
    have htail := ih (M.next s i)
    rw [← hnext s i] at htail
    simp only [answers, trace_cons, List.map_cons, hans s i] at htail ⊢
    rw [htail]

variable (M) in
/-- No sequence of operations tells the two states apart by its answers. -/
def Alike (s t : σ) : Prop := ∀ l, M.answers s l = M.answers t l

theorem Alike.answer {s t : σ} (h : M.Alike s t) (i : ι) : M.answer s i = M.answer t i := by
  simpa [answers] using h [i]

theorem Alike.next {s t : σ} (h : M.Alike s t) (i : ι) : M.Alike (M.next s i) (M.next t i) := by
  intro l
  have hrun := h (i :: l)
  simp only [answers, trace_cons, List.map_cons, List.cons.injEq] at hrun
  exact hrun.2

theorem Alike.final {s t : σ} (h : M.Alike s t) (l : List ι) :
    M.Alike (M.final s l) (M.final t l) := by
  induction l generalizing s t with
  | nil => exact h
  | cons i l ih => exact ih (h.next i)

variable (M N)

/-- `M` computes what `N` computes: on the states of an invariant, a step of `M` is the step of
`N` on the abstracted state, and the answer of `M` is read off the answer of `N`. -/
structure Refines where
  inv : σ → Prop
  abs : σ → τ
  op : ι → κ
  ans : π → ο
  inv_next : ∀ s i, inv s → inv (M.next s i)
  abs_next : ∀ s i, inv s → abs (M.next s i) = N.next (abs s) (op i)
  answer_eq : ∀ s i, inv s → M.answer s i = ans (N.answer (abs s) (op i))

namespace Refines

variable {M N} (r : Refines M N)

theorem inv_final {s : σ} (hs : r.inv s) (l : List ι) : r.inv (M.final s l) :=
  M.final_invariant r.inv_next hs l

theorem abs_final {s : σ} (hs : r.inv s) (l : List ι) :
    r.abs (M.final s l) = N.final (r.abs s) (l.map r.op) := by
  induction l generalizing s with
  | nil => rfl
  | cons i l ih =>
    rw [final_cons, ih (r.inv_next s i hs), r.abs_next s i hs, List.map_cons, final_cons]

theorem answers_eq {s : σ} (hs : r.inv s) (l : List ι) :
    M.answers s l = (N.answers (r.abs s) (l.map r.op)).map r.ans := by
  induction l generalizing s with
  | nil => rfl
  | cons i l ih =>
    have htail := ih (r.inv_next s i hs)
    rw [r.abs_next s i hs] at htail
    simp only [answers, trace_cons, List.map_cons, r.answer_eq s i hs] at htail ⊢
    rw [htail]

/-- A history read off the answers of `M` is the history that `N` gives. -/
theorem filterMap_trace {f : ι × ο → Option α} {g : κ × π → Option α}
    (hfg : ∀ i b, f (i, r.ans b) = g (r.op i, b)) {s : σ} (hs : r.inv s) (l : List ι) :
    (M.trace s l).filterMap f = (N.trace (r.abs s) (l.map r.op)).filterMap g := by
  induction l generalizing s with
  | nil => rfl
  | cons i l ih =>
    have hhead : f (i, M.answer s i) = g (r.op i, N.answer (r.abs s) (r.op i)) := by
      rw [r.answer_eq s i hs, hfg]
    simp only [trace_cons, List.map_cons, List.filterMap_cons, hhead,
      ih (r.inv_next s i hs), r.abs_next s i hs]

end Refines

end Mealy
