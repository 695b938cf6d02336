import Mathlib.Data.List.Basic
import Mathlib.Tactic

/-!
# Loops that may stop

A loop over a list whose body may stop the program is `List.foldlM` in `Except`.

* `foldlM_ok`: an invariant of what was consumed and of the state, kept by every round, carries the
  loop to its end;
* `foldlM_checks`: a loop of checks passes when each of them does;
* `foldlM_zipIdx_checks`: the same for a loop that counts.
-/

namespace Loops

variable {α σ ε : Type}

theorem bind_eq_ok_iff {x : Except ε α} {f : α → Except ε σ} {b : σ} :
    x >>= f = .ok b ↔ ∃ a, x = .ok a ∧ f a = .ok b := by
  cases x with
  | error e => simp [bind, Except.bind]
  | ok a => simp [bind, Except.bind]

/-- If no round stops in the states of an invariant, which may speak about what was consumed and
what is still to come, then the loop reaches its end. -/
theorem foldlM_ok_from {f : σ → α → Except ε σ} {I : List α → List α → σ → Prop}
    (hstep : ∀ done a rest s, I done (a :: rest) s → ∃ s', f s a = .ok s' ∧ I (done ++ [a]) rest s')
    (done : List α) {l : List α} {s : σ} (hs : I done l s) :
    ∃ s', l.foldlM f s = .ok s' ∧ I (done ++ l) [] s' := by
  induction l generalizing done s with
  | nil =>
    rw [List.append_nil]
    exact ⟨s, rfl, hs⟩
  | cons a l ih =>
    obtain ⟨s', hf, hs'⟩ := hstep done a l s hs
    obtain ⟨s'', hl, hs''⟩ := ih (done ++ [a]) hs'
    refine ⟨s'', ?_, by rwa [List.append_assoc] at hs''⟩
    rw [List.foldlM_cons, hf]
    exact hl

theorem foldlM_ok {f : σ → α → Except ε σ} {I : List α → List α → σ → Prop}
    (hstep : ∀ done a rest s, I done (a :: rest) s → ∃ s', f s a = .ok s' ∧ I (done ++ [a]) rest s')
    {l : List α} {s : σ} (hs : I [] l s) : ∃ s', l.foldlM f s = .ok s' ∧ I l [] s' :=
  foldlM_ok_from hstep [] hs

/-- A loop of checks passes when each of them does. -/
theorem foldlM_checks {check : α → Except ε Unit} {l : List α} (h : ∀ a ∈ l, check a = .ok ()) :
    l.foldlM (fun _ a => check a) () = .ok () := by
  induction l with
  | nil => rfl
  | cons a l ih =>
    rw [List.foldlM_cons, h a (by simp)]
    exact ih fun b hb => h b (by simp [hb])

/-- A counting loop of checks passes when each of them does at its index. -/
theorem foldlM_zipIdx_checks {check : α × ℕ → Except ε Unit} {l : List α}
    (h : ∀ i a, l[i]? = some a → check (a, i) = .ok ()) :
    l.zipIdx.foldlM (fun _ x => check x) () = .ok () :=
  foldlM_checks fun x hx => h x.2 x.1 (List.mem_zipIdx_iff_getElem?.1 hx)

/-- A loop that changes every element of a list in each round changes each by a loop of its own. -/
theorem foldl_mapIdx {ι : Type} (g : ι → ℕ → α → α) (l : List ι) (out : List α) :
    l.foldl (fun out i => out.mapIdx (g i)) out
      = out.mapIdx fun c a => l.foldl (fun a i => g i c a) a := by
  induction l generalizing out with
  | nil => exact List.ext_getElem? fun c => by simp
  | cons i l ih =>
    rw [List.foldl_cons, ih, List.mapIdx_mapIdx]
    rfl

theorem mapIdx_replicate (g : ℕ → α → σ) (n : ℕ) (a : α) :
    (List.replicate n a).mapIdx g = (List.range n).map fun c => g c a :=
  List.ext_getElem (by simp) fun c _ _ => by simp

/-- Two sums of which one is nowhere greater are equal when their summands are. -/
theorem sum_map_eq_sum_map_iff {f g : α → ℕ} {l : List α} (h : ∀ a ∈ l, f a ≤ g a) :
    (l.map f).sum = (l.map g).sum ↔ ∀ a ∈ l, f a = g a := by
  induction l with
  | nil => simp
  | cons a l ih =>
    have hle := List.sum_le_sum fun b hb => h b (List.mem_cons_of_mem a hb)
    have ha := h a List.mem_cons_self
    have ih := ih fun b hb => h b (List.mem_cons_of_mem a hb)
    rw [List.map_cons, List.map_cons, List.sum_cons, List.sum_cons, List.forall_mem_cons, ← ih]
    omega

end Loops
