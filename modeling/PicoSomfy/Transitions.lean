import Mathlib

/-!
# Runs of partial step functions

A system is a step function that answers `none` where no further step exists.
A run is read from its start and extended at its end, so that an induction on
a run reaches the last step first. Every step of a run satisfies a guard on the
state before it; the guard that is always true gives all runs. Nothing here
fixes a state, an event or an initial condition.
-/
namespace Transitions

variable {S E : Type*}

/-- The run reaches its last state through guarded steps only. -/
inductive Run (step : S → E → Option S) (ok : S → E → Prop) : S → List E → S → Prop
  | refl (s : S) : Run step ok s [] s
  | snoc {s t u : S} {es : List E} {e : E} :
      Run step ok s es t → ok t e → step t e = some u → Run step ok s (es ++ [e]) u

/-- The guard of an unrestricted run. -/
abbrev Free : S → E → Prop := fun _ _ => True

/-- Running a list of events, for concrete executions. -/
def exec (step : S → E → Option S) : S → List E → Option S
  | s, [] => some s
  | s, e :: es => (step s e).bind fun t => exec step t es

variable {step : S → E → Option S} {ok : S → E → Prop}

namespace Run

/-- What every guarded step keeps, every guarded run keeps. -/
theorem invariant {I : S → Prop} {s t : S} {es : List E}
    (keep : ∀ {s e t}, I s → ok s e → step s e = some t → I t)
    (h : Run step ok s es t) (hs : I s) : I t := by
  induction h with
  | refl => exact hs
  | snoc _ hok hstep ih => exact keep ih hok hstep

theorem single {s t : S} {e : E} (hok : ok s e) (h : step s e = some t) :
    Run step ok s [e] t :=
  Run.snoc (.refl s) hok h

theorem append {s t u : S} {es fs : List E} (h : Run step ok s es t)
    (k : Run step ok t fs u) : Run step ok s (es ++ fs) u := by
  induction k with
  | refl => simpa only [List.append_nil] using h
  | snoc _ hok hstep ih =>
      rw [← List.append_assoc]
      exact .snoc ih hok hstep

end Run

/-- A concrete execution is an unrestricted run. -/
theorem run_of_exec {s t : S} {es : List E} (h : exec step s es = some t) :
    Run step Free s es t := by
  induction es generalizing s with
  | nil =>
      simp only [exec, Option.some.injEq] at h
      exact h ▸ .refl s
  | cons e es ih =>
      obtain ⟨u, hu, ht⟩ := Option.bind_eq_some_iff.mp h
      exact (Run.single trivial hu).append (ih ht)

/-- Running a list of events as long as each satisfies the guard. -/
def guardedExec (step : S → E → Option S) (ok : S → E → Prop) [∀ s e, Decidable (ok s e)] :
    S → List E → Option S
  | s, [] => some s
  | s, e :: es =>
      if ok s e then (step s e).bind fun t => guardedExec step ok t es else none

/-- A concrete execution that checked its guard is a guarded run. -/
theorem run_of_guardedExec [∀ s e, Decidable (ok s e)] {s t : S} {es : List E}
    (h : guardedExec step ok s es = some t) : Run step ok s es t := by
  induction es generalizing s with
  | nil =>
      simp only [guardedExec, Option.some.injEq] at h
      exact h ▸ .refl s
  | cons e es ih =>
      simp only [guardedExec] at h
      split_ifs at h with hok
      obtain ⟨u, hu, ht⟩ := Option.bind_eq_some_iff.mp h
      exact (Run.single hok hu).append (ih ht)

section Machines

variable {A C O : Type*}

/-- The outputs of a machine on a list of events, and its last state. -/
def trace (f : A → E → O × A) : A → List E → List O × A
  | s, [] => ([], s)
  | s, e :: es => ((f s e).1 :: (trace f (f s e).2 es).1, (trace f (f s e).2 es).2)

/-- What every event keeps holds at the end. -/
theorem trace_invariant {f : A → E → O × A} {I : A → Prop} (keep : ∀ {s} e, I s → I (f s e).2)
    {s : A} (hs : I s) (es : List E) : I (trace f s es).2 := by
  induction es generalizing s with
  | nil => exact hs
  | cons e es ih => exact ih (keep e hs)

/-- A machine that follows another one event by event gives the same outputs. -/
theorem trace_simulates {f : A → E → O × A} {g : C → E → O × C} {I : A → Prop} {view : A → C}
    (keep : ∀ {s} e, I s → I (f s e).2)
    (follow : ∀ {s} e, I s → ((f s e).1, view (f s e).2) = g (view s) e) {s : A} (hs : I s)
    (es : List E) : ((trace f s es).1, view (trace f s es).2) = trace g (view s) es := by
  induction es generalizing s with
  | nil => rfl
  | cons e es ih =>
      have hrest := ih (keep e hs)
      have hhead := follow e hs
      simp only [trace, ← hhead, ← hrest]

end Machines

/-- A loop over a list that stops at the first failure. The invariant sees the
elements that are still to come. -/
theorem foldlM_invariant {f : S → E → Option S} (I : List E → S → Prop)
    (keep : ∀ {e rest s t}, I (e :: rest) s → f s e = some t → I rest t)
    {es : List E} {s t : S} (hs : I es s) (h : es.foldlM f s = some t) : I [] t := by
  induction es generalizing s with
  | nil =>
      simp only [List.foldlM_nil, Option.pure_def, Option.some.injEq] at h
      exact h ▸ hs
  | cons e es ih =>
      rw [List.foldlM_cons] at h
      obtain ⟨u, hu, ht⟩ := Option.bind_eq_some_iff.mp h
      exact ih (keep hs hu) ht

/-- A loop whose turns come nearer to a goal. It was there after some of its turns, or has
come nearer by all of them. -/
theorem foldlM_nears {f : S → E → Option S} (goal : S → Prop) (near : ℕ → S → Prop) {es : List E}
    (turn : ∀ {e n s t}, e ∈ es → near n s → f s e = some t → goal t ∨ near (n + 1) t)
    {n : ℕ} {s t : S} (hs : near n s) (h : es.foldlM f s = some t) :
    (∃ fs u, fs <+: es ∧ fs.foldlM f s = some u ∧ goal u) ∨ near (n + es.length) t := by
  induction es generalizing s n with
  | nil =>
      simp only [List.foldlM_nil, Option.pure_def, Option.some.injEq] at h
      exact .inr (h ▸ hs)
  | cons e es ih =>
      rw [List.foldlM_cons] at h
      obtain ⟨u, hu, ht⟩ := Option.bind_eq_some_iff.mp h
      rcases turn List.mem_cons_self hs hu with hgoal | hnear
      · refine .inl ⟨[e], u, ⟨es, rfl⟩, ?_, hgoal⟩
        rw [List.foldlM_cons, hu]
        rfl
      rcases ih (fun he => turn (List.mem_cons_of_mem _ he)) hnear ht with
        ⟨fs, v, hfs, hrun, hgoal⟩ | hend
      · refine .inl ⟨e :: fs, v, List.cons_prefix_cons.mpr ⟨rfl, hfs⟩, ?_, hgoal⟩
        rw [List.foldlM_cons, hu]
        exact hrun
      · rw [List.length_cons, Nat.add_comm es.length, ← Nat.add_assoc]
        exact .inr hend

/-- A loop whose turns all succeed comes to its end. -/
theorem foldlM_total {f : S → E → Option S} {I : S → Prop} {es : List E}
    (turn : ∀ {s e}, e ∈ es → I s → ∃ t, f s e = some t ∧ I t) {s : S} (hs : I s) :
    ∃ t, es.foldlM f s = some t ∧ I t := by
  induction es generalizing s with
  | nil => exact ⟨s, rfl, hs⟩
  | cons e es ih =>
      obtain ⟨u, hu, hIu⟩ := turn List.mem_cons_self hs
      obtain ⟨t, ht, hIt⟩ := ih (fun he => turn (List.mem_cons_of_mem _ he)) hIu
      exact ⟨t, by rw [List.foldlM_cons, hu]; exact ht, hIt⟩

/-- What every turn of a loop keeps, the loop keeps. -/
theorem foldlM_keeps {f : S → E → Option S} {R : S → S → Prop} (refl : ∀ s, R s s)
    (trans : ∀ {s t u}, R s t → R t u → R s u) (keep : ∀ {s e t}, f s e = some t → R s t)
    {es : List E} {s t : S} (h : es.foldlM f s = some t) : R s t := by
  refine foldlM_invariant (fun _ u => R s u) (fun hR hf => trans hR (keep hf)) (refl s) h

end Transitions
