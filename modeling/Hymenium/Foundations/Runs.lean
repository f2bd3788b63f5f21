import Mathlib.Data.List.Basic

/-!
# Runs of a deterministic step function

A machine is a step function `σ → ε → σ`; a run feeds it a list of events. `run_invariant` carries
an invariant along a run, `exists_step_of_change` finds the step at which a property first becomes
true, and `Meets` restricts a run to the steps that satisfy a condition on the state before them.
`trace` lists the states of a run: two runs that differ in one event have the same trace when the
two events lead to the same state (`map_trace_replace_iff`).
-/

namespace Runs

variable {σ ε : Type*} (step : σ → ε → σ)

/-- The state a run reaches. -/
def run (s : σ) (es : List ε) : σ := es.foldl step s

variable {step}

@[simp] theorem run_nil (s : σ) : run step s [] = s := rfl

@[simp] theorem run_cons (s : σ) (e : ε) (es : List ε) :
    run step s (e :: es) = run step (step s e) es := rfl

@[simp] theorem run_append (s : σ) (es fs : List ε) :
    run step s (es ++ fs) = run step (run step s es) fs := List.foldl_append

/-- What every step preserves, a run preserves. -/
theorem run_invariant {P : σ → Prop} (hstep : ∀ s e, P s → P (step s e)) {s : σ} (h : P s)
    (es : List ε) : P (run step s es) := by
  induction es generalizing s with
  | nil => exact h
  | cons e es ih => exact ih (hstep s e h)

/-- A property that holds at the end of a run and not at its start becomes true at some step. -/
theorem exists_step_of_change {Q : σ → Prop} {s : σ} {es : List ε} (h₀ : ¬ Q s)
    (h : Q (run step s es)) :
    ∃ pre e post, es = pre ++ e :: post ∧ ¬ Q (run step s pre) ∧
      Q (step (run step s pre) e) := by
  induction es generalizing s with
  | nil => exact absurd h h₀
  | cons e es ih =>
    by_cases hQ : Q (step s e)
    · exact ⟨[], e, es, rfl, h₀, hQ⟩
    · obtain ⟨pre, e', post, hes, hpre, hpost⟩ := ih hQ h
      exact ⟨e :: pre, e', post, by rw [hes]; rfl, hpre, hpost⟩

/-! ## Runs whose steps meet a condition -/

variable (step) in
/-- Every step of the run meets `C`, a condition on the event and the state before it. -/
def Meets (C : σ → ε → Prop) : σ → List ε → Prop
  | _, [] => True
  | s, e :: es => C s e ∧ Meets C (step s e) es

instance decidableMeets {C : σ → ε → Prop} [∀ s e, Decidable (C s e)] :
    ∀ (s : σ) (es : List ε), Decidable (Meets step C s es)
  | _, [] => isTrue trivial
  | s, e :: es =>
    have : Decidable (Meets step C (step s e) es) := decidableMeets (step s e) es
    inferInstanceAs (Decidable (C s e ∧ Meets step C (step s e) es))

theorem meets_append {C : σ → ε → Prop} {s : σ} {es fs : List ε} :
    Meets step C s (es ++ fs) ↔ Meets step C s es ∧ Meets step C (run step s es) fs := by
  induction es generalizing s with
  | nil => simp [Meets]
  | cons e es ih => simp [Meets, ih, and_assoc]

/-- A run meets a condition when each of its steps does. -/
theorem meets_iff {C : σ → ε → Prop} {s : σ} {es : List ε} :
    Meets step C s es ↔ ∀ pre e post, es = pre ++ e :: post → C (run step s pre) e := by
  constructor
  · rintro h pre e post rfl
    exact (meets_append.mp h).2.1
  · intro h
    induction es generalizing s with
    | nil => trivial
    | cons e es ih =>
      refine ⟨h [] e es rfl, ih fun pre e' post hes => ?_⟩
      exact h (e :: pre) e' post (congrArg (e :: ·) hes)

/-- When one event is replaced by another that leads to the same state, only the new event has to
meet the condition. -/
theorem meets_replace_iff {C : σ → ε → Prop} {s : σ} {pre post : List ε} {e e' : ε}
    (hstep : step (run step s pre) e' = step (run step s pre) e)
    (h : Meets step C s (pre ++ e :: post)) :
    Meets step C s (pre ++ e' :: post) ↔ C (run step s pre) e' := by
  rw [meets_append, Meets] at h ⊢
  obtain ⟨hpre, -, hpost⟩ := h
  rw [hstep]
  exact ⟨fun h => h.2.1, fun h => ⟨hpre, h, hpost⟩⟩

/-- What every step that meets the condition preserves, a run of such steps preserves. -/
theorem run_invariant_of_meets {C : σ → ε → Prop} {P : σ → Prop}
    (hstep : ∀ s e, P s → C s e → P (step s e)) {s : σ} {es : List ε} (h : P s)
    (hC : Meets step C s es) : P (run step s es) := by
  induction es generalizing s with
  | nil => exact h
  | cons e es ih => exact ih (hstep s e h hC.1) hC.2

/-- Conditions that agree on every step agree on every run. -/
theorem meets_congr {C D : σ → ε → Prop} (h : ∀ s e, C s e ↔ D s e) {s : σ} {es : List ε} :
    Meets step C s es ↔ Meets step D s es := by
  induction es generalizing s with
  | nil => exact Iff.rfl
  | cons e es ih => exact and_congr (h s e) ih

/-- A condition that an invariant implies, where the invariant is kept under another condition. -/
theorem meets_of_invariant {C D : σ → ε → Prop} {P : σ → Prop}
    (hstep : ∀ s e, P s → C s e → P (step s e)) (himp : ∀ s e, P s → C s e → D s e) {s : σ}
    {es : List ε} (h : P s) (hC : Meets step C s es) : Meets step D s es := by
  induction es generalizing s with
  | nil => trivial
  | cons e es ih => exact ⟨himp s e h hC.1, ih (hstep s e h hC.1) hC.2⟩

/-! ## What was so before -/

variable (step) in
/-- The property held at the start, or after some of the events. -/
def Past (s : σ) (es : List ε) (Q : σ → Prop) : Prop :=
  ∃ pre post, es = pre ++ post ∧ Q (run step s pre)

theorem Past.now {s : σ} {es : List ε} {Q : σ → Prop} (h : Q (run step s es)) :
    Past step s es Q := ⟨es, [], (List.append_nil es).symm, h⟩

theorem Past.append {s : σ} {es : List ε} {Q : σ → Prop} (h : Past step s es Q)
    (fs : List ε) : Past step s (es ++ fs) Q := by
  obtain ⟨pre, post, rfl, hQ⟩ := h
  exact ⟨pre, post ++ fs, List.append_assoc .., hQ⟩

/-- A property of the events so far, kept by every step that meets the condition. -/
theorem events_invariant_of_meets {C : σ → ε → Prop} {s : σ} {P : List ε → Prop} (h : P [])
    (hstep : ∀ es e, P es → C (run step s es) e → P (es ++ [e])) {es : List ε}
    (hC : Meets step C s es) : P es := by
  suffices hmore : ∀ pre, P pre → Meets step C (run step s pre) es → P (pre ++ es) from
    hmore [] h hC
  clear hC
  induction es with
  | nil => exact fun pre hpre _ => (List.append_nil pre).symm ▸ hpre
  | cons e es ih =>
    intro pre hpre hC
    rw [List.append_cons]
    refine ih (pre ++ [e]) (hstep pre e hpre hC.1) ?_
    rw [run_append]
    exact hC.2

/-! ## Traces -/

variable (step) in
/-- The states after each event of a run. -/
def trace : σ → List ε → List σ
  | _, [] => []
  | s, e :: es => step s e :: trace (step s e) es

@[simp] theorem length_trace (s : σ) (es : List ε) : (trace step s es).length = es.length := by
  induction es generalizing s with
  | nil => rfl
  | cons e es ih => rw [trace, List.length_cons, List.length_cons, ih]

theorem trace_append (s : σ) (es fs : List ε) :
    trace step s (es ++ fs) = trace step s es ++ trace step (run step s es) fs := by
  induction es generalizing s with
  | nil => rfl
  | cons e es ih => rw [List.cons_append, trace, trace, ih, run_cons, List.cons_append]

/-- What is read from the trace of a run stays the same when one event is replaced by another,
if and only if the two lead to the same state, which the reading has to tell apart. -/
theorem map_trace_replace_iff {ω : Type*} {read : σ → ω} {s : σ} {pre post : List ε} {e e' : ε}
    (hread : read (step (run step s pre) e') = read (step (run step s pre) e) →
      step (run step s pre) e' = step (run step s pre) e) :
    (trace step s (pre ++ e' :: post)).map read = (trace step s (pre ++ e :: post)).map read ↔
      step (run step s pre) e' = step (run step s pre) e := by
  rw [trace_append, trace_append, trace, trace, List.map_append, List.map_append,
    List.append_cancel_left_eq, List.map_cons, List.map_cons]
  constructor
  · intro h
    exact hread (List.cons.inj h).1
  · intro h
    rw [h]

end Runs
