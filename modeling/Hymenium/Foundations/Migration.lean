import Mathlib.Data.List.Basic
import Mathlib.Logic.Function.Basic

/-!
# Migrations in steps

A migration is a list of steps. A step looks whether its work is done and does it if not; no step
undoes the work of another. Any number of migrators run the same migration against one state, one
look or one piece of work at a time, and any of them may be broken off and begin again at any
point. Still the state is always one that a single migrator reaches on its way (`World.Reached.run`),
so that one undisturbed migration ends as it would have ended at first (`World.Reached.runAll_eq`).
-/

namespace Migration

/-- A step of a migration. Work on a state where it is done already may fail, but it changes
nothing. -/
structure Step (σ ε : Type*) where
  Done : σ → Prop
  decidableDone : DecidablePred Done
  act : σ → Except ε σ
  done_of_act : ∀ {s s' : σ}, act s = .ok s' → Done s'
  eq_of_act : ∀ {s s' : σ}, Done s → act s = .ok s' → s' = s

variable {σ ε : Type*}

instance (step : Step σ ε) : DecidablePred step.Done := step.decidableDone

/-- Look and, unless it is done, work. -/
def Step.run (step : Step σ ε) (s : σ) : Except ε σ :=
  if step.Done s then .ok s else step.act s

theorem Step.run_of_done {step : Step σ ε} {s : σ} (h : step.Done s) : step.run s = .ok s :=
  if_pos h

theorem Step.done_of_run {step : Step σ ε} {s s' : σ} (h : step.run s = .ok s') : step.Done s' := by
  unfold Step.run at h
  split_ifs at h with hdone
  · cases h
    exact hdone
  · exact step.done_of_act h

/-- Work that goes well is what a look and the work would have given. -/
theorem Step.run_of_act {step : Step σ ε} {s s' : σ} (h : step.act s = .ok s') :
    step.run s = .ok s' := by
  unfold Step.run
  split_ifs with hdone
  · rw [step.eq_of_act hdone h]
  · exact h

/-- Run steps until one fails. -/
def runAll : List (Step σ ε) → σ → Option ε × σ
  | [], s => (none, s)
  | step :: rest, s =>
    match step.run s with
    | .error e => (some e, s)
    | .ok s' => runAll rest s'

/-- No step undoes another. -/
def Compatible (steps : List (Step σ ε)) : Prop :=
  ∀ step ∈ steps, ∀ other ∈ steps, ∀ s s', step.Done s → other.run s = .ok s' → step.Done s'

variable {steps rest : List (Step σ ε)} {s s' : σ}

theorem Compatible.mono (h : Compatible steps) (hsub : rest ⊆ steps) : Compatible rest :=
  fun step hstep other hother => h step (hsub hstep) other (hsub hother)

/-! ## One migrator -/

theorem runAll_cons_ok {step : Step σ ε} (h : step.run s = .ok s') :
    runAll (step :: rest) s = runAll rest s' := by
  rw [runAll, h]

theorem runAll_cons_error {step : Step σ ε} {e : ε} (h : step.run s = .error e) :
    runAll (step :: rest) s = (some e, s) := by
  rw [runAll, h]

/-- After steps that went well come the others. -/
theorem runAll_append (h : runAll steps s = (none, s')) :
    runAll (steps ++ rest) s = runAll rest s' := by
  induction steps generalizing s with
  | nil =>
    cases h
    rfl
  | cons step steps ih =>
    cases hrun : step.run s with
    | error e =>
      rw [runAll_cons_error hrun] at h
      cases h
    | ok s₁ =>
      rw [runAll_cons_ok hrun] at h
      rw [List.cons_append, runAll_cons_ok hrun]
      exact ih h

/-- Steps that are done are passed over. -/
theorem runAll_of_done (h : ∀ step ∈ steps, step.Done s) : runAll steps s = (none, s) := by
  induction steps with
  | nil => rfl
  | cons step steps ih =>
    obtain ⟨hstep, hsteps⟩ := List.forall_mem_cons.mp h
    rw [runAll_cons_ok (step.run_of_done hstep)]
    exact ih hsteps

/-- What every step keeps is kept by a migration, however it ends. -/
theorem runAll_invariant {P : σ → Prop}
    (hP : ∀ step ∈ steps, ∀ s s', P s → step.run s = .ok s' → P s') (h : P s) :
    P (runAll steps s).2 := by
  induction steps generalizing s with
  | nil => exact h
  | cons step rest ih =>
    obtain ⟨hstep, hrest⟩ := List.forall_mem_cons.mp hP
    cases hrun : step.run s with
    | error e =>
      rw [runAll_cons_error hrun]
      exact h
    | ok s₁ =>
      rw [runAll_cons_ok hrun]
      exact ih hrest (hstep s s₁ h hrun)

/-- A migration that goes well has done all its steps. -/
theorem done_of_runAll (hcompat : Compatible steps) (h : runAll steps s = (none, s')) :
    ∀ step ∈ steps, step.Done s' := by
  induction steps generalizing s with
  | nil => exact fun _ h => nomatch h
  | cons step rest ih =>
    cases hrun : step.run s with
    | error e =>
      rw [runAll_cons_error hrun] at h
      cases h
    | ok s₁ =>
      rw [runAll_cons_ok hrun] at h
      refine List.forall_mem_cons.mpr ⟨?_, ih (hcompat.mono (List.subset_cons_self _ _)) h⟩
      have hkept : step.Done (runAll rest s₁).2 := by
        refine runAll_invariant (fun other hother a b => ?_) (step.done_of_run hrun)
        exact hcompat step List.mem_cons_self other (List.mem_cons_of_mem _ hother) a b
      rwa [h] at hkept

/-! ## Any number of migrators -/

/-- Where a migrator stands: how many steps it has passed, and whether it has found the next one
undone. -/
structure Migrator where
  passed : ℕ
  looked : Bool
  deriving DecidableEq

/-- A migrator that has just begun. -/
def Migrator.fresh : Migrator := ⟨0, false⟩

/-- What may happen next. -/
inductive Event where
  | advance (i : ℕ)
  /-- The migrator is broken off; it may begin again. -/
  | quit (i : ℕ)
  deriving DecidableEq

/-- A state and the migrators at work on it. -/
structure World (σ : Type*) where
  state : σ
  migrators : ℕ → Migrator

namespace World

/-- Put a migrator somewhere. -/
def place (w : World σ) (i : ℕ) (m : Migrator) : World σ :=
  ⟨w.state, Function.update w.migrators i m⟩

variable (steps) in
/-- The migrator looks, or works on what it has found undone. It gives up when the work fails. -/
def advance (w : World σ) (i : ℕ) : World σ :=
  match steps[(w.migrators i).passed]? with
  | none => w
  | some step =>
    if (w.migrators i).looked then
      match step.act w.state with
      | .ok s' => place ⟨s', w.migrators⟩ i ⟨(w.migrators i).passed + 1, false⟩
      | .error _ => w.place i .fresh
    else if step.Done w.state then w.place i ⟨(w.migrators i).passed + 1, false⟩
    else w.place i ⟨(w.migrators i).passed, true⟩

variable (steps) in
/-- One event. -/
def apply (w : World σ) : Event → World σ
  | .advance i => w.advance steps i
  | .quit i => w.place i .fresh

/-- A state with no migrator under way. -/
def begin (s : σ) : World σ := ⟨s, fun _ => .fresh⟩

/-- The state is the one after the first `k` steps, and no migrator has passed more. -/
structure ReachedAt (steps : List (Step σ ε)) (s : σ) (k : ℕ) (w : World σ) : Prop where
  le_length : k ≤ steps.length
  runs : runAll (steps.take k) s = (none, w.state)
  passed : ∀ i, (w.migrators i).passed ≤ k

/-- The state is one that a single migrator comes through. -/
def Reached (steps : List (Step σ ε)) (s : σ) (w : World σ) : Prop := ∃ k, ReachedAt steps s k w

variable {w : World σ} {k : ℕ}

theorem reached_begin : Reached steps s (begin s) :=
  ⟨0, Nat.zero_le _, rfl, fun _ => Nat.zero_le _⟩

/-- A migrator may be put anywhere behind the state. -/
theorem ReachedAt.place (h : ReachedAt steps s k w) (i : ℕ) {m : Migrator} (hm : m.passed ≤ k) :
    ReachedAt steps s k (w.place i m) := by
  refine ⟨h.le_length, h.runs, fun j => ?_⟩
  unfold World.place
  by_cases hj : j = i
  · simp only [hj, Function.update_self, hm]
  · simp only [Function.update_of_ne hj, h.passed j]

/-- The next step, done by whom it may be, leads one step on. -/
theorem ReachedAt.next (h : ReachedAt steps s k w) {step : Step σ ε} (hstep : steps[k]? = some step)
    (hrun : step.run w.state = .ok s') :
    ReachedAt steps s (k + 1) ⟨s', w.migrators⟩ := by
  obtain ⟨hlt, rfl⟩ := List.getElem?_eq_some_iff.mp hstep
  refine ⟨hlt, ?_, fun i => Nat.le_succ_of_le (h.passed i)⟩
  rw [List.take_add_one, hstep, runAll_append h.runs]
  exact runAll_cons_ok hrun

/-- The steps that were passed are done. -/
theorem ReachedAt.done (hcompat : Compatible steps) (h : ReachedAt steps s k w) {n : ℕ} (hn : n < k)
    {step : Step σ ε} (hstep : steps[n]? = some step) : step.Done w.state := by
  refine done_of_runAll (hcompat.mono (List.take_subset k steps)) h.runs step ?_
  rw [List.mem_iff_getElem?]
  exact ⟨n, by rw [List.getElem?_take_of_lt hn, hstep]⟩

/-- One move of a migrator. Behind the state it finds everything done; at its front it may take the
state one step on. -/
theorem Reached.advance (hcompat : Compatible steps) (h : Reached steps s w) (i : ℕ) :
    Reached steps s (w.advance steps i) := by
  obtain ⟨k, h⟩ := h
  have hle := h.passed i
  unfold World.advance
  cases hstep : steps[(w.migrators i).passed]? with
  | none => exact ⟨k, h⟩
  | some step =>
    dsimp only
    -- a step that was run well, at the front or behind it
    have hrun : ∀ s', step.run w.state = .ok s' → Reached steps s
        (World.place ⟨s', w.migrators⟩ i ⟨(w.migrators i).passed + 1, false⟩) := by
      intro s' hrun
      rcases Nat.lt_or_eq_of_le hle with hlt | heq
      · have hsame : s' = w.state := by
          rw [step.run_of_done (h.done hcompat hlt hstep)] at hrun
          exact (Except.ok.inj hrun).symm
        rw [hsame]
        exact ⟨k, h.place i hlt⟩
      · rw [heq] at hstep ⊢
        exact ⟨k + 1, (h.next hstep hrun).place i (Nat.le_refl _)⟩
    split_ifs with hlooked hdone
    · cases hact : step.act w.state with
      | ok s' => exact hrun s' (step.run_of_act hact)
      | error e => exact ⟨k, h.place i (Nat.zero_le k)⟩
    · exact hrun w.state (step.run_of_done hdone)
    · exact ⟨k, h.place i hle⟩

theorem Reached.apply (hcompat : Compatible steps) (h : Reached steps s w) :
    ∀ event, Reached steps s (w.apply steps event)
  | .advance i => h.advance hcompat i
  | .quit i => ⟨h.choose, h.choose_spec.place i (Nat.zero_le _)⟩

/-- Whatever happens, the state is one that a single migrator comes through. -/
theorem Reached.run (hcompat : Compatible steps) (h : Reached steps s w) (events : List Event) :
    Reached steps s (events.foldl (World.apply steps) w) := by
  induction events generalizing w with
  | nil => exact h
  | cons event events ih => exact ih (h.apply hcompat event)

/-- **One undisturbed migration** ends as it would have ended at first. -/
theorem Reached.runAll_eq (hcompat : Compatible steps) (h : Reached steps s w) :
    runAll steps w.state = runAll steps s := by
  obtain ⟨k, h⟩ := h
  have hdone : ∀ step ∈ steps.take k, step.Done w.state :=
    done_of_runAll (hcompat.mono (List.take_subset k steps)) h.runs
  calc runAll steps w.state
      = runAll (steps.take k ++ steps.drop k) w.state := by rw [List.take_append_drop]
    _ = runAll (steps.drop k) w.state := runAll_append (runAll_of_done hdone)
    _ = runAll (steps.take k ++ steps.drop k) s := (runAll_append h.runs).symm
    _ = runAll steps s := by rw [List.take_append_drop]

/-- A migrator that has passed all steps leaves the state of a migration that went well. -/
theorem Reached.runAll_of_passed (h : Reached steps s w) {i : ℕ}
    (hi : (w.migrators i).passed = steps.length) : runAll steps s = (none, w.state) := by
  obtain ⟨k, h⟩ := h
  have hk : k = steps.length := Nat.le_antisymm h.le_length (hi ▸ h.passed i)
  have hruns := h.runs
  rwa [hk, List.take_length] at hruns

end World

end Migration
