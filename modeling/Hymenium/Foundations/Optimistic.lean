import Hymenium.Foundations.Runs
import Mathlib.Data.List.Count
import Mathlib.Logic.Function.Basic

/-!
# Processes that load, decide, and write

A process reads a view of a shared store, decides from the view what to write, and writes it later,
in one step, when other processes may have written in between. `exec` is the process in one go.

A run in which every write is still the one its process would decide on leaves the store that the
processes leave one after the other (`run_eq_serial`), in the order in which they take effect: a
process that writes nothing takes effect when it loads, the others when they write.
-/

namespace Optimistic

/-- A process over stores `σ` that decides from a view `α`. -/
structure Process (σ α : Type*) where
  load : σ → α
  /-- The write the process decides on, if it writes at all. -/
  plan : α → Option (σ → σ)

/-- Do the write of a process. -/
def commit {σ : Type*} (write : Option (σ → σ)) (s : σ) : σ := write.elim s (· s)

namespace Process

variable {σ α : Type*} (p : Process σ α)

/-- The process in one go. -/
def exec (s : σ) : σ := commit (p.plan (p.load s)) s

end Process

/-- Where a process stands. -/
inductive Pc (α : Type*) where
  | start
  | loaded (view : α)
  | done

/-- A store shared by processes. -/
structure State (σ α ι : Type*) where
  store : σ
  pc : ι → Pc α

variable {σ α ι : Type*}

/-- No process has loaded. -/
def State.init (s : σ) : State σ α ι := ⟨s, fun _ => .start⟩

variable [DecidableEq ι] (procs : ι → Process σ α)

/-- One process moves: it loads, or it writes. -/
def step (st : State σ α ι) (i : ι) : State σ α ι :=
  match st.pc i with
  | .start => { st with pc := Function.update st.pc i (.loaded ((procs i).load st.store)) }
  | .loaded view =>
    ⟨commit ((procs i).plan view) st.store, Function.update st.pc i .done⟩
  | .done => st

/-- A process about to write would decide on the same write from the store as it is now. -/
def Settled (st : State σ α ι) (i : ι) : Prop :=
  ∀ view write, st.pc i = .loaded view → (procs i).plan view = some write →
    (procs i).plan ((procs i).load st.store) = some write

/-- The step at which the process takes effect. -/
def takesEffect (st : State σ α ι) (i : ι) : Bool :=
  match st.pc i with
  | .start => ((procs i).plan ((procs i).load st.store)).isNone
  | .loaded view => ((procs i).plan view).isSome
  | .done => false

/-- The processes in the order in which they take effect. -/
def effects : State σ α ι → List ι → List ι
  | _, [] => []
  | st, i :: is =>
    (if takesEffect procs st i then [i] else []) ++ effects (step procs st i) is

variable {procs}

/-- **Serial runs.** A run whose writes are all settled leaves what the processes leave one after
the other. -/
theorem run_eq_serial {st : State σ α ι} {is : List ι}
    (h : Runs.Meets (step procs) (Settled procs) st is) :
    (Runs.run (step procs) st is).store =
      (effects procs st is).foldl (fun s i => (procs i).exec s) st.store := by
  induction is generalizing st with
  | nil => rfl
  | cons i is ih =>
    obtain ⟨hi, his⟩ := h
    rw [Runs.run_cons, ih his, effects, List.foldl_append]
    -- the store after one step is the store after the process, if it takes effect here
    suffices hstep : (step procs st i).store =
        (if takesEffect procs st i then [i] else []).foldl (fun s i => (procs i).exec s)
          st.store by rw [hstep]
    unfold step takesEffect
    cases hpc : st.pc i with
    | done => rfl
    | start =>
      cases hplan : (procs i).plan ((procs i).load st.store) with
      | some write => rfl
      | none =>
        show st.store = (procs i).exec st.store
        rw [Process.exec, hplan]
        rfl
    | loaded view =>
      cases hplan : (procs i).plan view with
      | none =>
        simp only [hplan]
        rfl
      | some write =>
        simp only [hplan]
        show write st.store = (procs i).exec st.store
        rw [Process.exec, hi view write hpc hplan]
        rfl

omit [DecidableEq ι] in
theorem settled_start {st : State σ α ι} {i : ι} (h : st.pc i = .start) :
    Settled procs st i := by
  intro view write hpc
  rw [h] at hpc
  cases hpc

/-- A process that writes right after it has loaded is settled. -/
theorem settled_turn {st : State σ α ι} {i : ι} (h : st.pc i = .start) :
    Runs.Meets (step procs) (Settled procs) st [i, i] := by
  refine ⟨settled_start h, fun view write hpc hplan => ?_, trivial⟩
  unfold step at hpc ⊢
  simp only [h, Function.update_self, Pc.loaded.injEq] at hpc ⊢
  rw [hpc]
  exact hplan

/-! ## Every process takes effect once -/

theorem step_pc_of_ne {st : State σ α ι} {i j : ι} (h : j ≠ i) :
    (step procs st i).pc j = st.pc j := by
  unfold step
  cases st.pc i with
  | start => exact Function.update_of_ne h _ _
  | loaded view => exact Function.update_of_ne h _ _
  | done => rfl

/-- A process that loads before another one and writes after it is settled, if it would decide on the
same write after the other one. -/
theorem settled_around {st : State σ α ι} {i j : ι} (hij : j ≠ i) (hi : st.pc i = .start)
    (hj : st.pc j = .start) (hplan : (procs i).plan ((procs i).load ((procs j).exec st.store)) =
      (procs i).plan ((procs i).load st.store)) :
    Runs.Meets (step procs) (Settled procs) st [i, j, j, i] := by
  have hloaded : step procs st i =
      { st with pc := Function.update st.pc i (.loaded ((procs i).load st.store)) } := by
    simp [step, hi]
  have hstart : (step procs st i).pc j = .start := by rw [step_pc_of_ne hij, hj]
  have hpc : (Runs.run (step procs) (step procs st i) [j, j]).pc i =
      .loaded ((procs i).load st.store) := by
    rw [Runs.run_cons, Runs.run_cons, Runs.run_nil, step_pc_of_ne (Ne.symm hij),
      step_pc_of_ne (Ne.symm hij), hloaded]
    exact Function.update_self ..
  have hstore : (Runs.run (step procs) (step procs st i) [j, j]).store =
      (procs j).exec st.store := by
    rw [Runs.run_cons, Runs.run_cons, Runs.run_nil]
    simp [step, hi, hj, Function.update_of_ne hij, Process.exec]
  have hlast : Settled procs (Runs.run (step procs) (step procs st i) [j, j]) i := by
    intro view write hview hwrite
    rw [hpc] at hview
    cases hview
    rw [hstore, hplan]
    exact hwrite
  have hrest : Runs.Meets (step procs) (Settled procs) (step procs st i) ([j, j] ++ [i]) :=
    Runs.meets_append.mpr ⟨settled_turn hstart, hlast, trivial⟩
  exact ⟨settled_start hi, hrest⟩

theorem count_effects_done {st : State σ α ι} {i : ι} (h : st.pc i = .done) (is : List ι) :
    (effects procs st is).count i = 0 := by
  induction is generalizing st with
  | nil => rfl
  | cons j is ih =>
    rw [effects, List.count_append]
    by_cases hj : j = i
    · subst hj
      have hstep : step procs st j = st := by simp [step, h]
      have hnone : takesEffect procs st j = false := by simp [takesEffect, h]
      rw [hstep, hnone, ih h]
      rfl
    · rw [ih (by rw [step_pc_of_ne (Ne.symm hj), h])]
      split_ifs
      · simp [hj]
      · rfl

theorem count_effects_loaded {st : State σ α ι} {i : ι} {view : α} (h : st.pc i = .loaded view)
    {is : List ι} (hi : i ∈ is) :
    (effects procs st is).count i = if ((procs i).plan view).isSome then 1 else 0 := by
  induction is generalizing st with
  | nil => cases hi
  | cons j is ih =>
    rw [effects, List.count_append]
    by_cases hj : j = i
    · subst hj
      have hdone : (step procs st j).pc j = .done := by simp [step, h]
      have htakes : takesEffect procs st j = ((procs j).plan view).isSome := by
        simp [takesEffect, h]
      rw [count_effects_done hdone, htakes]
      split_ifs <;> simp
    · rw [ih (by rw [step_pc_of_ne (Ne.symm hj), h])
        ((List.mem_cons.mp hi).resolve_left (Ne.symm hj))]
      split_ifs <;> simp [hj]

theorem count_effects_start {st : State σ α ι} {i : ι} (h : st.pc i = .start) {is : List ι}
    (hi : 2 ≤ is.count i) : (effects procs st is).count i = 1 := by
  induction is generalizing st with
  | nil => simp at hi
  | cons j is ih =>
    rw [effects, List.count_append]
    by_cases hj : j = i
    · subst hj
      rw [List.count_cons_self] at hi
      have hmem : j ∈ is := List.count_pos_iff.mp (by omega)
      have hloaded : (step procs st j).pc j = .loaded ((procs j).load st.store) := by
        simp [step, h]
      have htakes : takesEffect procs st j =
          ((procs j).plan ((procs j).load st.store)).isNone := by simp [takesEffect, h]
      rw [count_effects_loaded hloaded hmem, htakes]
      cases (procs j).plan ((procs j).load st.store) <;> simp
    · rw [List.count_cons_of_ne hj] at hi
      rw [ih (by rw [step_pc_of_ne (Ne.symm hj), h]) hi]
      split_ifs <;> simp [hj]

end Optimistic
