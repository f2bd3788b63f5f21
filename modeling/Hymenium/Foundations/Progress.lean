import Hymenium.Foundations.Runs
import Mathlib.Order.Defs.Unbundled

/-!
# Runs that make progress

Two ways to say that a run gets somewhere. A preorder that every step goes up in relates the ends of
a run (`rel_run`). A measure that falls whenever a step changes what is read from the state bounds
the number of such steps (`changes_add_le`), however long the run is; an invariant with an index
counts the steps of one kind (`run_count`).
-/

namespace Runs

variable {σ ε ω : Type*} {step : σ → ε → σ}

/-- Where every step goes up in a preorder as long as an invariant holds, so does a run. -/
theorem rel_run {R : σ → σ → Prop} [IsPreorder σ R] {P : σ → Prop}
    (hP : ∀ s e, P s → P (step s e)) (hR : ∀ s e, P s → R s (step s e)) {s : σ} (h : P s)
    (es : List ε) : R s (run step s es) := by
  induction es generalizing s with
  | nil => exact refl_of R s
  | cons e es ih => exact trans_of R (hR s e h) (ih (hP s e h))

section Counts

variable (step) in
/-- The number of steps of a run that the test picks, by the event and the state before it. -/
def count (picks : σ → ε → Bool) : σ → List ε → ℕ
  | _, [] => 0
  | s, e :: es => (picks s e).toNat + count picks (step s e) es

/-- A test of the event alone counts the events. -/
theorem count_event (picks : ε → Bool) (s : σ) (es : List ε) :
    count step (fun _ => picks) s es = es.countP picks := by
  induction es generalizing s with
  | nil => rfl
  | cons e es ih =>
    rw [count, ih, List.countP_cons, Nat.add_comm]
    cases picks e <;> rfl

/-- An indexed invariant whose index a step raises exactly when the test picks it. -/
theorem run_count {picks : σ → ε → Bool} {C : σ → ε → Prop} {P : ℕ → σ → Prop}
    (hstep : ∀ k s e, P k s → C s e → P (k + (picks s e).toNat) (step s e)) {k : ℕ} {s : σ}
    {es : List ε} (h : P k s) (hC : Meets step C s es) :
    P (k + count step picks s es) (run step s es) := by
  induction es generalizing k s with
  | nil => exact h
  | cons e es ih =>
    have hrest := ih (hstep k s e h hC.1) hC.2
    rwa [Nat.add_assoc] at hrest

variable [DecidableEq ω] (read : σ → ω)

variable (step) in
/-- The number of steps of a run that change what is read from the state. -/
def changes : σ → List ε → ℕ := count step fun s e => decide (read (step s e) ≠ read s)

variable {read}

/-- Every change is paid for by a measure that no step raises. -/
theorem changes_add_le {m : σ → ℕ} (hle : ∀ s e, m (step s e) ≤ m s)
    (hlt : ∀ s e, read (step s e) ≠ read s → m (step s e) < m s) (s : σ) (es : List ε) :
    changes step read s es + m (run step s es) ≤ m s := by
  induction es generalizing s with
  | nil => exact Nat.le_of_eq (Nat.zero_add _)
  | cons e es ih =>
    have hrest := ih (step s e)
    have hpaid : (decide (read (step s e) ≠ read s)).toNat + m (step s e) ≤ m s := by
      by_cases hne : read (step s e) ≠ read s
      · have := hlt s e hne
        rw [decide_eq_true hne]
        show 1 + _ ≤ _
        omega
      · rw [decide_eq_false hne]
        show 0 + _ ≤ _
        have := hle s e
        omega
    show (decide (read (step s e) ≠ read s)).toNat + changes step read (step s e) es +
      m (run step (step s e) es) ≤ m s
    omega

end Counts

end Runs
