import Mathlib.Tactic.TypeStar

/-!
# Connections and their transactions

A connection to a database with contents in `σ`. In autocommit mode a statement is committed at
once. BEGIN opens a transaction, in which the connection works on a copy of the contents until
COMMIT keeps the copy or ROLLBACK drops it. A control statement that fails changes nothing: a
failed COMMIT leaves the transaction open.
-/

/-- The committed contents, and inside a transaction what the connection works on. -/
structure Connection (σ : Type*) where
  committed : σ
  working : Option σ

namespace Connection

variable {σ α : Type*}

/-- A connection in autocommit mode. -/
def closed (s : σ) : Connection σ := ⟨s, none⟩

/-- No transaction is open. -/
def isAutocommit (c : Connection σ) : Bool := c.working.isNone

/-- The contents the connection reads. -/
def content (c : Connection σ) : σ := c.working.getD c.committed

@[simp] theorem isAutocommit_closed (s : σ) : (closed s).isAutocommit = true := rfl

@[simp] theorem isAutocommit_open (s w : σ) : (mk s (some w)).isAutocommit = false := rfl

@[simp] theorem content_closed (s : σ) : (closed s).content = s := rfl

@[simp] theorem content_open (s w : σ) : (mk s (some w)).content = w := rfl

/-! ## Control statements -/

/-- The statements that open and close transactions. -/
inductive Control where
  | begin
  | commit
  | rollback

/-- Execute a control statement, and say whether it succeeded. `accepted` is false when the database
fails it for reasons of its own (it is busy, a disk is full). Transactions do not nest, and only an
open one can be closed. -/
def execute (c : Connection σ) (statement : Control) (accepted : Bool) : Bool × Connection σ :=
  match accepted, statement, c.working with
  | true, .begin, none => (true, ⟨c.committed, some c.committed⟩)
  | true, .commit, some w => (true, ⟨w, none⟩)
  | true, .rollback, some _ => (true, ⟨c.committed, none⟩)
  | _, _, _ => (false, c)

@[simp] theorem execute_refused (c : Connection σ) (statement : Control) :
    c.execute statement false = (false, c) := rfl

@[simp] theorem execute_begin (s : σ) :
    (closed s).execute .begin true = (true, ⟨s, some s⟩) := rfl

@[simp] theorem execute_commit (s w : σ) :
    (mk s (some w)).execute .commit true = (true, closed w) := rfl

@[simp] theorem execute_rollback (s w : σ) :
    (mk s (some w)).execute .rollback true = (true, closed s) := rfl

/-! ## Closures -/

/-- What is run inside a transaction and itself neither opens nor closes one: it leaves the
transaction open, and commits nothing. -/
structure Closure (σ α : Type*) where
  run : Connection σ → α × Connection σ
  keeps : ∀ s w, ∃ w', (run ⟨s, some w⟩).2 = ⟨s, some w'⟩

namespace Closure

/-- What the closure returns in a transaction that was opened on `s`. -/
def result (f : Closure σ α) (s : σ) : α := (f.run ⟨s, some s⟩).1

/-- What the closure leaves in a transaction that was opened on `s`. -/
def written (f : Closure σ α) (s : σ) : σ := (f.run ⟨s, some s⟩).2.content

theorem run_begun (f : Closure σ α) (s : σ) :
    f.run ⟨s, some s⟩ = (f.result s, ⟨s, some (f.written s)⟩) := by
  obtain ⟨w, hw⟩ := f.keeps s s
  have hwritten : f.written s = w := by rw [written, hw, content_open]
  exact Prod.ext rfl (by rw [hw, hwritten])

end Closure

end Connection
