import Hymenium.Foundations.Connection
import Hymenium.Foundations.Runs
import Hymenium.Store.WorkflowStore

/-!
# The transactions of the store

`WorkflowStore::with_transaction` (`src/store.rs`) on a connection whose BEGIN, COMMIT and ROLLBACK
may fail. `withTransaction_ofTxn` relates it to `withTransaction` of the schema, where they succeed.
-/

namespace Hymenium

/-- Whether the database accepts the control statements of a call. -/
structure Answers where
  begin : Bool
  commit : Bool
  rollback : Bool

open Connection

namespace WorkflowStore

section Call

variable {σ ε τ : Type}

/-- Run `f` between BEGIN and COMMIT, and roll back on its error. `ofStore` is `E::from`. -/
def withTransaction (ofStore : StoreError → ε) (answers : Answers) (f : Closure σ (Except ε τ))
    (c : Connection σ) : Except ε τ × Connection σ :=
  if !c.isAutocommit then (.error (ofStore .nestedTransaction), c)
  else
    match c.execute .begin answers.begin with
    | (false, c) => (.error (ofStore .sqlite), c)
    | (true, c) =>
      match f.run c with
      | (.ok value, c) =>
        match c.execute .commit answers.commit with
        -- the error of COMMIT is returned as it is, with no ROLLBACK
        | (false, c) => (.error (ofStore .sqlite), c)
        | (true, c) => (.ok value, c)
      -- a failed ROLLBACK is only warned about
      | (.error e, c) => (.error e, (c.execute .rollback answers.rollback).2)

variable (ofStore : StoreError → ε) (answers : Answers) (f : Closure σ (Except ε τ))

theorem withTransaction_open {c : Connection σ} (h : c.isAutocommit = false) :
    withTransaction ofStore answers f c = (.error (ofStore .nestedTransaction), c) := by
  unfold withTransaction
  rw [h]
  rfl

/-- What a call does in autocommit mode, by the answers and the result of the closure. -/
theorem withTransaction_closed (s : σ) :
    withTransaction ofStore answers f (closed s) =
      if answers.begin then
        match f.result s with
        | .ok value =>
          if answers.commit then (.ok value, closed (f.written s))
          else (.error (ofStore .sqlite), ⟨s, some (f.written s)⟩)
        | .error e =>
          (.error e, if answers.rollback then closed s else ⟨s, some (f.written s)⟩)
      else (.error (ofStore .sqlite), closed s) := by
  obtain ⟨begin, commit, rollback⟩ := answers
  unfold withTransaction
  cases begin with
  | false => rfl
  | true =>
    have hrun := f.run_begun s
    simp only [isAutocommit_closed, execute_begin, hrun]
    cases f.result s with
    | ok value =>
      cases commit with
      | false =>
        simp only [execute_refused]
        rfl
      | true =>
        simp only [execute_commit]
        rfl
    | error e =>
      cases rollback with
      | false =>
        simp only [execute_refused]
        rfl
      | true =>
        simp only [execute_rollback]
        rfl

end Call

end WorkflowStore

/-- The statements of a `Txn` as a closure. What an error leaves behind is taken back by ROLLBACK,
so that it is left out. -/
def Txn.closure {ε α : Type} (body : Txn ε α) : Closure Db (Except ε α) where
  run c :=
    match body.run c.content with
    | .ok (a, db) => (.ok a, { c with working := c.working.map fun _ => db })
    | .error e => (.error e, c)
  keeps s w := by
    cases body.run (mk s (some w)).content with
    | ok p => exact ⟨p.2, rfl⟩
    | error e => exact ⟨w, rfl⟩

/-- When the database accepts every control statement, a transaction is the one of the schema. -/
theorem withTransaction_ofTxn {ε α : Type} (ofStore : StoreError → ε) (body : Txn ε α) (db : Db) :
    WorkflowStore.withTransaction ofStore ⟨true, true, true⟩ (Txn.closure body) (closed db) =
      ((withTransaction body db).1, closed (withTransaction body db).2) := by
  rw [WorkflowStore.withTransaction_closed]
  unfold Closure.result Closure.written Txn.closure withTransaction
  simp only [content_open]
  cases body.run db <;> rfl

/-! ## Calls -/

/-- A call of `with_transaction`: how it converts errors of the store, what the database answers to
its control statements, and its closure. -/
structure Call (σ : Type) where
  {error : Type}
  {value : Type}
  ofStore : StoreError → error
  answers : Answers
  closure : Closure σ (Except error value)

namespace Call

variable {σ : Type}

/-- What the call returns. -/
def run (call : Call σ) (c : Connection σ) : Except call.error call.value × Connection σ :=
  WorkflowStore.withTransaction call.ofStore call.answers call.closure c

/-- The connection after the call. -/
def after (c : Connection σ) (call : Call σ) : Connection σ := (call.run c).2

/-- The call leaves no transaction open, and the contents as they were when it returns an error. -/
def AllOrNothing (c : Connection σ) (call : Call σ) : Prop :=
  (after c call).isAutocommit = true ∧
    ((call.run c).1.isOk = false → (after c call).content = c.content)

/-- The closure succeeds, and the database refuses to commit what it wrote. -/
def CutOff (c : Connection σ) (call : Call σ) : Prop :=
  call.answers.begin = true ∧ (call.closure.result c.content).isOk = true ∧
    call.answers.commit = false

instance : DecidableRel (CutOff (σ := σ)) := fun c call =>
  inferInstanceAs (Decidable (call.answers.begin = true ∧
    (call.closure.result c.content).isOk = true ∧ call.answers.commit = false))

/-- The contents after a call that is not cut off: what the closure wrote, when it succeeds. -/
def effect (s : σ) (call : Call σ) : σ :=
  if call.answers.begin && (call.closure.result s).isOk then call.closure.written s else s

variable {call : Call σ}

/-- A call that is not cut off closes its transaction, and returns an error when it drops it. -/
theorem run_of_not_cutOff (hrollback : call.answers.rollback = true) {s : σ}
    (hcut : ¬ CutOff (closed s) call) :
    after (closed s) call = closed (effect s call) ∧
      (call.run (closed s)).1.isOk =
        (call.answers.begin && (call.closure.result s).isOk) := by
  unfold CutOff at hcut
  unfold after run effect
  rw [WorkflowStore.withTransaction_closed]
  rw [content_closed] at hcut
  cases hbegin : call.answers.begin with
  | false => exact ⟨rfl, rfl⟩
  | true =>
    cases hresult : call.closure.result s with
    | ok value =>
      have hcommit : call.answers.commit = true := by
        by_contra h
        exact hcut ⟨hbegin, by rw [hresult]; rfl, eq_false_of_ne_true h⟩
      rw [hcommit]
      exact ⟨rfl, rfl⟩
    | error e =>
      rw [hrollback]
      exact ⟨rfl, rfl⟩

/-- A call that is cut off leaves its transaction open. -/
theorem after_of_cutOff {s : σ} (hcut : CutOff (closed s) call) :
    after (closed s) call = ⟨s, some (call.closure.written s)⟩ := by
  obtain ⟨hbegin, hok, hcommit⟩ := hcut
  rw [content_closed] at hok
  unfold after run
  rw [WorkflowStore.withTransaction_closed, hbegin, hcommit]
  cases hresult : call.closure.result s with
  | ok value => rfl
  | error e =>
    rw [hresult] at hok
    cases hok

theorem allOrNothing_iff (hrollback : call.answers.rollback = true) (s : σ) :
    AllOrNothing (closed s) call ↔ ¬ CutOff (closed s) call := by
  constructor
  · rintro ⟨hclosed, -⟩ hcut
    rw [after_of_cutOff hcut, isAutocommit_open] at hclosed
    cases hclosed
  · intro hcut
    obtain ⟨hafter, hok⟩ := run_of_not_cutOff hrollback hcut
    unfold AllOrNothing
    rw [hafter, hok]
    refine ⟨rfl, fun herr => ?_⟩
    unfold effect
    rw [content_closed, content_closed, herr]
    rfl

/-! ### Runs of calls -/

variable {calls : List (Call σ)}

/-- When no call is cut off, the connection stays in autocommit mode, and has the effects of the
calls in their order. -/
theorem run_effects {s : σ} (hrollback : ∀ call ∈ calls, call.answers.rollback = true)
    (hcut : Runs.Meets after (fun c call => ¬ CutOff c call) (closed s) calls) :
    Runs.run after (closed s) calls = closed (calls.foldl effect s) := by
  induction calls generalizing s with
  | nil => rfl
  | cons call calls ih =>
    obtain ⟨hcall, hcalls⟩ := hcut
    have hafter := (run_of_not_cutOff (hrollback call List.mem_cons_self) hcall).1
    rw [hafter] at hcalls
    rw [Runs.run_cons, hafter]
    exact ih (fun call' hmem => hrollback call' (List.mem_cons_of_mem _ hmem)) hcalls

/-- On an open transaction a call is refused. -/
theorem run_refused {c : Connection σ} (h : c.isAutocommit = false) (call : Call σ) :
    call.run c = (.error (call.ofStore .nestedTransaction), c) :=
  WorkflowStore.withTransaction_open call.ofStore call.answers call.closure h

/-- No later call closes a transaction that was left open. -/
theorem run_open {c : Connection σ} (h : c.isAutocommit = false) (calls : List (Call σ)) :
    Runs.run after c calls = c := by
  induction calls with
  | nil => rfl
  | cons call calls ih =>
    have hafter : after c call = c := congrArg Prod.snd (run_refused h call)
    rw [Runs.run_cons, hafter, ih]

/-- **All or nothing.** Every call of a run is all-or-nothing and closes its transaction exactly
when no call is cut off at its commit. -/
theorem transactions_closed_iff (s : σ) (calls : List (Call σ))
    (hrollback : ∀ call ∈ calls, call.answers.rollback = true) :
    Runs.Meets after AllOrNothing (closed s) calls ↔
      Runs.Meets after (fun c call => ¬ CutOff c call) (closed s) calls := by
  induction calls generalizing s with
  | nil => exact Iff.rfl
  | cons call calls ih =>
    have hcall := allOrNothing_iff (hrollback call List.mem_cons_self) s
    have ih' := fun s => ih s fun call' hmem => hrollback call' (List.mem_cons_of_mem _ hmem)
    rw [Runs.Meets, Runs.Meets, hcall]
    refine and_congr_right fun hcut => ?_
    rw [(run_of_not_cutOff (hrollback call List.mem_cons_self) hcut).1]
    exact ih' _

/-- A committed insertion, and one whose phase index does not fit the column and which is rolled
back. -/
theorem transactions_closed_committed :
    let inst : WorkflowInstance := .new "wf" implAuditDefault "handoff.md" 0
    let insert (inst : WorkflowInstance) : Call Db :=
      ⟨id, ⟨true, true, true⟩, Txn.closure (findAndInsertWorkflowByHash inst "hash")⟩
    Runs.Meets after AllOrNothing (closed .empty)
      [insert inst, insert { inst with currentPhaseIdx := 2 ^ 63 }] := by
  intro inst insert
  refine (transactions_closed_iff Db.empty _ ?_).mpr ?_
  · simp [insert]
  · decide +kernel

/-- The database is busy when a first insertion commits: the transaction stays open, and the next
insertion is refused for it. -/
theorem busy_commit_leaks :
    let inst : WorkflowInstance := .new "wf" implAuditDefault "handoff.md" 0
    let insert (commit : Bool) : Call Db :=
      ⟨id, ⟨true, commit, true⟩, Txn.closure (findAndInsertWorkflowByHash inst "hash")⟩
    ¬ AllOrNothing (closed .empty) (insert false) ∧
      ((insert true).run (after (closed .empty) (insert false))).1 =
        .error .nestedTransaction := by
  intro inst insert
  have hcut : CutOff (closed .empty) (insert false) := ⟨rfl, by decide +kernel, rfl⟩
  have hopen : (after (closed .empty) (insert false)).isAutocommit = false := by
    rw [after_of_cutOff hcut]
    rfl
  refine ⟨fun h => (allOrNothing_iff rfl _).mp h hcut, ?_⟩
  rw [run_refused hopen]
  rfl

end Call

end Hymenium
