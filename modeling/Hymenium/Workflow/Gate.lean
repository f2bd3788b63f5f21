import Hymenium.Dispatch.Task
import Hymenium.Workflow.Template

/-!
# Phase entry and exit gates

Gate conditions, evaluators and the evaluation of a whole gate (`src/workflow/gate.rs`).
`GateEvaluator.Passes` is what a passed gate means: the evaluator answers every condition, and every
answer is positive (`evaluateAll_passed_iff`).
-/

namespace Hymenium

/-- A gate condition that can be evaluated during phase transitions. -/
inductive GateCondition where
  | codeDiffExists | verificationPassed | auditClean | findingsResolved
  | custom (name : String)
  deriving DecidableEq

/-- `Display` of a gate condition. -/
def GateCondition.toString : GateCondition → String
  | .codeDiffExists => "code_diff_exists"
  | .verificationPassed => "verification_passed"
  | .auditClean => "audit_clean"
  | .findingsResolved => "findings_resolved"
  | .custom s => s

/-- Parse a string condition into a typed `GateCondition`. -/
def parseGateCondition (s : String) : GateCondition :=
  if s = "code_diff_exists" then .codeDiffExists
  else if s = "verification_passed" then .verificationPassed
  else if s = "audit_clean" then .auditClean
  else if s = "findings_resolved" then .findingsResolved
  else .custom s

/-- Parsing loses nothing: the condition prints as the text it came from. -/
theorem toString_parseGateCondition (s : String) : (parseGateCondition s).toString = s := by
  unfold parseGateCondition
  split_ifs <;> simp_all [GateCondition.toString]

/-- Context passed to gate evaluators. -/
structure GateContext where
  workflowId : WorkflowId
  phaseId : String
  deriving DecidableEq

inductive GateError where
  | evaluationError (msg : String)
  | conditionNotMet (condition context : String)
  deriving DecidableEq

/-- `Display` of a gate error. -/
def GateError.toString : GateError → String
  | .evaluationError msg => s!"gate evaluation failed: {msg}"
  | .conditionNotMet condition context =>
    s!"gate condition not met: {condition} (context: {context})"

/-- Result of evaluating a single gate condition. -/
structure ConditionEvaluation where
  condition : GateCondition
  passed : Bool
  reason : String
  deriving DecidableEq

/-- Detailed result of evaluating a complete gate. -/
structure GateEvaluation where
  phaseId : String
  conditions : List ConditionEvaluation
  allPassed : Bool
  deriving DecidableEq

/-- Check if all conditions in this gate passed. -/
def GateEvaluation.passed (evaluation : GateEvaluation) : Bool :=
  evaluation.allPassed && evaluation.conditions.all (·.passed)

/-- Which conditions failed. -/
def GateEvaluation.failures (evaluation : GateEvaluation) : List String :=
  (evaluation.conditions.filter fun c => !c.passed).map (·.condition.toString)

/-- Evaluates gate conditions for phase transitions. -/
structure GateEvaluator where
  evaluate : GateCondition → GateContext → Except GateError ConditionEvaluation

namespace GateEvaluator

/-- The evaluation loop: it stops at the first error. -/
def evaluateEach (ev : GateEvaluator) (context : GateContext) :
    List GateCondition → Except GateError (List ConditionEvaluation)
  | [] => .ok []
  | condition :: rest => do
    let e ← ev.evaluate condition context
    let es ← ev.evaluateEach context rest
    return e :: es

/-- Evaluate all conditions in a set. -/
def evaluateAll (ev : GateEvaluator) (conditions : List GateCondition) (context : GateContext) :
    Except GateError GateEvaluation := do
  let evals ← ev.evaluateEach context conditions
  return { phaseId := context.phaseId, conditions := evals, allPassed := evals.all (·.passed) }

/-- The evaluator answers the condition, and the answer is positive. -/
def passesCondition (ev : GateEvaluator) (context : GateContext) (name : String) : Bool :=
  match ev.evaluate (parseGateCondition name) context with
  | .ok e => e.passed
  | .error _ => false

/-- The evaluator passes every condition a gate requires. -/
def Passes (ev : GateEvaluator) (gate : Gate) (context : GateContext) : Prop :=
  ∀ name ∈ gate.requires, ev.passesCondition context name = true

instance (ev : GateEvaluator) (gate : Gate) (context : GateContext) :
    Decidable (ev.Passes gate context) :=
  inferInstanceAs (Decidable (∀ name ∈ gate.requires, _))

theorem passesCondition_iff {ev : GateEvaluator} {context : GateContext} {name : String} :
    ev.passesCondition context name = true ↔
      ∃ e, ev.evaluate (parseGateCondition name) context = .ok e ∧ e.passed = true := by
  unfold passesCondition
  cases ev.evaluate (parseGateCondition name) context <;> simp

theorem evaluateEach_all_iff (ev : GateEvaluator) (context : GateContext)
    (names : List String) :
    (∃ es, ev.evaluateEach context (names.map parseGateCondition) = .ok es ∧
        es.all (·.passed) = true) ↔
      ∀ name ∈ names, ev.passesCondition context name = true := by
  induction names with
  | nil => simp [evaluateEach]
  | cons name rest ih =>
    rw [List.forall_mem_cons, ← ih, passesCondition_iff]
    simp only [List.map_cons, evaluateEach]
    cases ev.evaluate (parseGateCondition name) context with
    | error e => simp [bind, Except.bind]
    | ok e =>
      cases ev.evaluateEach context (rest.map parseGateCondition) with
      | error e' => simp [bind, Except.bind]
      | ok es => simp [bind, Except.bind, pure, Except.pure]

/-- A gate evaluation passes exactly when every required condition is answered positively. -/
theorem evaluateAll_passed_iff (ev : GateEvaluator) (gate : Gate) (context : GateContext) :
    (∃ r, ev.evaluateAll (gate.requires.map parseGateCondition) context = .ok r ∧
        r.passed = true) ↔ ev.Passes gate context := by
  unfold Passes
  rw [← evaluateEach_all_iff]
  unfold evaluateAll
  cases ev.evaluateEach context (gate.requires.map parseGateCondition) with
  | error e => simp [bind, Except.bind]
  | ok es => simp [bind, Except.bind, pure, Except.pure, GateEvaluation.passed]

@[simp] theorem passes_nil (ev : GateEvaluator) (context : GateContext) :
    ev.Passes ⟨[]⟩ context := by
  simp [Passes]

end GateEvaluator

/-! ## The two evaluators of reconciliation -/

/-- Gate evaluator that passes every condition unconditionally. -/
def permissiveGateEvaluator : GateEvaluator where
  evaluate condition _ := .ok
    { condition := condition
      passed := true
      reason := "condition satisfied (permissive reconciliation)" }

/-- The audit verdict of a task: `TaskDetail` has no audit fields, so there never is one. -/
def findAuditVerdict (_task : TaskDetail) : Option (Bool × String) := none

/-- The verdict of the evidence evaluator on one condition, with its reason. -/
def evidenceVerdict (task : TaskDetail) : GateCondition → Bool × String
  | .codeDiffExists =>
    (task.hasCodeDiff,
      if task.hasCodeDiff then "code diff is present"
      else "no code diff recorded for this task")
  | .verificationPassed =>
    (task.hasVerificationPassed,
      if task.hasVerificationPassed then "verification evidence is present and passed"
      else "no passing verification evidence for this task")
  | .auditClean | .findingsResolved =>
    -- fail-closed: audit gates require explicit evidence
    (findAuditVerdict task).getD
      (false, "audit gate requires explicit evidence binding — no verdict found")
  | .custom name => (false, s!"unknown custom condition '{name}' — defaulting to blocked")

/-- A gate evaluator backed by the evidence fields of a task. -/
def evidenceGateEvaluator (task : TaskDetail) : GateEvaluator where
  evaluate condition _ := .ok
    { condition := condition
      passed := (evidenceVerdict task condition).1
      reason := (evidenceVerdict task condition).2 }

end Hymenium
