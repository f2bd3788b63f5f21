import Mathlib.Data.List.Basic

/-!
# Canopy tasks as Hymenium reads them

The detail record of a Canopy task, the completion signal an agent may attach to it, and the two
readings of its status string (`src/dispatch/mod.rs`).
-/

namespace Hymenium

/-- Errors of dispatch operations. -/
inductive DispatchError where
  | canopyError (msg : String)
  | taskCreationFailed (msg : String)
  | handoffNotFound (msg : String)
  | templateNotFound (msg : String)
  | invalidState (msg : String)
  deriving DecidableEq

/-- Recommended follow-up action after a phase completes. -/
structure NextAction where
  followUpTaskId : Option String := none
  directive : Option String := none
  deriving DecidableEq

/-- Completion signal attached by an agent when a task is marked complete. -/
structure CompletionSignal where
  status : Option String := none
  shouldContinue : Option Bool := none
  nextAction : Option NextAction := none
  summary : Option String := none
  agentId : Option String := none
  deriving DecidableEq

/-- Absent or false `shouldContinue` means the agent wants the workflow to stop. -/
def CompletionSignal.wantsStop (signal : CompletionSignal) : Bool :=
  !signal.shouldContinue.getD false

/-- Detail record for a Canopy task. -/
structure TaskDetail where
  taskId : String
  title : String
  status : String
  agentId : Option String := none
  parentId : Option String := none
  requiredCapabilities : List String := []
  hasCodeDiff : Bool := false
  hasVerificationPassed : Bool := false
  completionSignal : Option CompletionSignal := none
  deriving DecidableEq

/-- The task carries a completion signal that asks for a stop. -/
def TaskDetail.stopSignal (task : TaskDetail) : Option CompletionSignal :=
  task.completionSignal.filter (·.wantsStop)

/-- Only `"completed"` maps to success. -/
def isCompletedStatus (status : String) : Bool := status == "completed"

/-- Both spellings of cancelled count as failure. -/
def isFailedStatus (status : String) : Bool := status == "cancelled" || status == "canceled"

theorem not_failed_of_completed {status : String} (h : isCompletedStatus status = true) :
    isFailedStatus status = false := by
  have : status = "completed" := by simpa [isCompletedStatus] using h
  subst this
  decide

end Hymenium
