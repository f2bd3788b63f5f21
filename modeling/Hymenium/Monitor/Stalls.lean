import Hymenium.Monitor.Progress

/-!
# Stalls in time

For fixed answers of Canopy, the five signals of `checkProgress` leave a list of spans: the phase is
stalled when its age is above one of them (`stalls_iff`). The order of the tests decides the reason
of a stall, not whether there is one, so that a stalled phase stays stalled.
-/

namespace Hymenium

/-- The check reports a stalled phase. -/
def Stalls (workflow : WorkflowInstance) (canopy : MonitorClient) (config : MonitorConfig)
    (now : DateTime) : Prop :=
  ∃ signal, checkProgress workflow canopy config now = .ok signal ∧ isStalled signal = true

/-- The spans after which a task that waits for its agent is stalled. -/
def waitingSpans (task : TaskDetail) (heartbeatTimeout : ℤ) : List ℤ :=
  if task.status = "pending" ∨ task.status = "assigned" then [heartbeatTimeout] else []

/-- The spans after which an incomplete handoff is stalled. -/
def incompleteSpans (completeness : Except DispatchError CompletenessReport)
    (config : MonitorConfig) : List ℤ :=
  match completeness with
  | .error _ => []
  | .ok completeness =>
    if completeness.complete then [] else (fromStd config.progressTimeout).toList

/-- The ages from which a phase with these answers is stalled. -/
def stallSpans (task : TaskDetail) (completeness : Except DispatchError CompletenessReport)
    (config : MonitorConfig) : List ℤ :=
  match fromStd config.heartbeatTimeout with
  | none => []
  | some heartbeatTimeout =>
    waitingSpans task heartbeatTimeout ++ incompleteSpans completeness config

section

variable {workflow : WorkflowInstance} {phase : PhaseState} {task : TaskDetail}
  {phaseId handoffPath : String} {canopy : MonitorClient} {config : MonitorConfig}
  {started now : DateTime}

/-- Only the two timeouts are spans of stalls. -/
theorem eq_of_mem_stallSpans {completeness : Except DispatchError CompletenessReport} {span : ℤ}
    (h : span ∈ stallSpans task completeness config) :
    span = config.heartbeatTimeout ∨ span = config.progressTimeout := by
  unfold stallSpans at h
  cases hspan : fromStd config.heartbeatTimeout with
  | none =>
    rw [hspan] at h
    cases h
  | some heartbeatTimeout =>
    rw [hspan] at h
    rcases List.mem_append.mp h with hwaiting | hincomplete
    · unfold waitingSpans at hwaiting
      split_ifs at hwaiting
      · rw [List.mem_singleton.mp hwaiting]
        exact .inl (fromStd_eq_some hspan)
      · cases hwaiting
    · unfold incompleteSpans at hincomplete
      cases completeness with
      | error e => cases hincomplete
      | ok completeness =>
        dsimp only at hincomplete
        split_ifs at hincomplete
        · cases hincomplete
        · exact .inr (fromStd_eq_some (Option.mem_toList.mp hincomplete))

/-- A check of the handoff reports a stall from the progress timeout on, whatever the reason. -/
theorem checkHandoff_stalled_iff :
    (∃ signal, checkHandoff phaseId handoffPath started now canopy config = .ok signal ∧
        isStalled signal = true) ↔
      ∃ span ∈ incompleteSpans (canopy.checkCompleteness handoffPath) config,
        span < now - started := by
  unfold checkHandoff incompleteSpans configSpan
  cases canopy.checkCompleteness handoffPath with
  | error e => simp
  | ok completeness =>
    dsimp only
    by_cases hcomplete : completeness.complete
    · simp [hcomplete, isStalled]
    · rw [if_neg hcomplete, if_neg hcomplete]
      cases fromStd config.progressTimeout with
      | none => simp
      | some progressTimeout =>
        dsimp only
        by_cases hlate : progressTimeout < now - started
        · rcases Nat.eq_zero_or_pos completeness.completedItems with hzero | hpos
          · simp [hlate, hzero, isStalled]
          · simp [hlate, hpos, hpos.ne', hcomplete, isStalled]
        · simp [hlate, isStalled]

/-- A check of the activity reports a stall when the age is above one of the spans. -/
theorem checkActivity_stalled_iff :
    (∃ signal, checkActivity phase task handoffPath canopy config now = .ok signal ∧
        isStalled signal = true) ↔
      ∃ started ∈ phase.startedAt,
        ∃ span ∈ stallSpans task (canopy.checkCompleteness handoffPath) config,
          span < now - started := by
  unfold checkActivity stallSpans configSpan
  cases phase.startedAt with
  | none => simp
  | some started =>
    cases fromStd config.heartbeatTimeout with
    | none => simp
    | some heartbeatTimeout =>
      dsimp only
      unfold waitingSpans
      by_cases hwaiting : task.status = "pending" ∨ task.status = "assigned"
      · by_cases hlate : heartbeatTimeout < now - started
        · rw [if_pos ⟨hlate, hwaiting⟩, if_pos hwaiting]
          simp [isStalled, hlate]
        · rw [if_neg fun h => hlate h.1, if_pos hwaiting, checkHandoff_stalled_iff]
          simp [hlate]
      · rw [if_neg fun h => hwaiting h.2, if_neg hwaiting, checkHandoff_stalled_iff]
        simp

/-- A phase is stalled when it is active, its task is not in a terminal state, and its age is above
a span that the answers of Canopy leave. -/
theorem stalls_iff : Stalls workflow canopy config now ↔
    ∃ phase taskId task, workflow.currentPhase = some phase ∧ phase.status = .active ∧
      phase.canopyTaskId = some taskId ∧ canopy.getTask taskId = .ok task ∧
      task.status ≠ "completed" ∧ task.status ≠ "failed" ∧
      ∃ started ∈ phase.startedAt,
        ∃ span ∈ stallSpans task (canopy.checkCompleteness workflow.handoffPath) config,
          span < now - started := by
  constructor
  · rintro ⟨signal, hcheck, hstalled⟩
    obtain ⟨phase, taskId, task, hp, hs, ht, hans⟩ := checkProgress_ok hcheck
    rw [checkProgress_task hp hs ht hans] at hcheck
    split_ifs at hcheck with hcompleted hfailed
    · cases hcheck
      cases hstalled
    · cases hcheck
      cases hstalled
    · exact ⟨phase, taskId, task, hp, hs, ht, hans, hcompleted, hfailed,
        checkActivity_stalled_iff.mp ⟨signal, hcheck, hstalled⟩⟩
  · rintro ⟨phase, taskId, task, hp, hs, ht, hans, hcompleted, hfailed, hspan⟩
    unfold Stalls
    rw [checkProgress_task hp hs ht hans, if_neg hcompleted, if_neg hfailed]
    exact checkActivity_stalled_iff.mpr hspan

end

/-- **Stalls.** A stalled phase is stalled at every later time, its age is above one of the two
timeouts, and its task is neither completed nor failed. -/
theorem stalls_sound (workflow : WorkflowInstance) (canopy : MonitorClient)
    (config : MonitorConfig) :
    (∀ now now', now ≤ now' → Stalls workflow canopy config now →
      Stalls workflow canopy config now') ∧
    (∀ now, Stalls workflow canopy config now → ∃ phase, workflow.currentPhase = some phase ∧
      ∃ started, phase.startedAt = some started ∧
        (config.heartbeatTimeout < now - started ∨ config.progressTimeout < now - started)) ∧
    (∀ now phase taskId task, workflow.currentPhase = some phase →
      phase.canopyTaskId = some taskId → canopy.getTask taskId = .ok task →
      task.status = "completed" ∨ task.status = "failed" →
      ¬ Stalls workflow canopy config now) := by
  refine ⟨?_, ?_, ?_⟩
  · intro now now' hle h
    obtain ⟨phase, taskId, task, hp, hs, ht, hans, hcompleted, hfailed, started, hstarted, span,
      hspan, hlt⟩ := stalls_iff.mp h
    have hlater : span < now' - started := hlt.trans_le (Int.sub_le_sub_right hle started)
    exact stalls_iff.mpr ⟨phase, taskId, task, hp, hs, ht, hans, hcompleted, hfailed, started,
      hstarted, span, hspan, hlater⟩
  · intro now h
    obtain ⟨phase, _, _, hp, -, -, -, -, -, started, hstarted, span, hspan, hlt⟩ :=
      stalls_iff.mp h
    refine ⟨phase, hp, started, hstarted, ?_⟩
    rcases eq_of_mem_stallSpans hspan with rfl | rfl
    · exact .inl hlt
    · exact .inr hlt
  · intro now phase taskId task hp ht hans hterminal h
    obtain ⟨phase', taskId', task', hp', -, ht', hans', hcompleted, hfailed, -⟩ :=
      stalls_iff.mp h
    obtain rfl := Option.some.inj (hp.symm.trans hp')
    obtain rfl := Option.some.inj (ht.symm.trans ht')
    cases hans.symm.trans hans'
    exact hterminal.elim hcompleted hfailed

/-- An agent that never started is reported from the heartbeat timeout on, and not before. -/
theorem stalls_sound_pending : ¬ Stalls activeWorkflow (monitored "pending") {} (seconds 300) ∧
    Stalls activeWorkflow (monitored "pending") {} (seconds 301) ∧
    ∀ now, seconds 301 ≤ now → Stalls activeWorkflow (monitored "pending") {} now := by
  have hearly : checkProgress activeWorkflow (monitored "pending") {} (seconds 300) =
      .ok (.healthy "implement" (seconds 300)) := by decide +kernel
  have hstalls : Stalls activeWorkflow (monitored "pending") {} (seconds 301) :=
    ⟨.stalled "implement" 0 .heartbeatTimeout, by decide +kernel, rfl⟩
  refine ⟨?_, hstalls, fun now hle => ?_⟩
  · rintro ⟨signal, hcheck, hstalled⟩
    cases hearly.symm.trans hcheck
    cases hstalled
  · exact (stalls_sound activeWorkflow (monitored "pending") {}).1 (seconds 301) now hle hstalls

end Hymenium
