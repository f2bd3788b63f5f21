import Hymenium.Commands.Effects

/-!
# What holds in every reachable store

No command starts a phase: the phases of a stored workflow are pending, completed or failed. So
`fail` and `resume` are always refused, a sweep finds no phase to fail, and only a cancellation
writes an outcome. `Ledger.Coherent` says this of a ledger; `Db.Reached` holds of every store a
sequence of commands reaches.
-/

namespace Hymenium

open WorkflowInstance

/-- What holds of every stored instance. -/
structure WorkflowInstance.Coherent (inst : WorkflowInstance) : Prop where
  template : inst.template = implAuditDefault
  length : inst.phaseStates.length = 2
  inRange : inst.currentPhaseIdx < 2
  status : inst.status ∈ [.dispatched, .completed, .failed, .cancelled]
  idle : ∀ p ∈ inst.phaseStates, p.status ≠ .active ∧ p.status ≠ .awaitingUserInput
  after : ∀ i > inst.currentPhaseIdx, ∀ p, inst.phaseStates[i]? = some p → p.status = .pending
  /-- A completed or failed workflow has nothing left to ask Canopy. -/
  closed : inst.status = .completed ∨ inst.status = .failed → inst.openTask = none
  /-- The completion of the final phase completes the workflow. -/
  final : inst.AtFinal → (∃ p, inst.currentPhase = some p ∧ p.status = .completed) →
    inst.status = .completed

/-- What holds of every entry: a cancelled workflow has an outcome, and an outcome says
cancelled. -/
structure Entry.Coherent (e : Entry) : Prop where
  inst : e.inst.Coherent
  outcome : ∀ o, e.outcome = some o → o.terminalStatus = .cancelled
  cancelled : e.inst.status = .cancelled → e.outcome ≠ none

/-- Every entry is coherent. -/
def Ledger.Coherent (ledger : Ledger) : Prop := ∀ id e, ledger id = some e → e.Coherent

namespace WorkflowInstance

variable {inst out : WorkflowInstance}

theorem coherent_of_freshDispatch {id : WorkflowId}
    (h : FreshDispatch id implAuditDefault inst) : inst.Coherent where
  template := h.template_eq
  length := by
    have := congrArg List.length h.phases
    rwa [List.length_map, List.length_map] at this
  inRange := by rw [h.currentPhaseIdx]; decide
  status := by simp [h.status]
  idle p hp := by simp [(h.pending hp).1]
  after i _ p hp := (h.pending (List.mem_of_getElem? hp)).1
  closed hs := by simp [h.status] at hs
  final hf := by
    unfold AtFinal at hf
    rw [h.template_eq, h.currentPhaseIdx] at hf
    exact absurd hf (by decide)

namespace Coherent

theorem atFinal_iff (h : inst.Coherent) : inst.AtFinal ↔ inst.currentPhaseIdx = 1 := by
  have hlt := h.inRange
  have hlen : implAuditDefault.phases.length = 2 := rfl
  unfold AtFinal
  rw [h.template, hlen]
  omega

/-- Before the final phase there is a next one. -/
theorem next_lt (h : inst.Coherent) (hf : ¬ inst.AtFinal) :
    inst.currentPhaseIdx + 1 < inst.phaseStates.length := by
  have hlt := h.inRange
  have hidx : inst.currentPhaseIdx ≠ 1 := mt h.atFinal_iff.mpr hf
  rw [h.length]
  omega

theorem next_ne_none (h : inst.Coherent) (hf : ¬ inst.AtFinal) :
    inst.phaseStates[inst.currentPhaseIdx + 1]? ≠ none := by
  rw [List.getElem?_eq_getElem (h.next_lt hf)]
  exact Option.some_ne_none _

/-- The current phase of a coherent instance exists. -/
theorem exists_current (h : inst.Coherent) : ∃ p, inst.currentPhase = some p :=
  ⟨_, List.getElem?_eq_getElem (by rw [h.length]; exact h.inRange)⟩

section Done

variable {p' : PhaseState} (h : inst.Coherent) (t : DateTime)

include h

theorem idle_withCurrent (hp : p'.status = .completed ∨ p'.status = .failed) :
    ∀ p ∈ (inst.withCurrent p' t).phaseStates,
      p.status ≠ .active ∧ p.status ≠ .awaitingUserInput := by
  intro p hmem
  rcases List.mem_or_eq_of_mem_set hmem with hold | rfl
  · exact h.idle p hold
  · rcases hp with hp | hp <;> simp [hp]

theorem after_withCurrent : ∀ i > inst.currentPhaseIdx, ∀ p,
    (inst.withCurrent p' t).phaseStates[i]? = some p → p.status = .pending := by
  intro i hi p hp
  have hne : inst.currentPhaseIdx ≠ i := by omega
  exact h.after i hi p (by simpa [withCurrent, List.getElem?_set, hne] using hp)

theorem length_withCurrent : (inst.withCurrent p' t).phaseStates.length = 2 := by
  rw [← h.length]
  exact List.length_set

/-- The current phase is done, and the status says so if it was the final one. -/
theorem withCurrent (hp : p'.status = .completed ∨ p'.status = .failed) {status : WorkflowStatus}
    (hstatus : status ∈ [.dispatched, .completed, .failed, .cancelled])
    (hfinal : inst.AtFinal → p'.status = .completed → status = .completed)
    (blockedOn : Option String) :
    Coherent { inst.withCurrent p' t with status, blockedOn } := by
  obtain ⟨p, hcur⟩ := h.exists_current
  have hcur' := currentPhase_withCurrent hcur p' t
  refine ⟨h.template, h.length_withCurrent t, h.inRange, hstatus, h.idle_withCurrent t hp,
    h.after_withCurrent t, fun _ => ?_, fun hf hdone => ?_⟩
  · refine openTask_of_terminal hcur' ?_
    rcases hp with hp | hp <;> rw [hp] <;> rfl
  · obtain ⟨q, hq, hqs⟩ := hdone
    obtain rfl : p' = q := Option.some.inj (hcur'.symm.trans hq)
    exact hfinal hf hqs

end Done

/-- A reconciliation keeps an instance coherent. -/
theorem reconciled (h : inst.Coherent) {forceAdvance : Bool} {files : Files}
    {answer : Option (Except DispatchError TaskDetail)}
    (hr : Reconciled inst forceAdvance files answer out) : out.Coherent := by
  cases hr with
  | unasked | waiting => exact h
  | failed task p' t hf hp hid =>
    exact h.withCurrent t (.inr hp) (by simp) (fun _ hc => by rw [hp] at hc; cases hc) _
  | stopped task p' t hc hs hp hid =>
    exact h.withCurrent t (.inl hp) (by simp) (fun _ _ => rfl) _
  | finished task p' t hc hs hp hf hid =>
    exact h.withCurrent t (.inl hp) (by simp) (fun _ _ => rfl) _
  | blocked task p' t b hc hs hp hf ho hid =>
    exact h.withCurrent t (.inl hp) h.status (fun hfinal => absurd hfinal hf) b
  | entered task p' next t t' log hc hs hp hf ho hn hid =>
    refine ⟨h.template, h.length_withCurrent t, ?_, by simp, h.idle_withCurrent t (.inl hp), ?_,
      fun hs => ?_, fun _ hdone => ?_⟩
    · show inst.currentPhaseIdx + 1 < 2
      rw [← h.length]
      exact h.next_lt hf
    · intro i hi q hq
      exact h.after_withCurrent t i (Nat.lt_of_succ_lt hi) q hq
    · rcases hs with hs | hs <;> cases hs
    · -- the phase entered is untouched
      obtain ⟨q, hq, hqs⟩ := hdone
      rw [h.after_withCurrent t (inst.currentPhaseIdx + 1) (Nat.lt_succ_self _) q hq] at hqs
      cases hqs
  | stranded task p' t hc hs hp hf ho hn hid =>
    exact absurd hn (h.next_ne_none hf)

/-- `fail` is refused: no phase is active. -/
theorem failPhase_refused (h : inst.Coherent) (reason : String) (clk : Clock) :
    inst.failPhase reason clk ≠ (.ok (), out) := by
  obtain ⟨p, hcur⟩ := h.exists_current
  have hidle := h.idle p (List.mem_of_getElem? hcur)
  unfold failPhase
  simp only [hcur, if_pos hidle.1]
  simp

/-- `resume` is refused: no workflow waits for its user. -/
theorem resume_refused (h : inst.Coherent) (clk : Clock) :
    inst.resumeFromUserInput clk ≠ (.ok (), out) := by
  intro hr
  have hstatus := h.status
  rw [(resumeFromUserInput_ok hr).1] at hstatus
  simp at hstatus

/-- `complete` has no workflow left to complete. -/
theorem complete_refused (h : inst.Coherent) (clk : Clock) (hs : inst.status ≠ .completed) :
    inst.completeWorkflow clk ≠ (.ok (), out) := by
  obtain ⟨p, hcur⟩ := h.exists_current
  unfold completeWorkflow
  simp only [hcur]
  split_ifs with hp hf
  · simp
  · simp
  · refine absurd (h.final ?_ ⟨p, hcur, not_not.mp hp⟩) hs
    exact (not_not.mp hf).ge

end Coherent

end WorkflowInstance

/-! ## One command on a coherent ledger -/

/-- What a command does to the entry of workflow `id` in a coherent ledger. -/
inductive Entry.Change (id : WorkflowId) : Command → Option Entry → Option Entry → Prop
  | kept (cmd : Command) (e : Option Entry) : Change id cmd e e
  | dispatched (request : DispatchRequest) (inst : WorkflowInstance)
      (hid : request.workflowId = id) (h : FreshDispatch id implAuditDefault inst) :
      Change id (.dispatch request) none (some ⟨inst, some request.contentHash, none⟩)
  | reconciled (canopy : CanopyClient) (forceAdvance : Bool) (files : Files) (clk : Clock)
      (e : Entry) (inst : WorkflowInstance)
      (h : Reconciled e.inst forceAdvance files (e.inst.answer canopy) inst) :
      Change id (.reconcile id canopy forceAdvance files clk) (some e)
        (some (e.reconciled inst clk))
  | cancelled (clk : Clock) (e : Entry) (outcome : WorkflowOutcome)
      (hs : e.inst.status = .dispatched) (ho : outcome.terminalStatus = .cancelled) :
      Change id (.cancel id clk) (some e)
        (some ((e.setProgress .cancelled e.inst (clk 0) (clk 1)).setOutcome outcome))

variable {ledger ledger' : Ledger} {cmd : Command} {db : Db}

/-- An edit of one entry, seen from any workflow. -/
theorem Ledger.change_put {id : WorkflowId} {e : Entry}
    (h : Entry.Change id cmd (ledger id) (some e)) (id' : WorkflowId) :
    Entry.Change id' cmd (ledger id') (ledger.put id e id') := by
  unfold put
  by_cases hid : id' = id
  · subst hid
    rw [Function.update_self]
    exact h
  · rw [Function.update_of_ne hid]
    exact .kept cmd _

theorem Ledger.Coherent.not_hasActive (h : ledger.Coherent) (orphan : String × String) :
    ¬ ledger.HasActive orphan := by
  rintro ⟨e, he, p, hp, -, hactive⟩
  exact ((h _ e he).inst.idle p hp).1 hactive

/-- On a coherent ledger a command keeps, creates, reconciles or cancels. -/
theorem Ledger.Effect.change (h : ledger.Coherent) (heffect : ledger.Effect cmd ledger')
    (id : WorkflowId) : Entry.Change id cmd (ledger id) (ledger' id) := by
  cases heffect with
  | quiet => exact .kept cmd _
  | dispatched request inst hfresh hinst =>
    refine change_put ?_ id
    rw [hfresh]
    exact .dispatched request inst rfl hinst
  | reconciled id' canopy forceAdvance files clk e inst he hr =>
    refine change_put ?_ id
    rw [he]
    exact .reconciled canopy forceAdvance files clk e inst hr
  | cancelled id' clk e outcome he hs ho =>
    refine change_put ?_ id
    rw [he]
    have hstatus := (h id' e he).inst.status
    exact .cancelled clk e outcome (by simp at hs hstatus; tauto) ho
  | failed id' reason clk e inst outcome he hs hr =>
    exact absurd hr ((h id' e he).inst.failPhase_refused reason clk)
  | completed id' clk e inst outcome he hs hr =>
    exact absurd hr ((h id' e he).inst.complete_refused clk fun hc => hs (by simp [hc]))
  | resumed id' clk e inst he hr => exact absurd hr ((h id' e he).inst.resume_refused clk)
  | swept heartbeatTimeout gcRetention clk rows ledger' hswept =>
    rw [hswept.eq_self h.not_hasActive]
    exact .kept _ _

/-- A change leaves a coherent entry behind. -/
theorem Entry.Change.coherent {id : WorkflowId} {old new : Option Entry}
    (h : Entry.Change id cmd old new) (hold : ∀ e, old = some e → e.Coherent) :
    ∀ e, new = some e → e.Coherent := by
  intro e' he'
  cases h with
  | kept => exact hold e' he'
  | dispatched request inst hid hinst =>
    obtain rfl := Option.some.inj he'
    refine ⟨coherent_of_freshDispatch hinst, (fun o ho => nomatch ho), fun hs => ?_⟩
    rw [hinst.status] at hs
    cases hs
  | reconciled canopy forceAdvance files clk e inst hr =>
    obtain rfl := Option.some.inj he'
    have he := hold e rfl
    have hinst := he.inst.reconciled hr
    refine ⟨⟨?_, hinst.length, hinst.inRange, hinst.status, hinst.idle, hinst.after, hinst.closed,
      ?_⟩, he.outcome, fun hs => ?_⟩
    · exact hr.sameFrame.template ▸ hinst.template
    · intro hf hdone
      refine hinst.final ?_ hdone
      unfold AtFinal
      rw [hr.sameFrame.template]
      exact hf
    · -- a reconciliation never writes `cancelled`
      refine he.cancelled ?_
      have hs' : inst.status = .cancelled := hs
      generalize e.inst.answer canopy = answer at hr
      cases hr with
      | unasked | waiting | stranded | blocked => exact hs'
      | failed | stopped | finished | entered => cases hs'
  | cancelled clk e outcome hs ho =>
    obtain rfl := Option.some.inj he'
    have he := hold e rfl
    refine ⟨⟨he.inst.template, he.inst.length, he.inst.inRange, ?_, he.inst.idle, he.inst.after,
      fun hc => ?_, fun hf hdone => ?_⟩, fun o ho' => ?_, fun _ => ?_⟩
    · exact List.mem_of_elem_eq_true rfl
    · rcases hc with hc | hc <;> cases hc
    · have hcompleted := he.inst.final hf hdone
      rw [hs] at hcompleted
      cases hcompleted
    · obtain rfl := Option.some.inj ho'
      exact ho
    · exact Option.some_ne_none outcome

/-- An answer that ends the workflow, or meets a live workflow or a free content hash, is
persisted. -/
theorem Ledger.Coherent.exists_reconciled (hcoh : ledger.Coherent) (hrep : db.Represents ledger)
    {id : WorkflowId} {e : Entry} (he : ledger id = some e) {canopy : CanopyClient}
    {task : TaskDetail} (hans : e.inst.answer canopy = some (.ok task))
    (hwrite : e.inst.EndedBy task ∨ e.Live ∨ db.HashFree id) (forceAdvance : Bool) (files : Files)
    (clk : Clock) : ∃ inst, Reconciled e.inst forceAdvance files (some (.ok task)) inst ∧
      (ledger.put id (e.reconciled inst clk)).Coherent ∧
      (step db (.reconcile id canopy forceAdvance files clk)).Represents
        (ledger.put id (e.reconciled inst clk)) := by
  obtain ⟨r, hr, hrec⟩ := exists_reconciled_of_answer forceAdvance files clk hans
  have hout := (hcoh id e he).inst.reconciled hrec
  have hchange : Entry.Change id (.reconcile id canopy forceAdvance files clk) (ledger id)
      (some (e.reconciled r.inst clk)) := by
    rw [he]
    exact .reconciled canopy forceAdvance files clk e r.inst (hans ▸ hrec)
  refine ⟨r.inst, hrec, fun id' => (change_put hchange id').coherent (hcoh id'),
    reconcile_persists hrep he hr ?_ ?_ fun hlive => ?_⟩
  · rw [hout.length]
    decide
  · have := hout.inRange
    omega
  · rcases hwrite with hends | hwrite
    · rcases hrec.status_of_ended hends with hs | hs <;> rw [hs] at hlive <;>
        exact absurd (by decide) hlive
    · exact hwrite

/-! ## Reachable stores -/

/-- The database represents a coherent ledger. -/
def Db.Reached (db : Db) : Prop := ∃ ledger, db.Represents ledger ∧ ledger.Coherent

/-- **Step lemma.** A command changes a reached database entry by entry. -/
theorem Db.Reached.step (h : db.Reached) (cmd : Command) :
    ∃ ledger ledger', db.Represents ledger ∧ ledger.Coherent ∧
      (step db cmd).Represents ledger' ∧ ledger'.Coherent ∧
      ∀ id, Entry.Change id cmd (ledger id) (ledger' id) := by
  obtain ⟨ledger, hrep, hcoh⟩ := h
  obtain ⟨ledger', heffect, hrep'⟩ := step_effect hrep cmd
  have hchange := heffect.change hcoh
  exact ⟨ledger, ledger', hrep, hcoh, hrep', fun id => (hchange id).coherent (hcoh id), hchange⟩

theorem Db.Reached.next (h : db.Reached) (cmd : Command) : (Hymenium.step db cmd).Reached := by
  obtain ⟨_, ledger', -, -, hrep, hcoh, -⟩ := h.step cmd
  exact ⟨ledger', hrep, hcoh⟩

/-- **Run lemma.** Every sequence of commands reaches such a database. -/
theorem Db.reached_run (cmds : List Command) : (runCommands Db.empty cmds).Reached := by
  refine Runs.run_invariant (fun db cmd h => h.next cmd) ?_ cmds
  exact ⟨fun _ => none, Db.empty_represents, fun id e he => nomatch he⟩

end Hymenium
