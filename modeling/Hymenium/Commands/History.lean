import Hymenium.Commands.Terminal
import Hymenium.Dispatch.Rounds

/-!
# How stored workflows move on

Over every sequence of commands, a stored workflow is only continued: it is never removed, its index
does not go back, and a phase that is done keeps its record to the last time stamp (`history_kept`).
While no command cancels it and Canopy lets it pass, the `reconcile` commands that find a completed
task complete its phases one after the other (`commands_complete`), as the rounds of
`Hymenium.Dispatch.Rounds` do in memory.
-/

namespace Hymenium

open WorkflowInstance Tables

/-! ## Later states of a workflow -/

/-- `b` continues `a`: it is the same workflow, not behind, and phases that were done are as they
were. -/
structure WorkflowInstance.Continues (a b : WorkflowInstance) : Prop where
  frame : SameFrame a b
  index : a.currentPhaseIdx ≤ b.currentPhaseIdx
  done : ∀ (i : ℕ) (p : PhaseState), a.phaseStates[i]? = some p → p.status.isTerminal = true →
    b.phaseStates[i]? = some p

namespace WorkflowInstance.Continues

theorem refl (a : WorkflowInstance) : a.Continues a :=
  ⟨⟨rfl, rfl, rfl, rfl, rfl⟩, le_refl _, fun _ _ hp _ => hp⟩

theorem trans {a b c : WorkflowInstance} (h : a.Continues b) (h' : b.Continues c) :
    a.Continues c where
  frame :=
    { workflowId := h'.frame.workflowId.trans h.frame.workflowId
      template := h'.frame.template.trans h.frame.template
      handoffPath := h'.frame.handoffPath.trans h.frame.handoffPath
      createdAt := h'.frame.createdAt.trans h.frame.createdAt
      phaseIds := h'.frame.phaseIds.trans h.frame.phaseIds }
  index := h.index.trans h'.index
  done i p hp hs := h'.done i p (h.done i p hp hs) hs

/-- A new state of an open current phase touches no phase that is done. -/
theorem done_set {a : WorkflowInstance} {phase p' : PhaseState} (hcur : a.currentPhase = some phase)
    (hopen : phase.status.isTerminal = false) (i : ℕ) (p : PhaseState)
    (hp : a.phaseStates[i]? = some p) (hs : p.status.isTerminal = true) :
    (a.phaseStates.set a.currentPhaseIdx p')[i]? = some p := by
  have hne : a.currentPhaseIdx ≠ i := by
    rintro rfl
    obtain rfl := Option.some.inj (hcur.symm.trans hp)
    rw [hopen] at hs
    cases hs
  rw [List.getElem?_set_ne hne]
  exact hp

/-- A reconciliation continues an instance. -/
theorem of_reconciled {a out : WorkflowInstance} {forceAdvance : Bool} {files : Files}
    {canopy : CanopyClient} (h : Reconciled a forceAdvance files (a.answer canopy) out) :
    a.Continues out := by
  have hframe := h.sameFrame
  cases ht : a.openTask with
  | none =>
    rw [answer_none ht] at h
    cases h
    exact refl a
  | some taskId =>
    obtain ⟨phase, hcur, -, hopen⟩ := currentPhase_of_openTask ht
    generalize a.answer canopy = answer at h
    cases h with
    | unasked | waiting => exact refl a
    | entered | stranded => exact ⟨hframe, Nat.le_succ _, done_set hcur hopen⟩
    | failed | stopped | finished | blocked => exact ⟨hframe, le_refl _, done_set hcur hopen⟩

end WorkflowInstance.Continues

/-- The workflows of `db` are continued in `db'`. -/
def Db.KeepsHistory (db db' : Db) : Prop :=
  ∀ id inst, db.getWorkflow id = .ok (some inst) →
    ∃ inst', db'.getWorkflow id = .ok (some inst') ∧ inst.Continues inst'

instance : IsPreorder Db Db.KeepsHistory where
  refl _ _ inst h := ⟨inst, h, .refl inst⟩
  trans _ _ _ h h' id inst hinst := by
    obtain ⟨inst', hinst', hcont⟩ := h id inst hinst
    obtain ⟨inst'', hinst'', hcont'⟩ := h' id inst' hinst'
    exact ⟨inst'', hinst'', hcont.trans hcont'⟩

/-! ## One command, seen from one workflow -/

/-- What a command does to the instance stored under `id`. -/
theorem Db.Reached.step_instance {db : Db} (h : db.Reached) (cmd : Command) {id : WorkflowId}
    {inst : WorkflowInstance} (hinst : db.getWorkflow id = .ok (some inst)) :
    ∃ ledger e inst', db.Represents ledger ∧ ledger.Coherent ∧ ledger id = some e ∧
      e.inst = inst ∧ (Hymenium.step db cmd).getWorkflow id = .ok (some inst') ∧
      (inst' = inst ∨
        (∃ canopy forceAdvance files clk out,
          cmd = .reconcile id canopy forceAdvance files clk ∧
          Reconciled inst forceAdvance files (inst.answer canopy) out ∧
          inst' = (e.reconciled out clk).inst) ∨
        ∃ clk, cmd = .cancel id clk ∧ inst.status = .dispatched ∧
          inst' = (e.setProgress .cancelled inst (clk 0) (clk 1)).inst) := by
  obtain ⟨ledger, ledger', hrep, hcoh, hrep', -, hchange⟩ := h.step cmd
  rw [getWorkflow_of_represents hrep, Except.ok.injEq, Option.map_eq_some_iff] at hinst
  obtain ⟨e, he, rfl⟩ := hinst
  have hid := hchange id
  rw [he] at hid
  generalize hnew : ledger' id = new at hid
  have hload : ∀ e', new = some e' →
      (Hymenium.step db cmd).getWorkflow id = .ok (some e'.inst) := fun e' he' => by
    rw [getWorkflow_of_represents hrep', hnew, he']
    rfl
  cases hid with
  | kept => exact ⟨ledger, e, _, hrep, hcoh, he, rfl, hload e rfl, .inl rfl⟩
  | reconciled canopy forceAdvance files clk _ out hr =>
    exact ⟨ledger, e, _, hrep, hcoh, he, rfl, hload _ rfl,
      .inr (.inl ⟨canopy, forceAdvance, files, clk, out, rfl, hr, rfl⟩)⟩
  | cancelled clk _ outcome hs =>
    exact ⟨ledger, e, _, hrep, hcoh, he, rfl, hload _ rfl, .inr (.inr ⟨clk, rfl, hs, rfl⟩)⟩

/-- What a reconciliation persists continues what was stored. -/
theorem WorkflowInstance.Continues.persisted {e : Entry} {out : WorkflowInstance}
    (h : e.inst.Continues out) (clk : Clock) : e.inst.Continues (e.reconciled out clk).inst :=
  ⟨⟨rfl, rfl, rfl, rfl, h.frame.phaseIds⟩, h.index, h.done⟩

theorem Db.Reached.keepsHistory {db : Db} (h : db.Reached) (cmd : Command) :
    db.KeepsHistory (Hymenium.step db cmd) := by
  intro id inst hinst
  obtain ⟨ledger, e, inst', -, -, -, rfl, hload, hcases⟩ := h.step_instance cmd hinst
  refine ⟨inst', hload, ?_⟩
  rcases hcases with rfl | ⟨canopy, forceAdvance, files, clk, out, -, hr, rfl⟩ | ⟨clk, -, -, rfl⟩
  · exact .refl _
  · exact (Continues.of_reconciled hr).persisted clk
  · exact ⟨⟨rfl, rfl, rfl, rfl, rfl⟩, le_refl _, fun _ _ hp _ => hp⟩

theorem Db.Reached.keepsHistory_run {db : Db} (h : db.Reached) (cmds : List Command) :
    db.KeepsHistory (Runs.run Hymenium.step db cmds) :=
  Runs.rel_run (R := Db.KeepsHistory) (fun _ cmd h => h.next cmd)
    (fun _ cmd h => h.keepsHistory cmd) h cmds

/-- **History.** No sequence of commands removes a stored workflow, takes its index back, or touches
the record of a phase that is done. -/
theorem history_kept (cmds more : List Command) :
    (runCommands Db.empty cmds).KeepsHistory (runCommands Db.empty (cmds ++ more)) := by
  unfold runCommands
  rw [Runs.run_append]
  exact (Db.reached_run cmds).keepsHistory_run more

/-! ## Completing a stored workflow -/

/-- What holds of the workflow stored under `id`, if it loads. -/
def Db.Loaded (db : Db) (id : WorkflowId) (P : WorkflowInstance → Prop) : Prop :=
  match db.getWorkflow id with
  | .ok (some inst) => P inst
  | _ => True

instance (db : Db) (id : WorkflowId) (P : WorkflowInstance → Prop) [DecidablePred P] :
    Decidable (db.Loaded id P) := by
  unfold Db.Loaded
  split <;> infer_instance

/-- The command does not stop workflow `id`: it is not its cancellation, and if it reconciles it,
Canopy lets it pass. -/
def LetsPassCommand (id : WorkflowId) (db : Db) : Command → Prop
  | .reconcile id' canopy forceAdvance files _ => id' = id →
      db.Loaded id fun inst => inst.LetsPass forceAdvance files (inst.answer canopy)
  | .cancel id' _ => id' ≠ id
  | _ => True

instance (id : WorkflowId) (db : Db) : DecidablePred (LetsPassCommand id db)
  | .reconcile _ _ _ _ _ => inferInstanceAs (Decidable (_ → _))
  | .cancel _ _ => inferInstanceAs (Decidable (¬ _))
  | .dispatch _ | .fail _ _ _ | .complete _ _ | .resume _ _ | .sweep _ _ _ _ | .heartbeat _ _ =>
    isTrue trivial

/-- The command reconciles workflow `id` and finds the task of its current phase completed. -/
def completesTask (id : WorkflowId) (db : Db) : Command → Bool
  | .reconcile id' canopy _ _ _ => decide (id' = id) &&
      match db.getWorkflow id with
      | .ok (some inst) => inst.completedBy canopy
      | _ => false
  | _ => false

theorem completesTask_reconcile {db : Db} {id : WorkflowId} {inst : WorkflowInstance}
    (hinst : db.getWorkflow id = .ok (some inst)) (canopy : CanopyClient) (forceAdvance : Bool)
    (files : Files) (clk : Clock) :
    completesTask id db (.reconcile id canopy forceAdvance files clk) =
      inst.completedBy canopy := by
  rw [completesTask, hinst, decide_eq_true rfl, Bool.true_and]

theorem loaded_iff {db : Db} {id : WorkflowId} {inst : WorkflowInstance}
    (hinst : db.getWorkflow id = .ok (some inst)) {P : WorkflowInstance → Prop} :
    db.Loaded id P ↔ P inst := by
  rw [Db.Loaded, hinst]

/-- A stage is a matter of the phases, the index and the status. -/
theorem WorkflowInstance.AtStage.persisted {k : ℕ} {e : Entry} {out : WorkflowInstance}
    (h : out.AtStage k) (htemplate : out.template = e.inst.template) (clk : Clock) :
    (e.reconciled out clk).inst.AtStage k := by
  refine ⟨h.length.trans ?_, h.le.trans_eq ?_, h.index.trans ?_, h.status.trans ?_, h.phases⟩
  all_goals
    rw [htemplate]
    rfl

/-- A workflow with a phase to come has no terminal status. -/
theorem WorkflowInstance.AtStage.live {k : ℕ} {e : Entry} (h : e.inst.AtStage k)
    (hlt : k < e.inst.template.phases.length) : e.Live := by
  unfold Entry.Live
  rw [h.status, if_neg hlt.ne]
  decide

/-- **Step lemma.** A command that does not stop the workflow completes its next phase when it finds
the task completed, and else leaves it at its stage. -/
theorem Db.Reached.step_stage {db : Db} (h : db.Reached) {id : WorkflowId}
    {inst : WorkflowInstance} (hinst : db.getWorkflow id = .ok (some inst)) {k : ℕ}
    (hstage : inst.AtStage k) {cmd : Command} (hpass : LetsPassCommand id db cmd) :
    ∃ inst', (Hymenium.step db cmd).getWorkflow id = .ok (some inst') ∧
      inst'.AtStage (k + (completesTask id db cmd).toNat) := by
  obtain ⟨ledger, e, inst', hrep, hcoh, he, rfl, hload, hcases⟩ := h.step_instance cmd hinst
  by_cases hcompletes : completesTask id db cmd = true
  · -- the reconciliation is persisted, since the workflow is live
    cases cmd with
    | reconcile id' canopy forceAdvance files clk =>
      obtain rfl : id' = id := of_decide_eq_true (Bool.and_eq_true_iff.mp hcompletes).1
      have hlets := (loaded_iff hinst).mp (hpass rfl)
      rw [completesTask_reconcile hinst] at hcompletes ⊢
      obtain ⟨task, hans, -⟩ := completedBy_iff.mp hcompletes
      have hask : e.inst.openTask ≠ none := fun hnone => by
        rw [answer_none hnone] at hans
        cases hans
      obtain ⟨out, hrec, -, hrep'⟩ := hcoh.exists_reconciled hrep he hans
        (.inr (.inl (hstage.live (hstage.lt_of_openTask hask).1))) forceAdvance files clk
      rw [← hans] at hrec
      refine ⟨(e.reconciled out clk).inst, ?_, ?_⟩
      · rw [getWorkflow_of_represents hrep', Ledger.put, Function.update_self]
        rfl
      · exact (hstage.reconciled hlets hrec).persisted hrec.sameFrame.template clk
    | _ => cases hcompletes
  · rw [Bool.not_eq_true] at hcompletes
    refine ⟨inst', hload, ?_⟩
    rcases hcases with rfl | ⟨canopy, forceAdvance, files, clk, out, rfl, hr, rfl⟩ |
      ⟨clk, rfl, -, -⟩
    · rw [hcompletes]
      exact hstage
    · have hlets := (loaded_iff hinst).mp (hpass rfl)
      rw [completesTask_reconcile hinst]
      exact (hstage.reconciled hlets hr).persisted hr.sameFrame.template clk
    · exact absurd rfl hpass

/-- **Completion.** Among any other commands, the `reconcile` commands that find a completed task
complete the phases of a stored workflow in order, as long as nothing stops it: after `c` of them the
first `c` phases are completed, and the workflow exactly when all its phases are. -/
theorem commands_complete (before cmds : List Command) {id : WorkflowId}
    {inst : WorkflowInstance}
    (hinst : (runCommands Db.empty before).getWorkflow id = .ok (some inst))
    (hstage : inst.AtStage 0)
    (hpass : Runs.Meets step (LetsPassCommand id) (runCommands Db.empty before) cmds) :
    ∃ inst', (runCommands Db.empty (before ++ cmds)).getWorkflow id = .ok (some inst') ∧
      inst'.AtStage (Runs.count step (completesTask id) (runCommands Db.empty before) cmds) := by
  have hrun := Runs.run_count
    (P := fun k db => db.Reached ∧
      ∃ inst, db.getWorkflow id = .ok (some inst) ∧ inst.AtStage k)
    (fun k db cmd h hcmd => by
      obtain ⟨hdb, inst, hinst, hstage⟩ := h
      exact ⟨hdb.next cmd, hdb.step_stage hinst hstage hcmd⟩)
    ⟨Db.reached_run before, inst, hinst, hstage⟩ hpass
  rw [Nat.zero_add] at hrun
  unfold runCommands
  rw [Runs.run_append]
  exact hrun.2

/-- The workflow of `sampleDispatch` as it is stored. -/
def sampleStored : WorkflowInstance :=
  { WorkflowInstance.new "wf" implAuditDefault "handoff.md" 0 with
    status := .dispatched
    phaseStates := dispatchedStates "Worker/hymenium/fix-it/1" implAuditDefault.phases ["1", "2"] }

/-- Two reconciliations complete a dispatched workflow, whatever the runtimes do meanwhile. -/
theorem commands_complete_sample :
    let reconciled : Command := .reconcile "wf" completedCanopy false (fun _ => true) Int.ofNat
    let cmds : List Command := [reconciled, .heartbeat "rt" 0, .sweep 0 0 Int.ofNat .stored, reconciled]
    ∃ inst', (runCommands Db.empty ([.dispatch sampleDispatch] ++ cmds)).getWorkflow "wf" =
      .ok (some inst') ∧ inst'.AtStage 2 := by
  intro reconciled cmds
  have hstored : ((runCommands Db.empty [.dispatch sampleDispatch]).getWorkflow "wf").toOption =
      some (some sampleStored) := by decide +kernel
  have hload : (runCommands Db.empty [.dispatch sampleDispatch]).getWorkflow "wf" =
      .ok (some sampleStored) := by
    generalize (runCommands Db.empty [.dispatch sampleDispatch]).getWorkflow "wf" = loaded
      at hstored
    cases loaded with
    | error e => cases hstored
    | ok inst => exact congrArg Except.ok (Option.some.inj hstored)
  have hfresh : FreshDispatch "wf" implAuditDefault sampleStored := ⟨rfl, rfl, rfl, rfl, rfl, rfl⟩
  have hstage : sampleStored.AtStage 0 := atStage_of_freshDispatch hfresh (by decide)
  have hcount : Runs.count step (completesTask "wf")
      (runCommands Db.empty [.dispatch sampleDispatch]) cmds = 2 := by decide +kernel
  rw [← hcount]
  exact commands_complete [.dispatch sampleDispatch] cmds hload hstage (by decide +kernel)

end Hymenium
