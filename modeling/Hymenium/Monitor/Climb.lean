import Hymenium.Monitor.Delivery

/-!
# Tiers that are proposed again

A run of stalls is handled one after another. Every retry after the plain first one proposes the
tier above the one of the template phase, which no retry changes: the proposals of a run are that
one tier, as often as a later retry is returned (`proposedTiers_eq`). They climb from Haiku only as
long as there is one of them (`climbs_iff`).
-/

namespace Hymenium

open WorkflowInstance

/-! ## Proposals -/

/-- The phase produces nothing, or nothing more. -/
def ProgressSignal.IsIdle : ProgressSignal → Prop
  | .stalled _ _ .noCodeDiff | .stalled _ _ .noPasteMarkerProgress => True
  | _ => False

/-- The tier a result proposes. -/
def proposedTier : Except MonitorError RecoveryAction → Option AgentTier
  | .ok (.retry _ newTier) => newTier
  | .ok (.escalate _) | .ok (.cancel _) | .error _ => none

/-- The tiers that a run of calls proposes. -/
def proposedTiers : List SignalCall → WorkflowInstance → Db → List AgentTier
  | [], _, _ => []
  | call :: calls, inst, db =>
    let out := handleSignal call inst db
    (proposedTier out.1).toList ++ proposedTiers calls out.2.1 out.2.2

/-- The order Haiku, Sonnet, Opus. -/
inductive AgentTier.Below : AgentTier → AgentTier → Prop
  | haiku_sonnet : Below .haiku .sonnet
  | haiku_opus : Below .haiku .opus
  | sonnet_opus : Below .sonnet .opus

/-- Every tier is above the one before it, or both are Opus. -/
def Climbs (tiers : List AgentTier) : Prop :=
  tiers.IsChain fun a b => a.Below b ∨ a = .opus ∧ b = .opus

theorem climbs_replicate_opus (n : ℕ) : Climbs (List.replicate n .opus) := by
  induction n with
  | zero => exact .nil
  | succ n ih =>
    cases n with
    | zero => exact .singleton _
    | succ n => exact List.isChain_cons_cons.mpr ⟨.inr ⟨rfl, rfl⟩, ih⟩

theorem climbs_replicate_sonnet (n : ℕ) : Climbs (List.replicate n .sonnet) ↔ n ≤ 1 := by
  match n with
  | 0 => exact iff_of_true .nil (Nat.zero_le 1)
  | 1 => exact iff_of_true (.singleton _) le_rfl
  | n + 2 =>
    refine iff_of_false (fun h => ?_) (by omega)
    rcases (List.isChain_cons_cons.mp h).1 with hbelow | ⟨hopus, -⟩
    · cases hbelow
    · cases hopus

/-! ## One stall -/

/-- The store has a place for the current phase. -/
structure HasPlace (inst : WorkflowInstance) (t : Tables) : Prop where
  order : inst.currentPhaseIdx < 2 ^ 63
  owner : inst.workflowId ∈ t.workflowIds

instance (inst : WorkflowInstance) (t : Tables) : Decidable (HasPlace inst t) :=
  decidable_of_iff (inst.currentPhaseIdx < 2 ^ 63 ∧ inst.workflowId ∈ t.workflowIds)
    ⟨fun ⟨h₁, h₂⟩ => ⟨h₁, h₂⟩, fun ⟨h₁, h₂⟩ => ⟨h₁, h₂⟩⟩

section Step

variable {call : SignalCall} {inst : WorkflowInstance} {p : PhaseState} {tier : AgentTier}
  {db db' : Db} {written : Except StoreError Unit}

theorem ProgressSignal.IsIdle.callsForRecovery {signal : ProgressSignal} (h : signal.IsIdle) :
    signal.CallsForRecovery := by
  cases signal with
  | stalled => trivial
  | _ => exact absurd h id

/-- Below the limit a stall is retried: plainly at first, then with the tier above. -/
theorem decideRecovery_idle {signal : ProgressSignal} {policy : RetryPolicy} {retryCount : UInt32}
    (hidle : signal.IsIdle) (hpolicy : policy.escalateTierOnRetry = true)
    (h : ¬ policy.maxRetries ≤ retryCount) (tier : AgentTier) : ∃ narrowedScope,
      decideRecovery signal retryCount policy tier = .retry narrowedScope
        (if retryCount = 0 then none else some (nextTier tier)) := by
  have hprogressive : ∀ context, ∃ narrowedScope,
      decideProgressiveRecovery retryCount policy tier context = .retry narrowedScope
        (if retryCount = 0 then none else some (nextTier tier)) := by
    intro context
    unfold decideProgressiveRecovery
    rw [if_neg h, hpolicy]
    by_cases hfirst : retryCount = 0
    · exact ⟨none, by rw [if_pos hfirst, if_pos hfirst]⟩
    · exact ⟨_, by rw [if_neg hfirst, if_neg hfirst, if_pos rfl]⟩
  cases signal with
  | stalled phaseId since reason =>
    cases reason with
    | noCodeDiff => exact hprogressive _
    | noPasteMarkerProgress => exact hprogressive _
    | heartbeatTimeout | statusChatterOnly => exact absurd hidle id
  | _ => exact absurd hidle id

/-- A write to the store keeps the workflows, and is taken exactly when there is a place. -/
theorem writePhaseState_taken (p : PhaseState)
    (hwrite : writePhaseState call.storeFails inst.workflowId p inst.currentPhaseIdx db =
      (written, db')) :
    (written = .ok () ↔ call.storeFails = false ∧ HasPlace inst db.toTables) ∧
      db'.workflowIds = db.workflowIds := by
  unfold writePhaseState at hwrite
  split_ifs at hwrite with hfails
  · obtain ⟨rfl, rfl⟩ := Prod.mk.inj hwrite
    exact ⟨iff_of_false nofun fun h => absurd (hfails.symm.trans h.1) nofun, rfl⟩
  · cases hrun : (upsertPhaseState inst.workflowId p inst.currentPhaseIdx).run db with
    | error e =>
      rw [withTransaction_error hrun] at hwrite
      obtain ⟨rfl, rfl⟩ := Prod.mk.inj hwrite
      refine ⟨iff_of_false nofun fun ⟨_, horder, howner⟩ => ?_, rfl⟩
      have hc : (db.upsertPhase (.ofState inst.workflowId p inst.currentPhaseIdx)).Constraints :=
        db.constraints.upsertPhase howner
      have hok := upsertPhaseState_ok (r := ((), ⟨_, hc⟩)) |>.mpr ⟨horder, hc, rfl⟩
      exact nomatch hrun.symm.trans hok
    | ok r =>
      rw [withTransaction_ok hrun] at hwrite
      obtain ⟨rfl, rfl⟩ := Prod.mk.inj hwrite
      obtain ⟨horder, hc, heq⟩ := upsertPhaseState_ok.mp hrun
      have howner := hc.phaseOwners (.ofState inst.workflowId p inst.currentPhaseIdx)
        (Keyed.find_eq_some (Keyed.find_upsert_self _ _)).1
      refine ⟨iff_of_true rfl ⟨by simpa using hfails, horder, howner⟩, ?_⟩
      rw [heq]
      rfl

theorem proposedTier_retryResult (narrowedScope : Option String) (newTier : Option AgentTier) :
    proposedTier (retryResult narrowedScope newTier written) =
      if written = .ok () then newTier else none := by
  cases written with
  | error e => rfl
  | ok u => rfl

theorem hasPlace_withCurrent (hwrite : db'.workflowIds = db.workflowIds) (t : DateTime) :
    HasPlace (inst.withCurrent p t) db'.toTables ↔ HasPlace inst db.toTables := by
  constructor
  · rintro ⟨horder, howner⟩
    exact ⟨horder, hwrite ▸ howner⟩
  · rintro ⟨horder, howner⟩
    exact ⟨horder, hwrite ▸ howner⟩

/-- At the limit a stall proposes nothing and changes nothing. -/
theorem handleSignal_idle_limit (hidle : call.signal.IsIdle) (hp : inst.currentPhase = some p)
    (h : call.policy.maxRetries ≤ p.retryCount) (db : Db) :
    proposedTier (handleSignal call inst db).1 = none ∧
      (handleSignal call inst db).2 = (inst, db) := by
  obtain ⟨reason, heq⟩ := handleSignal_escalated hidle.callsForRecovery (by rw [hp]; exact h) db
  rw [heq]
  exact ⟨rfl, rfl⟩

/-- Below the limit a stall is counted, and proposes the tier above unless it is the first one or
the store does not take the write. -/
theorem handleSignal_idle (hidle : call.signal.IsIdle)
    (hpolicy : call.policy.escalateTierOnRetry = true) (hp : inst.currentPhase = some p)
    (hactive : p.status = .active) (htier : inst.currentTemplatePhase.map (·.agentTier) = some tier)
    (h : ¬ call.policy.maxRetries ≤ p.retryCount) (db : Db) : ∃ db',
      (proposedTier (handleSignal call inst db).1).toList =
        (if p.retryCount ≠ 0 ∧ call.storeFails = false ∧ HasPlace inst db.toTables
          then [nextTier tier] else []) ∧
      (handleSignal call inst db).2 = (inst.withCurrent p.charged (call.clk 0), db') ∧
      db'.workflowIds = db.workflowIds := by
  obtain ⟨narrowedScope, hdecide⟩ := decideRecovery_idle hidle hpolicy h tier
  cases hwrite : writePhaseState call.storeFails inst.workflowId p.charged inst.currentPhaseIdx
      db with
  | mk written db' =>
    obtain ⟨htaken, hids⟩ := writePhaseState_taken p.charged hwrite
    have hdecision : call.decision inst = .retry narrowedScope
        (if p.retryCount = 0 then none else some (nextTier tier)) := by
      unfold SignalCall.decision
      rw [hp, htier]
      exact hdecide
    rw [handleSignal_charged hidle.callsForRecovery hdecision hp hactive hwrite]
    refine ⟨db', ?_, rfl, hids⟩
    rw [proposedTier_retryResult]
    by_cases hfirst : p.retryCount = 0
    · simp only [hfirst, if_true, ite_self, Option.toList_none, ne_eq, not_true_eq_false,
        false_and, if_false]
    · simp only [hfirst, if_false, htaken, ne_eq, not_false_eq_true, true_and]
      split_ifs
      · rfl
      · rfl

/-- A signal to a phase that is not active proposes nothing and changes nothing. -/
theorem handleSignal_not_active (call : SignalCall)
    (h : ∀ p, inst.currentPhase = some p → p.status ≠ .active) (db : Db) :
    proposedTier (handleSignal call inst db).1 = none ∧
      (handleSignal call inst db).2 = (inst, db) := by
  have hcase := handleSignal_handled call inst db
  generalize handleSignal call inst db = out at hcase ⊢
  cases hcase with
  | kept result hretry =>
    refine ⟨?_, rfl⟩
    match result, hretry with
    | .ok (.retry _ _), hretry => exact absurd trivial hretry
    | .ok (.escalate _), _ | .ok (.cancel _), _ | .error _, _ => rfl
  | escalated => exact ⟨rfl, rfl⟩
  | completed _ _ _ hp hactive | charged _ _ _ _ _ _ hp hactive => exact absurd hactive (h _ hp)

end Step

/-! ## A run of stalls -/

/-- The stalls of a run that find a retry count between 1 and the limit and a store that works, when
the first one finds `count` retries. -/
def laterRetries (policy : RetryPolicy) (calls : List SignalCall) (count : ℕ) : ℕ :=
  (calls.zipIdx count).countP fun (call, n) =>
    0 < n ∧ n < policy.maxRetries.toNat ∧ call.storeFails = false

/-- The retries after the first one that a run of stalls finds possible. -/
def possibleRetries (policy : RetryPolicy) (calls : List SignalCall) (inst : WorkflowInstance)
    (t : Tables) : ℕ :=
  match inst.currentPhase with
  | some p =>
    if p.status = .active ∧ HasPlace inst t then laterRetries policy calls p.retryCount.toNat else 0
  | none => 0

section Run

variable {policy : RetryPolicy} {calls : List SignalCall} {inst : WorkflowInstance}
  {p : PhaseState} {tier : AgentTier} {db : Db}

theorem laterRetries_cons (call : SignalCall) (calls : List SignalCall) (n : ℕ) :
    laterRetries policy (call :: calls) n = laterRetries policy calls (n + 1) +
      if 0 < n ∧ n < policy.maxRetries.toNat ∧ call.storeFails = false then 1 else 0 := by
  unfold laterRetries
  rw [List.zipIdx_cons, List.countP_cons]
  simp only [decide_eq_true_eq]

theorem laterRetries_limit {n : ℕ} (h : policy.maxRetries.toNat ≤ n) :
    laterRetries policy calls n = 0 := by
  unfold laterRetries
  rw [List.countP_eq_zero]
  rintro ⟨call, m⟩ hmem
  have hle : n ≤ m := (List.mem_zipIdx hmem).1
  simp only [decide_eq_true_eq]
  omega

/-- The run of an active phase proposes one tier again and again. -/
theorem proposedTiers_active (hpolicy : policy.escalateTierOnRetry = true)
    (hcalls : ∀ call ∈ calls, call.signal.IsIdle ∧ call.policy = policy)
    (hp : inst.currentPhase = some p) (hactive : p.status = .active)
    (htier : inst.currentTemplatePhase.map (·.agentTier) = some tier) :
    proposedTiers calls inst db = List.replicate
      (if HasPlace inst db.toTables then laterRetries policy calls p.retryCount.toNat else 0)
      (nextTier tier) := by
  induction calls generalizing inst p db with
  | nil => simp [proposedTiers, laterRetries]
  | cons call calls ih =>
    obtain ⟨hidle, rfl⟩ := hcalls call List.mem_cons_self
    have hrest : ∀ c ∈ calls, c.signal.IsIdle ∧ c.policy = call.policy :=
      fun c hc => hcalls c (List.mem_cons_of_mem _ hc)
    rw [proposedTiers]
    by_cases hmax : call.policy.maxRetries ≤ p.retryCount
    · -- at the limit the state stays, and nothing is counted any more
      obtain ⟨hnone, hstate⟩ := handleSignal_idle_limit hidle hp hmax db
      have hlimit := UInt32.le_iff_toNat_le.mp hmax
      simp only [hnone, hstate, Option.toList_none, List.nil_append]
      rw [ih hrest hp hactive htier, laterRetries_limit hlimit, laterRetries_limit hlimit]
    · obtain ⟨db', hproposed, hstate, hids⟩ :=
        handleSignal_idle hidle hpolicy hp hactive htier hmax db
      have hcount : p.charged.retryCount.toNat = p.retryCount.toNat + 1 :=
        toNat_saturatingSucc (UInt32.not_le.mp hmax)
      have hlt := UInt32.lt_iff_toNat_lt.mp (UInt32.not_le.mp hmax)
      have hfirst : p.retryCount ≠ 0 ↔ 0 < p.retryCount.toNat := by
        rw [Nat.pos_iff_ne_zero, ne_eq, ne_eq, ← UInt32.toNat_inj]
        rfl
      have hnext := currentPhase_withCurrent hp p.charged (call.clk 0)
      simp only [hproposed, hstate]
      rw [ih hrest hnext hactive htier, hcount]
      simp only [hasPlace_withCurrent hids, laterRetries_cons, hfirst, hlt, true_and]
      by_cases hplace : HasPlace inst db.toTables
      · simp only [hplace, and_true, if_true]
        split_ifs with hc
        · rw [List.replicate_succ, List.singleton_append]
        · rfl
      · simp [hplace]

theorem proposedTiers_not_active (calls : List SignalCall)
    (h : ∀ p, inst.currentPhase = some p → p.status ≠ .active) :
    proposedTiers calls inst db = [] := by
  induction calls with
  | nil => rfl
  | cons call calls ih =>
    obtain ⟨hnone, hstate⟩ := handleSignal_not_active call h db
    rw [proposedTiers]
    simp only [hnone, hstate, Option.toList_none, List.nil_append]
    exact ih

/-- A run of stalls proposes the tier above the one of the template phase, as often as a later retry
is possible. -/
theorem proposedTiers_eq (hpolicy : policy.escalateTierOnRetry = true)
    (hcalls : ∀ call ∈ calls, call.signal.IsIdle ∧ call.policy = policy)
    (htier : inst.currentTemplatePhase.map (·.agentTier) = some tier) :
    proposedTiers calls inst db =
      List.replicate (possibleRetries policy calls inst db.toTables) (nextTier tier) := by
  unfold possibleRetries
  cases hp : inst.currentPhase with
  | none => exact proposedTiers_not_active calls fun p h => nomatch hp.symm.trans h
  | some p =>
    dsimp only
    by_cases hactive : p.status = .active
    · rw [proposedTiers_active hpolicy hcalls hp hactive htier]
      simp only [hactive, true_and]
    · rw [if_neg fun h => hactive h.1]
      refine proposedTiers_not_active calls fun q hq => ?_
      cases hp.symm.trans hq
      exact hactive

end Run

/-- **Tier escalation.** In a run of stalls of a phase of tier Haiku or Sonnet the proposed tiers
climb exactly when the tier is Sonnet, or at most one retry after the first is possible. -/
theorem climbs_iff (policy : RetryPolicy) (hpolicy : policy.escalateTierOnRetry = true)
    (calls : List SignalCall) (hcalls : ∀ call ∈ calls, call.signal.IsIdle ∧ call.policy = policy)
    (inst : WorkflowInstance) (db : Db) (tier : AgentTier) (hlow : tier = .haiku ∨ tier = .sonnet)
    (htier : inst.currentTemplatePhase.map (·.agentTier) = some tier) :
    Climbs (proposedTiers calls inst db) ↔
      tier = .sonnet ∨ possibleRetries policy calls inst db.toTables ≤ 1 := by
  rw [proposedTiers_eq hpolicy hcalls htier]
  rcases hlow with rfl | rfl
  · rw [nextTier, climbs_replicate_sonnet]
    exact ⟨.inr, fun h => h.resolve_left nofun⟩
  · exact iff_of_true (climbs_replicate_opus _) (.inl rfl)

/-- The built-in workflow with Haiku agents, started and stored. -/
def haikuStarted : WorkflowInstance × Db :=
  let phases := implAuditDefault.phases.map fun phase => { phase with agentTier := .haiku }
  let inst := applyOp (new "wf" { implAuditDefault with phases } "handoff.md" 0)
    (.startPhase (fun _ => true) Int.ofNat)
  (inst, (withTransaction (insertWorkflowWithHash inst none) .empty).2)

/-- A stall of its first phase, with `maxRetries` retries allowed. -/
def haikuStall (maxRetries : UInt32) : SignalCall where
  signal := .stalled "implement" 0 .noCodeDiff
  retryCount := 0
  policy := { maxRetries, escalateTierOnRetry := true }
  clk := Int.ofNat
  storeFails := false

/-- With two retries there is one proposal. -/
theorem climbs_iff_two : Climbs (proposedTiers [haikuStall 2, haikuStall 2, haikuStall 2]
    haikuStarted.1 haikuStarted.2) := by
  have hcalls : ∀ call ∈ [haikuStall 2, haikuStall 2, haikuStall 2],
      call.signal.IsIdle ∧ call.policy = (haikuStall 2).policy := by
    intro call hcall
    obtain rfl : call = haikuStall 2 := by simpa using hcall
    exact ⟨trivial, rfl⟩
  refine (climbs_iff (haikuStall 2).policy rfl _ hcalls _ _ .haiku (.inl rfl) rfl).mpr (.inr ?_)
  decide +kernel

/-- With three retries the second proposal is Sonnet again. -/
theorem not_climbs_three :
    proposedTiers [haikuStall 3, haikuStall 3, haikuStall 3] haikuStarted.1 haikuStarted.2 =
        [.sonnet, .sonnet] ∧
      ¬ Climbs (proposedTiers [haikuStall 3, haikuStall 3, haikuStall 3] haikuStarted.1
        haikuStarted.2) := by
  have hproposed : proposedTiers [haikuStall 3, haikuStall 3, haikuStall 3] haikuStarted.1
      haikuStarted.2 = [.sonnet, .sonnet] := by decide +kernel
  refine ⟨hproposed, ?_⟩
  rw [hproposed]
  exact fun h => absurd ((climbs_replicate_sonnet 2).mp h) (by decide)

end Hymenium
