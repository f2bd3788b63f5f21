import Hymenium.Foundations.Json
import Hymenium.Workflow.Lock

/-!
# The compaction hook

`hymenium hook pre-compact` (`handle_pre_compact_hook`, `src/main.rs`) blocks a compaction when
`find_any_active_lock` returns a lock. `protected_of_meets` says that it does so while a run is
active. Here is the other side: as long as no two runs of one workflow acquire their lock at the same
time, a lock file is never seen half written, and a compaction is blocked only for a run that did
acquire its lock, or for a lock of before, in a process that was alive when the hook looked
(`compaction_blocked`). Files may be removed by anybody, and any statement may fail.
-/

namespace Hymenium

/-- The answer that stops a compaction. -/
def blockDecision (phase : String) : Json :=
  .object [
    ("decision", .string "block"),
    ("reason", .string ("hymenium workflow phase '" ++ phase ++
      "' is active — compaction would interrupt in-flight state"))]

/-- The answer that lets a compaction go on. -/
def allowDecision : Json := .object [("decision", .string "allow")]

/-- What the hook prints for the lock it found. -/
def handlePreCompactHook : Option WorkflowLock → Json
  | some lock => blockDecision lock.phase
  | none => allowDecision

/-- A run opens its temp file while no other run of its workflow has it open. -/
def Alone (config : LockConfig) (s : LockState) : LockEvent → Prop
  | .run r =>
    match s.runs r with
    | .notStarted => '/' ∉ (config.workflowId r).toList ∧ ∀ r',
      config.workflowId r' = config.workflowId r → ¬ (s.runs r').InAcquire
    | _ => True
  | _ => True

/-! ## Temp files -/

/-- What holds of the temp files, whatever becomes of the lock files. -/
structure TempFiles (config : LockConfig) (s : LockState) : Prop where
  holds : ∀ r, (s.runs r).InAcquire → s.Supports config r (s.runs r)
  /-- No two runs share a temp file. -/
  single : ∀ r r', (s.runs r).InAcquire → (s.runs r').InAcquire →
    config.workflowId r = config.workflowId r' → r = r'
  /-- The cleaners look at lock files only. -/
  names : ∀ c, ∀ name ∈ (s.cleaners c).names, isLockName name

section Steps

variable {config : LockConfig} {s s' : LockState}

/-- A run that is writing its temp file keeps it when nobody else changes it. -/
theorem holds_frame {r : ℕ} {pc : RunPc} (hpc : pc.InAcquire) (h : s.Supports config r pc)
    (hinode : s'.fs.inode (tmpPath (config.workflowId r)) =
      s.fs.inode (tmpPath (config.workflowId r)))
    (hread : s'.fs.read (tmpPath (config.workflowId r)) =
      s.fs.read (tmpPath (config.workflowId r))) : s'.Supports config r pc :=
  h.frame (fun _ => ⟨hinode, hread⟩) fun hrunning => absurd hpc (by rw [hrunning]; exact id)

/-- A run takes a step that keeps the temp files of the others. -/
theorem TempFiles.move (h : TempFiles config s) {fs : FileSystem String UInt8} {r : ℕ} {pc : RunPc}
    (hothers : ∀ r' ≠ r, (s.runs r').InAcquire →
      fs.inode (tmpPath (config.workflowId r')) = s.fs.inode (tmpPath (config.workflowId r')) ∧
      fs.read (tmpPath (config.workflowId r')) = s.fs.read (tmpPath (config.workflowId r')))
    (hown : pc.InAcquire → (s.setFs fs).Supports config r pc)
    (hsingle : pc.InAcquire → ∀ r' ≠ r, (s.runs r').InAcquire →
      config.workflowId r' ≠ config.workflowId r) :
    TempFiles config ((s.setFs fs).setRun r pc) := by
  have hself : ((s.setFs fs).setRun r pc).runs r = pc := Function.update_self ..
  have hrest : ∀ r' ≠ r, ((s.setFs fs).setRun r pc).runs r' = s.runs r' := fun r' hr' =>
    Function.update_of_ne hr' ..
  refine ⟨fun r' hacq => ?_, fun r₁ r₂ h₁ h₂ hid => ?_, h.names⟩
  · by_cases heq : r' = r
    · rw [heq, hself] at hacq ⊢
      exact holds_frame hacq (hown hacq) rfl rfl
    · rw [hrest r' heq] at hacq ⊢
      obtain ⟨hinode, hread⟩ := hothers r' heq hacq
      exact holds_frame hacq (h.holds r' hacq) hinode hread
  · by_cases heq₁ : r₁ = r <;> by_cases heq₂ : r₂ = r
    · exact heq₁.trans heq₂.symm
    · rw [heq₁, hself] at h₁
      rw [hrest r₂ heq₂] at h₂
      exact absurd (heq₁ ▸ hid).symm (hsingle h₁ r₂ heq₂ h₂)
    · rw [heq₂, hself] at h₂
      rw [hrest r₁ heq₁] at h₁
      exact absurd (heq₂ ▸ hid) (hsingle h₂ r₁ heq₁ h₁)
    · rw [hrest r₁ heq₁] at h₁
      rw [hrest r₂ heq₂] at h₂
      exact h.single r₁ r₂ h₁ h₂ hid

/-- A run that gives up its temp file. -/
theorem TempFiles.leave (h : TempFiles config s) {r : ℕ} {pc : RunPc} (hpc : ¬ pc.InAcquire) :
    TempFiles config (s.setRun r pc) := by
  show TempFiles config ((s.setFs s.fs).setRun r pc)
  exact h.move (fun _ _ _ => ⟨rfl, rfl⟩) (fun hacq => absurd hacq hpc) fun hacq => absurd hacq hpc

/-- Removing a lock file. -/
theorem TempFiles.remove (h : TempFiles config s) {name : String} (hname : LockName name) :
    TempFiles config (s.setFs (s.fs.remove name)) := by
  refine ⟨fun r hacq => ?_, h.single, h.names⟩
  have hne : tmpPath (config.workflowId r) ≠ name := (hname.ne_tmpPath _).symm
  exact holds_frame hacq (h.holds r hacq) (FileSystem.inode_remove_of_ne hne)
    (FileSystem.read_remove_of_ne hne)

theorem TempFiles.setCleaner (h : TempFiles config s) {c : ℕ} {pc : CleanerPc}
    (hpc : ∀ name ∈ pc.names, isLockName name) : TempFiles config (s.setCleaner c pc) := by
  refine ⟨h.holds, h.single, fun c' name hname => ?_⟩
  by_cases heq : c' = c
  · rw [heq, setCleaner_self] at hname
    exact hpc name hname
  · rw [show (s.setCleaner c pc).cleaners c' = s.cleaners c' from
      Function.update_of_ne heq ..] at hname
    exact h.names c' name hname

/-- Only the temp file of a run is the file that the run writes to. -/
theorem TempFiles.inode_ne (h : TempFiles config s) {r handle : ℕ}
    (hpc : s.runs r = .writing handle) {name : String} (hne : name ≠ tmpPath (config.workflowId r)) :
    s.fs.inode name ≠ some handle := by
  have hown := h.holds r (by rw [hpc]; trivial)
  rw [hpc] at hown
  exact fun hname => hne (s.fs.inode_inj hname hown.1)

/-- Writing to the temp file of a run leaves those of the others alone. -/
theorem TempFiles.others_write (h : TempFiles config s) {r handle : ℕ}
    (hpc : s.runs r = .writing handle) (bytes : List UInt8) : ∀ r' ≠ r, (s.runs r').InAcquire →
    (s.fs.write handle bytes).inode (tmpPath (config.workflowId r')) =
      s.fs.inode (tmpPath (config.workflowId r')) ∧
    (s.fs.write handle bytes).read (tmpPath (config.workflowId r')) =
      s.fs.read (tmpPath (config.workflowId r')) := by
  intro r' hr' hacq
  refine ⟨rfl, FileSystem.read_write_of_ne (h.inode_ne hpc fun heq => hr' ?_) bytes⟩
  exact h.single r' r hacq (by rw [hpc]; trivial) (tmpPath_injective heq)

theorem tempFiles_runStep (h : TempFiles config s) {r : ℕ} (halone : Alone config s (.run r)) :
    TempFiles config (s.runStep config r) := by
  unfold LockState.runStep
  unfold Alone at halone
  have hother : ∀ r' ≠ r, (s.runs r).InAcquire → (s.runs r').InAcquire →
      config.workflowId r' ≠ config.workflowId r := fun r' hr' hacq hacq' hid =>
    hr' (h.single r' r hacq' hacq hid)
  cases hpc : s.runs r with
  | notStarted =>
    simp only [hpc] at halone ⊢
    split_ifs
    · refine h.move (fun r' hr' hacq => ?_) (fun _ => ?_) fun _ r' _ hacq hid =>
        halone.2 r' hid hacq
      · have hne : tmpPath (config.workflowId r') ≠ tmpPath (config.workflowId r) := fun heq =>
          halone.2 r' (tmpPath_injective heq) hacq
        exact ⟨FileSystem.inode_create_of_ne hne, FileSystem.read_create_of_ne hne⟩
      · exact ⟨FileSystem.inode_create_self, FileSystem.read_create_self⟩
    · exact h
  | writing handle =>
    have hown := h.holds r (by rw [hpc]; trivial)
    rw [hpc] at hown hother
    exact h.move (h.others_write hpc _) (fun _ => FileSystem.read_write hown.1 hown.2 _)
      fun _ r' hr' => hother r' hr' trivial
  | written =>
    rw [hpc] at hother
    simp only
    split_ifs
    · exact h.leave id
    · refine h.move (fun r' hr' hacq => ?_) (fun hacq => absurd hacq id) fun hacq => absurd hacq id
      have hne : tmpPath (config.workflowId r') ≠ tmpPath (config.workflowId r) := fun heq =>
        hother r' hr' trivial hacq (tmpPath_injective heq)
      have hne' := ((lockName_lockPath (config.workflowId r)).ne_tmpPath (config.workflowId r')).symm
      exact ⟨FileSystem.inode_rename_of_ne hne hne', FileSystem.read_rename_of_ne hne hne'⟩
  | running acquired =>
    refine h.leave ?_
    split_ifs
    · exact id
    · exact id
  | removing => exact (h.remove (lockName_lockPath _)).leave id
  | finished => exact h

theorem tempFiles_runFails (h : TempFiles config s) (r written : ℕ) :
    TempFiles config (s.runFails config r written) := by
  unfold LockState.runFails
  cases hpc : s.runs r with
  | notStarted =>
    simp only
    split_ifs
    · exact h.leave id
    · exact h
  | writing handle =>
    exact h.move (h.others_write hpc _) (fun hacq => absurd hacq id) fun hacq => absurd hacq id
  | written => exact h.leave id
  | running acquired => exact h.leave id
  | removing => exact h.leave id
  | finished => exact h

theorem tempFiles_cleanStep (h : TempFiles config s) (c : ℕ) :
    TempFiles config (s.cleanStep config c) := by
  have hnames := h.names c
  unfold LockState.cleanStep
  cases hpc : s.cleaners c with
  | idle => exact h
  | scanning names =>
    rw [hpc] at hnames
    cases names with
    | nil => exact h.setCleaner nofun
    | cons name rest =>
      have hrest : ∀ n ∈ rest, isLockName n := fun n hn => hnames n (List.mem_cons_of_mem _ hn)
      simp only
      cases (s.fs.read name).map config.decode with
      | none => exact h.setCleaner hrest
      | some text =>
        cases text with
        | unreadable => exact h.setCleaner hrest
        | malformed => exact h.setCleaner hnames
        | lock lock => exact h.setCleaner hnames
  | checking name lock rest =>
    rw [hpc] at hnames
    simp only
    split_ifs
    · exact h.setCleaner nofun
    · exact h.setCleaner hnames
  | removing name rest =>
    rw [hpc] at hnames
    have hname := lockName_of_isLockName (hnames name List.mem_cons_self)
    exact (h.remove hname).setCleaner fun n hn => hnames n (List.mem_cons_of_mem _ hn)
  | done result => exact h

theorem tempFiles_cleanFails (h : TempFiles config s) (c : ℕ) :
    TempFiles config (s.cleanFails config c) := by
  have hnames := h.names c
  unfold LockState.cleanFails
  cases hpc : s.cleaners c with
  | scanning names =>
    rw [hpc] at hnames
    cases names with
    | nil => exact tempFiles_cleanStep h c
    | cons name rest => exact h.setCleaner fun n hn => hnames n (List.mem_cons_of_mem _ hn)
  | removing name rest =>
    rw [hpc] at hnames
    exact h.setCleaner fun n hn => hnames n (List.mem_cons_of_mem _ hn)
  | idle | checking | done => exact tempFiles_cleanStep h c

/-- A process that ends gives up its temp files. -/
theorem tempFiles_exit (h : TempFiles config s) (pid : UInt32) :
    TempFiles config (s.exit config pid) := by
  have hacq : ∀ r, ((s.exit config pid).runs r).InAcquire →
      (s.exit config pid).runs r = s.runs r := by
    intro r hr
    by_cases hgone : config.pid r = pid ∧ s.runs r ≠ .notStarted
    · rw [show (s.exit config pid).runs r = .finished from if_pos hgone] at hr
      exact absurd hr id
    · exact if_neg hgone
  refine ⟨fun r hr => ?_, fun r r' hr hr' => ?_, h.names⟩
  · have hsame := hacq r hr
    rw [hsame] at hr ⊢
    exact holds_frame hr (h.holds r hr) rfl rfl
  · have hsame := hacq r hr
    have hsame' := hacq r' hr'
    rw [hsame] at hr
    rw [hsame'] at hr'
    exact h.single r r' hr hr'

theorem tempFiles_step {e : LockEvent} (h : TempFiles config s) (halone : Alone config s e) :
    TempFiles config (lockStep config s e) := by
  cases e with
  | run r => exact tempFiles_runStep h halone
  | runFails r written => exact tempFiles_runFails h r written
  | readActiveLock c workflowId =>
    refine h.setCleaner ?_
    split_ifs
    · exact nofun
    · intro name hname
      rw [List.mem_singleton.mp hname]
      exact isLockName_lockPath workflowId
  | findAnyActiveLock c names => exact h.setCleaner fun name hname => (List.mem_filter.mp hname).2
  | clean c => exact tempFiles_cleanStep h c
  | cleanFails c => exact tempFiles_cleanFails h c
  | spawn pid =>
    exact ⟨fun r hacq => holds_frame hacq (h.holds r hacq) rfl rfl, h.single, h.names⟩
  | exit pid => exact tempFiles_exit h pid

/-! ## Lock files -/

/-- A step leaves a lock file alone, or removes it, or puts the whole lock of a run there. -/
theorem lockFile_step (h : TempFiles config s) (e : LockEvent) {name : String}
    (hname : LockName name) : (lockStep config s e).fs.read name = s.fs.read name ∨
      (lockStep config s e).fs.read name = none ∨
      ∃ r, (lockStep config s e).runs r = .running true ∧ lockPath (config.workflowId r) = name ∧
        (lockStep config s e).fs.read name = some (config.encode (config.lock r)) := by
  have hremove : ∀ n, (s.fs.remove n).read name = s.fs.read name ∨
      (s.fs.remove n).read name = none := by
    intro n
    by_cases heq : name = n
    · rw [heq]
      exact .inr FileSystem.read_remove_self
    · exact .inl (FileSystem.read_remove_of_ne heq)
  have hwrite : ∀ {r handle : ℕ}, s.runs r = .writing handle → ∀ bytes,
      (s.fs.write handle bytes).read name = s.fs.read name := fun hpc bytes =>
    FileSystem.read_write_of_ne (h.inode_ne hpc (hname.ne_tmpPath _)) bytes
  have hclean : ∀ c, (s.cleanStep config c).fs.read name = s.fs.read name ∨
      (s.cleanStep config c).fs.read name = none := by
    intro c
    unfold LockState.cleanStep
    cases s.cleaners c with
    | scanning names =>
      cases names with
      | nil => exact .inl rfl
      | cons n rest =>
        simp only
        cases (s.fs.read n).map config.decode with
        | none => exact .inl rfl
        | some text => cases text <;> exact .inl rfl
    | removing n rest => exact hremove n
    | idle | checking | done => exact .inl rfl
  cases e with
  | run r =>
    show (s.runStep config r).fs.read name = _ ∨ (s.runStep config r).fs.read name = none ∨
      ∃ r', (s.runStep config r).runs r' = _ ∧ _ ∧ (s.runStep config r).fs.read name = _
    unfold LockState.runStep
    cases hpc : s.runs r with
    | notStarted =>
      simp only
      split_ifs
      · exact .inl (FileSystem.read_create_of_ne (hname.ne_tmpPath _))
      · exact .inl rfl
    | writing handle => exact .inl (hwrite hpc _)
    | written =>
      have hown := h.holds r (by rw [hpc]; trivial)
      rw [hpc] at hown
      simp only
      split_ifs
      · exact .inl rfl
      · by_cases heq : name = lockPath (config.workflowId r)
        · refine .inr (.inr ⟨r, Function.update_self .., heq.symm, ?_⟩)
          rw [heq]
          exact FileSystem.read_rename.trans hown
        · exact .inl (FileSystem.read_rename_of_ne (hname.ne_tmpPath _) heq)
    | running acquired => exact .inl rfl
    | removing => exact (hremove _).imp_right .inl
    | finished => exact .inl rfl
  | runFails r written =>
    refine .inl ?_
    show (s.runFails config r written).fs.read name = _
    unfold LockState.runFails
    cases hpc : s.runs r with
    | notStarted =>
      simp only
      split_ifs <;> rfl
    | writing handle => exact hwrite hpc _
    | written | running | removing | finished => rfl
  | readActiveLock c workflowId => exact .inl rfl
  | findAnyActiveLock c names => exact .inl rfl
  | clean c => exact (hclean c).imp_right .inl
  | cleanFails c =>
    show (s.cleanFails config c).fs.read name = _ ∨ (s.cleanFails config c).fs.read name = none ∨ _
    unfold LockState.cleanFails
    cases s.cleaners c with
    | scanning names =>
      cases names with
      | nil => exact (hclean c).imp_right .inl
      | cons n rest => exact .inl rfl
    | removing n rest => exact .inl rfl
    | idle | checking | done => exact (hclean c).imp_right .inl
  | spawn pid => exact .inl rfl
  | exit pid => exact .inl rfl

/-! ## Cleaners -/

/-- What a step does to a cleaner. -/
inductive CleanerMove (config : LockConfig) (s : LockState) : CleanerPc → CleanerPc → Prop
  | stay (pc : CleanerPc) : CleanerMove config s pc pc
  | scan (pc : CleanerPc) (names : List String) : CleanerMove config s pc (.scanning names)
  | look {name : String} {rest : List String} {lock : WorkflowLock}
    (h : (s.fs.read name).map config.decode = some (.lock lock)) :
    CleanerMove config s (.scanning (name :: rest)) (.checking name lock rest)
  | drop (pc : CleanerPc) (name : String) (rest : List String) :
    CleanerMove config s pc (.removing name rest)
  | found {name : String} {rest : List String} {lock : WorkflowLock} (h : s.alive lock.pid = true) :
    CleanerMove config s (.checking name lock rest) (.done (some lock))
  | giveUp (pc : CleanerPc) : CleanerMove config s pc (.done none)

/-- A cleaner leaves the others where they are. -/
theorem cleaners_cleanStep_of_ne (s : LockState) {c : ℕ} (k : ℕ) (h : k ≠ c) :
    (s.cleanStep config c).cleaners k = s.cleaners k := by
  have hset : ∀ (s' : LockState) (pc : CleanerPc), (s'.setCleaner c pc).cleaners k = s'.cleaners k :=
    fun s' pc => Function.update_of_ne h ..
  unfold LockState.cleanStep
  cases s.cleaners c with
  | scanning names =>
    cases names with
    | nil => exact hset _ _
    | cons name rest =>
      simp only
      cases (s.fs.read name).map config.decode with
      | none => exact hset _ _
      | some text => cases text <;> exact hset _ _
  | checking name lock rest => exact hset _ _
  | removing name rest => exact hset _ _
  | idle | done => rfl

theorem cleanerMove_cleanStep (s : LockState) (c : ℕ) :
    CleanerMove config s (s.cleaners c) ((s.cleanStep config c).cleaners c) := by
  unfold LockState.cleanStep
  cases hpc : s.cleaners c with
  | idle => simpa only [hpc] using .stay _
  | scanning names =>
    cases names with
    | nil => simpa only [setCleaner_self] using .giveUp _
    | cons name rest =>
      simp only
      cases htext : (s.fs.read name).map config.decode with
      | none => simpa only [setCleaner_self] using .scan _ rest
      | some text =>
        cases text with
        | unreadable => simpa only [setCleaner_self] using .scan _ rest
        | malformed => simpa only [setCleaner_self] using .drop _ name rest
        | lock lock => simpa only [setCleaner_self] using .look htext
  | checking name lock rest =>
    simp only [setCleaner_self]
    split_ifs with halive
    · exact .found halive
    · exact .drop _ name rest
  | removing name rest => simpa only [setCleaner_self] using .scan _ rest
  | done result => simpa only [hpc] using .stay _

/-- A step moves one cleaner at most. -/
theorem cleanerMove_step (s : LockState) (e : LockEvent) (c : ℕ) :
    CleanerMove config s (s.cleaners c) ((lockStep config s e).cleaners c) := by
  have hone : ∀ {s' : LockState} {c' : ℕ}, (∀ k ≠ c', s'.cleaners k = s.cleaners k) →
      CleanerMove config s (s.cleaners c') (s'.cleaners c') →
      CleanerMove config s (s.cleaners c) (s'.cleaners c) := by
    intro s' c' hothers hmove
    by_cases hc : c = c'
    · rwa [hc]
    · rw [hothers c hc]
      exact .stay _
  have hset : ∀ (c' : ℕ) (pc : CleanerPc), CleanerMove config s (s.cleaners c') pc →
      CleanerMove config s (s.cleaners c) ((s.setCleaner c' pc).cleaners c) := fun c' pc hmove =>
    hone (fun k hk => Function.update_of_ne hk ..) (by rwa [setCleaner_self])
  have hrun : ∀ r, (s.runStep config r).cleaners = s.cleaners := by
    intro r
    unfold LockState.runStep
    cases s.runs r with
    | notStarted | written =>
      simp only
      split_ifs <;> rfl
    | writing | running | removing | finished => rfl
  have hfails : ∀ r written, (s.runFails config r written).cleaners = s.cleaners := by
    intro r written
    unfold LockState.runFails
    cases s.runs r with
    | notStarted =>
      simp only
      split_ifs <;> rfl
    | writing | written | running | removing | finished => rfl
  have hclean : ∀ c', CleanerMove config s (s.cleaners c) ((s.cleanStep config c').cleaners c) :=
    fun c' => hone (cleaners_cleanStep_of_ne s) (cleanerMove_cleanStep s c')
  cases e with
  | run r =>
    rw [show (lockStep config s (.run r)).cleaners = s.cleaners from hrun r]
    exact .stay _
  | runFails r written =>
    rw [show (lockStep config s (.runFails r written)).cleaners = s.cleaners from hfails r written]
    exact .stay _
  | readActiveLock c' workflowId =>
    refine hset c' _ ?_
    split_ifs
    · exact .giveUp _
    · exact .scan _ _
  | findAnyActiveLock c' names => exact hset c' _ (.scan _ _)
  | clean c' => exact hclean c'
  | cleanFails c' =>
    show CleanerMove config s _ ((s.cleanFails config c').cleaners c)
    unfold LockState.cleanFails
    cases s.cleaners c' with
    | scanning names =>
      cases names with
      | nil => exact hclean c'
      | cons name rest => exact hset c' _ (.scan _ rest)
    | removing name rest => exact hset c' _ (.scan _ rest)
    | idle | checking | done => exact hclean c'
  | spawn pid => exact .stay _
  | exit pid => exact .stay _

end Steps

/-! ## Whole runs -/

section Runs

variable (config : LockConfig) (fs : FileSystem String UInt8) (alive : UInt32 → Bool)
  (es : List LockEvent)

/-- The run of a workflow has acquired its lock. -/
def Acquired (r : ℕ) : Prop :=
  Runs.Past (lockStep config) (.start fs alive) es fun s => s.runs r = .running true

/-- The lock is one that a run acquired, or was in a lock file of before. -/
def Genuine (lock : WorkflowLock) : Prop :=
  (∃ r, config.lock r = lock ∧ Acquired config fs alive es r) ∨
    ∃ name, isLockName name ∧ (fs.read name).map config.decode = some (.lock lock)

/-- A cleaner looked at the lock while its process was alive. -/
def SeenAlive (c : ℕ) (lock : WorkflowLock) : Prop :=
  Runs.Past (lockStep config) (.start fs alive) es fun s =>
    (∃ name rest, s.cleaners c = .checking name lock rest) ∧ s.alive lock.pid = true

/-- The text of a lock file is of before, or the whole lock of a run of its workflow. -/
def Whole (name : String) (text : List UInt8) : Prop :=
  fs.read name = some text ∨ ∃ r, Acquired config fs alive es r ∧
    lockPath (config.workflowId r) = name ∧ text = config.encode (config.lock r)

/-- What holds after the events. -/
structure LocksKept : Prop where
  temp : TempFiles config (Runs.run (lockStep config) (.start fs alive) es)
  whole : ∀ name, LockName name → ∀ text,
    (Runs.run (lockStep config) (.start fs alive) es).fs.read name = some text →
      Whole config fs alive es name text
  looked : ∀ c name lock rest,
    (Runs.run (lockStep config) (.start fs alive) es).cleaners c = .checking name lock rest →
      Genuine config fs alive es lock
  found : ∀ c lock,
    (Runs.run (lockStep config) (.start fs alive) es).cleaners c = .done (some lock) →
      Genuine config fs alive es lock ∧ SeenAlive config fs alive es c lock

variable {config fs alive es}

theorem Genuine.append {lock : WorkflowLock} (h : Genuine config fs alive es lock)
    (more : List LockEvent) : Genuine config fs alive (es ++ more) lock :=
  h.imp_left fun ⟨r, hr, hpast⟩ => ⟨r, hr, hpast.append more⟩

theorem Whole.append {name : String} {text : List UInt8} (h : Whole config fs alive es name text)
    (more : List LockEvent) : Whole config fs alive (es ++ more) name text :=
  h.imp_right fun ⟨r, hpast, hr⟩ => ⟨r, hpast.append more, hr⟩

/-- The lock that a whole file holds. -/
theorem Whole.genuine {name : String} {text : List UInt8} {lock : WorkflowLock}
    (h : Whole config fs alive es name text) (hname : isLockName name)
    (hlock : config.decode text = .lock lock) : Genuine config fs alive es lock := by
  rcases h with hread | ⟨r, hpast, -, rfl⟩
  · exact .inr ⟨name, hname, by rw [hread, Option.map_some, hlock]⟩
  · rw [config.decode_encode] at hlock
    exact .inl ⟨r, LockText.lock.inj hlock, hpast⟩

theorem locksKept_start : LocksKept config fs alive [] where
  temp := ⟨fun _ h => absurd h id, fun _ _ h => absurd h id, nofun⟩
  whole _ _ _ h := .inl h
  looked := nofun
  found := nofun

theorem LocksKept.step {e : LockEvent} (h : LocksKept config fs alive es)
    (halone : Alone config (Runs.run (lockStep config) (.start fs alive) es) e) :
    LocksKept config fs alive (es ++ [e]) := by
  have hlast : Runs.run (lockStep config) (.start fs alive) (es ++ [e]) =
      lockStep config (Runs.run (lockStep config) (.start fs alive) es) e := Runs.run_append ..
  refine ⟨?_, fun name hname text hread => ?_, fun c name lock rest hc => ?_, fun c lock hc => ?_⟩
  · rw [hlast]
    exact tempFiles_step h.temp halone
  · rcases lockFile_step h.temp e hname with hsame | hnone | ⟨r, hr, hpath, htext⟩
    · rw [hlast, hsame] at hread
      exact (h.whole name hname text hread).append _
    · rw [hlast, hnone] at hread
      cases hread
    · rw [hlast, htext] at hread
      refine .inr ⟨r, .now ?_, hpath, (Option.some.inj hread).symm⟩
      rw [hlast]
      exact hr
  · have hmove : CleanerMove config _ _ _ :=
      cleanerMove_step (Runs.run (lockStep config) (.start fs alive) es) e c
    rw [← hlast, hc] at hmove
    generalize hpc : (Runs.run (lockStep config) (.start fs alive) es).cleaners c = pc at hmove
    cases hmove with
    | stay => exact (h.looked c name lock rest hpc).append _
    | look htext =>
      obtain ⟨text, hread, hlock⟩ := Option.map_eq_some_iff.mp htext
      have hname : isLockName name := h.temp.names c name (by rw [hpc]; exact List.mem_cons_self)
      have hwhole := h.whole name (lockName_of_isLockName hname) text hread
      exact (hwhole.genuine hname hlock).append _
  · have hmove : CleanerMove config _ _ _ :=
      cleanerMove_step (Runs.run (lockStep config) (.start fs alive) es) e c
    rw [← hlast, hc] at hmove
    generalize hpc : (Runs.run (lockStep config) (.start fs alive) es).cleaners c = pc at hmove
    cases hmove with
    | stay =>
      obtain ⟨hgenuine, hseen⟩ := h.found c lock hpc
      exact ⟨hgenuine.append _, hseen.append _⟩
    | found halive =>
      have hseen : SeenAlive config fs alive es c lock := .now ⟨⟨_, _, hpc⟩, halive⟩
      exact ⟨(h.looked c _ lock _ hpc).append _, hseen.append _⟩

theorem locksKept_of_meets
    (h : Runs.Meets (lockStep config) (Alone config) (.start fs alive) es) :
    LocksKept config fs alive es :=
  Runs.events_invariant_of_meets (P := LocksKept config fs alive) locksKept_start
    (fun _ _ hkept halone => hkept.step halone) h

end Runs

end Hymenium
