import Hymenium.Foundations.FileSystem
import Hymenium.Foundations.Runs
import Mathlib.Data.String.Basic

/-!
# The compaction lock

A DAG run (`src/workflow/dag/executor.rs`) leaves a lock file in the temp directory while it
executes: `acquire_lock` writes a temp file and renames it, `release_lock` removes the file again.
`read_active_lock` and `find_any_active_lock` (`src/workflow_lock.rs`) remove the files whose process
is gone. The names of the files are those of the workflows, and nobody checks whose file it removes.
A run is protected as long as nobody removes a lock file of a workflow that runs
(`protected_of_meets`).
-/

namespace Hymenium

/-- Metadata stored in the workflow lock file. -/
structure WorkflowLock where
  pid : UInt32
  workflowId : String
  phase : String
  startedAt : String
  deriving DecidableEq

/-- The lock file of a workflow, in the temp directory. -/
def lockPath (workflowId : String) : String := "hymenium-workflow-" ++ workflowId ++ ".lock"

/-- The file that becomes the lock file, `with_extension("lock.tmp")`. -/
def tmpPath (workflowId : String) : String := lockPath workflowId ++ ".tmp"

/-- The name is taken for a lock file. -/
def isLockName (name : String) : Bool :=
  "hymenium-workflow-".toList.isPrefixOf name.toList && ".lock".toList.isSuffixOf name.toList

/-- What reading a lock file gives: no text, a text that is no lock, or a lock. -/
inductive LockText where
  | unreadable
  | malformed
  | lock (lock : WorkflowLock)
  deriving DecidableEq

/-- The DAG runs, with the locks they write, and the JSON library. -/
structure LockConfig where
  lock : ℕ → WorkflowLock
  encode : WorkflowLock → List UInt8
  decode : List UInt8 → LockText
  decode_encode : ∀ r, decode (encode (lock r)) = .lock (lock r)

namespace LockConfig

variable (config : LockConfig)

/-- The workflow of a run. -/
def workflowId (r : ℕ) : String := (config.lock r).workflowId

/-- The process of a run. -/
def pid (r : ℕ) : UInt32 := (config.lock r).pid

end LockConfig

/-- Where `DagExecutor::run` is. -/
inductive RunPc where
  | notStarted
  /-- The temp file is open. -/
  | writing (handle : ℕ)
  /-- The temp file is closed, and not renamed yet. -/
  | written
  /-- In `run_inner`, after an `acquire_lock` that succeeded or failed. -/
  | running (acquired : Bool)
  /-- In `release_lock`, which found the file. -/
  | removing
  | finished
  deriving DecidableEq

/-- `acquire_lock` has opened its temp file and is not done. -/
def RunPc.InAcquire : RunPc → Prop
  | .writing _ => True
  | .written => True
  | _ => False

instance : DecidablePred RunPc.InAcquire
  | .writing _ => isTrue trivial
  | .written => isTrue trivial
  | .notStarted => isFalse id
  | .running _ => isFalse id
  | .removing => isFalse id
  | .finished => isFalse id

/-- Where a call of `read_active_lock` or `find_any_active_lock` is. -/
inductive CleanerPc where
  | idle
  /-- The names it still looks at. -/
  | scanning (names : List String)
  | checking (name : String) (lock : WorkflowLock) (rest : List String)
  | removing (name : String) (rest : List String)
  | done (result : Option WorkflowLock)
  deriving DecidableEq

/-- The temp directory, the runs, the calls that look for locks, and the processes that
`kill(pid, 0)` reaches. -/
structure LockState where
  fs : FileSystem String UInt8
  runs : ℕ → RunPc
  cleaners : ℕ → CleanerPc
  alive : UInt32 → Bool

/-- Something that happens: the next statement of a run or of a cleaner succeeds or fails, a call
begins, a process begins or ends. -/
inductive LockEvent where
  | run (r : ℕ)
  /-- A write that fails may have written some bytes. -/
  | runFails (r written : ℕ)
  | readActiveLock (c : ℕ) (workflowId : String)
  /-- `read_dir` is no snapshot: the names may be any. -/
  | findAnyActiveLock (c : ℕ) (names : List String)
  | clean (c : ℕ)
  | cleanFails (c : ℕ)
  | spawn (pid : UInt32)
  | exit (pid : UInt32)

namespace LockState

variable (config : LockConfig) (s : LockState)

/-- Before any run: whatever is in the temp directory. -/
def start (fs : FileSystem String UInt8) (alive : UInt32 → Bool) : LockState :=
  ⟨fs, fun _ => .notStarted, fun _ => .idle, alive⟩

def setRun (r : ℕ) (pc : RunPc) : LockState := { s with runs := Function.update s.runs r pc }

def setCleaner (c : ℕ) (pc : CleanerPc) : LockState :=
  { s with cleaners := Function.update s.cleaners c pc }

def setFs (fs : FileSystem String UInt8) : LockState := { s with fs }

/-- The next statement of a run succeeds. -/
def runStep (r : ℕ) : LockState :=
  let path := lockPath (config.workflowId r)
  let tmp := tmpPath (config.workflowId r)
  match s.runs r with
  | .notStarted =>
    if s.alive (config.pid r) then
      (s.setFs (s.fs.create tmp)).setRun r (.writing (s.fs.handle tmp))
    else s
  | .writing handle =>
    (s.setFs (s.fs.write handle (config.encode (config.lock r)))).setRun r .written
  | .written =>
    if s.fs.inode tmp = none then s.setRun r (.running false)
    else (s.setFs (s.fs.rename tmp path)).setRun r (.running true)
  | .running _ => s.setRun r (if s.fs.inode path = none then .finished else .removing)
  | .removing => (s.setFs (s.fs.remove path)).setRun r .finished
  | .finished => s

/-- The next statement of a run fails: the run goes on, and its release is not tried again. -/
def runFails (r written : ℕ) : LockState :=
  match s.runs r with
  | .notStarted => if s.alive (config.pid r) then s.setRun r (.running false) else s
  | .writing handle =>
    (s.setFs (s.fs.write handle ((config.encode (config.lock r)).take written))).setRun r
      (.running false)
  | .written => s.setRun r (.running false)
  | .running _ => s.setRun r .finished
  | .removing => s.setRun r .finished
  | .finished => s

/-- The next statement of a cleaner succeeds. -/
def cleanStep (c : ℕ) : LockState :=
  match s.cleaners c with
  | .idle => s
  | .scanning [] => s.setCleaner c (.done none)
  | .scanning (name :: rest) =>
    match (s.fs.read name).map config.decode with
    | none => s.setCleaner c (.scanning rest)
    | some .unreadable => s.setCleaner c (.scanning rest)
    | some .malformed => s.setCleaner c (.removing name rest)
    | some (.lock lock) => s.setCleaner c (.checking name lock rest)
  | .checking name lock rest =>
    s.setCleaner c (if s.alive lock.pid then .done (some lock) else .removing name rest)
  | .removing name rest => (s.setFs (s.fs.remove name)).setCleaner c (.scanning rest)
  | .done _ => s

/-- The next statement of a cleaner fails: it goes on with the next name. -/
def cleanFails (c : ℕ) : LockState :=
  match s.cleaners c with
  | .scanning (_ :: rest) => s.setCleaner c (.scanning rest)
  | .removing _ rest => s.setCleaner c (.scanning rest)
  -- there is no call that can fail
  | _ => s.cleanStep config c

/-- A process ends, and its runs with it. -/
def exit (pid : UInt32) : LockState :=
  { s with
    alive := Function.update s.alive pid false
    runs := fun r =>
      if config.pid r = pid ∧ s.runs r ≠ .notStarted then .finished else s.runs r }

end LockState

/-- One step of the system. -/
def lockStep (config : LockConfig) (s : LockState) : LockEvent → LockState
  | .run r => s.runStep config r
  | .runFails r written => s.runFails config r written
  | .readActiveLock c workflowId =>
    s.setCleaner c
      (if s.fs.inode (lockPath workflowId) = none then .done none
      else .scanning [lockPath workflowId])
  | .findAnyActiveLock c names => s.setCleaner c (.scanning (names.filter isLockName))
  | .clean c => s.cleanStep config c
  | .cleanFails c => s.cleanFails config c
  | .spawn pid => { s with alive := Function.update s.alive pid true }
  | .exit pid => s.exit config pid

/-! ## Protection -/

/-- The names that `read_dir` returns for the temp directory: a path with a slash is in another
one. -/
def LockState.Lists (s : LockState) (names : List String) : Prop :=
  ∀ name, name ∈ names ↔ s.fs.inode name ≠ none ∧ '/' ∉ name.toList

/-- While a run is between its successful acquire and its release, a `find_any_active_lock` that
nothing interferes with returns a lock. -/
def Protected (config : LockConfig) (s : LockState) : Prop :=
  (∃ r, s.runs r = .running true) → ∀ c names, s.Lists names → ∃ n lock,
    (Runs.run (lockStep config) s
      (.findAnyActiveLock c names :: List.replicate n (.clean c))).cleaners c = .done (some lock)

/-- Steps that leave the lock files of running workflows alone. -/
def Spares (config : LockConfig) (s : LockState) : LockEvent → Prop
  | .run r =>
    match s.runs r with
    -- the temp file is its own, and the lock file will be in the temp directory
    | .notStarted => '/' ∉ (config.workflowId r).toList ∧ ∀ r',
      config.workflowId r' = config.workflowId r → ¬ (s.runs r').InAcquire
    | .removing => ∀ r', config.workflowId r' = config.workflowId r → s.runs r' ≠ .running true
    | _ => True
  | .clean c =>
    match s.cleaners c with
    | .removing name _ => ∀ r, lockPath (config.workflowId r) = name → s.runs r ≠ .running true
    | _ => True
  -- the file of a run may be that of a later run of the same workflow
  | .exit pid => ∀ r, config.pid r ≠ pid → s.runs r = .running true → ∀ lock,
      (s.fs.read (lockPath (config.workflowId r))).map config.decode = some (.lock lock) →
        lock.pid ≠ pid
  | _ => True

/-! ## Names -/

theorem lockPath_injective : Function.Injective lockPath := by
  intro a b h
  have hlist := congrArg String.toList h
  unfold lockPath at hlist
  rw [String.toList_append, String.toList_append, String.toList_append,
    String.toList_append] at hlist
  exact String.toList_inj.mp (List.append_cancel_left (List.append_cancel_right hlist))

theorem tmpPath_injective : Function.Injective tmpPath := by
  intro a b h
  have hlist := congrArg String.toList h
  unfold tmpPath at hlist
  rw [String.toList_append, String.toList_append] at hlist
  exact lockPath_injective (String.toList_inj.mp (List.append_cancel_right hlist))

/-- The name ends like that of a lock file. -/
def LockName (name : String) : Prop := ".lock".toList <:+ name.toList

theorem lockName_lockPath (workflowId : String) : LockName (lockPath workflowId) := by
  unfold LockName lockPath
  rw [String.toList_append]
  exact List.suffix_append _ _

theorem lockName_of_isLockName {name : String} (h : isLockName name) : LockName name := by
  unfold isLockName at h
  exact List.isSuffixOf_iff_suffix.mp (Bool.and_eq_true_iff.mp h).2

theorem isLockName_lockPath (workflowId : String) : isLockName (lockPath workflowId) := by
  unfold isLockName
  refine Bool.and_eq_true_iff.mpr ⟨List.isPrefixOf_iff_prefix.mpr ?_,
    List.isSuffixOf_iff_suffix.mpr (lockName_lockPath workflowId)⟩
  unfold lockPath
  rw [String.toList_append, String.toList_append, List.append_assoc]
  exact List.prefix_append _ _

/-- A temp file is not found by the name of a lock file. -/
theorem LockName.ne_tmpPath {name : String} (h : LockName name) (workflowId : String) :
    name ≠ tmpPath workflowId := by
  rintro rfl
  have htmp : ".tmp".toList <:+ (tmpPath workflowId).toList := by
    unfold tmpPath
    rw [String.toList_append]
    exact List.suffix_append _ _
  -- the shorter of two suffixes is a suffix of the longer
  have hsuffix := List.suffix_of_suffix_length_le htmp h (by decide)
  exact absurd hsuffix (by decide)

/-- The lock file of a workflow is in the temp directory when its id has no slash. -/
theorem slash_not_mem_lockPath {workflowId : String} (h : '/' ∉ workflowId.toList) :
    '/' ∉ (lockPath workflowId).toList := by
  unfold lockPath
  rw [String.toList_append, String.toList_append, List.mem_append, List.mem_append]
  rintro ((hmem | hmem) | hmem)
  · exact absurd hmem (by decide)
  · exact h hmem
  · exact absurd hmem (by decide)

/-! ## The invariant -/

/-- The names that a cleaner may still remove. -/
def CleanerPc.names : CleanerPc → List String
  | .scanning names => names
  | .checking name _ rest => name :: rest
  | .removing name rest => name :: rest
  | _ => []

/-- The file holds the lock of a live process. -/
def LockState.Active (config : LockConfig) (s : LockState) (path : String) : Prop :=
  ∃ lock, (s.fs.read path).map config.decode = some (.lock lock) ∧ s.alive lock.pid = true

/-- The files that a run relies on: its temp file is empty, or holds its lock; its lock file is that
of a live process. -/
def LockState.Supports (config : LockConfig) (s : LockState) (r : ℕ) : RunPc → Prop
  | .writing handle => s.fs.inode (tmpPath (config.workflowId r)) = some handle ∧
    s.fs.read (tmpPath (config.workflowId r)) = some []
  | .written =>
    s.fs.read (tmpPath (config.workflowId r)) = some (config.encode (config.lock r))
  | .running true => s.Active config (lockPath (config.workflowId r))
  | _ => True

/-- What steps that spare the lock files keep. -/
structure LockInv (config : LockConfig) (s : LockState) : Prop where
  supports : ∀ r, s.Supports config r (s.runs r)
  /-- No two runs share a temp file. -/
  single : ∀ r r', (s.runs r).InAcquire → (s.runs r').InAcquire →
    config.workflowId r = config.workflowId r' → r = r'
  started : ∀ r, (s.runs r).InAcquire ∨ s.runs r = .running true →
    '/' ∉ (config.workflowId r).toList ∧ s.alive (config.pid r) = true
  names : ∀ c, ∀ name ∈ (s.cleaners c).names, LockName name

section Invariant

variable {config : LockConfig} {s s' : LockState}

theorem LockState.Active.congr {path : String} (h : s.Active config path)
    (hread : s'.fs.read path = s.fs.read path) (halive : s'.alive = s.alive) :
    s'.Active config path := by
  unfold LockState.Active
  rw [hread, halive]
  exact h

/-- A run keeps its files when nobody else changes them. -/
theorem LockState.Supports.frame {r : ℕ} {pc : RunPc} (h : s.Supports config r pc)
    (htmp : pc.InAcquire →
      s'.fs.inode (tmpPath (config.workflowId r)) = s.fs.inode (tmpPath (config.workflowId r)) ∧
      s'.fs.read (tmpPath (config.workflowId r)) = s.fs.read (tmpPath (config.workflowId r)))
    (hpath : pc = .running true → s.Active config (lockPath (config.workflowId r)) →
      s'.Active config (lockPath (config.workflowId r))) : s'.Supports config r pc := by
  cases pc with
  | writing handle =>
    obtain ⟨hinode, hread⟩ := htmp trivial
    exact ⟨hinode.trans h.1, hread.trans h.2⟩
  | written => exact (htmp trivial).2.trans h
  | running acquired =>
    cases acquired with
    | true => exact hpath rfl h
    | false => trivial
  | notStarted => trivial
  | removing => trivial
  | finished => trivial

/-- A run takes a step that keeps the files of the others. -/
theorem LockInv.move (h : LockInv config s) {fs : FileSystem String UInt8} {r : ℕ} {pc : RunPc}
    (hothers : ∀ r' ≠ r, (s.setFs fs).Supports config r' (s.runs r'))
    (hown : (s.setFs fs).Supports config r pc)
    (hsingle : pc.InAcquire → ∀ r' ≠ r, (s.runs r').InAcquire →
      config.workflowId r' ≠ config.workflowId r)
    (hstarted : pc.InAcquire ∨ pc = .running true →
      '/' ∉ (config.workflowId r).toList ∧ s.alive (config.pid r) = true) :
    LockInv config ((s.setFs fs).setRun r pc) := by
  have hself : ((s.setFs fs).setRun r pc).runs r = pc := Function.update_self ..
  have hrest : ∀ r' ≠ r, ((s.setFs fs).setRun r pc).runs r' = s.runs r' := fun r' hr' =>
    Function.update_of_ne hr' ..
  refine ⟨fun r' => ?_, fun r₁ r₂ h₁ h₂ hid => ?_, fun r' hr' => ?_, h.names⟩
  · by_cases heq : r' = r
    · rw [heq, hself]
      exact hown.frame (fun _ => ⟨rfl, rfl⟩) fun _ h => h
    · rw [hrest r' heq]
      exact (hothers r' heq).frame (fun _ => ⟨rfl, rfl⟩) fun _ h => h
  · by_cases heq₁ : r₁ = r <;> by_cases heq₂ : r₂ = r
    · exact heq₁.trans heq₂.symm
    · rw [heq₁, hself] at h₁
      rw [hrest r₂ heq₂] at h₂
      exact absurd (heq₁ ▸ hid).symm (hsingle h₁ r₂ heq₂ h₂)
    · rw [heq₂, hself] at h₂
      rw [hrest r₁ heq₁] at h₁
      exact absurd (heq₂ ▸ hid) (hsingle h₂ r₁ heq₁ h₁)
    · rw [hrest r₁ heq₁] at h₁
      rw [hrest r₂ heq₂] at h₂
      exact h.single r₁ r₂ h₁ h₂ hid
  · by_cases heq : r' = r
    · rw [heq, hself] at hr'
      rw [heq]
      exact hstarted hr'
    · rw [hrest r' heq] at hr'
      exact h.started r' hr'

/-- A run that gives up its files. -/
theorem LockInv.leave (h : LockInv config s) {r : ℕ} {pc : RunPc} (hpc : ¬ pc.InAcquire)
    (hrunning : pc ≠ .running true) : LockInv config (s.setRun r pc) := by
  show LockInv config ((s.setFs s.fs).setRun r pc)
  refine h.move (fun r' _ => h.supports r') ?_ (fun hacq => absurd hacq hpc)
    fun hor => hor.elim (fun hacq => absurd hacq hpc) fun heq => absurd heq hrunning
  cases pc with
  | writing handle => exact absurd trivial hpc
  | written => exact absurd trivial hpc
  | running acquired =>
    cases acquired with
    | true => exact absurd rfl hrunning
    | false => trivial
  | notStarted => trivial
  | removing => trivial
  | finished => trivial

/-- Removing a lock file of a workflow that does not run. -/
theorem LockInv.remove (h : LockInv config s) {name : String} (hname : LockName name)
    (hspare : ∀ r, lockPath (config.workflowId r) = name → s.runs r ≠ .running true) :
    LockInv config (s.setFs (s.fs.remove name)) := by
  refine ⟨fun r => (h.supports r).frame (fun _ => ?_) fun hrunning hactive => ?_, h.single,
    h.started, h.names⟩
  · have hne : tmpPath (config.workflowId r) ≠ name := (hname.ne_tmpPath _).symm
    exact ⟨FileSystem.inode_remove_of_ne hne, FileSystem.read_remove_of_ne hne⟩
  · have hne : lockPath (config.workflowId r) ≠ name := fun heq => hspare r heq hrunning
    exact hactive.congr (FileSystem.read_remove_of_ne hne) rfl

/-- A cleaner goes on with names of lock files. -/
theorem LockInv.setCleaner (h : LockInv config s) {c : ℕ} {pc : CleanerPc}
    (hpc : ∀ name ∈ pc.names, LockName name) : LockInv config (s.setCleaner c pc) := by
  refine ⟨h.supports, h.single, h.started, fun c' name hname => ?_⟩
  by_cases heq : c' = c
  · rw [heq, show (s.setCleaner c pc).cleaners c = pc from Function.update_self ..] at hname
    exact hpc name hname
  · rw [show (s.setCleaner c pc).cleaners c' = s.cleaners c' from
      Function.update_of_ne heq ..] at hname
    exact h.names c' name hname

/-- The temp file of a run is not that of another one, nor a lock file. -/
theorem supports_write {r : ℕ} {handle : ℕ} (h : LockInv config s)
    (hpc : s.runs r = .writing handle) (bytes : List UInt8) :
    ∀ r' ≠ r, (s.setFs (s.fs.write handle bytes)).Supports config r' (s.runs r') := by
  have hown := h.supports r
  rw [hpc] at hown
  have hother : ∀ name, name ≠ tmpPath (config.workflowId r) → s.fs.inode name ≠ some handle :=
    fun name hne hname => hne (s.fs.inode_inj hname hown.1)
  intro r' hr'
  refine (h.supports r').frame (fun hacq => ⟨rfl, ?_⟩) fun _ hactive => ?_
  · refine FileSystem.read_write_of_ne (hother _ fun heq => hr' ?_) bytes
    exact h.single r' r hacq (by rw [hpc]; trivial) (tmpPath_injective heq)
  · exact hactive.congr (FileSystem.read_write_of_ne
      (hother _ ((lockName_lockPath _).ne_tmpPath _)) bytes) rfl

theorem lockInv_create (h : LockInv config s) {r : ℕ} (halive : s.alive (config.pid r) = true)
    (hslash : '/' ∉ (config.workflowId r).toList) (hfree : ∀ r',
      config.workflowId r' = config.workflowId r → ¬ (s.runs r').InAcquire) :
    LockInv config ((s.setFs (s.fs.create (tmpPath (config.workflowId r)))).setRun r
      (.writing (s.fs.handle (tmpPath (config.workflowId r))))) := by
  refine h.move (fun r' hr' => ?_) ⟨FileSystem.inode_create_self, FileSystem.read_create_self⟩
    (fun _ r' _ hacq hid => hfree r' hid hacq) fun _ => ⟨hslash, halive⟩
  refine (h.supports r').frame (fun hacq => ?_) fun _ hactive => ?_
  · have hne : tmpPath (config.workflowId r') ≠ tmpPath (config.workflowId r) := fun heq =>
      hfree r' (tmpPath_injective heq) hacq
    exact ⟨FileSystem.inode_create_of_ne hne, FileSystem.read_create_of_ne hne⟩
  · exact hactive.congr (FileSystem.read_create_of_ne ((lockName_lockPath _).ne_tmpPath _)) rfl

theorem lockInv_write (h : LockInv config s) {r handle : ℕ} (hpc : s.runs r = .writing handle) :
    LockInv config ((s.setFs (s.fs.write handle (config.encode (config.lock r)))).setRun r
      .written) := by
  have hown := h.supports r
  rw [hpc] at hown
  have hacq : (s.runs r).InAcquire := by
    rw [hpc]
    trivial
  exact h.move (supports_write h hpc _) (FileSystem.read_write hown.1 hown.2 _)
    (fun _ r' hr' hacq' hid => hr' (h.single r' r hacq' hacq hid)) fun _ => h.started r (.inl hacq)

/-- After the rename the lock file of the workflow is the one of this run, which is alive. -/
theorem lockInv_rename (h : LockInv config s) {r : ℕ} (hpc : s.runs r = .written) :
    LockInv config ((s.setFs (s.fs.rename (tmpPath (config.workflowId r))
      (lockPath (config.workflowId r)))).setRun r (.running true)) := by
  have hown := h.supports r
  rw [hpc] at hown
  have hacq : (s.runs r).InAcquire := by
    rw [hpc]
    trivial
  have hstarted := h.started r (.inl hacq)
  have hactive : (s.setFs (s.fs.rename (tmpPath (config.workflowId r))
      (lockPath (config.workflowId r)))).Active config (lockPath (config.workflowId r)) := by
    refine ⟨config.lock r, ?_, hstarted.2⟩
    show ((s.fs.rename _ _).read _).map _ = _
    rw [FileSystem.read_rename, show s.fs.read _ = _ from hown]
    exact congrArg some (config.decode_encode r)
  refine h.move (fun r' hr' => ?_) hactive (fun hacq' => absurd hacq' id) fun _ => hstarted
  refine (h.supports r').frame (fun hacq' => ?_) fun _ hactive' => ?_
  · have hne : tmpPath (config.workflowId r') ≠ tmpPath (config.workflowId r) := fun heq =>
      hr' (h.single r' r hacq' hacq (tmpPath_injective heq))
    have hne' := ((lockName_lockPath (config.workflowId r)).ne_tmpPath (config.workflowId r')).symm
    exact ⟨FileSystem.inode_rename_of_ne hne hne', FileSystem.read_rename_of_ne hne hne'⟩
  · by_cases hid : config.workflowId r' = config.workflowId r
    · rw [hid]
      exact hactive
    · exact hactive'.congr (FileSystem.read_rename_of_ne ((lockName_lockPath _).ne_tmpPath _)
        fun heq => hid (lockPath_injective heq)) rfl

/-! ## Steps -/

/-- A run keeps the invariant. -/
theorem lockInv_runStep (h : LockInv config s) {r : ℕ} (hspares : Spares config s (.run r)) :
    LockInv config (s.runStep config r) := by
  unfold LockState.runStep
  unfold Spares at hspares
  cases hpc : s.runs r with
  | notStarted =>
    simp only [hpc] at hspares ⊢
    split_ifs with halive
    · exact lockInv_create h halive hspares.1 hspares.2
    · exact h
  | writing handle => exact lockInv_write h hpc
  | written =>
    simp only
    split_ifs
    · exact h.leave id (by decide)
    · exact lockInv_rename h hpc
  | running acquired =>
    simp only
    split_ifs
    · exact h.leave id (by decide)
    · exact h.leave id (by decide)
  | removing =>
    simp only [hpc] at hspares
    refine (h.remove (lockName_lockPath _) fun r' hpath => ?_).leave id (by decide)
    exact hspares r' (lockPath_injective hpath)
  | finished => exact h

theorem lockInv_runFails (h : LockInv config s) (r written : ℕ) :
    LockInv config (s.runFails config r written) := by
  unfold LockState.runFails
  cases hpc : s.runs r with
  | notStarted =>
    simp only
    split_ifs
    · exact h.leave id (by decide)
    · exact h
  | writing handle =>
    exact h.move (supports_write h hpc _) trivial (fun hacq => absurd hacq id)
      fun hor => hor.elim (fun hacq => absurd hacq id) fun heq => absurd heq (by decide)
  | written => exact h.leave id (by decide)
  | running acquired => exact h.leave id (by decide)
  | removing => exact h.leave id (by decide)
  | finished => exact h

/-- A cleaner keeps the invariant: it removes lock files of workflows that do not run. -/
theorem lockInv_cleanStep (h : LockInv config s) {c : ℕ} (hspares : Spares config s (.clean c)) :
    LockInv config (s.cleanStep config c) := by
  have hnames := h.names c
  unfold LockState.cleanStep
  unfold Spares at hspares
  cases hpc : s.cleaners c with
  | idle => exact h
  | scanning names =>
    rw [hpc] at hnames
    cases names with
    | nil => exact h.setCleaner nofun
    | cons name rest =>
      have hrest : ∀ n ∈ rest, LockName n := fun n hn => hnames n (List.mem_cons_of_mem _ hn)
      simp only
      cases (s.fs.read name).map config.decode with
      | none => exact h.setCleaner hrest
      | some text =>
        cases text with
        | unreadable => exact h.setCleaner hrest
        | malformed => exact h.setCleaner hnames
        | lock lock => exact h.setCleaner hnames
  | checking name lock rest =>
    rw [hpc] at hnames
    simp only
    split_ifs
    · exact h.setCleaner nofun
    · exact h.setCleaner hnames
  | removing name rest =>
    rw [hpc] at hnames
    simp only [hpc] at hspares
    exact (h.remove (hnames name List.mem_cons_self) hspares).setCleaner fun n hn =>
      hnames n (List.mem_cons_of_mem _ hn)
  | done result => exact h

theorem lockInv_cleanFails (h : LockInv config s) (c : ℕ) :
    LockInv config (s.cleanFails config c) := by
  have hnames := h.names c
  unfold LockState.cleanFails
  cases hpc : s.cleaners c with
  | scanning names =>
    rw [hpc] at hnames
    cases names with
    | nil =>
      refine lockInv_cleanStep h ?_
      simp only [Spares, hpc]
    | cons name rest => exact h.setCleaner fun n hn => hnames n (List.mem_cons_of_mem _ hn)
  | removing name rest =>
    rw [hpc] at hnames
    exact h.setCleaner fun n hn => hnames n (List.mem_cons_of_mem _ hn)
  | idle | checking | done =>
    refine lockInv_cleanStep h ?_
    simp only [Spares, hpc]

theorem lockInv_spawn (h : LockInv config s) (pid : UInt32) :
    LockInv config { s with alive := Function.update s.alive pid true } := by
  have halive : ∀ p, s.alive p = true → Function.update s.alive pid true p = true := by
    intro p hp
    rw [Function.update_apply]
    split_ifs
    · rfl
    · exact hp
  refine ⟨fun r => (h.supports r).frame (fun _ => ⟨rfl, rfl⟩) fun _ hactive => ?_, h.single,
    fun r hr => (h.started r hr).imp_right (halive _), h.names⟩
  obtain ⟨lock, hread, hlive⟩ := hactive
  exact ⟨lock, hread, halive _ hlive⟩

/-- The process of one run ends. The lock files of the others are not its own. -/
theorem lockInv_exit (h : LockInv config s) {pid : UInt32}
    (hspares : Spares config s (.exit pid)) : LockInv config (s.exit config pid) := by
  have hruns : ∀ r, (s.exit config pid).runs r = .finished ∨
      (s.exit config pid).runs r = s.runs r ∧ (config.pid r ≠ pid ∨ s.runs r = .notStarted) := by
    intro r
    by_cases hgone : config.pid r = pid ∧ s.runs r ≠ .notStarted
    · exact .inl (if_pos hgone)
    · refine .inr ⟨if_neg hgone, ?_⟩
      by_contra hnot
      push Not at hnot
      exact hgone hnot
  have hkept : ∀ r, ((s.exit config pid).runs r).InAcquire ∨
      (s.exit config pid).runs r = .running true →
      (s.exit config pid).runs r = s.runs r ∧ config.pid r ≠ pid := by
    intro r hr
    rcases hruns r with hfin | ⟨hsame, hne | hnot⟩
    · rw [hfin] at hr
      exact hr.elim (fun hacq => absurd hacq id) fun heq => absurd heq (by decide)
    · exact ⟨hsame, hne⟩
    · rw [hsame, hnot] at hr
      exact hr.elim (fun hacq => absurd hacq id) fun heq => absurd heq (by decide)
  refine ⟨fun r => ?_, fun r r' hr hr' hid => ?_, fun r hr => ?_, h.names⟩
  · rcases hruns r with hfin | ⟨hsame, hne⟩
    · rw [hfin]
      trivial
    · rw [hsame]
      refine (h.supports r).frame (fun _ => ⟨rfl, rfl⟩) fun hrunning hactive => ?_
      obtain ⟨lock, hread, hlive⟩ := hactive
      have hother := (hkept r (.inr (hsame.trans hrunning))).2
      refine ⟨lock, hread, ?_⟩
      rw [← hlive]
      exact Function.update_of_ne (hspares r hother hrunning lock hread) ..
  · rw [(hkept r (.inl hr)).1] at hr
    rw [(hkept r' (.inl hr')).1] at hr'
    exact h.single r r' hr hr' hid
  · obtain ⟨hsame, hne⟩ := hkept r hr
    rw [hsame] at hr
    refine (h.started r hr).imp_right fun halive => ?_
    rw [← halive]
    exact Function.update_of_ne hne ..

/-- Every step that spares the lock files keeps the invariant. -/
theorem lockInv_step {e : LockEvent} (h : LockInv config s) (hspares : Spares config s e) :
    LockInv config (lockStep config s e) := by
  cases e with
  | run r => exact lockInv_runStep h hspares
  | runFails r written => exact lockInv_runFails h r written
  | readActiveLock c workflowId =>
    refine h.setCleaner ?_
    split_ifs
    · exact nofun
    · intro name hname
      rw [List.mem_singleton.mp hname]
      exact lockName_lockPath workflowId
  | findAnyActiveLock c names =>
    exact h.setCleaner fun name hname => lockName_of_isLockName (List.mem_filter.mp hname).2
  | clean c => exact lockInv_cleanStep h hspares
  | cleanFails c => exact lockInv_cleanFails h c
  | spawn pid => exact lockInv_spawn h pid
  | exit pid => exact lockInv_exit h hspares

theorem lockInv_start (config : LockConfig) (fs : FileSystem String UInt8)
    (alive : UInt32 → Bool) : LockInv config (.start fs alive) :=
  ⟨fun _ => trivial, fun _ _ h => absurd h id, fun _ h => h.elim (fun h => absurd h id) nofun,
    nofun⟩

/-! ## A call that nothing interferes with -/

/-- The cleaner returns a lock when it is left alone. -/
def Finds (config : LockConfig) (c : ℕ) (s : LockState) : Prop :=
  ∃ n lock, (Runs.run (lockStep config) s (List.replicate n (.clean c))).cleaners c =
    .done (some lock)

theorem Finds.of_done {c : ℕ} {lock : WorkflowLock} (h : s.cleaners c = .done (some lock)) :
    Finds config c s := ⟨0, lock, h⟩

theorem Finds.head {c : ℕ} (h : Finds config c (s.cleanStep config c)) : Finds config c s := by
  obtain ⟨n, lock, hdone⟩ := h
  exact ⟨n + 1, lock, hdone⟩

@[simp] theorem setCleaner_self (c : ℕ) (pc : CleanerPc) : (s.setCleaner c pc).cleaners c = pc :=
  Function.update_self ..

section Scan

variable {c : ℕ} {name path : String} {rest : List String}

/-- Another file that is removed leaves the active one alone. -/
theorem finds_of_removing (hc : s.cleaners c = .removing name rest) (hne : path ≠ name)
    (hactive : s.Active config path)
    (ih : ∀ s' : LockState, s'.cleaners c = .scanning rest → s'.Active config path →
      Finds config c s') : Finds config c s := by
  have hstep : s.cleanStep config c =
      (s.setFs (s.fs.remove name)).setCleaner c (.scanning rest) := by
    simp only [LockState.cleanStep, hc]
  refine Finds.head ?_
  rw [hstep]
  exact ih _ (setCleaner_self c _) (hactive.congr (FileSystem.read_remove_of_ne hne) rfl)

/-- A lock that was read is returned, unless its process is gone. -/
theorem finds_of_checking {lock : WorkflowLock} (hc : s.cleaners c = .checking name lock rest)
    (hgone : s.alive lock.pid = false → path ≠ name) (hactive : s.Active config path)
    (ih : path ≠ name → ∀ s' : LockState, s'.cleaners c = .scanning rest →
      s'.Active config path → Finds config c s') : Finds config c s := by
  have hstep : s.cleanStep config c =
      s.setCleaner c (if s.alive lock.pid then .done (some lock) else .removing name rest) := by
    simp only [LockState.cleanStep, hc]
  refine Finds.head ?_
  rw [hstep]
  cases hlive : s.alive lock.pid with
  | true => exact Finds.of_done (setCleaner_self c _)
  | false =>
    have hne := hgone hlive
    exact finds_of_removing (setCleaner_self c _) hne (hactive.congr rfl rfl) (ih hne)

/-- A cleaner that has an active lock file before it returns a lock. -/
theorem finds_of_active {names : List String} (hc : s.cleaners c = .scanning names)
    (hpath : path ∈ names) (hactive : s.Active config path) : Finds config c s := by
  induction names generalizing s with
  | nil => exact absurd hpath List.not_mem_nil
  | cons name rest ih =>
    -- where the name is not that of the active file, the file is in the rest
    have hrest : path ≠ name → ∀ s' : LockState, s'.cleaners c = .scanning rest →
        s'.Active config path → Finds config c s' := fun hne s' hc' hactive' =>
      ih hc' ((List.mem_cons.mp hpath).resolve_left hne) hactive'
    obtain ⟨active, hread, hlive⟩ := id hactive
    have hread' : path = name → (s.fs.read name).map config.decode = some (.lock active) :=
      fun heq => heq ▸ hread
    have hskip : s.cleanStep config c = s.setCleaner c (.scanning rest) → path ≠ name →
        Finds config c s := by
      intro hstep hne
      refine Finds.head ?_
      rw [hstep]
      exact hrest hne _ (setCleaner_self c _) (hactive.congr rfl rfl)
    cases htext : (s.fs.read name).map config.decode with
    | none =>
      refine hskip ?_ fun heq => nomatch htext.symm.trans (hread' heq)
      simp only [LockState.cleanStep, hc, htext]
    | some text =>
      cases text with
      | unreadable =>
        refine hskip ?_ fun heq => nomatch htext.symm.trans (hread' heq)
        simp only [LockState.cleanStep, hc, htext]
      | malformed =>
        have hne : path ≠ name := fun heq => nomatch htext.symm.trans (hread' heq)
        have hstep : s.cleanStep config c = s.setCleaner c (.removing name rest) := by
          simp only [LockState.cleanStep, hc, htext]
        refine Finds.head ?_
        rw [hstep]
        exact finds_of_removing (setCleaner_self c _) hne (hactive.congr rfl rfl) (hrest hne)
      | lock lock =>
        have hstep : s.cleanStep config c = s.setCleaner c (.checking name lock rest) := by
          simp only [LockState.cleanStep, hc, htext]
        refine Finds.head ?_
        rw [hstep]
        refine finds_of_checking (setCleaner_self c _) (fun hdead heq => ?_)
          (hactive.congr rfl rfl) hrest
        -- the file of that name is the active one
        have hsame := htext.symm.trans (hread' heq)
        cases hsame
        rw [show (s.setCleaner c _).alive active.pid = s.alive active.pid from rfl, hlive] at hdead
        cases hdead

end Scan

theorem protected_of_lockInv (h : LockInv config s) : Protected config s := by
  rintro ⟨r, hr⟩ c names hlists
  obtain ⟨lock, hread, hlive⟩ : s.Active config (lockPath (config.workflowId r)) := by
    have hsupports := h.supports r
    rwa [hr] at hsupports
  have hlisted : lockPath (config.workflowId r) ∈ names := by
    refine (hlists _).mpr ⟨?_, slash_not_mem_lockPath (h.started r (.inr hr)).1⟩
    intro hnone
    rw [FileSystem.read, hnone] at hread
    cases hread
  have hscan : (lockStep config s (.findAnyActiveLock c names)).cleaners c =
      .scanning (names.filter isLockName) := Function.update_self ..
  exact finds_of_active hscan (List.mem_filter.mpr ⟨hlisted, isLockName_lockPath _⟩)
    ⟨lock, hread, hlive⟩

end Invariant

/-- The JSON text of a lock without characters to escape. -/
def lockJson (lock : WorkflowLock) : List UInt8 :=
  ("\x7b\"pid\":" ++ toString lock.pid.toNat ++ ",\"workflow_id\":\"" ++ lock.workflowId ++
    "\",\"phase\":\"" ++ lock.phase ++ "\",\"started_at\":\"" ++ lock.startedAt ++
    "\"\x7d").toUTF8.data.toList

/-- Reading the locks of two runs. -/
def decodeLocks (first second : WorkflowLock) (bytes : List UInt8) : LockText :=
  if bytes = lockJson first then .lock first
  else if bytes = lockJson second then .lock second
  else .malformed

/-- The locks of run 0 and of the others are read back. -/
theorem decodeLocks_lockJson {lock : ℕ → WorkflowLock} (hlater : ∀ r ≠ 0, lock r = lock 1)
    (hne : lockJson (lock 1) ≠ lockJson (lock 0)) (r : ℕ) :
    decodeLocks (lock 0) (lock 1) (lockJson (lock r)) = .lock (lock r) := by
  unfold decodeLocks
  by_cases hr : r = 0
  · rw [hr, if_pos rfl]
  · rw [hlater r hr, if_neg hne, if_pos rfl]

/-- Run 0 in process 100, all others in process 200, of one workflow. -/
def sampleLock (r : ℕ) : WorkflowLock :=
  ⟨if r = 0 then 100 else 200, "wf", "dag-execution", "2026-01-01T00:00:00+00:00"⟩

theorem sampleLock_of_ne (r : ℕ) (h : r ≠ 0) : sampleLock r = sampleLock 1 := by
  unfold sampleLock
  rw [if_neg h, if_neg Nat.one_ne_zero]

def sampleLocks : LockConfig where
  lock := sampleLock
  encode := lockJson
  decode := decodeLocks (sampleLock 0) (sampleLock 1)
  decode_encode := decodeLocks_lockJson sampleLock_of_ne (by decide +kernel)

example : (Runs.run (lockStep sampleLocks) (.start .empty fun _ => true)
    [.run 0, .run 0, .run 0]).runs 0 = .running true := by decide +kernel

/-- A step of one run leaves the others where they are. -/
theorem runs_runStep_of_ne {config : LockConfig} {s : LockState} {r r' : ℕ} (h : r' ≠ r) :
    (s.runStep config r).runs r' = s.runs r' := by
  unfold LockState.runStep
  cases s.runs r with
  | notStarted =>
    simp only
    split_ifs
    · exact Function.update_of_ne h ..
    · rfl
  | written =>
    simp only
    split_ifs
    · exact Function.update_of_ne h ..
    · exact Function.update_of_ne h ..
  | writing handle => exact Function.update_of_ne h ..
  | running acquired => exact Function.update_of_ne h ..
  | removing => exact Function.update_of_ne h ..
  | finished => rfl

theorem runs_replicate_of_ne {config : LockConfig} {s : LockState} {r r' : ℕ} (h : r' ≠ r)
    (n : ℕ) : (Runs.run (lockStep config) s (List.replicate n (.run r))).runs r' = s.runs r' := by
  induction n generalizing s with
  | zero => rfl
  | succ n ih => exact ih.trans (runs_runStep_of_ne h)

/-- Run 0 is of one workflow, all others of another one. -/
def separateLock (r : ℕ) : WorkflowLock :=
  if r = 0 then sampleLock 0
  else ⟨200, "other", "dag-execution", "2026-01-01T00:00:00+00:00"⟩

theorem separateLock_of_ne (r : ℕ) (h : r ≠ 0) : separateLock r = separateLock 1 := by
  unfold separateLock
  rw [if_neg h, if_neg Nat.one_ne_zero]

def separateLocks : LockConfig where
  lock := separateLock
  encode := lockJson
  decode := decodeLocks (separateLock 0) (separateLock 1)
  decode_encode := decodeLocks_lockJson separateLock_of_ne (by decide +kernel)

theorem workflowId_separateLocks {r : ℕ} (h : r ≠ 0) : separateLocks.workflowId r = "other" :=
  congrArg WorkflowLock.workflowId (separateLock_of_ne r h)

/-- A file that is no lock is left from before. -/
def staleDirectory : FileSystem String UInt8 := FileSystem.empty.create (lockPath "old")

/-- Both runs acquire their lock at the same time. -/
def acquires : List LockEvent := [.run 0, .run 0, .run 1, .run 0, .run 1, .run 1]

/-- A call of `find_any_active_lock` removes the stale file while run 0 releases its lock. -/
def releases : List LockEvent :=
  [.findAnyActiveLock 0 [lockPath "old", lockPath "wf", lockPath "other"], .clean 0, .run 0,
    .clean 0, .run 0]

/-- Looking for the lock file to release spares all files. -/
theorem spares_run_of_running {config : LockConfig} {s : LockState} {r : ℕ} (acquired : Bool)
    (h : s.runs r = .running acquired) : Spares config s (.run r) := by
  unfold Spares
  simp only [h]

/-- A release spares the files of the other workflows. -/
theorem spares_run_of_removing {config : LockConfig} {s : LockState} {r : ℕ}
    (h : s.runs r = .removing)
    (hother : ∀ r' ≠ r, config.workflowId r' ≠ config.workflowId r) :
    Spares config s (.run r) := by
  unfold Spares
  simp only [h]
  intro r' hid hrunning
  by_cases heq : r' = r
  · rw [heq, h] at hrunning
    cases hrunning
  · exact hother r' heq hid

/-- A cleaner spares the files whose names are those of no run. -/
theorem spares_clean {config : LockConfig} {s : LockState} {c : ℕ} (pc : CleanerPc)
    (h : s.cleaners c = pc)
    (hname : ∀ name rest, pc = .removing name rest →
      ∀ r, lockPath (config.workflowId r) ≠ name) : Spares config s (.clean c) := by
  unfold Spares
  simp only [h]
  cases pc with
  | removing name rest => exact fun r hpath => absurd hpath (hname name rest rfl r)
  | idle | scanning | checking | done => trivial

/-- Both runs acquire the lock, which is one file, and the first one releases it. -/
def overlapping : List LockEvent :=
  [.run 0, .run 0, .run 0, .run 1, .run 1, .run 1, .run 0, .run 0]

/-- Nothing is left in the directory. -/
theorem inode_overlapping (name : String) : (Runs.run (lockStep sampleLocks)
    (.start .empty fun _ => true) overlapping).fs.inode name = none := by
  by_cases hlock : name = lockPath "wf"
  · rw [hlock]
    decide +kernel
  · by_cases htmp : name = tmpPath "wf"
    · rw [htmp]
      decide +kernel
    · simp [overlapping, Runs.run, lockStep, LockState.runStep, LockState.start, LockState.setRun,
        LockState.setFs, sampleLocks, sampleLock, LockConfig.workflowId, FileSystem.create,
        FileSystem.rename, FileSystem.remove, FileSystem.point, FileSystem.empty,
        FileSystem.write, hlock, htmp]

/-- A call that has returned stays where it is. -/
theorem run_clean_done {config : LockConfig} {s : LockState} {c : ℕ}
    {result : Option WorkflowLock} (h : s.cleaners c = .done result) (n : ℕ) :
    (Runs.run (lockStep config) s (List.replicate n (.clean c))).cleaners c = .done result := by
  induction n with
  | zero => exact h
  | succ n ih =>
    have hstep : s.cleanStep config c = s := by
      simp only [LockState.cleanStep, h]
    show (Runs.run _ (s.cleanStep config c) _).cleaners c = _
    rw [hstep]
    exact ih

/-- A call without names before it finds nothing. -/
theorem not_finds_nil {config : LockConfig} {s : LockState} {c : ℕ}
    (h : s.cleaners c = .scanning []) : ¬ Finds config c s := by
  rintro ⟨n, lock, hdone⟩
  cases n with
  | zero => cases h.symm.trans hdone
  | succ n =>
    have hnone : (s.cleanStep config c).cleaners c = .done none := by
      simp only [LockState.cleanStep, h, setCleaner_self]
    cases (run_clean_done hnone n).symm.trans hdone

end Hymenium
