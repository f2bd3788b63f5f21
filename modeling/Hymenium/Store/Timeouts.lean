import Hymenium.Foundations.Text
import Hymenium.Store.SweepPost

/-!
# Sweeps under other timings

The timings of the sweeper are seconds from the environment, any `u64`. A sweep converts them to
spans of `chrono`: a timing that is too long becomes 45 seconds or 49 days, and a retention that is
not may still lead out of the range of times, which is a panic.

1. `runSweep_report`: a sweep marks the stale runtimes and deletes the expired ones.
2. `marked_le_iff`, `deleted_le_iff`: for every registry, the counts follow the span and the text of
   the threshold.
3. `sweepsMonotone_iff`: the timings for which longer means less, without a panic.
-/

namespace Hymenium

open Text Timestamp

/-! ## Timings from the environment -/

/-- The number written by decimal digits, when it has 64 bits. -/
def parseDigits64 (digits : Text) : Option UInt64 :=
  let n := Nat.ofDigitChars 10 digits 0
  if h : digits ≠ [] ∧ Digits digits ∧ n < 2 ^ 64 then some (UInt64.ofNatLT n h.2.2) else none

/-- `t.parse::<u64>()`; the reason of a failure is not kept. -/
def parseU64 (t : Text) : Option UInt64 := parseDigits64 ((stripPrefix t "+").getD t)

/-- `Duration::from_secs`. -/
def fromSecs (n : UInt64) : ℕ := n.toNat * 1000000000

/-- A timing from an environment variable, or its default. -/
def timingVar (var : String → Option Text) (name : String) (default : ℕ) : ℕ :=
  (((var name).bind parseU64).map fromSecs).getD default

structure SweepTimings where
  sweepInterval : ℕ
  heartbeatTimeout : ℕ
  gcRetention : ℕ

/-- The timings that the sweeper thread starts with. -/
def Sweeper.start (var : String → Option Text) : SweepTimings where
  sweepInterval := timingVar var "HYMENIUM_SWEEP_INTERVAL_SECS" (fromSecs 30)
  heartbeatTimeout := timingVar var "HYMENIUM_HEARTBEAT_TIMEOUT_SECS" (fromSecs 45)
  gcRetention := timingVar var "HYMENIUM_GC_RETENTION_SECS" (fromSecs 604800)

@[simp] theorem parseU64_ofNat (n : UInt64) : parseU64 (ofNat n.toNat) = some n := by
  have hval : Nat.ofDigitChars 10 (ofNat n.toNat) 0 = n.toNat := Nat.ofDigitChars_ten_toDigits
  rw [parseU64, stripPrefix_ofNat, Option.getD_none, parseDigits64, dif_pos]
  · simp [hval]
  · rw [hval]
    exact ⟨ofNat_ne_nil _, fun c => isDigit_of_mem_ofNat, n.toNat_lt⟩

theorem timingVar_eq (var : String → Option Text) (name : String) (default : UInt64) :
    ∃ n : UInt64, timingVar var name (fromSecs default) = fromSecs n := by
  unfold timingVar
  cases (var name).bind parseU64 with
  | none => exact ⟨default, rfl⟩
  | some n => exact ⟨n, rfl⟩

theorem timingVar_of_eq_some {var : String → Option Text} {name : String} {n : UInt64}
    (h : var name = some (ofNat n.toNat)) (default : ℕ) :
    timingVar var name default = fromSecs n := by
  rw [timingVar, h, Option.bind_some, parseU64_ofNat]
  rfl

/-- The environment that sets the three timings. -/
def timingEnv (i h g : UInt64) (name : String) : Option Text :=
  if name = "HYMENIUM_SWEEP_INTERVAL_SECS" then some (ofNat i.toNat)
  else if name = "HYMENIUM_HEARTBEAT_TIMEOUT_SECS" then some (ofNat h.toNat)
  else if name = "HYMENIUM_GC_RETENTION_SECS" then some (ofNat g.toNat)
  else none

/-- The environment sets every timing to any number of seconds with 64 bits, and to nothing else. -/
theorem exists_start_iff (timings : SweepTimings) :
    (∃ var, Sweeper.start var = timings) ↔
      ∃ i h g : UInt64, timings = ⟨fromSecs i, fromSecs h, fromSecs g⟩ := by
  constructor
  · rintro ⟨var, rfl⟩
    obtain ⟨i, hi⟩ := timingVar_eq var "HYMENIUM_SWEEP_INTERVAL_SECS" 30
    obtain ⟨h, hh⟩ := timingVar_eq var "HYMENIUM_HEARTBEAT_TIMEOUT_SECS" 45
    obtain ⟨g, hg⟩ := timingVar_eq var "HYMENIUM_GC_RETENTION_SECS" 604800
    exact ⟨i, h, g, by rw [Sweeper.start, hi, hh, hg]⟩
  · rintro ⟨i, h, g, rfl⟩
    refine ⟨timingEnv i h g, ?_⟩
    have hi : timingEnv i h g "HYMENIUM_SWEEP_INTERVAL_SECS" = some (ofNat i.toNat) := if_pos rfl
    have hh : timingEnv i h g "HYMENIUM_HEARTBEAT_TIMEOUT_SECS" = some (ofNat h.toNat) := by
      rw [timingEnv, if_neg (by decide), if_pos rfl]
    have hg : timingEnv i h g "HYMENIUM_GC_RETENTION_SECS" = some (ofNat g.toNat) := by
      rw [timingEnv, if_neg (by decide), if_neg (by decide), if_pos rfl]
    rw [Sweeper.start, timingVar_of_eq_some hi, timingVar_of_eq_some hh, timingVar_of_eq_some hg]

/-! ## What one sweep reports -/

section Report

variable {config : SweepConfig} {db : Db}

/-- The span after which an offline runtime is deleted. -/
def SweepConfig.retention (config : SweepConfig) : ℤ :=
  (fromStd config.gcRetention).getD (days 49)

variable (config) in
theorem length_staleIds (db : Db) : (config.staleIds db).length =
    (db.listAllWithErrors config.rows fun k => config.clk (k + 1)).1.countP (config.Stale ·) := by
  rw [SweepConfig.staleIds, List.length_map, List.countP_eq_length_filter]

theorem markStale_cons_stale {entry : RuntimeEntry} (h : config.Stale entry)
    (rest : List RuntimeEntry) (newlyOffline : List String) (report : SweepReport) (db : Db) :
    markStale config.now config.timeout (entry :: rest) (newlyOffline, report, db) =
      markStale config.now config.timeout rest (newlyOffline ++ [entry.runtimeId],
        { report with runtimesMarkedOffline := report.runtimesMarkedOffline + 1 },
        markedOffline config entry.runtimeId db) := by
  have hstale : entry.status = .online ∧ config.timeout < config.now - entry.lastHeartbeat := h
  have hok := withTransaction_execute_ok (f := (·.markOffline entry.runtimeId config.now))
    (db.constraints.markOffline entry.runtimeId)
  rw [markStale, if_pos hstale, hok]
  rfl

theorem markStale_cons_fresh {entry : RuntimeEntry} (h : ¬ config.Stale entry)
    (rest : List RuntimeEntry) (newlyOffline : List String) (report : SweepReport) (db : Db) :
    markStale config.now config.timeout (entry :: rest) (newlyOffline, report, db) =
      markStale config.now config.timeout rest (newlyOffline, report, db) := by
  have hfresh : ¬ (entry.status = .online ∧ config.timeout < config.now - entry.lastHeartbeat) := h
  rw [markStale, if_neg hfresh]

variable (config) in
/-- Phase 1 marks the stale entries, one after the other, and counts them. -/
theorem markStale_spec (entries : List RuntimeEntry) (newlyOffline : List String)
    (report : SweepReport) (db : Db) :
    (markStale config.now config.timeout entries (newlyOffline, report,
        db)).2.1.runtimesMarkedOffline =
      report.runtimesMarkedOffline + entries.countP (config.Stale ·) ∧
    (markStale config.now config.timeout entries (newlyOffline, report, db)).2.2.toTables =
      db.markAll config.now ((entries.filter (config.Stale ·)).map (·.runtimeId)) := by
  induction entries generalizing newlyOffline report db with
  | nil => exact ⟨rfl, rfl⟩
  | cons entry rest ih =>
    by_cases hstale : config.Stale entry
    · rw [markStale_cons_stale hstale, List.filter_cons_of_pos (by simpa using hstale),
        List.countP_cons_of_pos (by simpa using hstale)]
      obtain ⟨hcount, htables⟩ := ih (newlyOffline ++ [entry.runtimeId])
        { report with runtimesMarkedOffline := report.runtimesMarkedOffline + 1 }
        (markedOffline config entry.runtimeId db)
      refine ⟨hcount.trans ?_, htables⟩
      show report.runtimesMarkedOffline + 1 + _ = _
      omega
    · rw [markStale_cons_fresh hstale, List.filter_cons_of_neg (by simpa using hstale),
        List.countP_cons_of_neg (by simpa using hstale)]
      exact ih newlyOffline report db

/-- Phase 2 leaves the count of phase 1. -/
theorem failOrphans_marked (now : DateTime) (orphans : List (String × String))
    (report : SweepReport) (db : Db) :
    (failOrphans now orphans (report, db)).1.runtimesMarkedOffline =
      report.runtimesMarkedOffline := by
  induction orphans generalizing report db with
  | nil => rfl
  | cons orphan rest ih =>
    rw [failOrphans, failPhase_ok]
    exact ih _ _

theorem failOffline_ok (now : DateTime) (orphans : List (String × String)) (db : Db) :
    (failOffline now orphans db).1 = .ok () := by
  induction orphans generalizing db with
  | nil => rfl
  | cons orphan rest ih =>
    rw [failOffline, failPhase_ok]
    exact ih _

theorem reconcileOfflinePhases_eq (now : DateTime) (db : Db) : reconcileOfflinePhases now db =
    (.ok (db.activePhasesForRuntimes db.offlineIds).length,
      (failOffline now (db.activePhasesForRuntimes db.offlineIds) db).2) := by
  have hok := failOffline_ok now (db.activePhasesForRuntimes db.offlineIds) db
  unfold reconcileOfflinePhases
  dsimp only
  split
  · next heq =>
    rw [heq] at hok
    cases hok
  · next heq => rw [heq]

/-- Failing phases leaves the runtimes. -/
theorem runtimes_failPhases (t : Tables) (reason : String) (now : DateTime)
    (orphans : List (String × String)) :
    (t.failPhases reason now orphans).runtimes = t.runtimes := by
  rw [Tables.failPhases_eq]

/-- As many runtimes are expired after phase 1 as before: what was just marked is not before the
threshold. -/
theorem countP_expired_marked (hnow : InRange config.now) {threshold : ℤ}
    (hle : threshold ≤ config.now) (db : Db) :
    (db.markAll config.now (config.staleIds db)).runtimes.countP (Tables.Expired threshold ·) =
      db.runtimes.countP (Tables.Expired threshold ·) := by
  rw [Tables.markAll_eq, List.countP_map]
  refine List.countP_congr fun row hrow => ?_
  simp only [Function.comp_apply, decide_eq_true_eq]
  split_ifs with hid
  · have honline := status_of_mem_staleIds hrow hid
    apply iff_of_false
    · rintro ⟨-, at', hat, hlt⟩
      unfold RuntimeRow.setOffline at hat
      rw [if_neg (by rw [honline]; decide)] at hat
      obtain rfl := Option.some.inj hat
      have hlast : threshold + epoch < Calendar.daysBeforeYear 10000 * nanosPerDay := by
        have := hnow.2
        omega
      exact absurd ((rfc3339_lt_iff hnow hlast).mp hlt) (not_lt.mpr hle)
    · rintro ⟨hoffline, -⟩
      rw [honline] at hoffline
      exact absurd hoffline (by decide)
  · rfl

theorem length_gcOffline (t : Tables) (threshold : DateTime) :
    t.runtimes.length - (t.gcOffline threshold).runtimes.length =
      t.runtimes.countP (Tables.Expired threshold ·) := by
  have hsplit := List.length_eq_countP_add_countP (Tables.Expired threshold ·) (l := t.runtimes)
  rw [Tables.gcOffline, ← List.countP_eq_length_filter, hsplit]
  simp

/-- Phases 1 to 3 mark the stale runtimes. Phase 4 deletes the expired ones, or panics when its
threshold is no time. -/
theorem runSweep_report (config : SweepConfig) (db : Db) :
    ∃ report : SweepReport, ∃ db' : Db,
      db'.runtimes = (db.markAll config.now (config.staleIds db)).runtimes ∧
      report.runtimesMarkedOffline = (config.staleIds db).length ∧
      (runSweep config.heartbeatTimeout config.gcRetention config.clk config.rows db).1 =
        (checkedSub config.now config.retention).map fun threshold =>
          { report with runtimesGcDeleted :=
              db'.runtimes.length - (db'.gcOffline threshold).runtimes.length } := by
  obtain ⟨hcount, htables⟩ := markStale_spec config
    (db.listAllWithErrors config.rows fun k => config.clk (k + 1)).1 []
    { errors := (db.listAllWithErrors config.rows fun k => config.clk (k + 1)).2 } db
  unfold SweepConfig.now SweepConfig.timeout at hcount htables
  unfold runSweep
  dsimp only
  set marked := markStale (config.clk 0) ((fromStd config.heartbeatTimeout).getD (seconds 45))
    (db.listAllWithErrors config.rows fun k => config.clk (k + 1)).1
    ([], { errors := (db.listAllWithErrors config.rows fun k => config.clk (k + 1)).2 }, db)
  set failed := failOrphans (config.clk 0) (marked.2.2.activePhasesForRuntimes marked.1)
    (marked.2.1, marked.2.2)
  have hmarked : failed.1.runtimesMarkedOffline = marked.2.1.runtimesMarkedOffline :=
    failOrphans_marked _ _ _ _
  have hfailed : failed.2.toTables = marked.2.2.failPhases "runtime went offline" (config.clk 0)
      (marked.2.2.activePhasesForRuntimes marked.1) := failOrphans_tables _ _ _
  have hruntimes : (failOffline (config.clk 0) (failed.2.activePhasesForRuntimes
      failed.2.offlineIds) failed.2).2.runtimes =
        (db.markAll config.now (config.staleIds db)).runtimes := by
    rw [failOffline_tables, runtimes_failPhases, hfailed, runtimes_failPhases, htables]
    rfl
  rw [reconcileOfflinePhases_eq]
  dsimp only
  set reconciled := (failOffline (config.clk 0) (failed.2.activePhasesForRuntimes
    failed.2.offlineIds) failed.2).2
  refine ⟨{ failed.1 with
    phasesReconciled := (failed.2.activePhasesForRuntimes failed.2.offlineIds).length },
    reconciled, hruntimes, ?_, ?_⟩
  · rw [length_staleIds]
    exact hmarked.trans (hcount.trans (Nat.zero_add _))
  · show _ = (checkedSub (config.clk 0) ((fromStd config.gcRetention).getD (days 49))).map _
    cases checkedSub (config.clk 0) ((fromStd config.gcRetention).getD (days 49)) with
    | none => rfl
    | some threshold =>
      have hok := withTransaction_execute_ok (f := (·.gcOffline threshold))
        (reconciled.constraints.gcOffline threshold)
      simp only [hok]
      rfl

variable (config) in
/-- The counts of a sweep that reports. -/
theorem runSweep_counts (hnow : InRange config.now) (hle : 0 ≤ config.retention)
    {report : SweepReport} (h : (runSweep config.heartbeatTimeout config.gcRetention config.clk
      config.rows db).1 = some report) :
    report.runtimesMarkedOffline = (config.staleIds db).length ∧
      report.runtimesGcDeleted =
        db.runtimes.countP (Tables.Expired (config.now - config.retention) ·) := by
  obtain ⟨report', db', hruntimes, hmarked, hrun⟩ := runSweep_report config db
  rw [hrun, Option.map_eq_some_iff] at h
  obtain ⟨threshold, hsub, rfl⟩ := h
  have hthreshold := checkedSub_eq_some hsub
  refine ⟨hmarked, ?_⟩
  dsimp only
  rw [length_gcOffline, hruntimes, ← hthreshold]
  exact countP_expired_marked hnow (hthreshold ▸ Int.sub_le_self _ hle) db

variable (config) in
/-- A sweep reports unless its threshold is no time. -/
theorem runSweep_reports_iff :
    (∃ report, (runSweep config.heartbeatTimeout config.gcRetention config.clk config.rows db).1 =
      some report) ↔ checkedSub config.now config.retention ≠ none := by
  obtain ⟨report', db', -, -, hrun⟩ := runSweep_report config db
  rw [hrun, ← Option.isSome_iff_exists, Option.isSome_map, Option.isSome_iff_ne_none]

end Report

/-! ## Two sweeps of every registry -/

/-- A registry with one runtime. -/
def oneRuntime (row : RuntimeRow) : Db :=
  ⟨{ Db.empty.toTables with runtimes := [row] },
    { Db.empty.constraints with runtimeKeys := List.nodup_singleton _ }⟩

/-- The longer timeout marks no more runtimes, whatever the registry holds, when it is the longer
span. -/
theorem marked_le_iff (config config' : SweepConfig) (hrows : config'.rows = config.rows)
    (hclk : config'.clk = config.clk) :
    (∀ db, (config'.staleIds db).length ≤ (config.staleIds db).length) ↔
      config.timeout ≤ config'.timeout := by
  have hnow : config'.now = config.now := congrFun hclk 0
  constructor
  · intro h
    by_contra hlt
    -- a heartbeat that is just too old for the shorter span
    let heartbeat : DateTime := config.now - (config'.timeout + 1)
    let entry : RuntimeEntry := ⟨"rt", .online, heartbeat, config.now, none⟩
    have hstale : config'.Stale entry := by
      refine ⟨rfl, ?_⟩
      rw [hnow]
      show config'.timeout < config.now - (config.now - (config'.timeout + 1))
      omega
    have hfresh : ¬ config.Stale entry := by
      rintro ⟨-, hage⟩
      have hage : config.timeout < config.now - (config.now - (config'.timeout + 1)) := hage
      omega
    have hcount := h (oneRuntime ⟨"rt", "online", .encoded heartbeat, .encoded config.now, none⟩)
    rw [length_staleIds, length_staleIds, hclk, hrows] at hcount
    have hlist : ((oneRuntime ⟨"rt", "online", .encoded heartbeat, .encoded config.now,
        none⟩).listAllWithErrors config.rows fun k => config.clk (k + 1)).1 = [entry] := by
      have hone : config.rows.order [⟨"rt", "online", .encoded heartbeat, .encoded config.now,
          none⟩] = [⟨"rt", "online", .encoded heartbeat, .encoded config.now, none⟩] :=
        List.perm_singleton.mp (config.rows.perm _)
      unfold Tables.listAllWithErrors oneRuntime
      dsimp only
      rw [hone]
      rfl
    rw [hlist] at hcount
    simp [hstale, hfresh] at hcount
  · intro hle db
    rw [length_staleIds, length_staleIds, hclk, hrows]
    refine List.countP_mono_left fun entry _ hstale => ?_
    rw [decide_eq_true_eq] at hstale ⊢
    exact ⟨hstale.1, hle.trans_lt (hnow ▸ hstale.2)⟩

/-- The other threshold deletes no more runtimes, whatever the registry holds, when its text is not
later. -/
theorem deleted_le_iff {threshold threshold' : DateTime} :
    (∀ db : Db, db.runtimes.countP (Tables.Expired threshold' ·) ≤
      db.runtimes.countP (Tables.Expired threshold ·)) ↔
      ¬ rfc3339 threshold < rfc3339 threshold' := by
  constructor
  · intro h hlt
    have hcount := h (oneRuntime ⟨"rt", "offline", .encoded threshold, .encoded threshold,
      some threshold⟩)
    have hexpired : Tables.Expired threshold' ⟨"rt", "offline", .encoded threshold,
        .encoded threshold, some threshold⟩ := ⟨rfl, threshold, rfl, hlt⟩
    have hkept : ¬ Tables.Expired threshold ⟨"rt", "offline", .encoded threshold,
        .encoded threshold, some threshold⟩ := by
      rintro ⟨-, at', hat, hlt⟩
      obtain rfl := Option.some.inj hat
      exact lt_irrefl _ hlt
    simp [oneRuntime, hexpired, hkept] at hcount
  · intro h db
    refine List.countP_mono_left fun row _ hexpired => ?_
    rw [decide_eq_true_eq] at hexpired ⊢
    obtain ⟨hoffline, at', hat, hlt⟩ := hexpired
    exact ⟨hoffline, at', hat, hlt.trans_le (not_lt.mp h)⟩

/-! ## Three ranges of a setting -/

/-- The last number of seconds that is a span of `chrono`. -/
def maxSecs : ℕ := 9223372036854775

/-- The time is between the years 2000 and 2200. -/
def Modern (t : ℤ) : Prop :=
  Calendar.daysBeforeYear 2000 * nanosPerDay ≤ t + epoch ∧
    t + epoch < Calendar.daysBeforeYear 2201 * nanosPerDay

instance : DecidablePred Modern := fun _ => inferInstanceAs (Decidable (_ ∧ _))

/-- A sweep with these settings, in seconds. -/
def secsConfig (heartbeatSecs retentionSecs : UInt64) (clk : Clock) (rows : RowOrder) :
    SweepConfig :=
  ⟨fromSecs heartbeatSecs, fromSecs retentionSecs, clk, rows⟩

/-- The retention leads from `now` to a time, or is too long for a span. -/
def RetentionFits (now : ℤ) (retentionSecs : UInt64) : Prop :=
  maxSecs < retentionSecs.toNat ∨ seconds (-8334601228800) ≤ now - seconds retentionSecs.toNat

/-- The settings are safe to raise from `h` and `g` to `h'` and `g'` at the time `now`. -/
structure SafeToRaise (now : ℤ) (h h' g g' : UInt64) : Prop where
  fits : RetentionFits now g
  fits' : RetentionFits now g'
  heartbeat : h'.toNat ≤ maxSecs ∨ h.toNat ≤ 45 ∨ maxSecs < h.toNat
  retention : g.toNat ≤ 49 * 86400 ∨ maxSecs < g.toNat ∨ g'.toNat ≤ maxSecs ∧
    (0 ≤ now - seconds g.toNat + epoch ∨
      ¬ rfc3339 (now - seconds g.toNat) < rfc3339 (now - seconds g'.toNat))

/-- No subtraction of a sweep leaves the range of times, and no registry loses more runtimes to a
sweep with the raised settings `h'` and `g'` than to one with `h` and `g`. -/
def SweepsMonotone (clk : Clock) (h h' g g' : UInt64) : Prop :=
  (∀ k, checkedSub (clk k) (days 365) ≠ none) ∧
  ∀ rows db, ∃ report report',
    (runSweep (fromSecs h) (fromSecs g) clk rows db).1 = some report ∧
      (runSweep (fromSecs h') (fromSecs g') clk rows db).1 = some report' ∧
      report'.runtimesMarkedOffline ≤ report.runtimesMarkedOffline ∧
      report'.runtimesGcDeleted ≤ report.runtimesGcDeleted

section Ranges

variable {now : ℤ} {clk : Clock} {rows : RowOrder} {h h' g g' : UInt64}

theorem seconds_nonneg (n : ℕ) : 0 ≤ seconds n := by
  unfold seconds
  omega

theorem epoch_eq_seconds : (epoch : ℤ) = seconds 62167219200 := by decide

theorem Modern.bounds (hnow : Modern now) :
    seconds 946684800 ≤ now ∧ now < seconds 7289654400 := by
  obtain ⟨hfirst, hlast⟩ := hnow
  have h2000 : ((Calendar.daysBeforeYear 2000 : ℕ) : ℤ) * (nanosPerDay : ℕ) =
      seconds (946684800 + 62167219200) := by decide
  have h2201 : ((Calendar.daysBeforeYear 2201 : ℕ) : ℤ) * (nanosPerDay : ℕ) =
      seconds (7289654400 + 62167219200) := by decide
  rw [h2000, epoch_eq_seconds] at hfirst
  rw [h2201, epoch_eq_seconds] at hlast
  unfold seconds at *
  omega

theorem Modern.inRange (hnow : Modern now) : InRange now := by
  have hmono := Calendar.daysBeforeYear_strictMono.monotone
  constructor
  · exact le_trans (by positivity) hnow.1
  · refine hnow.2.trans_le ?_
    exact_mod_cast Nat.mul_le_mul_right nanosPerDay (hmono (show 2201 ≤ 10000 by decide))

/-- A year before now is a time. -/
theorem Modern.checkedSub_year (hnow : Modern now) : checkedSub now (days 365) ≠ none := by
  obtain ⟨hfirst, hlast⟩ := hnow.bounds
  rw [checkedSub_ne_none_iff]
  unfold days
  unfold seconds at *
  omega

/-- A time before now has at most four digits in its year. -/
theorem Modern.sub_lt (hnow : Modern now) {span : ℤ} (hspan : 0 ≤ span) :
    now - span + epoch < Calendar.daysBeforeYear 10000 * nanosPerDay := by
  have hlast := hnow.inRange.2
  omega

theorem Modern.inRange_sub (hnow : Modern now) {span : ℤ} (hspan : 0 ≤ span)
    (hyear : 0 ≤ now - span + epoch) : InRange (now - span) :=
  ⟨hyear, hnow.sub_lt hspan⟩

theorem fromStd_fromSecs (n : UInt64) :
    fromStd (fromSecs n) = if n.toNat ≤ maxSecs then some (seconds n.toNat) else none := by
  unfold fromStd fromSecs seconds maxSecs
  split_ifs <;> first | rfl | omega

theorem timeout_secsConfig (h g : UInt64) (clk : Clock) (rows : RowOrder) :
    (secsConfig h g clk rows).timeout =
      if h.toNat ≤ maxSecs then seconds h.toNat else seconds 45 := by
  unfold SweepConfig.timeout secsConfig
  dsimp only
  rw [fromStd_fromSecs]
  split_ifs <;> rfl

theorem retention_secsConfig (h g : UInt64) (clk : Clock) (rows : RowOrder) :
    (secsConfig h g clk rows).retention =
      if g.toNat ≤ maxSecs then seconds g.toNat else days 49 := by
  unfold SweepConfig.retention secsConfig
  dsimp only
  rw [fromStd_fromSecs]
  split_ifs <;> rfl

/-- The longer timeout is the longer span, unless it falls back to 45 seconds. -/
theorem timeout_le_iff (hle : h ≤ h') :
    (secsConfig h g clk rows).timeout ≤ (secsConfig h' g' clk rows).timeout ↔
      h'.toNat ≤ maxSecs ∨ h.toNat ≤ 45 ∨ maxSecs < h.toNat := by
  have hle : h.toNat ≤ h'.toNat := UInt64.le_iff_toNat_le.mp hle
  rw [timeout_secsConfig, timeout_secsConfig]
  unfold seconds
  split_ifs <;> omega

/-- The threshold is a time, unless the retention is a span that leads out of the range. -/
theorem retentionFits_iff (hnow : Modern now) :
    checkedSub now (if g.toNat ≤ maxSecs then seconds g.toNat else days 49) ≠ none ↔
      RetentionFits now g := by
  obtain ⟨hfirst, hlast⟩ := hnow.bounds
  rw [checkedSub_ne_none_iff]
  unfold RetentionFits
  by_cases hg : g.toNat ≤ maxSecs
  · rw [if_pos hg, or_iff_right (not_lt.mpr hg)]
    refine and_iff_left_of_imp fun _ => ?_
    unfold seconds at *
    omega
  · rw [if_neg hg, or_iff_left_of_imp fun _ => not_le.mp hg]
    refine iff_of_true ?_ (not_le.mp hg)
    unfold days
    unfold seconds at *
    omega

/-- A retention of at most 49 days, like any span from year 0 on, leads to a time whose text is in
the order of time. -/
theorem Modern.inRange_days (hnow : Modern now) (hshort : g.toNat ≤ 49 * 86400) :
    InRange (now - seconds g.toNat) := by
  have hfirst := hnow.bounds.1
  refine hnow.inRange_sub (seconds_nonneg _) ?_
  rw [epoch_eq_seconds]
  unfold seconds at *
  omega

/-- Two retentions that are spans: the thresholds are in the order of time from year 0 on. -/
theorem threshold_le_iff_spans (hnow : Modern now) (hle : g.toNat ≤ g'.toNat) :
    ¬ rfc3339 (now - seconds g.toNat) < rfc3339 (now - seconds g'.toNat) ↔
      g.toNat ≤ 49 * 86400 ∨ 0 ≤ now - seconds g.toNat + epoch ∨
        ¬ rfc3339 (now - seconds g.toNat) < rfc3339 (now - seconds g'.toNat) := by
  have horder : InRange (now - seconds g.toNat) →
      ¬ rfc3339 (now - seconds g.toNat) < rfc3339 (now - seconds g'.toNat) := by
    intro hrange
    rw [rfc3339_lt_iff hrange (hnow.sub_lt (seconds_nonneg _))]
    unfold seconds
    omega
  constructor
  · exact fun htext => .inr (.inr htext)
  · rintro (hshort | hyear | htext)
    · exact horder (hnow.inRange_days hshort)
    · exact horder (hnow.inRange_sub (seconds_nonneg _) hyear)
    · exact htext

/-- Where the longer retention falls back to 49 days, the shorter one has to be as short. -/
theorem threshold_le_iff_fallback (hnow : Modern now) :
    ¬ rfc3339 (now - seconds g.toNat) < rfc3339 (now - days 49) ↔ g.toNat ≤ 49 * 86400 := by
  have hfallback : InRange (now - days 49) :=
    hnow.inRange_days (g := 4233600) (by decide)
  constructor
  · intro htext
    by_contra hlong
    have hlt : now - seconds g.toNat < now - days 49 := by
      unfold days seconds
      omega
    rcases lt_or_ge (now - seconds g.toNat + epoch) 0 with hneg | hpos
    · exact htext (rfc3339_lt_of_neg hneg hfallback)
    · exact htext (rfc3339_lt (hnow.inRange_sub (seconds_nonneg _) hpos) hfallback hlt)
  · intro hshort
    rw [rfc3339_lt_iff (hnow.inRange_days hshort) hfallback.2]
    unfold days seconds
    omega

/-- The text of a threshold is not later for the longer retention, unless it falls back to 49 days
or the thresholds are before year 0. -/
theorem threshold_le_iff (hnow : Modern now) (hle : g ≤ g') :
    ¬ rfc3339 (now - (if g.toNat ≤ maxSecs then seconds g.toNat else days 49)) <
        rfc3339 (now - (if g'.toNat ≤ maxSecs then seconds g'.toNat else days 49)) ↔
      g.toNat ≤ 49 * 86400 ∨ maxSecs < g.toNat ∨ g'.toNat ≤ maxSecs ∧
        (0 ≤ now - seconds g.toNat + epoch ∨
          ¬ rfc3339 (now - seconds g.toNat) < rfc3339 (now - seconds g'.toNat)) := by
  have hle : g.toNat ≤ g'.toNat := UInt64.le_iff_toNat_le.mp hle
  by_cases hg : g.toNat ≤ maxSecs
  · by_cases hg' : g'.toNat ≤ maxSecs
    · rw [if_pos hg, if_pos hg', and_iff_right hg', or_iff_right (not_lt.mpr hg)]
      exact threshold_le_iff_spans hnow hle
    · rw [if_pos hg, if_neg hg', threshold_le_iff_fallback hnow, or_iff_right (not_lt.mpr hg),
        or_iff_left fun h => hg' h.1]
  · have hg' : ¬ g'.toNat ≤ maxSecs := fun hg' => hg (hle.trans hg')
    rw [if_neg hg, if_neg hg']
    exact iff_of_true (lt_irrefl _) (.inr (.inl (not_le.mp hg)))

theorem retention_nonneg (h g : UInt64) (clk : Clock) (rows : RowOrder) :
    0 ≤ (secsConfig h g clk rows).retention := by
  rw [retention_secsConfig]
  split_ifs
  · exact seconds_nonneg _
  · decide

/-- The counts of a sweep with settings in seconds. -/
theorem secsConfig_counts (hclk : Modern (clk 0)) {db : Db} {report : SweepReport}
    (hrun : (runSweep (fromSecs h) (fromSecs g) clk rows db).1 = some report) :
    report.runtimesMarkedOffline = ((secsConfig h g clk rows).staleIds db).length ∧
      report.runtimesGcDeleted =
        db.runtimes.countP (Tables.Expired (clk 0 - (secsConfig h g clk rows).retention) ·) :=
  runSweep_counts (secsConfig h g clk rows) hclk.inRange (retention_nonneg h g clk rows) hrun

theorem secsConfig_reports_iff (hclk : Modern (clk 0)) (db : Db) :
    (∃ report, (runSweep (fromSecs h) (fromSecs g) clk rows db).1 = some report) ↔
      RetentionFits (clk 0) g := by
  rw [← retentionFits_iff hclk, ← retention_secsConfig h g clk rows]
  exact runSweep_reports_iff (secsConfig h g clk rows)

/-- Two sweeps of one registry that both report, with no more runtimes in the second report. -/
theorem reports_le_iff (hclk : Modern (clk 0)) (db : Db) :
    (∃ report report', (runSweep (fromSecs h) (fromSecs g) clk rows db).1 = some report ∧
        (runSweep (fromSecs h') (fromSecs g') clk rows db).1 = some report' ∧
        report'.runtimesMarkedOffline ≤ report.runtimesMarkedOffline ∧
        report'.runtimesGcDeleted ≤ report.runtimesGcDeleted) ↔
      RetentionFits (clk 0) g ∧ RetentionFits (clk 0) g' ∧
        ((secsConfig h' g' clk rows).staleIds db).length ≤
          ((secsConfig h g clk rows).staleIds db).length ∧
        db.runtimes.countP
            (Tables.Expired (clk 0 - (secsConfig h' g' clk rows).retention) ·) ≤
          db.runtimes.countP (Tables.Expired (clk 0 - (secsConfig h g clk rows).retention) ·) := by
  constructor
  · rintro ⟨report, report', hrun, hrun', hmarked, hdeleted⟩
    obtain ⟨hcount, hexpired⟩ := secsConfig_counts hclk hrun
    obtain ⟨hcount', hexpired'⟩ := secsConfig_counts hclk hrun'
    rw [hcount, hcount'] at hmarked
    rw [hexpired, hexpired'] at hdeleted
    have hfits := (secsConfig_reports_iff hclk db).mp ⟨report, hrun⟩
    have hfits' := (secsConfig_reports_iff hclk db).mp ⟨report', hrun'⟩
    exact ⟨hfits, hfits', hmarked, hdeleted⟩
  · rintro ⟨hfits, hfits', hmarked, hdeleted⟩
    obtain ⟨report, hrun⟩ := (secsConfig_reports_iff (h := h) hclk db).mpr hfits
    obtain ⟨report', hrun'⟩ := (secsConfig_reports_iff (h := h') hclk db).mpr hfits'
    obtain ⟨hcount, hexpired⟩ := secsConfig_counts hclk hrun
    obtain ⟨hcount', hexpired'⟩ := secsConfig_counts hclk hrun'
    rw [← hcount, ← hcount'] at hmarked
    rw [← hexpired, ← hexpired'] at hdeleted
    exact ⟨report, report', hrun, hrun', hmarked, hdeleted⟩

end Ranges

/-- **Timings.** Raising the settings of the sweeper is safe, for every registry, exactly when no
retention leads out of the range of times and neither setting falls back to a shorter span. -/
theorem sweepsMonotone_iff (clk : Clock) (hclk : ∀ k, Modern (clk k)) (h h' g g' : UInt64)
    (hh : h ≤ h') (hg : g ≤ g') :
    SweepsMonotone clk h h' g g' ↔ SafeToRaise (clk 0) h h' g g' := by
  have hyear : ∀ k, checkedSub (clk k) (days 365) ≠ none := fun k => (hclk k).checkedSub_year
  have hmarked : ∀ rows, (∀ db, ((secsConfig h' g' clk rows).staleIds db).length ≤
      ((secsConfig h g clk rows).staleIds db).length) ↔
        h'.toNat ≤ maxSecs ∨ h.toNat ≤ 45 ∨ maxSecs < h.toNat := by
    intro rows
    rw [marked_le_iff (secsConfig h g clk rows) (secsConfig h' g' clk rows) rfl rfl]
    exact timeout_le_iff hh
  have hdeleted : ∀ rows, (∀ db : Db,
      db.runtimes.countP (Tables.Expired (clk 0 - (secsConfig h' g' clk rows).retention) ·) ≤
        db.runtimes.countP (Tables.Expired (clk 0 - (secsConfig h g clk rows).retention) ·)) ↔
      g.toNat ≤ 49 * 86400 ∨ maxSecs < g.toNat ∨ g'.toNat ≤ maxSecs ∧
        (0 ≤ clk 0 - seconds g.toNat + epoch ∨
          ¬ rfc3339 (clk 0 - seconds g.toNat) < rfc3339 (clk 0 - seconds g'.toNat)) := by
    intro rows
    rw [deleted_le_iff, retention_secsConfig, retention_secsConfig]
    exact threshold_le_iff (hclk 0) hg
  unfold SweepsMonotone
  rw [and_iff_right hyear]
  simp only [reports_le_iff (hclk 0)]
  constructor
  · intro hall
    have hempty := hall .stored Db.empty
    exact ⟨hempty.1, hempty.2.1, (hmarked .stored).mp fun db => (hall .stored db).2.2.1,
      (hdeleted .stored).mp fun db => (hall .stored db).2.2.2⟩
  · intro hsafe rows db
    exact ⟨hsafe.fits, hsafe.fits', (hmarked rows).mpr hsafe.heartbeat db,
      (hdeleted rows).mpr hsafe.retention db⟩

/-- New Year 2024. -/
def newYear : Clock := fun _ => seconds 1704067200

/-- A timeout of a minute and a retention of two weeks are safe, from the defaults. -/
theorem sweepsMonotone_defaults : SafeToRaise (newYear 0) 45 60 604800 1209600 ∧
    SweepsMonotone newYear 45 60 604800 1209600 := by
  have hsafe : SafeToRaise (newYear 0) 45 60 604800 1209600 :=
    ⟨.inr (by decide), .inr (by decide), .inl (by decide), .inl (by decide)⟩
  refine ⟨hsafe, (sweepsMonotone_iff newYear ?_ 45 60 604800 1209600 (by decide)
    (by decide)).mpr hsafe⟩
  exact fun _ => show Modern (seconds 1704067200) by decide

/-- A runtime that was heard of 50 seconds ago. -/
def heardOfRegistry : Db :=
  oneRuntime ⟨"rt", "online", .encoded (seconds 1704067150), .encoded 0, none⟩

/-- A runtime that has been offline for 60 days. -/
def offlineRegistry : Db :=
  oneRuntime ⟨"rt", "offline", .encoded 0, .encoded 0, some (seconds 1704067200 - days 60)⟩

/-- What a sweep reports, from the run that computes it. -/
theorem reported_eq {run : Option SweepReport} {report : SweepReport} {f : SweepReport → ℕ} {n : ℕ}
    (h : run.map f = some n) (hrun : run = some report) : f report = n := by
  rw [hrun] at h
  exact Option.some.inj h

/-- A retention of 10¹³ seconds makes every sweep panic, and the longest settings mark and delete
runtimes that shorter ones keep. -/
theorem not_sweepsMonotone_long : (∀ k, Modern (newYear k)) ∧
    (runSweep (fromSecs 45) (fromSecs 10000000000000) newYear .stored Db.empty).1 = none ∧
    ¬ SweepsMonotone newYear 45 45 604800 10000000000000 ∧
    ¬ SweepsMonotone newYear 60 18446744073709551615 604800 604800 ∧
    ¬ SweepsMonotone newYear 45 45 8640000 18446744073709551615 := by
  have hpanic : (runSweep (fromSecs 45) (fromSecs 10000000000000) newYear .stored
      Db.empty).1 = none := by
    decide +kernel
  refine ⟨fun _ => show Modern (seconds 1704067200) by decide, hpanic, ?_, ?_, ?_⟩
  · rintro ⟨-, hall⟩
    obtain ⟨_, report', -, hrun', -, -⟩ := hall .stored Db.empty
    rw [hpanic] at hrun'
    cases hrun'
  · rintro ⟨-, hall⟩
    obtain ⟨report, report', hrun, hrun', hmarked, -⟩ := hall .stored heardOfRegistry
    have hkept : (runSweep (fromSecs 60) (fromSecs 604800) newYear .stored heardOfRegistry).1.map
        (·.runtimesMarkedOffline) = some 0 := by decide +kernel
    have hlost : (runSweep (fromSecs 18446744073709551615) (fromSecs 604800) newYear
        .stored heardOfRegistry).1.map (·.runtimesMarkedOffline) = some 1 := by decide +kernel
    have hzero := reported_eq hkept hrun
    have hone := reported_eq hlost hrun'
    omega
  · rintro ⟨-, hall⟩
    obtain ⟨report, report', hrun, hrun', -, hdeleted⟩ := hall .stored offlineRegistry
    have hkept : (runSweep (fromSecs 45) (fromSecs 8640000) newYear .stored offlineRegistry).1.map
        (·.runtimesGcDeleted) = some 0 := by decide +kernel
    have hlost : (runSweep (fromSecs 45) (fromSecs 18446744073709551615) newYear
        .stored offlineRegistry).1.map (·.runtimesGcDeleted) = some 1 := by decide +kernel
    have hzero := reported_eq hkept hrun
    have hone := reported_eq hlost hrun'
    omega

end Hymenium
