import Mathlib.Algebra.Order.Field.Rat
import Mathlib.Data.Rat.Floor

/-!
# Recurring cron jobs and their next run

From `service/jobs.ts`, `service/timer.ts`, `schedule.ts` and `stagger.ts`: when a recurring job
runs next, after a run and after the passes of maintenance. Times are milliseconds. A number that
a schedule holds is what `coerceFiniteScheduleNumber` makes of it. Each pass treats every job of
the store alone, so it is given for one job. One-shot jobs, delivery, alerts and logs are left out.
-/

namespace ClawHarder.Cron

/-- What croner makes of an expression: its next and previous run are the nearest slots. -/
structure CronRuns where
  slot : ℕ → Prop
  nextRun : ℕ → Option ℕ
  previousRun : ℕ → Option ℕ
  next_slot : ∀ t n, nextRun t = some n → slot n ∧ t < n ∧ ∀ m, slot m → t < m → n ≤ m
  next_none : ∀ t, nextRun t = none → ∀ m, slot m → m ≤ t
  previous_slot : ∀ t n, previousRun t = some n → slot n ∧ n < t ∧ ∀ m, slot m → m < t → m ≤ n
  previous_none : ∀ t, previousRun t = none → ∀ m, slot m → t ≤ m

/-- An expression that croner throws on. -/
inductive ScheduleError where
  | invalid

/-- What a blank expression, an invalid one and another one are resolved to. -/
inductive Resolved where
  | blank
  | throws
  | runs (cron : CronRuns)

inductive Schedule where
  | every (everyMs anchorMs : Option ℚ)
  | cron (expr : String) (staggerMs : Option ℚ) (resolved : Resolved)

inductive PayloadKind where
  | agentTurn
  | systemEvent
deriving DecidableEq

inductive RunStatus where
  | ok
  | error
  | skipped
deriving DecidableEq

structure JobState where
  nextRunAtMs : Option ℕ := none
  runningAtMs : Option ℕ := none
  lastRunAtMs : Option ℕ := none
  lastStatus : Option RunStatus := none
  lastDurationMs : Option ℕ := none
  consecutiveErrors : Option ℕ := none
  scheduleErrorCount : ℕ := 0

structure CronJob where
  id : String
  enabled : Bool := true
  createdAtMs : Option ℕ := none
  schedule : Schedule
  payload : PayloadKind
  state : JobState := {}

/-- What the service has around it. -/
structure Service where
  /-- the first four bytes of the SHA-256 of a job's id -/
  digest : String → ℕ
  /-- `cronConfig?.retry?.backoffMs` -/
  backoffMs : Option (List ℕ) := none

def defaultErrorBackoffScheduleMs : List ℕ := [30000, 60000, 300000, 900000, 3600000]

def errorBackoffMs (consecutiveErrors : ℕ) (scheduleMs : List ℕ) : ℕ :=
  scheduleMs.getD (min (consecutiveErrors - 1) (scheduleMs.length - 1)) 30000

def hasScheduledNextRunAtMs (next : Option ℕ) : Bool := next.any fun n => 0 < n

/-- `computeNextRunAtMs` of croner's runs, with the workaround for runs in the past -/
def nextRunAfter (cron : CronRuns) (nowMs : ℕ) : Option ℕ :=
  match cron.nextRun nowMs with
  | none => none
  | some next =>
    if next ≤ nowMs then
      let retry := cron.nextRun (nowMs / 1000 * 1000 + 1000)
      let retry2 := cron.nextRun ((nowMs / 86400000 + 1) * 86400000)
      (retry.filter fun t => nowMs < t).or (retry2.filter fun t => nowMs < t)
    else some next

def computeNextRunAtMs (schedule : Schedule) (nowMs : ℕ) : Except ScheduleError (Option ℕ) :=
  match schedule with
  | .every none _ => .ok none
  | .every (some everyMsRaw) anchorMs =>
    let everyMs := max 1 ⌊everyMsRaw⌋.toNat
    let anchor := (anchorMs.map fun a => ⌊a⌋.toNat).getD nowMs
    if nowMs < anchor then .ok (some anchor)
    else
      let elapsed := nowMs - anchor
      let steps := max 1 ((elapsed + everyMs - 1) / everyMs)
      .ok (some (anchor + steps * everyMs))
  | .cron _ _ .blank => .ok none
  | .cron _ _ .throws => .error .invalid
  | .cron _ _ (.runs cron) => .ok (nextRunAfter cron nowMs)

def computePreviousRunAtMs (schedule : Schedule) (nowMs : ℕ) : Except ScheduleError (Option ℕ) :=
  match schedule with
  | .every _ _ => .ok none
  | .cron _ _ .blank => .ok none
  | .cron _ _ .throws => .error .invalid
  | .cron _ _ (.runs cron) => .ok ((cron.previousRun nowMs).filter fun t => t < nowMs)

/-- `\s` -/
def isBlank (c : Char) : Bool :=
  let n := c.toNat
  (9 ≤ n && n ≤ 13) || n = 0x20 || n = 0xA0 || n = 0x1680 || (0x2000 ≤ n && n ≤ 0x200A) ||
    n = 0x2028 || n = 0x2029 || n = 0x202F || n = 0x205F || n = 0x3000 || n = 0xFEFF

def isRecurringTopOfHourCronExpr (expr : String) : Bool :=
  match (expr.toList.splitOnP isBlank).filter (· ≠ []) with
  | [minute, hour, _, _, _] => minute = ['0'] && '*' ∈ hour
  | [second, minute, hour, _, _, _] => second = ['0'] && minute = ['0'] && '*' ∈ hour
  | _ => false

def resolveCronStaggerMs (expr : String) (staggerMs : Option ℚ) : ℕ :=
  match staggerMs with
  | some raw => ⌊raw⌋.toNat
  | none => if isRecurringTopOfHourCronExpr expr then 300000 else 0

def resolveStableCronOffsetMs (S : Service) (jobId : String) (staggerMs : ℕ) : ℕ :=
  if staggerMs ≤ 1 then 0 else S.digest jobId % staggerMs

/-- The loop of `computeStaggeredCronNextRunAtMs`. -/
def staggeredNext (schedule : Schedule) (offsetMs nowMs : ℕ) :
    ℕ → ℕ → Except ScheduleError (Option ℕ)
  | 0, _ => .ok none
  | attempts + 1, cursorMs => do
    match ← computeNextRunAtMs schedule cursorMs with
    | none => .ok none
    | some baseNext =>
      if nowMs < baseNext + offsetMs then .ok (some (baseNext + offsetMs))
      else staggeredNext schedule offsetMs nowMs attempts (max (cursorMs + 1) (baseNext + 1000))

/-- The loop of `computeStaggeredCronPreviousRunAtMs`. -/
def staggeredPrevious (schedule : Schedule) (offsetMs nowMs : ℕ) :
    ℕ → ℕ → Except ScheduleError (Option ℕ)
  | 0, _ => .ok none
  | attempts + 1, cursorMs => do
    match ← computePreviousRunAtMs schedule cursorMs with
    | none => .ok none
    | some basePrevious =>
      if basePrevious + offsetMs ≤ nowMs then .ok (some (basePrevious + offsetMs))
      else staggeredPrevious schedule offsetMs nowMs attempts (basePrevious - 1000)

/-- The offset of a job's runs from the slots of its schedule. -/
def offsetOf (S : Service) (job : CronJob) : ℕ :=
  match job.schedule with
  | .every _ _ => 0
  | .cron expr staggerMs _ =>
    resolveStableCronOffsetMs S job.id (resolveCronStaggerMs expr staggerMs)

def computeStaggeredCronNextRunAtMs (S : Service) (job : CronJob) (nowMs : ℕ) :
    Except ScheduleError (Option ℕ) :=
  let offsetMs := offsetOf S job
  if offsetMs = 0 then computeNextRunAtMs job.schedule nowMs
  else staggeredNext job.schedule offsetMs nowMs 4 (nowMs - offsetMs)

def computeStaggeredCronPreviousRunAtMs (S : Service) (job : CronJob) (nowMs : ℕ) :
    Except ScheduleError (Option ℕ) :=
  let offsetMs := offsetOf S job
  if offsetMs = 0 then computePreviousRunAtMs job.schedule nowMs
  else staggeredPrevious job.schedule offsetMs nowMs 4 (nowMs - offsetMs)

/-- `isStaggeredCronRunAtMs` of a cron job -/
def isStaggeredCronRunAtMs (S : Service) (job : CronJob) (runAtMs : ℕ) :
    Except ScheduleError Bool := do
  let previous ← computeStaggeredCronPreviousRunAtMs S job (runAtMs + 1)
  return previous = some runAtMs

def resolveEveryAnchorMs (anchorMs : Option ℚ) (fallbackAnchorMs : ℕ) : ℕ :=
  (anchorMs.map fun a => ⌊a⌋.toNat).getD fallbackAnchorMs

def computeJobNextRunAtMs (S : Service) (job : CronJob) (nowMs : ℕ) :
    Except ScheduleError (Option ℕ) :=
  if job.enabled = false then .ok none
  else
    match job.schedule with
    | .every none _ => .ok none
    | .every (some everyMsRaw) anchorMs =>
      let everyMs := max 1 ⌊everyMsRaw⌋.toNat
      match job.state.lastRunAtMs.filter fun lastRun => nowMs < lastRun + everyMs with
      | some lastRun => .ok (some (lastRun + everyMs))
      | none =>
        let anchor := resolveEveryAnchorMs anchorMs (job.createdAtMs.getD nowMs)
        computeNextRunAtMs (.every (some everyMs) (some anchor)) nowMs
    | .cron _ _ _ => do
      match ← computeStaggeredCronNextRunAtMs S job nowMs with
      | some next => .ok (some next)
      | none => computeStaggeredCronNextRunAtMs S job (nowMs / 1000 * 1000 + 1000)

/-- The table that recomputation takes for a job of any kind. -/
def backoffTable (S : Service) : List ℕ := S.backoffMs.getD defaultErrorBackoffScheduleMs

def isPendingErrorBackoffSlot (S : Service) (job : CronJob) (nextRunAtMs nowMs : ℕ) : Bool :=
  match job.state.lastStatus, job.state.lastRunAtMs with
  | some .error, some lastRunAtMs =>
    let consecutiveErrors := max 1 (job.state.consecutiveErrors.getD 1)
    let lastEndedAtMs := lastRunAtMs + job.state.lastDurationMs.getD 0
    let backoffFloor := lastEndedAtMs + errorBackoffMs consecutiveErrors (backoffTable S)
    nowMs < backoffFloor && nextRunAtMs ≤ backoffFloor
  | _, _ => false

/-- The rest of `shouldRepairFutureCronNextRunAtMs`, in which an error means no repair. -/
def strayFutureRun (S : Service) (job : CronJob) (nextRun nowMs : ℕ) :
    Except ScheduleError Bool := do
  match ← computeStaggeredCronNextRunAtMs S job nowMs with
  | none => return false
  | some naturalNext =>
    if ← isStaggeredCronRunAtMs S job nextRun then return false
    else if nextRun < naturalNext then return job.payload ≠ .agentTurn
    else if nextRun = naturalNext then return false
    else
      match ← computeStaggeredCronNextRunAtMs S job naturalNext with
      | none => return false
      | some followingNaturalNext =>
        let naturalIntervalMs := followingNaturalNext - naturalNext
        return 0 < naturalIntervalMs ∧ followingNaturalNext + naturalIntervalMs ≤ nextRun

def shouldRepairFutureCronNextRunAtMs (S : Service) (job : CronJob) (nowMs : ℕ) : Bool :=
  match job.schedule, job.state.nextRunAtMs with
  | .cron _ _ _, some nextRun =>
    if nextRun = 0 ∨ nextRun ≤ nowMs ∨ job.state.runningAtMs.isSome then false
    else if isPendingErrorBackoffSlot S job nextRun nowMs then false
    else
      match strayFutureRun S job nextRun nowMs with
      | .ok stray => stray
      | .error _ => false
  | _, _ => false

def recordScheduleComputeError (job : CronJob) : CronJob :=
  { job with
    enabled := job.enabled && decide (job.state.scheduleErrorCount + 1 < 3)
    state := { job.state with
      scheduleErrorCount := job.state.scheduleErrorCount + 1
      nextRunAtMs := none } }

/-- From when on an error lets the job run again, as recomputation has it. -/
def recomputeFloor (S : Service) (job : CronJob) : ℕ :=
  match job.state.lastStatus, job.state.lastRunAtMs with
  | some .error, some lastRunAtMs =>
    lastRunAtMs +
      errorBackoffMs (max 1 (job.state.consecutiveErrors.getD 1)) (backoffTable S)
  | _, _ => 0

def recomputeJobNextRunAtMs (S : Service) (job : CronJob) (nowMs : ℕ) : CronJob :=
  match computeJobNextRunAtMs S job nowMs with
  | .error _ => recordScheduleComputeError job
  | .ok newNext =>
    { job with state := { job.state with
        nextRunAtMs := newNext.map fun next => max next (recomputeFloor S job)
        scheduleErrorCount := 0 } }

/-- `normalizeJobTickState`: the job, and whether the pass skips it. -/
def normalizeJobTickState (job : CronJob) (nowMs : ℕ) : CronJob × Bool :=
  let job := match job.schedule with
    | .every everyMs anchorMs =>
      let anchor := resolveEveryAnchorMs anchorMs (job.createdAtMs.getD nowMs)
      { job with schedule := .every everyMs (some anchor) }
    | .cron _ _ _ => job
  if job.enabled = false then
    ({ job with state := { job.state with nextRunAtMs := none, runningAtMs := none } }, true)
  else
    let next := job.state.nextRunAtMs.filter fun n => 0 < n
    let job := { job with state := { job.state with nextRunAtMs := next } }
    if job.state.runningAtMs.any fun runningAt => runningAt + 7200000 < nowMs then
      let alreadyExecutedSlot := next.any fun n =>
        job.state.lastRunAtMs.any fun lastRun => n ≤ lastRun
      ({ job with state := { job.state with runningAtMs := none } }, !alreadyExecutedSlot)
    else (job, false)

def recomputeNextRuns (S : Service) (nowMs : ℕ) (job : CronJob) : CronJob :=
  let (job, skip) := normalizeJobTickState job nowMs
  if skip then job
  else
    let isDueOrMissing := !(job.state.nextRunAtMs.any fun n => 0 < n && nowMs < n)
    if isDueOrMissing || shouldRepairFutureCronNextRunAtMs S job nowMs then
      recomputeJobNextRunAtMs S job nowMs
    else job

/-- The options of `recomputeNextRunsForMaintenance`. -/
structure MaintenanceOpts where
  recomputeExpired : Bool := false
  repairFutureCronNextRunAtMs : Bool := true

def recomputeNextRunsForMaintenance (S : Service) (opts : MaintenanceOpts) (nowMs : ℕ)
    (job : CronJob) : CronJob :=
  let (job, skip) := normalizeJobTickState job nowMs
  if skip then job
  else if !hasScheduledNextRunAtMs job.state.nextRunAtMs then recomputeJobNextRunAtMs S job nowMs
  else if opts.repairFutureCronNextRunAtMs && shouldRepairFutureCronNextRunAtMs S job nowMs then
    recomputeJobNextRunAtMs S job nowMs
  else
    let expired := job.state.nextRunAtMs.any fun n => n ≤ nowMs
    if opts.recomputeExpired && expired && job.state.runningAtMs.isNone then
      let alreadyExecutedSlot := job.state.nextRunAtMs.any fun n =>
        job.state.lastRunAtMs.any fun lastRun => n ≤ lastRun
      if alreadyExecutedSlot then recomputeJobNextRunAtMs S job nowMs else job
    else job

structure RunResult where
  status : RunStatus
  startedAt : ℕ
  endedAt : ℕ

def minRefireGapMs : ℕ := 2000

/-- What `applyJobResult` notes of the run. -/
def recordRun (job : CronJob) (result : RunResult) : CronJob :=
  { job with state := { job.state with
      runningAtMs := none
      lastRunAtMs := some result.startedAt
      lastStatus := some result.status
      lastDurationMs := some (result.endedAt - result.startedAt)
      consecutiveErrors :=
        if result.status = .error then some (job.state.consecutiveErrors.getD 0 + 1) else some 0 } }

def resolveCronNextRunWithLowerBound (naturalNext : Option ℕ) (lowerBoundMs : ℕ) : Option ℕ :=
  naturalNext.map fun next => max next lowerBoundMs

/-- `applyJobResult` of a recurring job, with `opts.preserveSchedule` -/
def applyJobResult (S : Service) (job : CronJob) (result : RunResult) (preserveSchedule : Bool) :
    CronJob :=
  let recorded := recordRun job result
  if recorded.enabled = false then
    { recorded with state := { recorded.state with nextRunAtMs := none } }
  else
    let scheduled := match job.schedule with
      | .every _ _ =>
        if preserveSchedule then
          { recorded with state := { recorded.state with lastRunAtMs := job.state.lastRunAtMs } }
        else recorded
      | .cron _ _ _ => recorded
    let (recorded, naturalNext) := match computeJobNextRunAtMs S scheduled result.endedAt with
      | .ok next => (recorded, next)
      | .error _ => (recordScheduleComputeError recorded, none)
    let backoff := errorBackoffMs (recorded.state.consecutiveErrors.getD 1)
      defaultErrorBackoffScheduleMs
    let next := match job.schedule, result.status with
      | .cron _ _ _, .error =>
        resolveCronNextRunWithLowerBound naturalNext (result.endedAt + backoff)
      | .cron _ _ _, _ =>
        resolveCronNextRunWithLowerBound naturalNext (result.endedAt + minRefireGapMs)
      | .every _ _, .error =>
        some ((naturalNext.map fun n => max n (result.endedAt + backoff)).getD
          (result.endedAt + backoff))
      | .every _ _, _ => naturalNext
    { recorded with state := { recorded.state with nextRunAtMs := next } }

end ClawHarder.Cron
