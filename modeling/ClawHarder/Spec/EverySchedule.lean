import Mathlib.Algebra.Order.Field.Rat
import Mathlib.Data.Rat.Floor

/-!
# Interval schedules

From `schedule.ts` and `service/jobs.ts`: the next run of a job that runs at every interval. Times
are milliseconds, of either sign. A number of a schedule is what `coerceFiniteScheduleNumber` makes
of it, and a timestamp of a job is there when it is finite.
-/

namespace ClawHarder.EverySchedule

structure Schedule where
  everyMs : Option ℚ
  anchorMs : Option ℚ := none

structure CronJob where
  /-- `job.enabled ?? true` -/
  enabled : Bool := true
  schedule : Schedule
  createdAtMs : Option ℚ := none
  lastRunAtMs : Option ℚ := none

/-- `Math.max(1, Math.floor(everyMsRaw))` -/
def intervalOf (everyMsRaw : ℚ) : ℤ := max 1 ⌊everyMsRaw⌋

/-- `computeNextRunAtMs` of an interval schedule -/
def computeNextRunAtMs (schedule : Schedule) (nowMs : ℤ) : Option ℤ :=
  match schedule.everyMs with
  | none => none
  | some everyMsRaw =>
    let everyMs := intervalOf everyMsRaw
    let anchor := max 0 ⌊schedule.anchorMs.getD nowMs⌋
    if nowMs < anchor then some anchor
    else
      let elapsed := nowMs - anchor
      let steps := max 1 ((elapsed + everyMs - 1) / everyMs)
      some (anchor + steps * everyMs)

/-- `resolveEveryAnchorMs`, whose fallback is finite wherever it is called -/
def resolveEveryAnchorMs (schedule : Schedule) (fallbackAnchorMs : ℚ) : ℤ :=
  match schedule.anchorMs with
  | some coerced => max 0 ⌊coerced⌋
  | none => max 0 ⌊fallbackAnchorMs⌋

/-- `computeJobNextRunAtMs` of a job that runs at every interval -/
def computeJobNextRunAtMs (job : CronJob) (nowMs : ℤ) : Option ℤ :=
  if !job.enabled then none
  else
    match job.schedule.everyMs with
    | none => none
    | some everyMsRaw =>
      let everyMs := intervalOf everyMsRaw
      let nextFromLastRun := job.lastRunAtMs.map fun lastRunAtMs => ⌊lastRunAtMs⌋ + everyMs
      match nextFromLastRun.filter fun next => nowMs < next with
      | some next => some next
      | none =>
        let fallbackAnchorMs := job.createdAtMs.getD nowMs
        let anchorMs := resolveEveryAnchorMs job.schedule fallbackAnchorMs
        computeNextRunAtMs { everyMs := some everyMs, anchorMs := some anchorMs } nowMs

end ClawHarder.EverySchedule
