import Mathlib.Order.Bounds.Defs
import Mathlib.Tactic.Linarith
import ClawHarder.Spec.CronBackoff
import ClawHarder.Spec.EverySchedule

/-!
# Interval schedules and their grid

* `next_eq`: rounding up gives the time itself at the points of the grid behind the anchor.
* `everyAdvances_iff`: **an interval schedule goes to the next point of its grid exactly when the
  time is not itself a point behind the anchor.**
-/

namespace ClawHarder.EverySchedule

def gridAfter (anchorMs everyMs nowMs : ℤ) : Set ℤ :=
  {t | nowMs < t ∧ ∃ k : ℕ, t = anchorMs + k * everyMs}

def OnLaterGrid (anchorMs everyMs nowMs : ℤ) : Prop :=
  ∃ k : ℕ, 1 ≤ k ∧ nowMs = anchorMs + k * everyMs

variable {anchor everyMs nowMs : ℤ}

theorem intervalOf_eq {raw : ℚ} (h : 1 ≤ raw) : intervalOf raw = ⌊raw⌋ :=
  max_eq_right (Int.le_floor.2 (by exact_mod_cast h))

/-- What `computeNextRunAtMs` returns, once its numbers are read. -/
def nextOnGrid (anchor everyMs nowMs : ℤ) : ℤ :=
  if nowMs < anchor then anchor
  else anchor + max 1 ((nowMs - anchor + everyMs - 1) / everyMs) * everyMs

theorem computeNextRunAtMs_eq (raw anchorRaw : ℚ) (nowMs : ℤ) :
    computeNextRunAtMs { everyMs := some raw, anchorMs := some anchorRaw } nowMs =
      some (nextOnGrid (max 0 ⌊anchorRaw⌋) (intervalOf raw) nowMs) := by
  unfold computeNextRunAtMs nextOnGrid
  simp only [Option.getD_some]
  split_ifs <;> rfl

theorem next_of_onLaterGrid (hevery : 1 ≤ everyMs) (h : OnLaterGrid anchor everyMs nowMs) :
    nextOnGrid anchor everyMs nowMs = nowMs := by
  obtain ⟨k, hk, rfl⟩ := h
  have hpositive : 0 < (k : ℤ) * everyMs := by positivity
  have hsteps : (anchor + k * everyMs - anchor + everyMs - 1) / everyMs = k := by
    rw [Int.ediv_eq_iff_of_pos (by omega)]
    constructor <;> linarith
  have hmax : max 1 (k : ℤ) = k := by omega
  rw [nextOnGrid, if_neg (by omega), hsteps, hmax]

theorem next_isLeast (hevery : 1 ≤ everyMs) (h : ¬OnLaterGrid anchor everyMs nowMs) :
    IsLeast (gridAfter anchor everyMs nowMs) (nextOnGrid anchor everyMs nowMs) := by
  unfold nextOnGrid
  by_cases hbefore : nowMs < anchor
  · rw [if_pos hbefore]
    refine ⟨⟨hbefore, 0, by simp⟩, ?_⟩
    rintro t ⟨-, k, rfl⟩
    have hsteps : 0 ≤ (k : ℤ) * everyMs := by positivity
    omega
  · rw [if_neg hbefore]
    obtain ⟨q, hq⟩ : ∃ q, q = (nowMs - anchor + everyMs - 1) / everyMs := ⟨_, rfl⟩
    have hdiv : q * everyMs ≤ nowMs - anchor + everyMs - 1 := by
      rw [hq]
      exact Int.ediv_mul_le _ (by omega)
    have hmod : nowMs - anchor + everyMs - 1 < (q + 1) * everyMs := by
      rw [hq]
      exact Int.lt_ediv_add_one_mul_self _ (by omega)
    rw [← hq]
    have hsteps : nowMs < anchor + max 1 q * everyMs := by
      by_cases hat : nowMs = anchor
      · have hone : 1 * everyMs ≤ max 1 q * everyMs :=
          mul_le_mul_of_nonneg_right (le_max_left 1 q) (by omega)
        linarith
      · have hq1 : 1 ≤ q := by
          have hlt : 1 * everyMs < (q + 1) * everyMs := by linarith [show anchor < nowMs by omega]
          have hq2 := lt_of_mul_lt_mul_right hlt (by omega)
          omega
        have hreach : nowMs ≤ anchor + q * everyMs := by linarith
        have hnot : nowMs ≠ anchor + q * everyMs := by
          intro heq
          refine h ⟨q.toNat, by omega, ?_⟩
          rwa [Int.toNat_of_nonneg (by omega)]
        rw [max_eq_right hq1]
        omega
    refine ⟨⟨hsteps, (max 1 q).toNat, ?_⟩, ?_⟩
    · rw [Int.toNat_of_nonneg (by omega)]
    · -- fewer steps do not get behind the time
      rintro t ⟨hlater, k, rfl⟩
      have hfirst : 0 * everyMs < k * everyMs := by linarith [show anchor ≤ nowMs by omega]
      have hk := lt_of_mul_lt_mul_right hfirst (by omega)
      have hfewer : (q - 1) * everyMs < k * everyMs := by linarith
      have hqk := lt_of_mul_lt_mul_right hfewer (by omega)
      have hle : max 1 q ≤ k := by omega
      have hmul := mul_le_mul_of_nonneg_right hle (show 0 ≤ everyMs by omega)
      linarith

/-- **A run on the grid is in the future exactly when the time is no later point of the grid.** -/
theorem lt_next_iff (hevery : 1 ≤ everyMs) :
    nowMs < nextOnGrid anchor everyMs nowMs ↔ ¬OnLaterGrid anchor everyMs nowMs := by
  constructor
  · intro hlt hgrid
    rw [next_of_onLaterGrid hevery hgrid] at hlt
    omega
  · intro h
    exact (next_isLeast hevery h).1.1

def anchorOf (job : CronJob) (nowMs : ℤ) : ℤ :=
  resolveEveryAnchorMs job.schedule (job.createdAtMs.getD nowMs)

theorem computeJobNextRunAtMs_eq {job : CronJob} {raw : ℚ} (henabled : job.enabled = true)
    (hraw : job.schedule.everyMs = some raw) (nowMs : ℤ) :
    computeJobNextRunAtMs job nowMs =
      some (((job.lastRunAtMs.map fun lastRunAtMs => ⌊lastRunAtMs⌋ + intervalOf raw).filter
        fun next => nowMs < next).getD (nextOnGrid (anchorOf job nowMs) (intervalOf raw) nowMs)) := by
  have hanchor : max 0 ⌊((anchorOf job nowMs : ℤ) : ℚ)⌋ = anchorOf job nowMs := by
    rw [Int.floor_intCast]
    refine max_eq_right ?_
    unfold anchorOf resolveEveryAnchorMs
    split <;> exact le_max_left 0 _
  have hinterval : intervalOf ((intervalOf raw : ℤ) : ℚ) = intervalOf raw := by
    rw [intervalOf, Int.floor_intCast]
    exact max_eq_right (le_max_left 1 _)
  unfold computeJobNextRunAtMs
  simp only [henabled, hraw, Bool.not_true, Bool.false_eq_true, if_false]
  cases hlast : (job.lastRunAtMs.map fun lastRunAtMs => ⌊lastRunAtMs⌋ + intervalOf raw).filter
      fun next => nowMs < next with
  | some next => rfl
  | none =>
    have hnext := computeNextRunAtMs_eq (intervalOf raw : ℤ) (anchorOf job nowMs : ℤ) nowMs
    rw [hanchor, hinterval] at hnext
    exact hnext

/-- **An interval schedule goes to the next point of its grid, and a job runs in the future, exactly
when the time is no point of the grid behind the anchor**, or the last run says when. -/
theorem everyAdvances_iff {everyMs : ℚ} (hevery : 1 ≤ everyMs) (nowMs : ℤ) :
    (∀ anchorMs : ℕ,
      (∃ next, computeNextRunAtMs { everyMs := some everyMs, anchorMs := some (anchorMs : ℚ) } nowMs =
        some next ∧ IsLeast (gridAfter anchorMs ⌊everyMs⌋ nowMs) next) ↔
      ¬OnLaterGrid anchorMs ⌊everyMs⌋ nowMs) ∧
    ∀ job : CronJob, job.enabled = true → job.schedule.everyMs = some everyMs →
      ((∃ next, computeJobNextRunAtMs job nowMs = some next ∧ nowMs < next) ↔
        (∃ lastRunAtMs, job.lastRunAtMs = some lastRunAtMs ∧
          nowMs < ⌊lastRunAtMs⌋ + ⌊everyMs⌋) ∨
        ¬OnLaterGrid (anchorOf job nowMs) ⌊everyMs⌋ nowMs) := by
  have hinterval := intervalOf_eq hevery
  have hfloor : 1 ≤ ⌊everyMs⌋ := Int.le_floor.2 (by exact_mod_cast hevery)
  constructor
  · intro anchorMs
    have hanchor : max 0 ⌊(anchorMs : ℚ)⌋ = (anchorMs : ℤ) := by
      rw [Int.floor_natCast]
      exact max_eq_right (Int.natCast_nonneg anchorMs)
    rw [computeNextRunAtMs_eq, hanchor, hinterval]
    constructor
    · rintro ⟨next, hnext, hleast⟩
      obtain rfl := Option.some.inj hnext
      exact (lt_next_iff hfloor).1 hleast.1.1
    · intro h
      exact ⟨_, rfl, next_isLeast hfloor h⟩
  · intro job henabled hraw
    rw [computeJobNextRunAtMs_eq henabled hraw, hinterval, ← lt_next_iff hfloor]
    cases hlast : job.lastRunAtMs with
    | none => simp
    | some lastRunAtMs =>
      by_cases hlater : nowMs < ⌊lastRunAtMs⌋ + ⌊everyMs⌋
      · simp [Option.filter, hlater]
      · simp [Option.filter, hlater]

theorem half_minute_advances :
    ∃ next, computeNextRunAtMs { everyMs := some 30000, anchorMs := some ((5000 : ℕ) : ℚ) } 45000 =
      some next ∧ IsLeast (gridAfter (5000 : ℕ) ⌊(30000 : ℚ)⌋ 45000) next := by
  have hfloor : ⌊(30000 : ℚ)⌋ = 30000 := by norm_num
  refine ((everyAdvances_iff (by norm_num) 45000).1 5000).2 ?_
  rintro ⟨k, -, hk⟩
  rw [hfloor] at hk
  omega

theorem grid_point_repeats :
    ¬∀ (everyMs : ℚ) (anchorMs : ℕ) (nowMs : ℤ), 1 ≤ everyMs →
      (∃ next, computeNextRunAtMs { everyMs := some everyMs, anchorMs := some (anchorMs : ℚ) } nowMs =
        some next ∧ IsLeast (gridAfter anchorMs ⌊everyMs⌋ nowMs) next) ∧
      ∀ job : CronJob, job.enabled = true → job.schedule.everyMs = some everyMs →
        ∃ next, computeJobNextRunAtMs job nowMs = some next ∧ nowMs < next := by
  intro h
  obtain ⟨next, hnext, hleast⟩ := (h 30000 0 30000 (by norm_num)).1
  have hnow : computeNextRunAtMs { everyMs := some 30000, anchorMs := some ((0 : ℕ) : ℚ) } 30000 =
      some 30000 := by
    have hfloor : intervalOf 30000 = 30000 := by norm_num [intervalOf]
    rw [computeNextRunAtMs_eq, hfloor]
    norm_num [nextOnGrid]
  obtain rfl := Option.some.inj (hnext.symm.trans hnow)
  exact lt_irrefl _ hleast.1.1

theorem nextOnGrid_nat {anchor everyMs nowMs : ℕ} (hevery : 1 ≤ everyMs) :
    nextOnGrid anchor everyMs nowMs = ((if nowMs < anchor then anchor
      else anchor + max 1 ((nowMs - anchor + everyMs - 1) / everyMs) * everyMs : ℕ) : ℤ) := by
  unfold nextOnGrid
  by_cases hbefore : nowMs < anchor
  · rw [if_pos (by omega), if_pos hbefore]
  · have helapsed : (nowMs : ℤ) - anchor + everyMs - 1 =
        ((nowMs - anchor + everyMs - 1 : ℕ) : ℤ) := by omega
    rw [if_neg (by omega), if_neg hbefore, helapsed]
    push_cast
    rfl

theorem computeNextRunAtMs_nat (raw anchorRaw : ℚ) (nowMs : ℕ) :
    Cron.computeNextRunAtMs (.every (some raw) (some anchorRaw)) nowMs =
      .ok ((computeNextRunAtMs { everyMs := some raw, anchorMs := some anchorRaw } nowMs).map
        Int.toNat) := by
  have hevery : intervalOf raw = ((max 1 ⌊raw⌋.toNat : ℕ) : ℤ) := by
    unfold intervalOf
    omega
  have hanchor : max 0 ⌊anchorRaw⌋ = (⌊anchorRaw⌋.toNat : ℤ) := by omega
  rw [computeNextRunAtMs_eq, hevery, hanchor, nextOnGrid_nat (le_max_left 1 _), Option.map_some,
    Int.toNat_natCast]
  unfold Cron.computeNextRunAtMs
  simp only [Option.map_some, Option.getD_some]
  split_ifs <;> rfl

end ClawHarder.EverySchedule
