import Mathlib.Tactic.IntervalCases
import Mathlib.Tactic.Linarith
import ClawHarder.Spec.CronBackoff

/-!
# Error backoff across maintenance

* `neverShortened_iff`: **the backoff of the `k`-th error is kept by every sequence of passes
  exactly when the configured delay for it is not shorter than the default one.**
-/

namespace ClawHarder.Cron

variable {S : Service} {job : CronJob}

theorem nextRunAfter_eq (cron : CronRuns) (t : ℕ) : nextRunAfter cron t = cron.nextRun t := by
  unfold nextRunAfter
  cases hnext : cron.nextRun t with
  | none => rfl
  | some n =>
    obtain ⟨-, hlt, -⟩ := cron.next_slot t n hnext
    exact if_neg (by omega)

theorem previous_filter (cron : CronRuns) (t : ℕ) :
    (cron.previousRun t).filter (fun n => n < t) = cron.previousRun t := by
  cases hprevious : cron.previousRun t with
  | none => rfl
  | some n =>
    obtain ⟨-, hlt, -⟩ := cron.previous_slot t n hprevious
    rw [Option.filter_some, if_pos (decide_eq_true hlt)]

theorem previousRun_succ (cron : CronRuns) {n : ℕ} (h : cron.slot n) :
    cron.previousRun (n + 1) = some n := by
  cases hprevious : cron.previousRun (n + 1) with
  | none =>
    have hlate := cron.previous_none (n + 1) hprevious n h
    omega
  | some m =>
    obtain ⟨-, hlt, hnearest⟩ := cron.previous_slot (n + 1) m hprevious
    have hle := hnearest n h (by omega)
    rw [show m = n by omega]

section Staggered

variable {expr : String} {staggerMs : Option ℚ} {cron : CronRuns}

/-- **The next staggered run.** -/
theorem staggeredNext_eq (hs : job.schedule = .cron expr staggerMs (.runs cron)) (t : ℕ) :
    computeStaggeredCronNextRunAtMs S job t =
      .ok ((cron.nextRun (t - offsetOf S job)).map (· + offsetOf S job)) := by
  have hcompute : ∀ t, computeNextRunAtMs job.schedule t = .ok (cron.nextRun t) := by
    intro t
    rw [hs, computeNextRunAtMs, nextRunAfter_eq]
  unfold computeStaggeredCronNextRunAtMs
  by_cases hzero : offsetOf S job = 0
  · simp only [hzero, if_true, Nat.sub_zero, Nat.add_zero, hcompute, Option.map_id']
  · simp only [if_neg hzero]
    unfold staggeredNext
    rw [hcompute]
    cases hnext : cron.nextRun (t - offsetOf S job) with
    | none => rfl
    | some base =>
      obtain ⟨-, hlt, -⟩ := cron.next_slot _ base hnext
      have hlater : t < base + offsetOf S job := by omega
      show (if t < base + offsetOf S job then _ else _) = _
      rw [if_pos hlater]
      rfl

/-- **The staggered run before.** -/
theorem staggeredPrevious_eq (hs : job.schedule = .cron expr staggerMs (.runs cron)) (t : ℕ) :
    computeStaggeredCronPreviousRunAtMs S job t =
      .ok ((cron.previousRun (t - offsetOf S job)).map (· + offsetOf S job)) := by
  have hcompute : ∀ t, computePreviousRunAtMs job.schedule t = .ok (cron.previousRun t) := by
    intro t
    rw [hs, computePreviousRunAtMs, previous_filter]
  unfold computeStaggeredCronPreviousRunAtMs
  by_cases hzero : offsetOf S job = 0
  · simp only [hzero, if_true, Nat.sub_zero, Nat.add_zero, hcompute, Option.map_id']
  · simp only [if_neg hzero]
    unfold staggeredPrevious
    rw [hcompute]
    cases hprevious : cron.previousRun (t - offsetOf S job) with
    | none => rfl
    | some base =>
      obtain ⟨-, hlt, -⟩ := cron.previous_slot _ base hprevious
      have hearlier : base + offsetOf S job ≤ t := by omega
      show (if base + offsetOf S job ≤ t then _ else _) = _
      rw [if_pos hearlier]
      rfl

theorem staggeredNext_blank (hs : job.schedule = .cron expr staggerMs .blank) (t : ℕ) :
    computeStaggeredCronNextRunAtMs S job t = .ok none := by
  unfold computeStaggeredCronNextRunAtMs staggeredNext
  rw [hs]
  by_cases hzero : offsetOf S job = 0
  · exact if_pos hzero
  · exact if_neg hzero

theorem staggeredNext_throws (hs : job.schedule = .cron expr staggerMs .throws) (t : ℕ) :
    computeStaggeredCronNextRunAtMs S job t = .error .invalid := by
  unfold computeStaggeredCronNextRunAtMs staggeredNext
  rw [hs]
  by_cases hzero : offsetOf S job = 0
  · exact if_pos hzero
  · exact if_neg hzero

theorem isStaggered_of_slot (hs : job.schedule = .cron expr staggerMs (.runs cron)) {n : ℕ}
    (h : cron.slot n) : isStaggeredCronRunAtMs S job (n + offsetOf S job) = .ok true := by
  have hcursor : n + offsetOf S job + 1 - offsetOf S job = n + 1 := by omega
  unfold isStaggeredCronRunAtMs
  rw [staggeredPrevious_eq hs, hcursor, previousRun_succ cron h]
  simp [pure, Except.pure, bind, Except.bind]

end Staggered

def Natural (S : Service) (job : CronJob) (n : ℕ) : Prop :=
  ∀ expr staggerMs resolved, job.schedule = .cron expr staggerMs resolved →
    isStaggeredCronRunAtMs S job n = .ok true

def Silent (S : Service) (job : CronJob) (t : ℕ) : Prop :=
  job.enabled = false ∨
    match job.schedule with
    | .every everyMs _ => everyMs = none
    | .cron _ _ (.runs cron) => ∀ m, cron.slot m → m ≤ t - offsetOf S job
    | .cron _ _ _ => True

theorem Silent.mono {t t' : ℕ} (h : Silent S job t) (ht : t ≤ t') : Silent S job t' := by
  rcases h with hoff | hsilent
  · exact .inl hoff
  · refine .inr ?_
    cases hs : job.schedule with
    | every everyMs anchorMs =>
      rw [hs] at hsilent
      exact hsilent
    | cron expr staggerMs resolved =>
      rw [hs] at hsilent
      cases resolved with
      | blank => trivial
      | throws => trivial
      | runs cron =>
        intro m hm
        have hle := hsilent m hm
        omega

theorem compute_every (everyMs : ℚ) (anchorMs : Option ℚ) (t : ℕ) :
    ∃ n, computeNextRunAtMs (.every (some everyMs) anchorMs) t = .ok (some n) ∧ t ≤ n := by
  simp only [computeNextRunAtMs]
  generalize (anchorMs.map fun a => ⌊a⌋.toNat).getD t = anchor
  have hpos : 0 < max 1 ⌊everyMs⌋.toNat := by omega
  generalize max 1 ⌊everyMs⌋.toNat = interval at hpos ⊢
  by_cases hfuture : t < anchor
  · exact ⟨anchor, if_pos hfuture, by omega⟩
  · refine ⟨_, if_neg hfuture, ?_⟩
    set elapsed := t - anchor with helapsed
    have hdiv := Nat.div_add_mod (elapsed + interval - 1) interval
    have hmod := Nat.mod_lt (elapsed + interval - 1) hpos
    have hsteps : (elapsed + interval - 1) / interval * interval ≤
        max 1 ((elapsed + interval - 1) / interval) * interval :=
      Nat.mul_le_mul_right interval (by omega)
    rw [Nat.mul_comm interval] at hdiv
    omega

theorem natural_every {everyMs anchorMs : Option ℚ} (hs : job.schedule = .every everyMs anchorMs)
    (n : ℕ) : Natural S job n := by
  intro expr staggerMs resolved hcron
  rw [hs] at hcron
  cases hcron

theorem silent_every {everyMs anchorMs : Option ℚ} (hs : job.schedule = .every everyMs anchorMs)
    (t : ℕ) : Silent S job t ↔ job.enabled = false ∨ everyMs = none := by
  unfold Silent
  rw [hs]

theorem silent_runs {expr : String} {staggerMs : Option ℚ} {cron : CronRuns}
    (hs : job.schedule = .cron expr staggerMs (.runs cron)) (t : ℕ) :
    Silent S job t ↔ job.enabled = false ∨ ∀ m, cron.slot m → m ≤ t - offsetOf S job := by
  unfold Silent
  rw [hs]

theorem silent_unresolved {expr : String} {staggerMs : Option ℚ} {resolved : Resolved}
    (hs : job.schedule = .cron expr staggerMs resolved) (hr : ∀ cron, resolved ≠ .runs cron)
    (t : ℕ) : Silent S job t := by
  refine .inr ?_
  rw [hs]
  cases resolved with
  | blank => trivial
  | throws => trivial
  | runs cron => exact absurd rfl (hr cron)

theorem no_run_later (cron : CronRuns) {t t' : ℕ} (h : cron.nextRun t = none) (ht : t ≤ t') :
    cron.nextRun t' = none := by
  cases hlater : cron.nextRun t' with
  | none => rfl
  | some n =>
    obtain ⟨hslot, hlt, -⟩ := cron.next_slot t' n hlater
    have hle := cron.next_none t h n hslot
    omega

/-- **What a natural run is.** -/
theorem compute_spec (S : Service) (job : CronJob) (t : ℕ) :
    match computeJobNextRunAtMs S job t with
    | .ok (some n) => t ≤ n ∧ Natural S job n ∧ ¬Silent S job t
    | _ => Silent S job t := by
  unfold computeJobNextRunAtMs
  by_cases hoff : job.enabled = false
  · rw [if_pos hoff]
    exact .inl hoff
  rw [if_neg hoff]
  cases hs : job.schedule with
  | every everyMs anchorMs =>
    cases everyMs with
    | none => exact (silent_every hs t).mpr (.inr rfl)
    | some everyMs =>
      have hheard : ¬Silent S job t := by
        rw [silent_every hs]
        rintro (h | h)
        · exact hoff h
        · cases h
      dsimp only
      cases hlast : job.state.lastRunAtMs.filter
          (fun lastRun => t < lastRun + max 1 ⌊everyMs⌋.toNat) with
      | some lastRun =>
        obtain ⟨-, hsoon⟩ := Option.filter_eq_some_iff.mp hlast
        have hlt := of_decide_eq_true hsoon
        exact ⟨by omega, natural_every hs _, hheard⟩
      | none =>
        obtain ⟨n, heq, hle⟩ := compute_every (max 1 ⌊everyMs⌋.toNat : ℕ)
          (some (resolveEveryAnchorMs anchorMs (job.createdAtMs.getD t) : ℕ)) t
        simp only [heq]
        exact ⟨hle, natural_every hs n, hheard⟩
  | cron expr staggerMs resolved =>
    cases resolved with
    | runs cron =>
      rw [staggeredNext_eq hs]
      cases hnext : cron.nextRun (t - offsetOf S job) with
      | some n =>
        obtain ⟨hslot, hlt, -⟩ := cron.next_slot _ n hnext
        have hle : t ≤ n + offsetOf S job := by omega
        refine ⟨hle, ?_, ?_⟩
        · intro expr' staggerMs' resolved' hs'
          exact isStaggered_of_slot hs hslot
        · rw [silent_runs hs]
          rintro (h | h)
          · exact hoff h
          · have hle := h n hslot
            omega
      | none =>
        rw [staggeredNext_eq hs, no_run_later cron hnext (by omega)]
        exact (silent_runs hs t).mpr (.inr (cron.next_none _ hnext))
    | blank =>
      rw [staggeredNext_blank hs, staggeredNext_blank hs]
      exact silent_unresolved hs (by simp) t
    | throws =>
      rw [staggeredNext_throws hs]
      exact silent_unresolved hs (by simp) t

inductive Pass where
  | full (nowMs : ℕ)
  | maintenance (opts : MaintenanceOpts) (nowMs : ℕ)

def Pass.nowMs : Pass → ℕ
  | .full nowMs => nowMs
  | .maintenance _ nowMs => nowMs

def runPass (S : Service) (job : CronJob) : Pass → CronJob
  | .full nowMs => recomputeNextRuns S nowMs job
  | .maintenance opts nowMs => recomputeNextRunsForMaintenance S opts nowMs job

/-- What is noted of the `k`-th error, of a run from `startedAt` to `endedAt`. -/
structure Failed (job : CronJob) (startedAt endedAt k : ℕ) : Prop where
  status : job.state.lastStatus = some .error
  start : job.state.lastRunAtMs = some startedAt
  duration : job.state.lastDurationMs = some (endedAt - startedAt)
  errors : job.state.consecutiveErrors = some k
  idle : job.state.runningAtMs = none

/-- The next run is behind `bound`, and no repair applies to it: it is within the backoff that
repairs respect, or a slot of the schedule. -/
def Behind (S : Service) (job : CronJob) (bound floor t : ℕ) : Prop :=
  match job.state.nextRunAtMs with
  | none => Silent S job t
  | some n => bound ≤ n ∧ (n ≤ floor ∨ Natural S job n)

/-- What `normalizeJobTickState` makes of the schedule. -/
def anchored (job : CronJob) (nowMs : ℕ) : CronJob :=
  match job.schedule with
  | .every everyMs anchorMs =>
    let anchor := resolveEveryAnchorMs anchorMs (job.createdAtMs.getD nowMs)
    { job with schedule := .every everyMs (some anchor) }
  | .cron _ _ _ => job

theorem anchored_enabled (job : CronJob) (t : ℕ) : (anchored job t).enabled = job.enabled := by
  unfold anchored
  split <;> rfl

theorem natural_anchored {n : ℕ} (t : ℕ) (h : Natural S job n) : Natural S (anchored job t) n := by
  cases hs : job.schedule with
  | every everyMs anchorMs =>
    have hanchored : ∃ anchor, (anchored job t).schedule = .every everyMs (some anchor) := by
      unfold anchored
      rw [hs]
      exact ⟨_, rfl⟩
    obtain ⟨anchor, heq⟩ := hanchored
    exact natural_every heq n
  | cron expr staggerMs resolved =>
    have hsame : anchored job t = job := by
      unfold anchored
      rw [hs]
    rwa [hsame]

theorem silent_anchored {t' : ℕ} (t : ℕ) (h : Silent S job t') : Silent S (anchored job t) t' := by
  cases hs : job.schedule with
  | every everyMs anchorMs =>
    have hanchored : ∃ anchor, (anchored job t).schedule = .every everyMs (some anchor) := by
      unfold anchored
      rw [hs]
      exact ⟨_, rfl⟩
    obtain ⟨anchor, heq⟩ := hanchored
    rw [silent_every heq, anchored_enabled]
    exact (silent_every hs t').mp h
  | cron expr staggerMs resolved =>
    have hsame : anchored job t = job := by
      unfold anchored
      rw [hs]
    rwa [hsame]

section Steps

variable {startedAt endedAt k bound floor t : ℕ}

theorem normalize_eq (hidle : job.state.runningAtMs = none) (t : ℕ) :
    normalizeJobTickState job t =
      if job.enabled = false then
        ({ anchored job t with state := { job.state with
            nextRunAtMs := none, runningAtMs := none } }, true)
      else
        ({ anchored job t with state := { job.state with
            nextRunAtMs := job.state.nextRunAtMs.filter fun n => 0 < n } }, false) := by
  unfold normalizeJobTickState anchored
  cases hs : job.schedule with
  | every everyMs anchorMs =>
    by_cases hoff : job.enabled = false
    · simp only [if_pos hoff]
    · simp only [if_neg hoff, hidle, Option.any_none, Bool.false_eq_true, if_false]
  | cron expr staggerMs resolved =>
    by_cases hoff : job.enabled = false
    · simp only [if_pos hoff]
    · simp only [if_neg hoff, hidle, Option.any_none, Bool.false_eq_true, if_false]

theorem Behind.mono {t' : ℕ} (h : Behind S job bound floor t) (ht : t ≤ t') :
    Behind S job bound floor t' := by
  unfold Behind at h ⊢
  cases hnext : job.state.nextRunAtMs with
  | none =>
    rw [hnext] at h
    exact Silent.mono h ht
  | some n =>
    rw [hnext] at h
    exact h

theorem Behind.due (h : Behind S job bound floor t)
    (hdue : ∀ n, job.state.nextRunAtMs = some n → n ≤ t) : Silent S job t ∨ bound ≤ t := by
  unfold Behind at h
  cases hnext : job.state.nextRunAtMs with
  | none =>
    rw [hnext] at h
    exact .inl h
  | some n =>
    rw [hnext] at h
    have hle := hdue n hnext
    exact .inr (le_trans h.1 hle)

theorem behind_max (next : ℕ) {lower : ℕ} (hnext : job.state.nextRunAtMs = some (max next lower))
    (hnatural : Natural S job next) (hbound : bound ≤ max next lower) (hfloor : lower ≤ floor) :
    Behind S job bound floor t := by
  unfold Behind
  rw [hnext]
  refine ⟨hbound, ?_⟩
  rcases le_total lower next with hle | hle
  · exact .inr ((max_eq_left hle).symm ▸ hnatural)
  · exact .inl ((max_eq_right hle).symm ▸ hfloor)

/-- **Recomputation keeps the next run behind a bound that has passed.** -/
theorem recompute_behind (hfloor : recomputeFloor S job ≤ floor)
    (hdue : Silent S job t ∨ bound ≤ t) :
    Behind S (recomputeJobNextRunAtMs S job t) bound floor t := by
  have hspec := compute_spec S job t
  unfold recomputeJobNextRunAtMs
  cases hcompute : computeJobNextRunAtMs S job t with
  | error e =>
    rw [hcompute] at hspec
    rcases hspec with hoff | hsilent
    · exact .inl (by simp [recordScheduleComputeError, hoff])
    · exact .inr hsilent
  | ok next =>
    rw [hcompute] at hspec
    cases next with
    | none => exact hspec
    | some n =>
      obtain ⟨hle, hnatural, hheard⟩ := hspec
      have hbound : bound ≤ t := hdue.resolve_left hheard
      have hlater : bound ≤ max n (recomputeFloor S job) := by omega
      exact behind_max (S := S) n rfl hnatural hlater hfloor

theorem Failed.recompute (h : Failed job startedAt endedAt k) (t : ℕ) :
    Failed (recomputeJobNextRunAtMs S job t) startedAt endedAt k := by
  unfold recomputeJobNextRunAtMs
  split
  · exact ⟨h.status, h.start, h.duration, h.errors, h.idle⟩
  · exact ⟨h.status, h.start, h.duration, h.errors, h.idle⟩

/-- **No repair applies behind the backoff.** -/
theorem not_repaired (hfailed : Failed job startedAt endedAt k)
    (hbehind : Behind S job bound
      (startedAt + (endedAt - startedAt) + errorBackoffMs (max 1 k) (backoffTable S)) t) :
    shouldRepairFutureCronNextRunAtMs S job t = false := by
  unfold Behind at hbehind
  unfold shouldRepairFutureCronNextRunAtMs
  split
  next expr staggerMs resolved n hs hnext =>
    rw [hnext] at hbehind
    by_cases hdue : n = 0 ∨ n ≤ t ∨ job.state.runningAtMs.isSome
    · exact if_pos hdue
    rw [if_neg hdue]
    by_cases hpending : isPendingErrorBackoffSlot S job n t = true
    · exact if_pos hpending
    rw [if_neg hpending]
    rcases hbehind.2 with hfloor | hnatural
    · -- within the backoff the repair check sees an error that is pending
      refine absurd ?_ hpending
      unfold isPendingErrorBackoffSlot
      rw [hfailed.status, hfailed.start]
      simp only [hfailed.errors, hfailed.duration, Option.getD_some, Bool.and_eq_true,
        decide_eq_true_eq]
      omega
    · have hslot := hnatural expr staggerMs resolved hs
      unfold strayFutureRun
      cases computeStaggeredCronNextRunAtMs S job t with
      | error e => rfl
      | ok natural =>
        cases natural with
        | none => rfl
        | some naturalNext =>
          simp only [bind, Except.bind, hslot, if_true]
          rfl
  next => rfl

/-- What passes keep after the `k`-th error of a run from `startedAt` to `endedAt`. -/
structure Backed (S : Service) (job : CronJob) (startedAt endedAt k t : ℕ) : Prop where
  failed : Failed job startedAt endedAt k
  behind : Behind S job (endedAt + errorBackoffMs k defaultErrorBackoffScheduleMs)
    (startedAt + (endedAt - startedAt) + errorBackoffMs (max 1 k) (backoffTable S)) t

theorem Failed.floor_le (h : Failed job startedAt endedAt k) :
    recomputeFloor S job ≤
      startedAt + (endedAt - startedAt) + errorBackoffMs (max 1 k) (backoffTable S) := by
  unfold recomputeFloor
  rw [h.status, h.start, h.errors]
  simp only [Option.getD_some]
  omega

theorem Backed.recompute (h : Backed S job startedAt endedAt k t)
    (hdue : ∀ n, job.state.nextRunAtMs = some n → n ≤ t) :
    Backed S (recomputeJobNextRunAtMs S job t) startedAt endedAt k t :=
  ⟨h.failed.recompute t, recompute_behind h.failed.floor_le (h.behind.due hdue)⟩

/-- **Normalizing keeps what is behind the backoff.** -/
theorem Backed.normalize (h : Backed S job startedAt endedAt k t)
    (hbound : 0 < endedAt + errorBackoffMs k defaultErrorBackoffScheduleMs) :
    Backed S (normalizeJobTickState job t).1 startedAt endedAt k t ∧
      ((normalizeJobTickState job t).2 = true ∨
        (normalizeJobTickState job t).1.state.nextRunAtMs = job.state.nextRunAtMs) := by
  rw [normalize_eq h.failed.idle]
  by_cases hoff : job.enabled = false
  · rw [if_pos hoff]
    refine ⟨⟨⟨h.failed.status, h.failed.start, h.failed.duration, h.failed.errors, rfl⟩, ?_⟩,
      .inl rfl⟩
    exact .inl ((anchored_enabled job t).trans hoff)
  · rw [if_neg hoff]
    have hkept : (job.state.nextRunAtMs.filter fun n => 0 < n) = job.state.nextRunAtMs := by
      have hbehind := h.behind
      unfold Behind at hbehind
      cases hnext : job.state.nextRunAtMs with
      | none => rfl
      | some n =>
        rw [hnext] at hbehind
        have hpos : 0 < n := by omega
        rw [Option.filter_some, if_pos (decide_eq_true hpos)]
    refine ⟨⟨⟨h.failed.status, h.failed.start, h.failed.duration, h.failed.errors,
      h.failed.idle⟩, ?_⟩, .inr hkept⟩
    have hbehind := h.behind
    unfold Behind at hbehind ⊢
    simp only [hkept]
    cases hnext : job.state.nextRunAtMs with
    | none =>
      rw [hnext] at hbehind
      exact silent_anchored t hbehind
    | some n =>
      rw [hnext] at hbehind
      exact ⟨hbehind.1, hbehind.2.imp_right (natural_anchored t)⟩

/-- **One pass keeps the backoff.** -/
theorem Backed.pass {p : Pass} (h : Backed S job startedAt endedAt k t) (ht : t ≤ p.nowMs)
    (hbound : 0 < endedAt + errorBackoffMs k defaultErrorBackoffScheduleMs) :
    Backed S (runPass S job p) startedAt endedAt k p.nowMs := by
  have hnow : Backed S job startedAt endedAt k p.nowMs := ⟨h.failed, h.behind.mono ht⟩
  obtain ⟨hnormal, hnext⟩ := hnow.normalize hbound
  cases p with
  | full nowMs =>
    change Backed S (recomputeNextRuns S nowMs job) startedAt endedAt k nowMs
    change Backed S (normalizeJobTickState job nowMs).1 startedAt endedAt k nowMs at hnormal
    unfold recomputeNextRuns
    generalize normalizeJobTickState job nowMs = normal at hnormal ⊢
    have hrepair := not_repaired hnormal.failed hnormal.behind
    simp only [hrepair, Bool.or_false]
    split_ifs with hskip hdue
    · exact hnormal
    · refine hnormal.recompute fun n hn => ?_
      simp only [hn, Option.any_some, Bool.not_eq_true', Bool.and_eq_false_iff,
        decide_eq_false_iff_not] at hdue
      omega
    · exact hnormal
  | maintenance opts nowMs =>
    change Backed S (recomputeNextRunsForMaintenance S opts nowMs job) startedAt endedAt k nowMs
    change Backed S (normalizeJobTickState job nowMs).1 startedAt endedAt k nowMs at hnormal
    unfold recomputeNextRunsForMaintenance
    generalize normalizeJobTickState job nowMs = normal at hnormal ⊢
    have hrepair := not_repaired hnormal.failed hnormal.behind
    simp only [hrepair, Bool.and_false, Bool.false_eq_true, if_false]
    split_ifs with hskip hmissing hexpired hexecuted
    · exact hnormal
    · refine hnormal.recompute fun n hn => ?_
      simp only [hasScheduledNextRunAtMs, hn, Option.any_some, Bool.not_eq_true',
        decide_eq_false_iff_not] at hmissing
      omega
    · refine hnormal.recompute fun n hn => ?_
      simp only [hn, Option.any_some, Bool.and_eq_true, decide_eq_true_eq] at hexpired
      exact hexpired.1.2
    · exact hnormal
    · exact hnormal

/-- **Every sequence of passes keeps it.** -/
theorem Backed.passes {passes : List Pass} (h : Backed S job startedAt endedAt k t)
    (horder : (t :: passes.map Pass.nowMs).IsChain (· ≤ ·))
    (hbound : 0 < endedAt + errorBackoffMs k defaultErrorBackoffScheduleMs) :
    ∃ t', Backed S (passes.foldl (runPass S) job) startedAt endedAt k t' := by
  induction passes generalizing job t with
  | nil => exact ⟨t, h⟩
  | cons p passes ih =>
    rw [List.map_cons, List.isChain_cons_cons] at horder
    obtain ⟨ht, hrest⟩ := horder
    exact ih (h.pass ht hbound) hrest

end Steps

theorem recordRun_failed {result : RunResult} (hstatus : result.status = .error) :
    Failed (recordRun job result) result.startedAt result.endedAt
      (job.state.consecutiveErrors.getD 0 + 1) := by
  refine ⟨?_, rfl, rfl, ?_, rfl⟩
  · exact congrArg some hstatus
  · exact if_pos hstatus

/-- **A failed run is put behind its backoff**, as far as recomputation does not wait less. -/
theorem applyJobResult_backed {result : RunResult} {k : ℕ} (preserveSchedule : Bool)
    (hstatus : result.status = .error) (hk : job.state.consecutiveErrors.getD 0 + 1 = k)
    (htable : errorBackoffMs k defaultErrorBackoffScheduleMs ≤
      errorBackoffMs k (backoffTable S)) :
    Backed S (applyJobResult S job result preserveSchedule) result.startedAt result.endedAt k
      result.endedAt := by
  have hfailed : Failed (recordRun job result) result.startedAt result.endedAt k :=
    hk ▸ recordRun_failed hstatus
  have hbackoff : (recordRun job result).state.consecutiveErrors.getD 1 = k := by
    rw [hfailed.errors]
    rfl
  unfold applyJobResult
  by_cases hoff : job.enabled = false
  · have hrecorded : (recordRun job result).enabled = false := hoff
    rw [if_pos hrecorded]
    exact ⟨⟨hfailed.status, hfailed.start, hfailed.duration, hfailed.errors, hfailed.idle⟩,
      .inl hrecorded⟩
  · have hrecorded : ¬(recordRun job result).enabled = false := hoff
    rw [if_neg hrecorded]
    cases hs : job.schedule with
    | every everyMs anchorMs =>
      simp only [hstatus]
      generalize computeJobNextRunAtMs S _ result.endedAt = computed
      cases computed with
      | error e =>
        refine ⟨⟨hfailed.status, hfailed.start, hfailed.duration, hfailed.errors, hfailed.idle⟩,
          ?_, .inr (natural_every hs _)⟩
        show _ ≤ result.endedAt + errorBackoffMs
          ((recordRun job result).state.consecutiveErrors.getD 1) defaultErrorBackoffScheduleMs
        rw [hbackoff]
      | ok next =>
        refine ⟨⟨hfailed.status, hfailed.start, hfailed.duration, hfailed.errors, hfailed.idle⟩,
          ?_, .inr (natural_every hs _)⟩
        simp only [hbackoff]
        cases next with
        | none => exact le_rfl
        | some n => exact le_max_right n _
    | cron expr staggerMs resolved =>
      simp only [hstatus]
      have hspec := compute_spec S (recordRun job result) result.endedAt
      generalize computeJobNextRunAtMs S (recordRun job result) result.endedAt = computed
        at hspec ⊢
      cases computed with
      | error e =>
        refine ⟨⟨hfailed.status, hfailed.start, hfailed.duration, hfailed.errors, hfailed.idle⟩, ?_⟩
        rcases hspec with hspec | hspec
        · exact absurd hspec hrecorded
        · exact .inr hspec
      | ok next =>
        refine ⟨⟨hfailed.status, hfailed.start, hfailed.duration, hfailed.errors, hfailed.idle⟩, ?_⟩
        cases next with
        | none => exact hspec
        | some n =>
          obtain ⟨-, hnatural, -⟩ := hspec
          have hfloor : result.endedAt + errorBackoffMs k defaultErrorBackoffScheduleMs ≤
              result.startedAt + (result.endedAt - result.startedAt) +
                errorBackoffMs (max 1 k) (backoffTable S) := by
            rw [show max 1 k = k by omega]
            omega
          refine behind_max n ?_ hnatural (le_max_right n _) hfloor
          show some (max n (result.endedAt + errorBackoffMs
            ((recordRun job result).state.consecutiveErrors.getD 1)
              defaultErrorBackoffScheduleMs)) = _
          rw [hbackoff]

def everySecond : CronRuns where
  slot n := n % 1000 = 0
  nextRun t := some ((t / 1000 + 1) * 1000)
  previousRun t := if t = 0 then none else some ((t - 1) / 1000 * 1000)
  next_slot t n h := by
    obtain rfl := Option.some.inj h
    refine ⟨by omega, by omega, fun m hm ht => by omega⟩
  next_none t h := by cases h
  previous_slot t n h := by
    by_cases hzero : t = 0
    · rw [if_pos hzero] at h
      cases h
    · rw [if_neg hzero] at h
      obtain rfl := Option.some.inj h
      refine ⟨by omega, by omega, fun m hm ht => by omega⟩
  previous_none t h := by
    by_cases hzero : t = 0
    · intro m hm
      omega
    · rw [if_neg hzero] at h
      cases h

/-- An agent's job each second, before its `k`-th error. -/
def secondly (k : ℕ) : CronJob where
  id := "job"
  schedule := .cron "* * * * * *" (some 0) (.runs everySecond)
  payload := .agentTurn
  state := { consecutiveErrors := some (k - 1) }

def secondlyFailed (S : Service) (k : ℕ) : CronJob :=
  applyJobResult S (secondly k) ⟨.error, 1, 1⟩ false

theorem default_seconds (k : ℕ) :
    ∃ q, 30 ≤ q ∧ errorBackoffMs k defaultErrorBackoffScheduleMs = 1000 * q := by
  have hindex : min (k - 1) 4 ≤ 4 := Nat.min_le_right (k - 1) 4
  unfold errorBackoffMs defaultErrorBackoffScheduleMs
  show ∃ q, 30 ≤ q ∧ List.getD _ (min (k - 1) 4) _ = 1000 * q
  generalize min (k - 1) 4 = i at hindex
  interval_cases i
  · exact ⟨30, by omega, rfl⟩
  · exact ⟨60, by omega, rfl⟩
  · exact ⟨300, by omega, rfl⟩
  · exact ⟨900, by omega, rfl⟩
  · exact ⟨3600, by omega, rfl⟩

section Secondly

variable {k : ℕ}

theorem secondly_next (hs : job.schedule = (secondly k).schedule) (t : ℕ) :
    computeStaggeredCronNextRunAtMs S job t = .ok (some ((t / 1000 + 1) * 1000)) := by
  have hoffset : offsetOf S job = 0 := by
    unfold offsetOf
    rw [hs]
    simp [secondly, resolveStableCronOffsetMs, resolveCronStaggerMs]
  rw [staggeredNext_eq hs, hoffset]
  simp [everySecond]

theorem secondly_slot (hs : job.schedule = (secondly k).schedule) (t : ℕ) :
    isStaggeredCronRunAtMs S job t = .ok (decide (t / 1000 * 1000 = t)) := by
  have hoffset : offsetOf S job = 0 := by
    unfold offsetOf
    rw [hs]
    simp [secondly, resolveStableCronOffsetMs, resolveCronStaggerMs]
  unfold isStaggeredCronRunAtMs
  rw [staggeredPrevious_eq hs, hoffset]
  simp [everySecond, bind, Except.bind, pure, Except.pure]

theorem secondly_compute (hs : job.schedule = (secondly k).schedule) (hon : job.enabled = true)
    (t : ℕ) : computeJobNextRunAtMs S job t = .ok (some ((t / 1000 + 1) * 1000)) := by
  unfold computeJobNextRunAtMs
  rw [if_neg (by simp [hon]), hs]
  show (computeStaggeredCronNextRunAtMs S job t >>= _) = _
  rw [secondly_next hs]
  rfl

theorem secondlyFailed_eq (S : Service) (hk : 1 ≤ k) :
    secondlyFailed S k =
      { recordRun (secondly k) ⟨.error, 1, 1⟩ with state :=
        { (recordRun (secondly k) ⟨.error, 1, 1⟩).state with
          nextRunAtMs := some (1 + errorBackoffMs k defaultErrorBackoffScheduleMs) } } := by
  obtain ⟨q, hq, hdefault⟩ := default_seconds k
  have hcount : k - 1 + 1 = k := by omega
  have hlate : max 1000 (1 + errorBackoffMs k defaultErrorBackoffScheduleMs) =
      1 + errorBackoffMs k defaultErrorBackoffScheduleMs := max_eq_right (by omega)
  unfold secondlyFailed applyJobResult
  rw [if_neg (by simp [recordRun, secondly])]
  have hcompute : computeJobNextRunAtMs S (recordRun (secondly k) ⟨.error, 1, 1⟩) 1 =
      .ok (some ((1 / 1000 + 1) * 1000)) := secondly_compute (k := k) rfl rfl 1
  simp only [secondly] at hcompute ⊢
  rw [hcompute]
  simp [recordRun, resolveCronNextRunWithLowerBound, hcount, hlate]

theorem secondlyFailed_next (S : Service) (hk : 1 ≤ k) :
    (secondlyFailed S k).state.nextRunAtMs =
      some (1 + errorBackoffMs k defaultErrorBackoffScheduleMs) := by
  rw [secondlyFailed_eq S hk]

theorem secondlyFailed_schedule (S : Service) (hk : 1 ≤ k) :
    (secondlyFailed S k).schedule = (secondly k).schedule := by
  rw [secondlyFailed_eq S hk]
  rfl

theorem secondlyFailed_failed (S : Service) (hk : 1 ≤ k) : Failed (secondlyFailed S k) 1 1 k := by
  have hcount : k - 1 + 1 = k := by omega
  rw [secondlyFailed_eq S hk]
  exact ⟨rfl, rfl, rfl, congrArg some hcount, rfl⟩

/-- **The repair takes the end of the default backoff for a stray run.** -/
theorem secondly_repaired (hk : 1 ≤ k)
    (h : errorBackoffMs k (backoffTable S) < errorBackoffMs k defaultErrorBackoffScheduleMs) :
    shouldRepairFutureCronNextRunAtMs S (secondlyFailed S k) 1 = true := by
  have hs := secondlyFailed_schedule S hk
  have hnext := secondlyFailed_next S hk
  have hfailed := secondlyFailed_failed S hk
  obtain ⟨q, hq, hdefault⟩ := default_seconds k
  rw [hdefault] at h hnext
  generalize secondlyFailed S k = failed at hs hnext hfailed ⊢
  have hpending : isPendingErrorBackoffSlot S failed (1 + 1000 * q) 1 = false := by
    unfold isPendingErrorBackoffSlot
    rw [hfailed.status, hfailed.start]
    have hmax : max 1 k = k := by omega
    simp only [hfailed.errors, hfailed.duration, Option.getD_some, hmax, Bool.and_eq_false_iff,
      decide_eq_false_iff_not]
    omega
  have hoff : ¬(1 + 1000 * q) / 1000 * 1000 = 1 + 1000 * q := by omega
  have hstray : strayFutureRun S failed (1 + 1000 * q) 1 = .ok true := by
    -- the run is 30 s ahead or more, and the slots are one second apart
    have hlate : ¬1 + 1000 * q < 1000 := by omega
    have hlater : ¬1 + 1000 * q = 1000 := by omega
    have hstale : 3000 ≤ 1 + 1000 * q := by omega
    unfold strayFutureRun
    simp [secondly_next hs, secondly_slot hs, bind, Except.bind, pure, Except.pure, hoff, hlate,
      hlater, hstale]
  unfold shouldRepairFutureCronNextRunAtMs
  rw [hs, hnext]
  have hahead : ¬(1 + 1000 * q = 0 ∨ 1 + 1000 * q ≤ 1 ∨ failed.state.runningAtMs.isSome) := by
    rw [hfailed.idle]
    simp only [Option.isSome_none, Bool.false_eq_true, or_false]
    omega
  show (if _ then _ else _) = true
  rw [if_neg hahead, hpending, hstray]
  rfl

theorem secondlyFailed_normal (S : Service) (hk : 1 ≤ k) :
    normalizeJobTickState (secondlyFailed S k) 1 = (secondlyFailed S k, false) := by
  rw [secondlyFailed_eq S hk]
  simp [normalizeJobTickState, recordRun, secondly]

/-- **One pass then shortens the backoff.** -/
theorem secondly_shortened (hk : 1 ≤ k)
    (h : errorBackoffMs k (backoffTable S) < errorBackoffMs k defaultErrorBackoffScheduleMs) :
    (runPass S (secondlyFailed S k) (.full 1)).state.nextRunAtMs =
      some (max 1000 (1 + errorBackoffMs k (backoffTable S))) := by
  have hfailed := secondlyFailed_failed S hk
  have hfloor : recomputeFloor S (secondlyFailed S k) = 1 + errorBackoffMs k (backoffTable S) := by
    have hmax : max 1 k = k := by omega
    unfold recomputeFloor
    rw [hfailed.status, hfailed.start, hfailed.errors]
    simp only [Option.getD_some, hmax]
  have hon : (secondlyFailed S k).enabled = true := by
    rw [secondlyFailed_eq S hk]
    rfl
  have hcompute := secondly_compute (S := S) (secondlyFailed_schedule S hk) hon 1
  show (recomputeNextRuns S 1 (secondlyFailed S k)).state.nextRunAtMs = _
  unfold recomputeNextRuns
  rw [secondlyFailed_normal S hk]
  simp only [secondly_repaired hk h, Bool.or_true, Bool.false_eq_true, if_true, if_false]
  unfold recomputeJobNextRunAtMs
  rw [hcompute, ← hfloor]
  rfl

end Secondly

/-- After the `k`-th consecutive error of a recurring job no sequence of passes at times that do
not go back brings the next run before the end of the backoff. -/
def NeverShortened (S : Service) (k : ℕ) : Prop :=
  ∀ (job : CronJob) (result : RunResult) (preserveSchedule : Bool) (passes : List Pass),
    result.status = .error → job.state.consecutiveErrors.getD 0 + 1 = k →
    (result.endedAt :: passes.map Pass.nowMs).IsChain (· ≤ ·) →
    ∀ n, (passes.foldl (runPass S)
        (applyJobResult S job result preserveSchedule)).state.nextRunAtMs = some n →
      result.endedAt + errorBackoffMs k defaultErrorBackoffScheduleMs ≤ n

/-- **The backoff of the `k`-th error is never shortened exactly when the table that
recomputation takes does not give it less than the default one.** -/
theorem neverShortened_iff (S : Service) {k : ℕ} (hk : 1 ≤ k) :
    NeverShortened S k ↔
      errorBackoffMs k defaultErrorBackoffScheduleMs ≤ errorBackoffMs k (backoffTable S) := by
  obtain ⟨q, hq, hdefault⟩ := default_seconds k
  constructor
  · intro hnever
    by_contra hless
    have hshort := secondly_shortened hk (not_le.mp hless)
    have hcount : k - 1 + 1 = k := by omega
    have horder : [1, 1].IsChain (· ≤ ·) := by simp
    have hbound : 1 + errorBackoffMs k defaultErrorBackoffScheduleMs ≤
        max 1000 (1 + errorBackoffMs k (backoffTable S)) :=
      hnever (secondly k) ⟨.error, 1, 1⟩ false [.full 1] rfl hcount horder _ hshort
    omega
  · intro htable job result preserveSchedule passes hstatus hcount horder n hnext
    have hresult := applyJobResult_backed preserveSchedule hstatus hcount htable
    have hbound : 0 < result.endedAt + errorBackoffMs k defaultErrorBackoffScheduleMs := by omega
    obtain ⟨t, hbacked⟩ := hresult.passes horder hbound
    have hbehind := hbacked.behind
    unfold Behind at hbehind
    rw [hnext] at hbehind
    exact hbehind.1

theorem default_neverShortened : NeverShortened ⟨fun _ => 0, none⟩ 1 :=
  (neverShortened_iff ⟨fun _ => 0, none⟩ (by decide)).mpr le_rfl

theorem retry_shortens : ¬NeverShortened ⟨fun _ => 0, some [1000]⟩ 3 := by
  intro hnever
  have hshort := secondly_shortened (S := ⟨fun _ => 0, some [1000]⟩) (k := 3) (by decide)
    (by decide)
  have horder : [1, 1].IsChain (· ≤ ·) := by simp
  have hbound := hnever (secondly 3) ⟨.error, 1, 1⟩ false [.full 1] rfl rfl horder _ hshort
  revert hbound
  decide

end ClawHarder.Cron
