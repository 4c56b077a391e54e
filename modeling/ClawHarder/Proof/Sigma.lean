import ClawHarder.Spec.Sigma

/-!
# What the sigma handshake lets through

* `validate_exact_iff`: **when the validation of a resource snapshot is exact.**
* `logical_step_iff`: **when a changed variable passes as a logical step.**
* `converged_iff`, `guarded_iff`: **when a commit is guarded**: the turn is refused, or the
  snapshot has no violation and does not empty the held allocations.
-/

namespace ClawHarder.Sigma

open PyText (lit)

variable {h : Host}

def limitOf (snapshot : DomainSnapshot) (working : WorkingState) : ℚ :=
  snapshot.rawData.limitPerProcess.getD working.limitPerAllocation

def Drifts (snapshot : DomainSnapshot) (working : WorkingState) : Prop :=
  ∃ stated, snapshot.rawData.availableMemoryStated = some stated ∧
    stated ≠ computedAvailable snapshot.vars working

/-- The validation returns, and reports a drift exactly when there is one and every allocation
above the limit. -/
def Exact (h : Host) (snapshot : DomainSnapshot) (working : WorkingState) : Prop :=
  ∃ violations after, validateSnapshot h snapshot working = .ok (violations, after) ∧
    ((∃ v ∈ violations, lit "Arithmetic Drift" <+: v) ↔ Drifts snapshot working) ∧
    ∀ e ∈ snapshot.vars.entries, limitOf snapshot working < e.2 →
      breachText h e.1 e.2 (limitOf snapshot working) ∈ violations

theorem arithmeticCheck_eq (snapshot : DomainSnapshot) (working : WorkingState) :
    arithmeticCheck h snapshot working =
      if ∃ stated, snapshot.rawData.availableMemoryStated = some stated ∧
          1 / 100 ≤ |stated - computedAvailable snapshot.vars working| then
        .error (.name (lit "pid"))
      else .ok [] := by
  unfold arithmeticCheck
  cases hstated : snapshot.rawData.availableMemoryStated with
  | none => simp
  | some stated =>
    by_cases hfar : 1 / 100 ≤ |stated - computedAvailable snapshot.vars working|
    · rw [if_pos ⟨stated, rfl, hfar⟩]
      exact if_pos hfar
    · rw [if_neg fun ⟨_, heq, hfar'⟩ => hfar (Option.some.inj heq ▸ hfar')]
      exact if_neg hfar

theorem validateSnapshot_ok {snapshot after : DomainSnapshot} {working : WorkingState}
    {violations : List PyText}
    (hok : validateSnapshot h snapshot working = .ok (violations, after)) :
    (∀ stated, snapshot.rawData.availableMemoryStated = some stated →
      |stated - computedAvailable snapshot.vars working| < 1 / 100) ∧
      ∀ v ∈ violations, v = spectralText := by
  unfold validateSnapshot at hok
  rw [arithmeticCheck_eq] at hok
  split at hok
  · cases hok
  · rename_i hnear
    refine ⟨fun stated hstated => not_le.1 fun hfar => hnear ⟨stated, hstated, hfar⟩, ?_⟩
    intro v hv
    simp only [bind, Except.bind, List.nil_append] at hok
    split at hok
    · cases hok
      exact List.mem_singleton.1 hv
    · cases hok
      cases hv

theorem validateSnapshot_returns {snapshot : DomainSnapshot} {working : WorkingState}
    (hnone : ¬Drifts snapshot working) :
    ∃ violations after, validateSnapshot h snapshot working = .ok (violations, after) := by
  have hcheck : arithmeticCheck h snapshot working = .ok [] := by
    rw [arithmeticCheck_eq]
    refine if_neg ?_
    rintro ⟨stated, hstated, hfar⟩
    refine hnone ⟨stated, hstated, fun heq => ?_⟩
    rw [heq, sub_self, abs_zero] at hfar
    exact absurd hfar (by decide +kernel)
  unfold validateSnapshot
  rw [hcheck]
  simp only [bind, Except.bind]
  split
  · exact ⟨_, _, rfl⟩
  · exact ⟨_, _, rfl⟩

/-- **The validation is exact when the stated total is the computed one, or none is stated, and
no allocation is above the limit; otherwise it is not.** -/
theorem validate_exact_iff (h : Host) (snapshot : DomainSnapshot) (working : WorkingState) :
    Exact h snapshot working ↔
      (∀ stated, snapshot.rawData.availableMemoryStated = some stated →
        stated = computedAvailable snapshot.vars working) ∧
      ∀ e ∈ snapshot.vars.entries, e.2 ≤ limitOf snapshot working := by
  have hdrift : ¬(lit "Arithmetic Drift" <+: spectralText) := by decide
  have hbreach : ∀ pid val limit, breachText h pid val limit ≠ spectralText := by
    intro pid val limit heq
    have hleft : (breachText h pid val limit).head? = some (PyText.codePoint 'L') := rfl
    have hright : spectralText.head? = some (PyText.codePoint 'S') := rfl
    rw [heq, hright] at hleft
    exact absurd hleft (by decide)
  constructor
  · rintro ⟨violations, after, hok, hreport, hlimits⟩
    obtain ⟨-, hspectral⟩ := validateSnapshot_ok hok
    have hsilent : ¬∃ v ∈ violations, lit "Arithmetic Drift" <+: v := by
      rintro ⟨v, hv, hpre⟩
      exact hdrift (hspectral v hv ▸ hpre)
    refine ⟨fun stated hstated => ?_, fun e he => ?_⟩
    · by_contra hne
      exact hsilent (hreport.2 ⟨stated, hstated, hne⟩)
    · by_contra hlt
      exact hbreach _ _ _ (hspectral _ (hlimits e he (not_le.1 hlt)))
  · rintro ⟨htotal, hlimits⟩
    have hnone : ¬Drifts snapshot working :=
      fun ⟨stated, hstated, hne⟩ => hne (htotal stated hstated)
    obtain ⟨violations, after, hok⟩ := validateSnapshot_returns (h := h) hnone
    obtain ⟨-, hspectral⟩ := validateSnapshot_ok hok
    refine ⟨violations, after, hok, iff_of_false ?_ hnone, fun e he hlt => ?_⟩
    · rintro ⟨v, hv, hpre⟩
      exact hdrift (hspectral v hv ▸ hpre)
    · exact absurd hlt (not_lt.2 (hlimits e he))

def Changed (curr prev : Variables) : Prop :=
  ∃ k v w, curr.get? k = some v ∧ prev.get? k = some w ∧ v ≠ w

/-- Nothing in the turn speaks for a change: no intent, no valid truth, no marker. -/
structure Unsupported (h : Host) (curr : ExecutionSnapshot) : Prop where
  intent : hasWord mutationIntentKeywords (h.lower curr.rawMonologue) = false
  truth : curr.validTruth = false
  marker : hasWord backtrackKeywords (h.lower curr.rawMonologue) = false

theorem mem_keys_of_get? {m : Variables} {k : PyText} {v : ℚ} (hk : m.get? k = some v) :
    k ∈ m.keys := OrderedMap.mem_keys.2 ⟨v, hk⟩

theorem isConsistent_of_changed {curr prev : Variables} (hchanged : Changed curr prev) :
    isConsistent curr prev = false := by
  obtain ⟨k, v, w, hv, hw, hne⟩ := hchanged
  have hcontains : curr.contains k = true := by
    unfold OrderedMap.contains
    rw [hv]
    rfl
  have hdiffer : decide (curr.get? k = prev.get? k) = false := by
    rw [hv, hw]
    exact decide_eq_false fun heq => hne (Option.some.inj heq)
  have hall : (prev.keys.all fun k => !curr.contains k || decide (curr.get? k = prev.get? k)) =
      false := by
    rw [List.all_eq_false]
    exact ⟨k, mem_keys_of_get? hw, by rw [hcontains, hdiffer]; decide⟩
  unfold isConsistent
  rw [hall, Bool.and_false]

/-- **A changed variable that nothing supports passes as a logical step exactly when the
snapshot adds a variable, or the hashes of the two maps agree.** -/
theorem logical_step_iff {curr prev : ExecutionSnapshot} (hchanged : Changed curr.vars prev.vars)
    (hunsupported : Unsupported h curr) :
    classifyTransition h curr prev = .logicalStep ↔
      isGrowth curr.vars prev.vars = true ∨ h.varsHash curr.vars = h.varsHash prev.vars := by
  have hsome : curr.vars.keys.isEmpty = false := by
    obtain ⟨k, v, -, hv, -, -⟩ := hchanged
    exact List.isEmpty_eq_false_iff.2 (List.ne_nil_of_mem (mem_keys_of_get? hv))
  have hconsistent := isConsistent_of_changed hchanged
  unfold classifyTransition
  simp only [hsome, hunsupported.marker, hunsupported.intent, hconsistent, Bool.false_eq_true,
    false_and, and_false, if_false, or_false]
  by_cases hgrowth : isGrowth curr.vars prev.vars = true
  · simp [hgrowth]
  · by_cases hhash : h.varsHash curr.vars = h.varsHash prev.vars
    · simp [hgrowth, hhash]
    · simp [hgrowth, hhash]

structure Sound (allocations : Variables) (snapshot : ExecutionSnapshot) : Prop where
  violations : snapshot.violations = []
  complete : ¬allocations.keys.isEmpty → ¬snapshot.vars.keys.isEmpty

inductive Refused (h : Host) (featureFlag : Bool) (snapshot : ExecutionSnapshot)
    (state : RuntimeState) (monologue : PyText) (prevScore : ℚ) : Prop
  /-- the signal strength rejects it -/
  | signal : featureFlag = true →
    (h.signalStrength monologue (adjudicatedDomain h snapshot state monologue).1 prevScore
      (adjudicatedDomain h snapshot state monologue).2).outcome = .reject →
    Refused h featureFlag snapshot state monologue prevScore
  /-- the monologue has a denied pattern -/
  | denied (p : String) : p ∈ denyPatterns → h.search p monologue = true →
    Refused h featureFlag snapshot state monologue prevScore
  /-- a violation has one of the words that are looked for -/
  | marked (v : PyText) : v ∈ snapshot.violations →
    hasWord ["DENY", "Failure", "Violation"] v = true →
    Refused h featureFlag snapshot state monologue prevScore
  /-- neither variables nor metadata in a domain that needs them -/
  | collapsed :
    collapses h snapshot state (adjudicatedDomain h snapshot state monologue).1 = true →
    Refused h featureFlag snapshot state monologue prevScore

def Admits (o : SigmaOutcome) : Prop := o = .pass ∨ o = .warn

theorem admits_signalLayer (s : SignalStrength) :
    Admits (signalLayer h s).outcome ↔ s.outcome ≠ .reject := by
  unfold signalLayer Admits
  cases s.outcome <;> simp

theorem admits_syntacticLayer (monologue : PyText) (f : Findings) :
    Admits (syntacticLayer h monologue f).outcome ↔
      Admits f.outcome ∧ ∀ p ∈ denyPatterns, h.search p monologue = false := by
  unfold syntacticLayer
  by_cases hfound : (denyPatterns.filter fun p => h.search p monologue) = []
  · have hnone := List.filter_eq_nil_iff.1 hfound
    simp only [hfound, List.isEmpty_nil, if_true]
    exact ⟨fun hf => ⟨hf, fun p hp => by simpa using hnone p hp⟩, fun hf => hf.1⟩
  · have hsome : (denyPatterns.filter fun p => h.search p monologue).isEmpty = false :=
      List.isEmpty_eq_false_iff.2 hfound
    simp only [hsome, Bool.false_eq_true, if_false]
    refine iff_of_false (by unfold Admits; simp) ?_
    rintro ⟨-, hnone⟩
    exact hfound (List.filter_eq_nil_iff.2 fun p hp => by simp [hnone p hp])

theorem admits_violationLayer (violations : List PyText) (f : Findings) :
    Admits (violationLayer violations f).outcome ↔
      Admits f.outcome ∧ ∀ v ∈ violations, hasWord ["DENY", "Failure", "Violation"] v = false := by
  unfold violationLayer
  by_cases hmarked : (violations.any fun v => hasWord ["DENY", "Failure", "Violation"] v) = true
  · rw [if_pos hmarked]
    obtain ⟨v, hv, hword⟩ := List.any_eq_true.1 hmarked
    refine iff_of_false (by unfold Admits; simp) ?_
    rintro ⟨-, hnone⟩
    exact absurd (hnone v hv) (by simp [hword])
  · rw [if_neg hmarked]
    have hnone := List.any_eq_false.1 (Bool.not_eq_true _ ▸ hmarked)
    exact ⟨fun hf => ⟨hf, fun v hv => by simpa using hnone v hv⟩, fun hf => hf.1⟩

theorem admits_completenessLayer (snapshot : ExecutionSnapshot) (state : RuntimeState)
    (domain : PyText) (f : Findings) :
    Admits (completenessLayer h snapshot state domain f).outcome ↔
      Admits f.outcome ∧ collapses h snapshot state domain = false := by
  unfold completenessLayer
  by_cases hcollapse : collapses h snapshot state domain = true
  · rw [if_pos hcollapse]
    refine iff_of_false ?_ (by simp [hcollapse])
    unfold Admits
    split <;> simp
  · rw [if_neg hcollapse]
    have hnone := Bool.not_eq_true _ ▸ hcollapse
    exact ⟨fun hf => ⟨hf, hnone⟩, fun hf => hf.1⟩

/-- **An evaluation converges exactly when nothing refuses the snapshot.** -/
theorem converged_iff (featureFlag : Bool) (snapshot : ExecutionSnapshot) (state : RuntimeState)
    (monologue : PyText) (prevScore : ℚ) :
    (evaluate h featureFlag snapshot state monologue prevScore).converged = true ↔
      ¬Refused h featureFlag snapshot state monologue prevScore := by
  have hlayers : (evaluate h featureFlag snapshot state monologue prevScore).converged = true ↔
      Admits (completenessLayer h snapshot state (adjudicatedDomain h snapshot state monologue).1
        (violationLayer snapshot.violations (syntacticLayer h monologue
          (((if featureFlag then some (h.signalStrength monologue
              (adjudicatedDomain h snapshot state monologue).1 prevScore
              (adjudicatedDomain h snapshot state monologue).2) else none).map
            (signalLayer h)).getD {})))).outcome := decide_eq_true_iff
  rw [hlayers, admits_completenessLayer, admits_violationLayer, admits_syntacticLayer]
  constructor
  · rintro ⟨⟨⟨hsignal, hdeny⟩, hmarked⟩, hcollapse⟩ hrefused
    cases hrefused with
    | signal hflag hreject =>
      rw [if_pos hflag] at hsignal
      exact (admits_signalLayer _).1 hsignal hreject
    | denied p hp hfound => exact absurd (hdeny p hp) (by simp [hfound])
    | marked v hv hword => exact absurd (hmarked v hv) (by simp [hword])
    | collapsed hall => exact absurd hcollapse (by simp [hall])
  · intro hrefused
    refine ⟨⟨⟨?_, fun p hp => ?_⟩, fun v hv => ?_⟩, ?_⟩
    · by_cases hflag : featureFlag = true
      · rw [if_pos hflag]
        exact (admits_signalLayer _).2 fun hreject => hrefused (.signal hflag hreject)
      · rw [if_neg hflag]
        exact .inl rfl
    · exact Bool.eq_false_iff.2 fun hfound => hrefused (.denied p hp hfound)
    · exact Bool.eq_false_iff.2 fun hword => hrefused (.marked v hv hword)
    · exact Bool.eq_false_iff.2 fun hall => hrefused (.collapsed hall)

def Guarded (h : Host) (rt : Runtime) (snapshot : ExecutionSnapshot) (monologue : PyText) : Prop :=
  ∀ committed after, adjudicate h rt snapshot monologue = .committed committed after →
    Sound rt.state.working.allocations committed

/-- **A commit is guarded exactly when the snapshot is refused or sound.** -/
theorem guarded_iff (h : Host) (rt : Runtime) (snapshot : ExecutionSnapshot)
    (monologue : PyText) :
    Guarded h rt snapshot monologue ↔
      Refused h rt.featureFlag snapshot rt.evalState monologue rt.lastScore ∨
        Sound rt.state.working.allocations snapshot := by
  have hconverged := converged_iff (h := h) rt.featureFlag snapshot rt.evalState monologue
    rt.lastScore
  unfold Guarded adjudicate
  by_cases hrefused : Refused h rt.featureFlag snapshot rt.evalState monologue rt.lastScore
  · refine iff_of_true (fun committed after heq => ?_) (.inl hrefused)
    simp only [Bool.eq_false_iff.2 fun hc => hconverged.1 hc hrefused] at heq
    cases heq
  · simp only [hconverged.2 hrefused, if_true]
    constructor
    · exact fun hall => .inr (hall _ _ rfl)
    · rintro (hr | hsound) committed after heq
      · exact absurd hr hrefused
      · cases heq
        exact hsound

/-- A host in which nothing is searched for and every number is its fraction. -/
def sampleHost : Host where
  numText q := lit (toString q)
  fixed2 q := lit (toString q)
  lower := PyText.lower
  search _ _ := false
  varsHash vars := (vars.entries.map fun e => e.1 ++ lit ":" ++ lit (toString e.2)).flatten
  project vals := vals
  signalStrength _ _ _ _ := ⟨.pass, false, 0, 0⟩
  extractResources _ := { rawData := { limitPerProcess := some 20 } }
  codeExecution := ⟨fun _ _ => {}, fun _ _ => .ok []⟩
  refactorVerification := ⟨fun _ _ => {}, fun _ _ => .ok []⟩
  trusted _ := true

def oneProcess (val : ℚ) : Variables := ⟨[(lit "P1", val)], by simp⟩

def sampleWorking : WorkingState := ⟨lit "resource_allocation", oneProcess 35, 40, 100⟩

def misstated : DomainSnapshot :=
  { vars := oneProcess 35, rawData := { availableMemoryStated := some 50 } }

theorem misstated_raises : ¬Exact sampleHost misstated sampleWorking := by
  rintro ⟨violations, after, hok, -⟩
  have hnear := (validateSnapshot_ok hok).1 50 rfl
  exact absurd hnear (by decide +kernel)

def silentSnapshot (vars : Variables) : ExecutionSnapshot :=
  ⟨1, vars, false, [], .initialStep, lit "Done.", lit "resource_allocation", {}⟩

theorem rewritten_process :
    classifyTransition sampleHost (silentSnapshot (oneProcess 50))
        (silentSnapshot (oneProcess 35)) = .logicalStep ↔
      isGrowth (oneProcess 50) (oneProcess 35) = true ∨
        sampleHost.varsHash (oneProcess 50) = sampleHost.varsHash (oneProcess 35) :=
  logical_step_iff ⟨lit "P1", 50, 35, by decide +kernel, by decide +kernel, by decide +kernel⟩
    ⟨by decide +kernel, rfl, by decide +kernel⟩

def twoProcesses : Variables := ⟨[(lit "P1", 50), (lit "P2", 10)], by decide⟩

theorem growth_masks_change :
    ¬∀ curr prev : ExecutionSnapshot, Changed curr.vars prev.vars → Unsupported sampleHost curr →
      classifyTransition sampleHost curr prev ≠ .logicalStep := by
  intro hall
  have hchanged : Changed twoProcesses (oneProcess 35) :=
    ⟨lit "P1", 50, 35, by decide +kernel, by decide +kernel, by decide +kernel⟩
  exact hall (silentSnapshot twoProcesses) (silentSnapshot (oneProcess 35)) hchanged
    ⟨by decide +kernel, rfl, by decide +kernel⟩ (by decide +kernel)

def heldRuntime : Runtime where
  cycle := 1
  state := ⟨sampleWorking, lit "standard", []⟩
  lastSnapshot := none
  lastValidState := none
  lastScore := 0
  featureFlag := false

def limitOnly : ExecutionSnapshot :=
  ⟨1, OrderedMap.empty, true, [], .initialStep, lit "Limit: 20%", lit "resource_allocation",
    { limitPerProcess := some 20 }⟩

theorem limit_empties_allocations :
    ¬Guarded sampleHost heldRuntime limitOnly (lit "Limit: 20%") := by
  intro hguarded
  have hconverged : (evaluate sampleHost false limitOnly heldRuntime.evalState (lit "Limit: 20%")
      0).converged = true := by decide +kernel
  have hcommit : adjudicate sampleHost heldRuntime limitOnly (lit "Limit: 20%") =
      .committed limitOnly (heldRuntime.commit limitOnly) := by
    unfold adjudicate
    simp only [show heldRuntime.featureFlag = false from rfl,
      show heldRuntime.lastScore = 0 from rfl, hconverged, if_true]
    rfl
  exact (hguarded _ _ hcommit).complete (by decide) (by decide)

example : extractResourceSnapshot sampleHost 1 (lit "Limit: 20%") sampleWorking none =
    .ok limitOnly := by rfl

end ClawHarder.Sigma
