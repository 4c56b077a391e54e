import ClawHarder.Spec.Commands

/-!
# Killswitch and execution mode

Where the runtime engages its killswitch it also falls back to plan mode, with two
exceptions: `set_posture` sets the mode of the posture with no look at the
killswitch, and the handlers of a failed cycle engage the killswitch and leave the
mode as it is. `Latches` says that neither is met.

* `contained_step_iff`: from a contained state, **a step leads out exactly when it
  does not latch**.
* `killswitch_contained`: **a run whose steps all latch is contained throughout**.
-/

namespace ClawHarder.Runtime

open Effectful Machine
open PyText (lit)

variable {H : Type} [DecidableEq H] {W : Surroundings H}

/-- While the killswitch is engaged, the execution mode is `plan`. -/
def Contained (r : RuntimeRuntime H) : Prop :=
  r.state.killswitchEngaged = true → r.state.executionMode = .plan

def RuntimeRuntime.Refuses (r : RuntimeRuntime H) : Prop :=
  r.anchor.known = false ∨ r.persisted.known = false ∨ r.persisted ≠ r.anchor

def Fault.Halts (f : Fault) : Prop :=
  f.hitl = false ∧ (f.repairAllowed = some false ∨ f.repairAllowed = none ∧ f.coroner ≠ none)

/-- The step does not leave execution on beside an engaged killswitch. -/
def Latches (r : RuntimeRuntime H) : Label H → Prop
  | .command (.setPosture name) =>
    ∀ p, Posture.named name = some p → r.state.killswitchEngaged = true →
      p.config.executionMode = .execute → p = .autonomous ∨ r.Refuses
  | .cycle (.fault f) => f.Halts → r.state.executionMode = .plan
  | _ => True

omit [DecidableEq H] in
theorem saved_not_refuses (r : RuntimeRuntime H) (h : H) :
    ¬ RuntimeRuntime.Refuses { r with
      persisted := .hash h, anchor := .hash h, log := r.log ++ [.gateStatePromoted] } := by
  rintro (hunknown | hunknown | hne)
  · exact Bool.noConfusion hunknown
  · exact Bool.noConfusion hunknown
  · exact hne rfl

theorem keeps_saveState {I : RuntimeRuntime H → Prop}
    (hsave : ∀ (r : RuntimeRuntime H) (h : H), I r →
      I { r with persisted := .hash h, anchor := .hash h, log := r.log ++ [.gateStatePromoted] })
    (hgate : ∀ (r : RuntimeRuntime H) (reason : PyText), I r → r.Refuses →
      I { r with state := { r.state with
        killswitchEngaged := true, killswitchReason := reason, executionMode := .plan } }) :
    Keeps I (saveState W) := by
  unfold saveState
  apply spec_get
  intro r hr
  apply spec_ite
  · intro h
    have hrefuses : r.Refuses := by
      rw [Bool.or_eq_true, Bool.not_eq_true', Bool.not_eq_true'] at h
      exact h.elim .inl (.inr ∘ .inl)
    intro s hs
    subst hs
    exact hgate _ _ hr hrefuses
  · intro h
    apply spec_ite
    · intro hne s hs
      subst hs
      exact hgate _ _ hr (.inr (.inr hne))
    · intro _
      apply spec_ite
      · intro _ s hs
        subst hs
        exact hr
      · intro _ s hs
        exact hsave r _ hr

omit [DecidableEq H] in
theorem keeps_plan {f : RuntimeState → RuntimeState} (h : ∀ s, (f s).executionMode = .plan) :
    Keeps (Contained (H := H)) (modifyState f) :=
  keeps_modify fun r _ _ => h r.state

omit [DecidableEq H] in
theorem keeps_aside {f : RuntimeState → RuntimeState}
    (h : ∀ s, (f s).killswitchEngaged = s.killswitchEngaged ∧
      (f s).executionMode = s.executionMode) :
    Keeps (Contained (H := H)) (modifyState f) := by
  apply keeps_modify
  intro r hr hengaged
  rw [(h r.state).1] at hengaged
  rw [(h r.state).2]
  exact hr hengaged

omit [DecidableEq H] in
theorem contained_emit (e : Event) : Keeps (Contained (H := H)) (emit e) :=
  keeps_modify fun _ hr => hr

theorem contained_saveState : Keeps (Contained (H := H)) (saveState W) :=
  keeps_saveState (fun _ _ hr => hr) fun _ _ _ _ _ => rfl

theorem contained_saveEmit (e : Event) :
    Keeps (Contained (H := H)) (do saveState W; emit e) :=
  keeps_bind contained_saveState fun _ => contained_emit e

theorem contained_requestTick : Keeps (Contained (H := H)) (requestTick W) := by
  apply spec_get
  intro r hr
  have hsave : Spec (fun s => s = r) (saveState W) (fun _ => Contained) (fun _ => Contained) :=
    contained_saveState.mono (fun s hs => hs ▸ hr) (fun _ _ h => h) (fun _ _ h => h)
  apply spec_ite
  · intro _
    exact spec_pure fun s hs => hs ▸ hr
  · intro _
    apply spec_ite
    · exact fun _ => hsave
    · intro _
      exact spec_pure fun s hs => hs ▸ hr

theorem contained_applyTickMode (mode : TickMode) :
    Keeps (Contained (H := H)) (applyTickMode W mode) := by
  refine keeps_bind (keeps_aside fun s => ⟨rfl, rfl⟩) fun _ => ?_
  apply keeps_bind contained_saveState
  intro _
  apply keeps_bind (contained_emit _)
  intro _
  exact keeps_ite (fun _ => keeps_pure _) fun _ => contained_requestTick

theorem contained_applyOperatorAuthority (authority : OperatorAuthority) :
    Keeps (Contained (H := H)) (applyOperatorAuthority W authority) :=
  keeps_bind (keeps_aside fun _ => ⟨rfl, rfl⟩) fun _ => contained_saveEmit _

theorem contained_applyGovernanceMode (mode : GovernanceMode) :
    Keeps (Contained (H := H)) (applyGovernanceMode W mode) := by
  refine keeps_bind (keeps_aside fun s => ⟨rfl, rfl⟩) fun _ => ?_
  apply keeps_bind contained_saveState
  intro _
  apply spec_get
  intro r hr
  exact (contained_emit _).mono (fun s hs => hs ▸ hr) (fun _ _ h => h) fun _ _ h => h

theorem contained_postureTail (name : Posture) : Keeps (Contained (H := H)) (do
    applyTickMode W name.config.tickMode
    applyOperatorAuthority W name.config.operatorAuthority
    applyGovernanceMode W name.config.governanceMode
    saveState W
    emit (.posture name)) := by
  apply keeps_bind (contained_applyTickMode _)
  intro _
  apply keeps_bind (contained_applyOperatorAuthority _)
  intro _
  apply keeps_bind (contained_applyGovernanceMode _)
  intro _
  exact contained_saveEmit _

theorem contained_engageKillswitch (reason : PyText) :
    Keeps (Contained (H := H)) (engageKillswitch W reason) := by
  apply keeps_bind (keeps_plan fun s => rfl)
  intro _
  apply keeps_bind
  · exact keeps_tryCatch contained_saveState fun _ => keeps_pure _
  · exact fun _ => contained_emit _

theorem contained_releaseKillswitch : Keeps (Contained (H := H)) (releaseKillswitch W) := by
  apply keeps_bind
  · exact keeps_modify fun r _ hengaged => absurd hengaged Bool.false_ne_true
  · exact fun _ => contained_saveEmit _

theorem contained_setExecutionMode (enabled : Bool) :
    Keeps (Contained (H := H)) (setExecutionMode W enabled) := by
  apply spec_get
  intro r hr
  apply spec_ite
  · intro _
    exact spec_bind (spec_modify fun _ _ _ => rfl) fun _ => contained_saveEmit _
  · intro hopen
    refine spec_bind (spec_modify fun s hs => ?_) fun _ => contained_saveEmit _
    subst hs
    intro hengaged
    cases enabled with
    | false => rfl
    | true => simp [show s.state.killswitchEngaged = true from hengaged] at hopen

theorem contained_applyPermissionMode (mode : PermissionMode) :
    Keeps (Contained (H := H)) (applyPermissionMode W mode) := by
  apply spec_get
  intro r hr
  apply spec_ite
  · exact fun _ => spec_throw fun s hs => hs ▸ hr
  · intro hopen
    refine spec_bind (spec_modify fun s hs => ?_) fun _ => contained_saveEmit _
    subst hs
    intro (hengaged : s.state.killswitchEngaged = true)
    cases mode with
    | buddy => rfl
    | task => exact if_pos hengaged
    | autonomous => simp [hengaged] at hopen

theorem refused_saveState :
    Spec (RuntimeRuntime.Refuses (H := H)) (saveState W) (fun _ _ => False) fun _ => Contained := by
  apply spec_get
  intro r hr
  apply spec_ite
  · exact fun _ s _ _ => rfl
  · intro hknown
    apply spec_ite
    · exact fun _ s _ _ => rfl
    · intro hsame
      rw [Bool.or_eq_true, Bool.not_eq_true', Bool.not_eq_true'] at hknown
      rcases hr with hr | hr | hr
      · exact absurd (.inl hr) hknown
      · exact absurd (.inr hr) hknown
      · exact absurd hr hsame

variable {r : RuntimeRuntime H}

theorem contained_applyPosture (hr : Contained r) {name : Posture}
    (h : r.state.killswitchEngaged = true → name.config.executionMode = .execute →
      name = .autonomous ∨ r.Refuses) :
    Contained (final (applyPosture W name) r) := by
  suffices Spec (fun s => s = r) (applyPosture W name) (fun _ => Contained) fun _ => Contained from
    this.final rfl
  apply spec_get
  intro s hs
  subst hs
  apply spec_ite
  · exact fun _ => spec_throw fun s hs => hs ▸ hr
  · intro hopen
    by_cases hbad : s.state.killswitchEngaged = true ∧ name.config.executionMode = .execute
    · have hrefuses : s.Refuses := by
        rcases h hbad.1 hbad.2 with rfl | hrefuses
        · simp [Posture.config, hbad.1] at hopen
        · exact hrefuses
      -- the first save of `set_tick_mode` is refused, and nothing after it runs
      have htick : Spec RuntimeRuntime.Refuses (applyTickMode W name.config.tickMode)
          (fun _ _ => False) fun _ => Contained :=
        spec_bind (spec_modify fun _ hs => hs) fun _ =>
          spec_bind refused_saveState fun _ _ hfalse => hfalse.elim
      exact spec_bind (spec_modify fun _ hs => hs ▸ hrefuses) fun _ =>
        spec_bind htick fun _ _ hfalse => hfalse.elim
    · refine spec_bind (spec_modify fun r hr' => ?_) fun _ => contained_postureTail name
      subst hr'
      intro (hengaged : r.state.killswitchEngaged = true)
      cases hmode : name.config.executionMode with
      | plan => rfl
      | execute => exact absurd ⟨hengaged, hmode⟩ hbad

/-- Execution beside an engaged killswitch, with saves that the Gate lets through. -/
def Breached (r : RuntimeRuntime H) : Prop :=
  r.state.killswitchEngaged = true ∧ r.state.executionMode = .execute ∧ ¬ r.Refuses

theorem breached_saveState : Keeps (Breached (H := H)) (saveState W) := by
  apply keeps_saveState
  · exact fun r h hr => ⟨hr.1, hr.2.1, saved_not_refuses r h⟩
  · exact fun r _ hr hrefuses => absurd hrefuses hr.2.2

theorem breached_saveEmit (e : Event) : Keeps (Breached (H := H)) (do saveState W; emit e) :=
  keeps_bind breached_saveState fun _ => keeps_modify fun _ hr => hr

theorem breached_applyTickMode (mode : TickMode) :
    Keeps (Breached (H := H)) (applyTickMode W mode) := by
  refine keeps_bind (keeps_modify fun r hr => hr) fun _ => ?_
  apply keeps_bind breached_saveState
  intro _
  refine keeps_bind (keeps_modify fun r hr => hr) fun _ => ?_
  apply keeps_ite (fun _ => keeps_pure _)
  intro _
  apply spec_get
  intro r hr
  apply spec_ite
  · exact fun _ => spec_pure fun s hs => hs ▸ hr
  · intro _
    apply spec_ite
    · exact fun _ => breached_saveState.mono (fun s hs => hs ▸ hr) (fun _ _ h => h) fun _ _ h => h
    · exact fun _ => spec_pure fun s hs => hs ▸ hr

theorem breached_postureTail (name : Posture) : Keeps (Breached (H := H)) (do
    applyTickMode W name.config.tickMode
    applyOperatorAuthority W name.config.operatorAuthority
    applyGovernanceMode W name.config.governanceMode
    saveState W
    emit (.posture name)) := by
  apply keeps_bind (breached_applyTickMode _)
  intro _
  apply keeps_bind
  · exact keeps_bind (keeps_modify fun r hr => hr) fun _ => breached_saveEmit _
  intro _
  apply keeps_bind
  · refine keeps_bind (keeps_modify fun r hr => hr) fun _ => ?_
    apply keeps_bind breached_saveState
    intro _
    exact spec_get fun r hr => spec_modify fun s hs => hs ▸ hr
  intro _
  exact breached_saveEmit _

theorem breached_applyPosture {name : Posture}
    (hengaged : r.state.killswitchEngaged = true) (hmode : name.config.executionMode = .execute)
    (hname : name ≠ .autonomous) (hgate : ¬ r.Refuses) :
    Breached (final (applyPosture W name) r) := by
  suffices Spec (fun s => s = r) (applyPosture W name) (fun _ => Breached) fun _ => Breached from
    this.final rfl
  apply spec_get
  intro s hs
  subst hs
  apply spec_ite
  · intro hraise
    cases name <;> simp [Posture.config] at hraise hname
  · intro _
    refine spec_bind (spec_modify fun r hr => ?_) fun _ => breached_postureTail name
    subst hr
    exact ⟨hengaged, hmode, hgate⟩

omit [DecidableEq H] in
theorem contained_fault (hr : Contained r) (f : Fault) :
    Contained (final (f.handle : Op H Unit) r) ↔ (f.Halts → r.state.executionMode = .plan) := by
  obtain ⟨exceptionType, hitl, repairAllowed, coroner⟩ := f
  cases hitl with
  | true =>
    refine iff_of_true ?_ fun h => ?_
    · exact (keeps_tryCatch (contained_emit _) fun _ => contained_emit _).final hr
    · exact Bool.noConfusion h.1
  | false =>
    cases repairAllowed with
    | none =>
      cases coroner with
      | none => exact iff_of_true hr fun h => by simp [Fault.Halts] at h
      | some _ => exact ⟨fun h _ => h rfl, fun h _ => h ⟨rfl, by simp⟩⟩
    | some allowed =>
      cases allowed with
      | true => exact iff_of_true (fun _ => rfl) fun h => by simp [Fault.Halts] at h
      | false => exact ⟨fun h _ => h rfl, fun h _ => h ⟨rfl, by simp⟩⟩

theorem contained_setTickMode (mode : PyText) : Keeps (Contained (H := H)) (setTickMode W mode) := by
  unfold setTickMode
  split
  · exact keeps_throw _
  · exact contained_applyTickMode _

theorem contained_setOperatorAuthority (authority : PyText) :
    Keeps (Contained (H := H)) (setOperatorAuthority W authority) := by
  unfold setOperatorAuthority
  split
  · exact keeps_throw _
  · exact contained_applyOperatorAuthority _

theorem contained_setGovernanceMode (mode : PyText) :
    Keeps (Contained (H := H)) (setGovernanceMode W mode) := by
  unfold setGovernanceMode
  split
  · exact keeps_throw _
  · exact contained_applyGovernanceMode _

theorem contained_setPermissionMode (mode : PyText) :
    Keeps (Contained (H := H)) (setPermissionMode W mode) := by
  unfold setPermissionMode
  split
  · exact keeps_throw _
  · exact contained_applyPermissionMode _

theorem contained_setPosture_iff (hr : Contained r) (name : PyText) :
    Contained (final (setPosture W name) r) ↔ Latches r (.command (.setPosture name)) := by
  unfold setPosture
  cases hname : Posture.named name with
  | none => exact iff_of_true hr fun p hp => by rw [hname] at hp; cases hp
  | some p =>
    constructor
    · intro hafter q hq hengaged hmode
      rw [hname] at hq
      cases hq
      by_contra hopen
      rw [not_or] at hopen
      obtain ⟨hbengaged, hbmode, -⟩ :=
        breached_applyPosture (W := W) hengaged hmode hopen.1 hopen.2
      rw [hafter hbengaged] at hbmode
      cases hbmode
    · exact fun h => contained_applyPosture hr (h p hname)

/-- **A step from a contained state stays contained exactly when it latches.** -/
theorem contained_step_iff (hr : Contained r) (l : Label H) :
    Contained (r.step W l) ↔ Latches r l := by
  cases l with
  | surroundings => exact iff_of_true hr trivial
  | cycle c =>
    cases c with
    | save => exact iff_of_true (contained_saveState.final hr) trivial
    | toolGateRejects unknown => exact iff_of_true (fun _ => rfl) trivial
    | hitlHalt reason => exact iff_of_true ((contained_engageKillswitch reason).final hr) trivial
    | fault f => exact contained_fault hr f
  | command c =>
    cases c with
    | setExecutionMode enabled =>
      exact iff_of_true ((contained_setExecutionMode enabled).final hr) trivial
    | setPosture name => exact contained_setPosture_iff hr name
    | setPermissionMode mode => exact iff_of_true ((contained_setPermissionMode mode).final hr) trivial
    | setOperatorAuthority authority =>
      exact iff_of_true ((contained_setOperatorAuthority authority).final hr) trivial
    | setGovernanceMode mode =>
      exact iff_of_true ((contained_setGovernanceMode mode).final hr) trivial
    | setTickMode mode => exact iff_of_true ((contained_setTickMode mode).final hr) trivial
    | engageKillswitch reason =>
      exact iff_of_true ((contained_engageKillswitch reason).final hr) trivial
    | requestSoftStop reason =>
      exact iff_of_true ((contained_engageKillswitch _).final hr) trivial
    | hardNuke reason =>
      have hnuke := keeps_bind (contained_engageKillswitch (W := W)
        (haltReason (lit "operator_requested: hard nuke") reason)) fun _ => contained_emit
          (.hardNuke (haltReason (lit "operator_requested: hard nuke") reason))
      exact iff_of_true (hnuke.final hr) trivial
    | releaseKillswitch => exact iff_of_true (contained_releaseKillswitch.final hr) trivial
    | reinitialize =>
      have hinit := keeps_bind (contained_releaseKillswitch (W := W)) fun _ =>
        contained_saveEmit (W := W) .reinitialized
      exact iff_of_true (hinit.final hr) trivial

/-- **A run whose steps all latch is contained throughout.** -/
theorem killswitch_contained (W : Surroundings H) {r : RuntimeRuntime H} (hr : Contained r)
    {ls : List (Label H)} (hg : Guarded (RuntimeRuntime.step W) Latches r ls) (n : ℕ) :
    Contained (run (RuntimeRuntime.step W) r (ls.take n)) := by
  have htake : Guarded (RuntimeRuntime.step W) Latches r (ls.take n) := by
    rw [← List.take_append_drop n ls, guarded_append] at hg
    exact hg.1
  have hstep : ∀ s l, Contained s → Latches s l → Contained (RuntimeRuntime.step W s l) :=
    fun s l hs hl => (contained_step_iff hs l).2 hl
  exact run_inv hstep hr htake

def freshRuntime : RuntimeRuntime Unit := ⟨{}, .hash (), .hash (), true, []⟩

def quietSurroundings : Surroundings Unit := ⟨fun _ => (), fun _ => false⟩

/-- After a halt, execution is asked for in vain, and a posture that plans is taken. -/
def haltedCommands : List (Label Unit) :=
  [.command (.setPermissionMode (lit "task")), .command (.engageKillswitch []),
    .command (.setExecutionMode true), .command (.setPosture (lit "observe"))]

theorem halted_stays_contained :
    Contained (run (RuntimeRuntime.step quietSurroundings) freshRuntime
      (haltedCommands.take 4)) := by
  have hobserve : ∀ p, Posture.named (lit "observe") = some p → p.config.executionMode = .plan := by
    intro p hp
    have hnamed : Posture.named (lit "observe") = some .observe := by decide +kernel
    rw [hnamed] at hp
    cases hp
    rfl
  have hguard : Guarded (RuntimeRuntime.step quietSurroundings) Latches freshRuntime
      haltedCommands := by
    refine And.intro trivial (And.intro trivial (And.intro trivial (And.intro ?_ trivial)))
    intro p hp _ hmode
    rw [hobserve p hp] at hmode
    cases hmode
  exact killswitch_contained quietSurroundings (fun _ => rfl) hguard 4

theorem posture_passes_killswitch :
    ¬ Contained (run (RuntimeRuntime.step quietSurroundings) freshRuntime
      [.command (.engageKillswitch []), .command (.setPosture (lit "assist"))]) := by
  have hend : (run (RuntimeRuntime.step quietSurroundings) freshRuntime
      [.command (.engageKillswitch []), .command (.setPosture (lit "assist"))]).state.executionMode
        = .execute ∧
      (run (RuntimeRuntime.step quietSurroundings) freshRuntime
        [.command (.engageKillswitch []),
          .command (.setPosture (lit "assist"))]).state.killswitchEngaged = true := by
    decide +kernel
  intro h
  have := h hend.2
  rw [hend.1] at this
  cases this

end ClawHarder.Runtime
