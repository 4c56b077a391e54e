import ClawHarder.Proof.Killswitch

/-!
# Replay parity

A replay of the log sees five fields (`View`) through the events that the replayer
knows. `Lags v w` says that the log replays to `v` where the live state has `w`: a
write moves `w`, its event moves `v` after it. A write whose event the replayer does
not know, or whose event is lost to a refused save, opens a gap; `Told` says that a
step has none.

* `parity_step`: a told step keeps the replay and the live state together.
* `replay_parity`: **in a run whose steps are all told, replaying the log gives the
  live fields throughout**.
-/

namespace ClawHarder.Runtime

open Effectful Machine
open PyText (lit)

variable {H : Type} [DecidableEq H] {W : Surroundings H}

structure View where
  killswitchEngaged : Bool
  killswitchReason : PyText
  executionMode : ExecutionMode
  governance : GovernanceProfile
deriving DecidableEq

def RuntimeState.view (s : RuntimeState) : View :=
  ⟨s.killswitchEngaged, s.killswitchReason, s.executionMode, s.governance⟩

/-- `_apply_event` on these fields. -/
def View.apply (v : View) : Event → View
  | .governanceMode mode _ => { v with governance := .forMode mode v.governance.operatorAuthority }
  | .operatorAuthority authority =>
    { v with governance := { v.governance with operatorAuthority := authority } }
  | .executionMode mode => { v with executionMode := mode }
  | .killswitchEngaged reason =>
    { v with killswitchEngaged := true, killswitchReason := reason, executionMode := .plan }
  | .killswitchReleased => { v with killswitchEngaged := false, killswitchReason := [] }
  | _ => v

theorem view_applyEvent (s : RuntimeState) (e : Event) :
    (applyEvent s e).view = s.view.apply e := by
  cases e <;> rfl

theorem view_replay_concat (log : List Event) (e : Event) :
    (replay (log ++ [e])).view = (replay log).view.apply e := by
  unfold replay
  rw [List.foldl_append]
  exact view_applyEvent _ e

/-- The log replays to `v`, and the live state has `w`. -/
def Lags (v w : View) (r : RuntimeRuntime H) : Prop :=
  (replay r.log).view = v ∧ r.state.view = w

/-- **The replay of the log and the live state agree.** -/
def Parity (r : RuntimeRuntime H) : Prop := (replay r.log).view = r.state.view

def RuntimeRuntime.Promotes (r : RuntimeRuntime H) : Prop := ¬ r.Refuses ∧ r.writable = true

variable {v w : View}

omit [DecidableEq H] in
theorem Lags.parity {r : RuntimeRuntime H} (h : Lags v v r) : Parity r := h.1.trans h.2.symm

omit [DecidableEq H] in
theorem Parity.lags {r : RuntimeRuntime H} (h : Parity r) : Lags r.state.view r.state.view r :=
  ⟨h, rfl⟩

def Behind (v w : View) (r : RuntimeRuntime H) : Prop := Lags v w r ∧ r.Promotes

variable {f : RuntimeState → RuntimeState} {E : Raised → RuntimeRuntime H → Prop}

omit [DecidableEq H] in
theorem behind_modify {g : View → View} (hf : ∀ s, (f s).view = g s.view) :
    Spec (Behind (H := H) v w) (modifyState f) (fun _ => Behind v (g w)) E := by
  apply spec_modify
  rintro r ⟨⟨hv, rfl⟩, hp⟩
  exact ⟨⟨hv, hf r.state⟩, hp⟩

omit [DecidableEq H] in
theorem behind_emit (e : Event) :
    Spec (Behind (H := H) v w) (emit e) (fun _ => Behind (v.apply e) w) E := by
  apply spec_modify
  rintro r ⟨⟨rfl, hw⟩, hp⟩
  exact ⟨⟨view_replay_concat r.log e, hw⟩, hp⟩

theorem behind_saveState :
    Spec (Behind (H := H) v w) (saveState W) (fun _ => Behind v w) E := by
  apply spec_get
  rintro r ⟨⟨hv, hw⟩, hgate, hwritable⟩
  have hanchor : r.anchor.known = true := by
    by_contra h
    exact hgate (.inl (Bool.eq_false_iff.2 h))
  have hpersisted : r.persisted.known = true := by
    by_contra h
    exact hgate (.inr (.inl (Bool.eq_false_iff.2 h)))
  have hsame : r.persisted = r.anchor := by
    by_contra h
    exact hgate (.inr (.inr h))
  rw [hanchor, hpersisted, hwritable]
  simp only [Bool.not_true, Bool.or_self, Bool.false_eq_true, if_false, hsame, ne_eq,
    not_true_eq_false]
  rintro s rfl
  exact ⟨⟨(view_replay_concat _ _).trans hv, hw⟩, saved_not_refuses s _, rfl⟩

/-- With a Gate that does not refuse, a save that fails changes nothing. -/
def Unrefused (v w : View) (r : RuntimeRuntime H) : Prop := Lags v w r ∧ ¬ r.Refuses

theorem unrefused_saveState : Keeps (Unrefused (H := H) v w) (saveState W) := by
  apply keeps_saveState
  · rintro r h ⟨⟨hv, hw⟩, -⟩
    exact ⟨⟨(view_replay_concat _ _).trans hv, hw⟩, saved_not_refuses r h⟩
  · exact fun r _ hr hrefuses => absurd hrefuses hr.2

omit [DecidableEq H] in
theorem unrefused_modify {g : View → View} (hf : ∀ s, (f s).view = g s.view) :
    Spec (Unrefused (H := H) v w) (modifyState f) (fun _ => Unrefused v (g w)) E := by
  apply spec_modify
  rintro r ⟨⟨hv, rfl⟩, hp⟩
  exact ⟨⟨hv, hf r.state⟩, hp⟩

omit [DecidableEq H] in
theorem unrefused_emit (e : Event) :
    Spec (Unrefused (H := H) v w) (emit e) (fun _ => Unrefused (v.apply e) w) E := by
  apply spec_modify
  rintro r ⟨⟨rfl, hw⟩, hp⟩
  exact ⟨⟨view_replay_concat r.log e, hw⟩, hp⟩

theorem unrefused_saveEmit {e : Event} (he : ∀ v : View, v.apply e = v) :
    Keeps (Unrefused (H := H) v w) (do saveState W; emit e) := by
  apply keeps_bind unrefused_saveState
  intro _
  have := unrefused_emit (H := H) (v := v) (w := w) e (E := fun _ => Unrefused v w)
  rwa [he] at this

theorem behind_told {e : Event} (hf : ∀ s, (f s).view = s.view.apply e) :
    Spec (Behind (H := H) v v) (do modifyState f; saveState W; emit e)
      (fun _ => Behind (v.apply e) (v.apply e)) E :=
  spec_bind (behind_modify (g := fun v => v.apply e) hf) fun _ =>
    spec_bind behind_saveState fun _ => behind_emit e

theorem behind_requestTick :
    Spec (Behind (H := H) v w) (requestTick W) (fun _ => Behind v w) E := by
  apply spec_get
  intro r hr
  apply spec_ite
  · exact fun _ => spec_pure fun s hs => hs ▸ hr
  · intro _
    apply spec_ite
    · exact fun _ => behind_saveState.mono (fun s hs => hs ▸ hr) (fun _ _ h => h) fun _ _ h => h
    · exact fun _ => spec_pure fun s hs => hs ▸ hr

theorem behind_applyTickMode (mode : TickMode) :
    Spec (Behind (H := H) v v) (applyTickMode W mode) (fun _ => Behind v v) E := by
  refine spec_bind (behind_modify (g := id) fun s => rfl) fun _ => ?_
  apply spec_bind behind_saveState
  intro _
  apply spec_bind (behind_emit _)
  intro _
  exact spec_ite (fun _ => spec_pure fun _ h => h) fun _ => behind_requestTick

theorem behind_applyOperatorAuthority (authority : OperatorAuthority) :
    Spec (Behind (H := H) v v) (applyOperatorAuthority W authority)
      (fun _ => Behind (v.apply (.operatorAuthority authority))
        (v.apply (.operatorAuthority authority))) E :=
  behind_told fun _ => rfl

theorem behind_applyGovernanceMode (mode : GovernanceMode) :
    Spec (Behind (H := H) v v) (applyGovernanceMode W mode)
      (fun _ => Behind (v.apply (.governanceMode mode .user))
        (v.apply (.governanceMode mode .user))) E := by
  refine spec_bind (behind_modify (g := fun v => v.apply (.governanceMode mode .user))
    fun s => rfl) fun _ => ?_
  apply spec_bind behind_saveState
  intro _
  apply spec_get
  intro r hr
  -- the event names the mode of the live profile, which is the mode that was asked for
  have hmode : r.state.governance.mode = mode := by
    have hgov : r.state.governance = .forMode mode v.governance.operatorAuthority :=
      congrArg View.governance hr.1.2
    rw [hgov]
    cases mode <;> rfl
  have := (behind_emit (H := H) (v := v) (w := v.apply (.governanceMode mode .user))
    (.governanceMode mode r.state.governance.operatorAuthority) (E := E))
  change Spec _ (emit (.governanceMode r.state.governance.mode _)) _ _
  rw [hmode]
  exact this.mono (fun s hs => hs ▸ hr) (fun _ _ h => h) fun _ _ h => h

theorem behind_applyPosture {name : Posture} :
    Spec (Behind (H := H) v v) (do
      applyTickMode W name.config.tickMode
      applyOperatorAuthority W name.config.operatorAuthority
      applyGovernanceMode W name.config.governanceMode
      saveState W
      emit (.posture name)) (fun _ => Parity) E := by
  apply spec_bind (behind_applyTickMode _)
  intro _
  apply spec_bind (behind_applyOperatorAuthority _)
  intro _
  apply spec_bind (behind_applyGovernanceMode _)
  intro _
  apply spec_bind behind_saveState
  intro _
  exact (behind_emit (.posture name)).mono (fun _ h => h) (fun _ r h => h.1.parity) fun _ _ h => h

theorem unrefused_applyTickMode (mode : TickMode) :
    Keeps (Unrefused (H := H) v v) (applyTickMode W mode) := by
  refine spec_bind (unrefused_modify (g := id) fun s => rfl) fun _ => ?_
  apply keeps_bind unrefused_saveState
  intro _
  apply spec_bind (unrefused_emit (.tickMode mode))
  intro _
  refine spec_ite (fun _ => spec_pure fun _ h => h) fun _ => ?_
  apply spec_get
  intro r hr
  apply spec_ite
  · exact fun _ => spec_pure fun s hs => hs ▸ hr
  · intro _
    apply spec_ite
    · exact fun _ => unrefused_saveState.mono (fun s hs => hs ▸ hr) (fun _ _ h => h)
        fun _ _ h => h
    · exact fun _ => spec_pure fun s hs => hs ▸ hr

theorem unrefused_engageKillswitch (reason : PyText) :
    Spec (Unrefused (H := H) v v) (engageKillswitch W reason)
      (fun _ => Unrefused (v.apply (.killswitchEngaged (haltReason (lit "operator_requested") reason)))
        (v.apply (.killswitchEngaged (haltReason (lit "operator_requested") reason))))
      fun _ _ => False := by
  refine spec_bind (unrefused_modify (g := fun v => v.apply (.killswitchEngaged _))
    fun s => rfl) fun _ => ?_
  apply spec_bind
  · exact spec_tryCatch unrefused_saveState fun _ => spec_pure fun _ h => h
  · exact fun _ => unrefused_emit _

/-- `set_permission_mode` sets this execution mode. -/
def PermissionMode.execution (killswitchEngaged : Bool) : PermissionMode → ExecutionMode
  | .buddy => .plan
  | .task => if killswitchEngaged then .plan else .execute
  | .autonomous => .execute

/-- `set_posture` and `set_permission_mode` refuse to go autonomous. -/
def RuntimeRuntime.Supervised (W : Surroundings H) (r : RuntimeRuntime H) : Prop :=
  r.state.killswitchEngaged = true ∨ W.canaryValidatorOpen r.log = false

/-- The handlers of the fault find the fields as they would set them. -/
def Fault.Silent (f : Fault) (s : RuntimeState) : Prop :=
  f.hitl = true ∨
    match f.repairAllowed with
    | some true => s.governance.mode = .degradedRepair ∧ s.executionMode = .plan
    | some false => s.killswitchEngaged = true ∧ s.killswitchReason =
        lit "VALIDATION_MANAGER_HALT: Non-repairable fault (" ++ f.exceptionType ++ lit ")"
    | none => ∀ exceptionType, f.coroner = some exceptionType →
        s.killswitchEngaged = true ∧ s.killswitchReason =
          lit "CORONER_HARD_HALT: fault_in_validation_manager (" ++ exceptionType ++ lit ")"

/-- Every field that the step writes is written as it was, or told by an event that the
replayer knows; and no save loses the event. -/
def Told (W : Surroundings H) (r : RuntimeRuntime H) : Label H → Prop
  | .command (.setExecutionMode enabled) =>
    if enabled = true ∧ (r.state.permissionMode = .buddy ∨ r.state.killswitchEngaged = true) then
      r.state.executionMode = .plan ∧ ¬ r.Refuses
    else r.Promotes
  | .command (.setPosture name) =>
    ∀ p, Posture.named name = some p → p = .autonomous ∧ r.Supervised W ∨
      r.state.executionMode = p.config.executionMode ∧ r.Promotes
  | .command (.setPermissionMode mode) =>
    ∀ p, PermissionMode.named (PyText.lower (PyText.strip mode)) = some p →
      p = .autonomous ∧ r.Supervised W ∨
        r.state.executionMode = p.execution r.state.killswitchEngaged ∧ ¬ r.Refuses
  | .command (.setOperatorAuthority authority) =>
    OperatorAuthority.named (PyText.lower (PyText.strip authority)) ≠ none → r.Promotes
  | .command (.setGovernanceMode mode) =>
    GovernanceMode.named (PyText.lower (PyText.strip mode)) ≠ none → r.Promotes
  | .command (.setTickMode mode) =>
    TickMode.named (PyText.lower (PyText.strip mode)) ≠ none → ¬ r.Refuses
  | .command (.engageKillswitch _) => ¬ r.Refuses
  | .command (.requestSoftStop _) => ¬ r.Refuses
  | .command (.hardNuke _) => ¬ r.Refuses
  | .command .releaseKillswitch => r.Promotes
  | .command Command.reinitialize => r.Promotes
  | .cycle .save => ¬ r.Refuses
  | .cycle (.toolGateRejects unknown) =>
    r.state.killswitchEngaged = true ∧ r.state.executionMode = .plan ∧
      r.state.killswitchReason = if unknown then lit "the_gate: unknown anchor state"
        else lit "the_gate: anchor mismatch"
  | .cycle (.hitlHalt _) => ¬ r.Refuses
  | .cycle (.fault f) => f.Silent r.state
  | .surroundings _ _ _ _ => True

section Step

variable {r : RuntimeRuntime H}

omit [DecidableEq H] in
theorem parity_promoted (hr : Parity r) {m : Op H Unit} (hp : r.Promotes)
    (hm : ∀ v, Spec (Behind (H := H) v v) m (fun _ => Parity) fun _ _ => False) :
    Parity (final m r) :=
  ((hm r.state.view).mono (fun _ h => h) (fun _ _ h => h) fun _ _ h => h.elim).final
    ⟨hr.lags, hp⟩

omit [DecidableEq H] in
theorem parity_unrefused (hr : Parity r) {m : Op H Unit} (hp : ¬ r.Refuses)
    (hm : ∀ v, Spec (Unrefused (H := H) v v) m (fun _ => Parity) fun _ => Parity) :
    Parity (final m r) :=
  (hm r.state.view).final ⟨hr.lags, hp⟩

omit [DecidableEq H] in
theorem unrefused_parity {m : Op H Unit} (hm : Keeps (Unrefused (H := H) v v) m) :
    Spec (Unrefused (H := H) v v) m (fun _ => Parity) fun _ => Parity :=
  hm.mono (fun _ h => h) (fun _ _ h => h.1.parity) fun _ _ h => h.1.parity

theorem parity_aside (hr : Parity r) {f : RuntimeState → RuntimeState} {e : Event}
    (hf : (f r.state).view = r.state.view) (he : ∀ v : View, v.apply e = v) (hp : ¬ r.Refuses) :
    Spec (fun s => s = r) (do modifyState f; saveState W; emit e) (fun _ => Parity)
      fun _ => Parity := by
  refine spec_bind (spec_modify fun s hs => ?_) fun _ =>
    unrefused_parity (v := r.state.view) (unrefused_saveEmit he)
  subst hs
  exact ⟨⟨hr, hf⟩, hp⟩

theorem parity_engage (hr : Parity r) (reason : PyText) (hp : ¬ r.Refuses) :
    Parity (final (engageKillswitch W reason) r) :=
  parity_unrefused hr hp fun _ => (unrefused_engageKillswitch reason).mono (fun _ h => h)
    (fun _ _ h => h.1.parity) fun _ _ h => h.elim

theorem parity_hardNuke (hr : Parity r) (reason : PyText) (hp : ¬ r.Refuses) :
    Parity (final (hardNuke W reason) r) := by
  apply parity_unrefused hr hp
  intro v
  apply spec_bind ((unrefused_engageKillswitch _).mono (fun _ h => h) (fun _ _ h => h)
    fun _ _ h => h.elim)
  exact fun _ => (unrefused_emit _).mono (fun _ h => h) (fun _ _ h => h.1.parity) fun _ _ h => h

theorem behind_release {E : Raised → RuntimeRuntime H → Prop} :
    Spec (Behind (H := H) v v) (releaseKillswitch W)
      (fun _ => Behind (v.apply .killswitchReleased) (v.apply .killswitchReleased)) E :=
  behind_told fun _ => rfl

theorem parity_setOperatorAuthority (hr : Parity r) {authority : PyText}
    (h : Told W r (.command (.setOperatorAuthority authority))) :
    Parity (final (setOperatorAuthority W authority) r) := by
  unfold setOperatorAuthority
  cases hname : OperatorAuthority.named (PyText.lower (PyText.strip authority)) with
  | none => exact hr
  | some a =>
    have hp : r.Promotes := h (by rw [hname]; exact Option.some_ne_none a)
    exact parity_promoted hr hp fun _ => (behind_applyOperatorAuthority a).mono (fun _ h => h)
      (fun _ _ h => h.1.parity) fun _ _ h => h

theorem parity_setGovernanceMode (hr : Parity r) {mode : PyText}
    (h : Told W r (.command (.setGovernanceMode mode))) :
    Parity (final (setGovernanceMode W mode) r) := by
  unfold setGovernanceMode
  cases hname : GovernanceMode.named (PyText.lower (PyText.strip mode)) with
  | none => exact hr
  | some m =>
    have hp : r.Promotes := h (by rw [hname]; exact Option.some_ne_none m)
    exact parity_promoted hr hp fun _ => (behind_applyGovernanceMode m).mono (fun _ h => h)
      (fun _ _ h => h.1.parity) fun _ _ h => h

theorem parity_setTickMode (hr : Parity r) {mode : PyText}
    (h : Told W r (.command (.setTickMode mode))) : Parity (final (setTickMode W mode) r) := by
  unfold setTickMode
  cases hname : TickMode.named (PyText.lower (PyText.strip mode)) with
  | none => exact hr
  | some m =>
    have hp : ¬ r.Refuses := h (by rw [hname]; exact Option.some_ne_none m)
    exact parity_unrefused hr hp fun _ => unrefused_parity (unrefused_applyTickMode m)

theorem parity_setExecutionMode (hr : Parity r) {enabled : Bool}
    (h : Told W r (.command (.setExecutionMode enabled))) :
    Parity (final (setExecutionMode W enabled) r) := by
  suffices Spec (fun s => s = r) (setExecutionMode W enabled) (fun _ => Parity) fun _ => Parity
    from this.final rfl
  apply spec_get
  intro s hs
  subst hs
  have hcond : (enabled && (s.state.permissionMode = .buddy || s.state.killswitchEngaged)) = true ↔
      enabled = true ∧ (s.state.permissionMode = .buddy ∨ s.state.killswitchEngaged = true) := by
    simp
  simp only [Told] at h
  apply spec_ite
  · intro hblocked
    rw [if_pos (hcond.1 hblocked)] at h
    exact parity_aside hr (by simp [RuntimeState.view, h.1]) (fun _ => rfl) h.2
  · intro hopen
    rw [if_neg (mt hcond.2 hopen)] at h
    have htold := behind_told (W := W) (v := s.state.view)
      (f := fun s => { s with executionMode := if enabled then .execute else .plan })
      (e := .executionMode (if enabled then .execute else .plan)) (E := fun _ => Parity)
      fun _ => rfl
    refine htold.mono (fun r hr' => ?_) (fun _ _ h => h.1.parity) fun _ _ h => h
    subst hr'
    exact ⟨hr.lags, h⟩

theorem parity_setPosture (hr : Parity r) {name : PyText}
    (h : Told W r (.command (.setPosture name))) : Parity (final (setPosture W name) r) := by
  unfold setPosture
  cases hname : Posture.named name with
  | none => exact hr
  | some p =>
    suffices Spec (fun s => s = r) (applyPosture W p) (fun _ => Parity) fun _ => Parity from
      this.final rfl
    apply spec_get
    intro s hs
    subst hs
    apply spec_ite
    · exact fun _ => spec_throw fun s hs => hs ▸ hr
    · intro hopen
      rcases h p hname with ⟨rfl, hsupervised⟩ | ⟨hmode, hp⟩
      · rcases hsupervised with hengaged | hcanary
        · simp [Posture.config, hengaged] at hopen
        · simp [Posture.config, hcanary] at hopen
      · -- the mode is already the posture's
        refine spec_bind (spec_modify fun r hr' => ?_) fun _ =>
          behind_applyPosture (v := s.state.view)
        subst hr'
        exact ⟨⟨hr, by simp [RuntimeState.view, hmode]⟩, hp⟩

theorem parity_setPermissionMode (hr : Parity r) {mode : PyText}
    (h : Told W r (.command (.setPermissionMode mode))) :
    Parity (final (setPermissionMode W mode) r) := by
  unfold setPermissionMode
  cases hname : PermissionMode.named (PyText.lower (PyText.strip mode)) with
  | none => exact hr
  | some p =>
    suffices Spec (fun s => s = r) (applyPermissionMode W p) (fun _ => Parity) fun _ => Parity from
      this.final rfl
    apply spec_get
    intro s hs
    subst hs
    apply spec_ite
    · exact fun _ => spec_throw fun s hs => hs ▸ hr
    · intro hopen
      rcases h p hname with ⟨rfl, hsupervised⟩ | ⟨hmode, hp⟩
      · rcases hsupervised with hengaged | hcanary
        · simp [hengaged] at hopen
        · simp [hcanary] at hopen
      · refine parity_aside hr ?_ (fun _ => rfl) hp
        simp only [RuntimeState.view, hmode, View.mk.injEq, true_and, and_true]
        cases p <;> rfl

omit [DecidableEq H] in
theorem parity_silent (hr : Parity r) (s : RuntimeState) (events : List Event)
    (hs : s.view = r.state.view) (he : ∀ e ∈ events, ∀ v : View, v.apply e = v) :
    Parity { r with state := s, log := r.log ++ events } := by
  have hlog : ∀ log : List Event, (replay (log ++ events)).view = (replay log).view := by
    induction events with
    | nil => simp
    | cons e events ih =>
      intro log
      have hrest := ih (fun e' he' => he e' (List.mem_cons_of_mem e he')) (log ++ [e])
      rw [List.append_assoc] at hrest
      rw [← List.singleton_append, hrest, view_replay_concat, he e List.mem_cons_self]
  exact (hlog r.log).trans (hr.trans hs.symm)

omit [DecidableEq H] in
theorem parity_fault (hr : Parity r) {f : Fault} (h : f.Silent r.state) :
    Parity (final (f.handle : Op H Unit) r) := by
  obtain ⟨exceptionType, hitl, repairAllowed, coroner⟩ := f
  cases hitl with
  | true => exact parity_silent hr r.state [.hitlException] rfl (by simp [View.apply])
  | false =>
    have h := h.resolve_left Bool.false_ne_true
    cases repairAllowed with
    | none =>
      cases coroner with
      | none => exact hr
      | some exceptionType' =>
        have hview : r.state.view = RuntimeState.view { r.state with
            killswitchEngaged := true
            killswitchReason := lit "CORONER_HARD_HALT: fault_in_validation_manager (" ++
              exceptionType' ++ lit ")" } := by
          obtain ⟨hengaged, hreason⟩ := h exceptionType' rfl
          simp [RuntimeState.view, hengaged, hreason]
        exact hr.trans hview
    | some allowed =>
      cases allowed with
      | true =>
        have hboth := parity_silent hr { r.state with
          governance := { r.state.governance with mode := .degradedRepair }
          executionMode := .plan } [.diagnosticIssued, .repairMotion]
        rw [List.append_cons] at hboth
        apply hboth
        · obtain ⟨hmode, hplan⟩ := h
          simp [RuntimeState.view, ← hmode, hplan]
        · simp [View.apply]
      | false =>
        refine parity_silent hr { r.state with
          killswitchEngaged := true
          killswitchReason := lit "VALIDATION_MANAGER_HALT: Non-repairable fault (" ++
            exceptionType ++ lit ")" } [.diagnosticIssued] ?_ (by simp [View.apply])
        obtain ⟨hengaged, hreason⟩ := h
        simp [RuntimeState.view, hengaged, hreason]

/-- **A told step keeps the replay and the live state together.** -/
theorem parity_step (hr : Parity r) {l : Label H} (h : Told W r l) : Parity (r.step W l) := by
  cases l with
  | surroundings => exact hr
  | cycle c =>
    cases c with
    | save => exact parity_unrefused hr h fun _ => unrefused_parity unrefused_saveState
    | toolGateRejects unknown =>
      have hview : r.state.view = RuntimeState.view { r.state with
          killswitchEngaged := true
          killswitchReason := if unknown then lit "the_gate: unknown anchor state"
            else lit "the_gate: anchor mismatch"
          executionMode := .plan } := by
        obtain ⟨hengaged, hplan, hreason⟩ := h
        simp [RuntimeState.view, hengaged, hplan, hreason]
      exact hr.trans hview
    | hitlHalt reason => exact parity_engage hr reason h
    | fault f => exact parity_fault hr h
  | command c =>
    cases c with
    | setExecutionMode enabled => exact parity_setExecutionMode hr h
    | setPosture name => exact parity_setPosture hr h
    | setPermissionMode mode => exact parity_setPermissionMode hr h
    | setOperatorAuthority authority => exact parity_setOperatorAuthority hr h
    | setGovernanceMode mode => exact parity_setGovernanceMode hr h
    | setTickMode mode => exact parity_setTickMode hr h
    | engageKillswitch reason => exact parity_engage hr reason h
    | requestSoftStop reason => exact parity_engage hr _ h
    | hardNuke reason => exact parity_hardNuke hr reason h
    | releaseKillswitch =>
      exact parity_promoted hr h fun _ => behind_release.mono (fun _ h => h)
        (fun _ _ h => h.1.parity) fun _ _ h => h
    | reinitialize =>
      refine parity_promoted hr h fun _ => spec_bind behind_release fun _ => ?_
      refine spec_bind behind_saveState fun _ => ?_
      exact (behind_emit _).mono (fun _ h => h) (fun _ _ h => h.1.parity) fun _ _ h => h

end Step

/-- **In a run whose steps are all told, replaying the log gives the live fields throughout.** -/
theorem replay_parity (W : Surroundings H) {r : RuntimeRuntime H} (hr : Parity r)
    {ls : List (Label H)} (hg : Guarded (RuntimeRuntime.step W) (Told W) r ls) (n : ℕ) :
    Parity (run (RuntimeRuntime.step W) r (ls.take n)) := by
  have htake : Guarded (RuntimeRuntime.step W) (Told W) r (ls.take n) := by
    rw [← List.take_append_drop n ls, guarded_append] at hg
    exact hg.1
  have hstep : ∀ s l, Parity s → Told W s l → Parity (RuntimeRuntime.step W s l) :=
    fun s l hs hl => parity_step hs hl
  exact run_inv hstep hr htake

def toldCommands : List (Label Unit) :=
  [.command (.setExecutionMode true), .command (.setGovernanceMode (lit "expert")),
    .command (.engageKillswitch (lit "stop")), .command .releaseKillswitch]

theorem toldCommands_parity :
    Parity (run (RuntimeRuntime.step quietSurroundings) freshRuntime (toldCommands.take 4)) := by
  have hgate : ∀ n ≤ 4, RuntimeRuntime.Promotes
      (run (RuntimeRuntime.step quietSurroundings) freshRuntime (toldCommands.take n)) := by
    unfold RuntimeRuntime.Promotes RuntimeRuntime.Refuses
    decide +kernel
  have hguard : Guarded (RuntimeRuntime.step quietSurroundings) (Told quietSurroundings)
      freshRuntime toldCommands := by
    refine And.intro ?_ (And.intro ?_ (And.intro ?_ (And.intro ?_ trivial)))
    · exact hgate 0 (by decide)
    · exact fun _ => hgate 1 (by decide)
    · exact (hgate 2 (by decide)).1
    · exact hgate 3 (by decide)
  have hfresh : Parity freshRuntime := rfl
  exact replay_parity quietSurroundings hfresh hguard 4

theorem permission_mode_untold :
    ¬ Parity (run (RuntimeRuntime.step quietSurroundings) freshRuntime
      [.command (.setPermissionMode (lit "task"))]) := by
  unfold Parity
  decide +kernel

end ClawHarder.Runtime
