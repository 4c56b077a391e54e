import ClawHarder.Proof.AllOrNothing
import ClawHarder.Proof.Killswitch
import ClawHarder.Proof.ToolGate
import ClawHarder.Spec.Entrances

/-!
# What the killswitch stops

A turn, its tool batches and the dispatch of an intent look at the killswitch before
anything else. The execution endpoints do not look at it: they go on with an approved
request as if it were released.

* `tools_called`: the loop over tool calls calls a handler unless it objects to the
  first call.
* `killswitch_stops_iff`: **with the killswitch engaged, a path has no effect exactly
  when it is not an execution that goes on with an approved request**; and so over runs.
-/

namespace ClawHarder.Comms

variable {W : Workspace} {v : Volume}

def Plan.begins (W : Workspace) (plan : Plan) (v : Volume) : Bool :=
  match plan.writes with
  | [] => backsUp W plan.deletes v
  | (target, _) :: _ => (v.mkdir W target.dropLast).1

theorem drawn_writeText (p : Path) (content : PyText) :
    (v.writeText W p content).2.drawn = v.drawn := by
  unfold Volume.writeText Volume.call
  dsimp only
  split
  · rfl
  · split
    · rfl
    · split <;> rfl

theorem drawn_rename (p q : Path) : (v.rename W p q).2.drawn = v.drawn := by
  rcases rename_cases (W := W) (v := v) p q with ⟨v', hre, -, hdrawn⟩ | ⟨-, -, v', hre, -, hdrawn⟩
  · rw [hre]
    exact hdrawn
  · rw [hre]
    exact hdrawn

theorem drawn_stage (writes : List (Path × PyText)) (temps : List (Path × Path)) (v : Volume) :
    v.drawn ≤ (stageWrites W writes temps v).2.2.drawn := by
  induction writes generalizing temps v with
  | nil => exact le_rfl
  | cons w rest ih =>
    obtain ⟨target, content⟩ := w
    unfold stageWrites
    have hmkdir := (mkdir_spec (W := W) (v := v) target.dropLast).2.1
    generalize v.mkdir W target.dropLast = made at hmkdir ⊢
    obtain ⟨made, v₁⟩ := made
    cases made with
    | false => exact hmkdir.ge
    | true =>
      have hdrawn : v.drawn ≤ (v₁.drawName W target ".bh_tmp_").2.drawn :=
        hmkdir.ge.trans (Nat.le_succ v₁.drawn)
      dsimp only at hdrawn ⊢
      generalize v₁.drawName W target ".bh_tmp_" = named at hdrawn ⊢
      obtain ⟨tmp, v₂⟩ := named
      have hwrite := drawn_writeText (W := W) (v := v₂) tmp content
      dsimp only at hdrawn ⊢
      generalize v₂.writeText W tmp content = written at hwrite ⊢
      obtain ⟨raised, v₃⟩ := written
      cases raised with
      | some raised => exact hdrawn.trans hwrite.ge
      | none => exact (hdrawn.trans hwrite.ge).trans (ih _ v₃)

theorem stage_draws {target : Path} {content : PyText} {rest : List (Path × PyText)}
    {temps : List (Path × Path)} (h : (v.mkdir W target.dropLast).1 = true) :
    v.drawn < (stageWrites W ((target, content) :: rest) temps v).2.2.drawn := by
  have hmkdir := (mkdir_spec (W := W) (v := v) target.dropLast).2.1
  unfold stageWrites
  generalize v.mkdir W target.dropLast = made at h hmkdir ⊢
  obtain ⟨made, v₁⟩ := made
  subst h
  have hdrawn : v.drawn < (v₁.drawName W target ".bh_tmp_").2.drawn :=
    hmkdir.ge.trans_lt (Nat.lt_succ_self v₁.drawn)
  dsimp only at hdrawn ⊢
  generalize v₁.drawName W target ".bh_tmp_" = named at hdrawn ⊢
  obtain ⟨tmp, v₂⟩ := named
  have hwrite := drawn_writeText (W := W) (v := v₂) tmp content
  dsimp only at hdrawn ⊢
  generalize v₂.writeText W tmp content = written at hwrite ⊢
  obtain ⟨raised, v₃⟩ := written
  cases raised with
  | some raised => exact hdrawn.trans_le hwrite.ge
  | none => exact (hdrawn.trans_le hwrite.ge).trans_le (drawn_stage _ _ v₃)

theorem drawn_backUp (targets : List Path) (backups : List (Path × Path)) (v : Volume) :
    v.drawn ≤ (backUpAll W targets backups v).2.2.drawn := by
  induction targets generalizing backups v with
  | nil => exact le_rfl
  | cons target rest ih =>
    obtain ⟨v₁, hround⟩ := backUp_round (W := W) target rest backups v
    cases hround with
    | refused raised run begins tree drawn =>
      rw [run]
      exact drawn.ge
    | absent run begins gone tree drawn =>
      rw [run]
      exact drawn.ge.trans (ih backups v₁)
    | stuck run begins tree drawn =>
      rw [run]
      exact Nat.le_of_lt (Nat.lt_of_succ_le drawn.ge)
    | moved run begins file noDir tree drawn =>
      rw [run]
      exact (Nat.le_of_lt (Nat.lt_of_succ_le drawn.ge)).trans (ih _ v₁)

theorem drawn_activate (pairs : List (Path × Path)) (activated : List Path) (v : Volume) :
    (activateAll W pairs activated v).2.2.drawn = v.drawn := by
  induction pairs generalizing activated v with
  | nil => rfl
  | cons e rest ih =>
    obtain ⟨tmp, target⟩ := e
    unfold activateAll
    have hrename := drawn_rename (W := W) (v := v) tmp target
    generalize v.rename W tmp target = moved at hrename ⊢
    obtain ⟨moved, v₁⟩ := moved
    cases moved with
    | false => exact hrename
    | true => exact (ih _ v₁).trans hrename

theorem backUp_quiet {targets : List Path} (backups : List (Path × Path))
    (h : backsUp W targets v = false) :
    ∃ raised v', backUpAll W targets backups v = (raised, backups, v') ∧ v'.drawn = v.drawn ∧
      v'.tree = v.tree := by
  induction targets generalizing v with
  | nil => exact ⟨none, v, rfl, rfl, rfl⟩
  | cons target rest ih =>
    obtain ⟨v₁, hround⟩ := backUp_round (W := W) target rest backups v
    cases hround with
    | refused raised run begins tree drawn => exact ⟨some raised, v₁, run, drawn, tree⟩
    | absent run begins gone tree drawn =>
      obtain ⟨raised, v', hrun, hdrawn, htree⟩ := ih (begins ▸ h)
      exact ⟨raised, v', run.trans hrun, hdrawn.trans drawn, htree.trans tree⟩
    | stuck run begins tree drawn =>
      rw [begins] at h
      cases h
    | moved run begins file noDir tree drawn =>
      rw [begins] at h
      cases h

theorem backUp_draws {targets : List Path} (backups : List (Path × Path))
    (h : backsUp W targets v = true) :
    v.drawn < (backUpAll W targets backups v).2.2.drawn := by
  induction targets generalizing v with
  | nil => cases h
  | cons target rest ih =>
    obtain ⟨v₁, hround⟩ := backUp_round (W := W) target rest backups v
    cases hround with
    | refused raised run begins tree drawn =>
      rw [begins] at h
      cases h
    | absent run begins gone tree drawn =>
      rw [run]
      exact drawn.ge.trans_lt (ih (begins ▸ h))
    | stuck run begins tree drawn =>
      rw [run]
      exact Nat.lt_of_succ_le drawn.ge
    | moved run begins file noDir tree drawn =>
      rw [run]
      exact (Nat.lt_of_succ_le drawn.ge).trans_le (drawn_backUp _ _ v₁)

theorem drawn_commit (plan : Plan) (v : Volume) :
    (stageWrites W plan.writes [] v).2.2.drawn ≤ (commitAtomicPatchPlan W plan v).2.drawn := by
  unfold commitAtomicPatchPlan
  generalize stageWrites W plan.writes [] v = staged
  obtain ⟨raised, temps, v₁⟩ := staged
  cases raised with
  | some raised => exact le_rfl
  | none =>
    have hbackUp := drawn_backUp (W := W) (temps.map Prod.snd ++ plan.deletes) [] v₁
    dsimp only
    generalize backUpAll W (temps.map Prod.snd ++ plan.deletes) [] v₁ = backed at hbackUp ⊢
    obtain ⟨raised, backups, v₂⟩ := backed
    cases raised with
    | some raised => exact hbackUp
    | none =>
      have hactivate := drawn_activate (W := W) temps [] v₂
      dsimp only at hbackUp ⊢
      generalize activateAll W temps [] v₂ = active at hactivate ⊢
      obtain ⟨raised, activated, v₃⟩ := active
      cases raised with
      | some raised => exact hbackUp.trans hactivate.ge
      | none => exact hbackUp.trans hactivate.ge

/-- **A commit that does not begin leaves the files alone**, and one that begins draws a
name. -/
theorem commit_begins (plan : Plan) (v : Volume) :
    (plan.begins W v = false ∧ (commitAtomicPatchPlan W plan v).2.drawn = v.drawn ∧
      (commitAtomicPatchPlan W plan v).2.tree.files = v.tree.files) ∨
    (plan.begins W v = true ∧ v.drawn < (commitAtomicPatchPlan W plan v).2.drawn) := by
  unfold Plan.begins
  obtain ⟨writes, deletes⟩ := plan
  cases writes with
  | nil =>
    cases hbegins : backsUp W deletes v with
    | false =>
      obtain ⟨raised, v', hrun, hdrawn, htree⟩ := backUp_quiet [] hbegins
      refine Or.inl ⟨rfl, ?_⟩
      unfold commitAtomicPatchPlan
      simp only [stageWrites, List.map_nil, List.nil_append, hrun]
      cases raised with
      | some raised => exact ⟨hdrawn, congrArg FileTree.files htree⟩
      | none => exact ⟨hdrawn, congrArg FileTree.files htree⟩
    | true =>
      refine Or.inr ⟨rfl, ?_⟩
      have hdraws := backUp_draws [] hbegins
      unfold commitAtomicPatchPlan
      simp only [stageWrites, List.map_nil, List.nil_append]
      generalize backUpAll W deletes [] v = backed at hdraws ⊢
      obtain ⟨raised, backups, v₂⟩ := backed
      cases raised with
      | some raised => exact hdraws
      | none => exact hdraws
  | cons w rest =>
    obtain ⟨target, content⟩ := w
    obtain ⟨hfiles, hdrawn, -⟩ := mkdir_spec (W := W) (v := v) target.dropLast
    cases hmade : (v.mkdir W target.dropLast).1 with
    | false =>
      refine Or.inl ⟨hmade, ?_⟩
      have hrun : v.mkdir W target.dropLast = (false, (v.mkdir W target.dropLast).2) :=
        Prod.ext hmade rfl
      unfold commitAtomicPatchPlan stageWrites
      rw [hrun]
      exact ⟨hdrawn, hfiles⟩
    | true =>
      have hcommit := drawn_commit (W := W) ⟨(target, content) :: rest, deletes⟩ v
      exact Or.inr ⟨hmade, (stage_draws hmade).trans_le hcommit⟩

/-- Do these patches lead to a plan whose commit writes or moves a file? -/
def writesFiles (W : Workspace) (patches : List Patch) (v : Volume) : Bool :=
  match patches.foldl (planPatch W) (.planned .empty, v) with
  | (.planned virtual, v) => (collectPlan virtual.values).any (Plan.begins W · v)
  | _ => false

theorem planning_looks (patches : List Patch) (v : Volume) :
    (patches.foldl (planPatch W) (.planned .empty, v)).2.tree = v.tree ∧
      (patches.foldl (planPatch W) (.planned .empty, v)).2.drawn = v.drawn := by
  have hrun := planInv_run (planInv_start (W := W) patches v) fun patch hpatch => hpatch
  exact ⟨hrun.tree, hrun.drawn⟩

theorem applyPatches_begins (patches : List Patch) (v : Volume) :
    (writesFiles W patches v = false ∧ (applyPatchesTo W patches v).2.drawn = v.drawn ∧
      (applyPatchesTo W patches v).2.tree.files = v.tree.files) ∨
    (writesFiles W patches v = true ∧ v.drawn < (applyPatchesTo W patches v).2.drawn) := by
  obtain ⟨htree, hdrawn⟩ := planning_looks (W := W) patches v
  unfold writesFiles applyPatchesTo
  generalize patches.foldl (planPatch W) (.planned .empty, v) = planning at htree hdrawn ⊢
  obtain ⟨stage, v₁⟩ := planning
  have hquiet : v₁.drawn = v.drawn ∧ v₁.tree.files = v.tree.files :=
    ⟨hdrawn, congrArg FileTree.files htree⟩
  cases stage with
  | raised => exact Or.inl ⟨rfl, hquiet⟩
  | refused reason patchId => exact Or.inl ⟨rfl, hquiet⟩
  | planned virtual =>
    dsimp only
    cases collectPlan virtual.values with
    | none => exact Or.inl ⟨rfl, hquiet⟩
    | some plan =>
      have hcommit := commit_begins (W := W) plan v₁
      rw [hquiet.1, hquiet.2] at hcommit
      dsimp only [Option.any_some]
      generalize commitAtomicPatchPlan W plan v₁ = committed at hcommit ⊢
      obtain ⟨failure, v₂⟩ := committed
      cases failure with
      | none => exact hcommit
      | some failure => exact hcommit

end ClawHarder.Comms

namespace ClawHarder.Entrances

open Effectful Machine
open PyText (lit)
open ClawHarder.Runtime (BatchState Fault RuntimeRuntime TraceEvent handlerCalls)
open ClawHarder.Comms (RequestType Site ToolCall admitExecution extractRequestPatches
  extractRequestToolCalls runToolCalls writesFiles)

variable {C L G H V : Type} [DecidableEq G] [DecidableEq H] {P : Plant C L G H V}
  {p q r : Premises C L G H}

/-- No handler was called and no file was written: a name is drawn right before every
write and every move. -/
structure Still (p q : Premises C L G H) : Prop where
  calls : handlerCalls q.batch.trace = handlerCalls p.batch.trace
  drawn : q.volume.drawn = p.volume.drawn
  files : q.volume.tree.files = p.volume.tree.files

omit [DecidableEq G] [DecidableEq H] in
theorem Still.refl (p : Premises C L G H) : Still p p := ⟨rfl, rfl, rfl⟩

omit [DecidableEq G] [DecidableEq H] in
theorem Still.trans (h : Still p q) (h' : Still q r) : Still p r :=
  ⟨h'.calls.trans h.calls, h'.drawn.trans h.drawn, h'.files.trans h.files⟩

structure Halted (p q : Premises C L G H) : Prop where
  still : Still p q
  engaged : q.killswitched = true

omit [DecidableEq G] [DecidableEq H] in
theorem Halted.refl (h : p.killswitched = true) : Halted p p := ⟨.refl p, h⟩

omit [DecidableEq G] [DecidableEq H] in
theorem Halted.trans (h : Halted p q) (h' : Halted q r) : Halted p r :=
  ⟨h.still.trans h'.still, h'.engaged⟩

def Engaged (r : RuntimeRuntime H) : Prop := r.state.killswitchEngaged = true

omit [DecidableEq H] in
theorem engaged_emit (e : Runtime.Event) : Keeps (Engaged (H := H)) (Runtime.emit e) :=
  keeps_modify fun _ h => h

theorem engaged_engageKillswitch (W : Runtime.Surroundings H) (reason : PyText) :
    Keeps Engaged (Runtime.engageKillswitch W reason) := by
  have hsave : Keeps Engaged (Runtime.saveState W) :=
    Runtime.keeps_saveState (fun _ _ h => h) fun _ _ _ _ => rfl
  have hengage : ∀ f : Runtime.RuntimeState → Runtime.RuntimeState,
      (∀ s, (f s).killswitchEngaged = true) → Keeps (Engaged (H := H)) (Runtime.modifyState f) :=
    fun f hf => keeps_modify fun r _ => hf r.state
  apply keeps_bind (hengage _ fun _ => rfl)
  intro _
  apply keeps_bind (keeps_tryCatch hsave fun _ => keeps_pure _)
  exact fun _ => engaged_emit _

omit [DecidableEq H] in
theorem engaged_handle (f : Fault) : Keeps (Engaged (H := H)) f.handle := by
  have hkeep : ∀ g : Runtime.RuntimeState → Runtime.RuntimeState,
      (∀ s, s.killswitchEngaged = true → (g s).killswitchEngaged = true) →
      Keeps (Engaged (H := H)) (Runtime.modifyState g) :=
    fun g hg => keeps_modify fun r hr => hg r.state hr
  have hdiagnose : Keeps (Engaged (H := H)) f.diagnose := by
    unfold Fault.diagnose
    cases f.repairAllowed with
    | none => exact keeps_throw _
    | some repairAllowed =>
      apply keeps_bind (engaged_emit _)
      intro _
      apply keeps_ite
      · intro _
        exact keeps_bind (hkeep _ fun _ h => h) fun _ => engaged_emit _
      · exact fun _ => hkeep _ fun _ _ => rfl
  have hhardHalt : Keeps (Engaged (H := H)) f.engageHardHalt := by
    unfold Fault.engageHardHalt
    cases f.coroner with
    | none => exact keeps_throw _
    | some exceptionType => exact hkeep _ fun _ _ => rfl
  apply keeps_tryCatch
  · exact keeps_ite (fun _ => engaged_emit _) fun _ => hdiagnose
  · exact fun _ => keeps_ite (fun _ => engaged_emit _) fun _ => hhardHalt

omit [DecidableEq G] [DecidableEq H] in
theorem perform_halted {m : Runtime.Op H Unit} (hm : Keeps Engaged m)
    (hp : p.killswitched = true) : Halted p (p.perform m).2 := by
  have hrun := hm p.runtime hp
  unfold Premises.perform
  generalize m.run p.runtime = result at hrun ⊢
  cases result with
  | ok _ r => exact ⟨⟨rfl, rfl, rfl⟩, hrun⟩
  | error _ r => exact ⟨⟨rfl, rfl, rfl⟩, hrun⟩

omit [DecidableEq G] in
theorem publicHitlFailure_halted (label : PyText) (hp : p.killswitched = true) :
    Halted p (publicHitlFailure P label p).2 := by
  unfold publicHitlFailure
  dsimp only
  split
  · exact .refl hp
  · exact perform_halted (engaged_engageKillswitch _ _) hp

omit [DecidableEq G] in
theorem handleFault_halted (f : Fault) (hp : p.killswitched = true) :
    Halted p (handleFault P f p).2 := by
  have hhandled : Halted p (p.perform f.handle).2 := perform_halted (engaged_handle f) hp
  unfold handleFault
  generalize p.perform f.handle = handled at hhandled ⊢
  obtain ⟨returned, q⟩ := handled
  cases returned with
  | false => exact hhandled
  | true =>
    dsimp only
    split
    · exact hhandled.trans (publicHitlFailure_halted (P.outside.faultText f q) hhandled.engaged)
    · exact hhandled

omit [DecidableEq G] in
/-- **A cycle whose body halts does.** -/
theorem governed_halted {func : Premises C L G H → Except Fault PyText × Premises C L G H}
    (h : Halted p (func p).2) : Halted p (runGovernedCycle P func p).2 := by
  unfold runGovernedCycle
  generalize func p = result at h ⊢
  obtain ⟨reply, q⟩ := result
  cases reply with
  | ok reply => exact h
  | error f => exact h.trans (handleFault_halted f h.engaged)

omit [DecidableEq G] in
theorem run_halted (userInput : PyText) (hp : p.killswitched = true) :
    Halted p (run P userInput p).2 := by
  apply governed_halted
  unfold runLogic
  rw [if_pos hp]
  exact .refl hp

omit [DecidableEq G] in
theorem pulse_halted (userInput : PyText) (hp : p.killswitched = true) :
    Halted p (pulse P userInput p).2 := by
  apply governed_halted
  unfold pulseLogic
  rw [if_pos hp]
  split
  · exact publicHitlFailure_halted (lit "runtime error") hp
  · exact .refl hp

omit [DecidableEq G] [DecidableEq H] in
theorem updateIntent_halted (id : PyText) (f : Intent → Intent) (hp : p.killswitched = true) :
    Halted p (p.updateIntent id f) := by
  unfold Premises.updateIntent
  split
  · exact .refl hp
  · exact ⟨⟨rfl, rfl, rfl⟩, hp⟩

omit [DecidableEq G] in
theorem runIntent_halted (id message : PyText) (hp : p.killswitched = true) :
    Halted p (runIntent P id message p).2 := by
  have hrunning := updateIntent_halted id ({ · with status := .running }) hp
  have hturn := hrunning.trans (run_halted (P := P) message hrunning.engaged)
  unfold runIntent
  generalize run P message (p.updateIntent id _) = result at hturn ⊢
  obtain ⟨reply, q⟩ := result
  cases reply with
  | error text => exact hturn.trans (updateIntent_halted id _ hturn.engaged)
  | ok reply => exact hturn.trans (updateIntent_halted id _ hturn.engaged)

omit [DecidableEq G] in
theorem dispatch_halted (intentId : PyText) (hp : p.killswitched = true) :
    Halted p (dispatchInputIntent P intentId p).2 := by
  unfold dispatchInputIntent
  dsimp only
  split
  · exact .refl hp
  · split
    · exact .refl hp
    · split
      · exact .refl hp
      · exact .refl hp
      · exact .refl hp
      · exact runIntent_halted _ _ hp

omit [DecidableEq G] [DecidableEq H] in
theorem execute_calls {name : PyText} (arguments : PyDict) (p : Premises C L G H)
    (h : (P.toolbox.registry name).isSome = true) :
    handlerCalls ((registry P).execute name arguments p).2.batch.trace =
      handlerCalls p.batch.trace ++ [name] := by
  obtain ⟨tool, htool⟩ := Option.isSome_iff_exists.1 h
  unfold registry Runtime.execute
  simp only [htool]
  rw [EStateM.run_bind]
  simp only [Runtime.record, EStateM.run_modify]
  rw [EStateM.run_bind, EStateM.run_get]
  have hcalled : handlerCalls (p.batch.trace ++ [.called name]) =
      handlerCalls p.batch.trace ++ [name] := by simp [handlerCalls]
  simp only
  cases (tool.handler arguments).run p.batch.world with
  | ok value world => exact hcalled
  | error _ world => exact hcalled

omit [DecidableEq G] [DecidableEq H] in
theorem objection_known {call : ToolCall} (h : (registry P).objection call = none) :
    (P.toolbox.registry call.name.text).isSome = true := by
  unfold Comms.Registry.objection at h
  split at h
  · cases h
  · split at h
    · cases h
    · rename_i hknown
      simpa [registry, Option.isSome_iff_ne_none] using hknown

omit [DecidableEq G] [DecidableEq H] in
theorem tools_grow (executed : List Stripped) (calls : List ToolCall) (p : Premises C L G H) :
    handlerCalls p.batch.trace <+:
      handlerCalls (runToolCalls (registry P) executed calls p).2.batch.trace := by
  induction calls generalizing executed p with
  | nil => exact List.prefix_rfl
  | cons call rest ih =>
    unfold runToolCalls
    cases hobj : (registry P).objection call with
    | some failure => exact List.prefix_rfl
    | none =>
      have hcall := execute_calls call.arguments p (objection_known hobj)
      dsimp only
      generalize (registry P).execute call.name.text call.arguments p = result at hcall ⊢
      obtain ⟨ok, q⟩ := result
      have hfirst : handlerCalls p.batch.trace <+: handlerCalls q.batch.trace :=
        hcall ▸ List.prefix_append _ _
      cases ok with
      | false => exact hfirst
      | true => exact hfirst.trans (ih _ q)

omit [DecidableEq G] [DecidableEq H] in
/-- **The loop calls a handler** if it does not object to the first call, and otherwise
does nothing. -/
theorem tools_called (executed : List Stripped) (call : ToolCall) (rest : List ToolCall)
    (p : Premises C L G H) :
    Still p (runToolCalls (registry P) executed (call :: rest) p).2 ↔
      ((registry P).objection call).isSome = true := by
  unfold runToolCalls
  cases hobj : (registry P).objection call with
  | some failure => exact iff_of_true (.refl p) rfl
  | none =>
    refine iff_of_false ?_ Bool.false_ne_true
    have hcall := execute_calls call.arguments p (objection_known hobj)
    have hrest := fun q => tools_grow (P := P) (executed ++ [call.callId]) rest q
    dsimp only
    generalize (registry P).execute call.name.text call.arguments p = result at hcall ⊢
    obtain ⟨ok, q⟩ := result
    -- whatever follows, there is one call more
    have hmore : ∀ r : Premises C L G H,
        handlerCalls q.batch.trace <+: handlerCalls r.batch.trace → ¬ Still p r := by
      intro r hr hstill
      have hlen := hr.length_le
      rw [hstill.calls, hcall, List.length_append, List.length_singleton] at hlen
      omega
    cases ok with
    | false => exact hmore q List.prefix_rfl
    | true => exact hmore _ (hrest q)

omit [DecidableEq G] in
theorem toolExecution_host (body : PyDict) (s : Comms.Server) (p : Premises C L G H) :
    (Comms.handleToolExecution (host P) body s p).2.2 =
      match admitExecution P.reprOf .tool body s.ledger with
      | .error _ => p
      | .ok (_, _, request) =>
        match extractRequestToolCalls request with
        | none => p
        | some calls => (runToolCalls (registry P) [] calls p).2 := by
  unfold Comms.handleToolExecution
  have hrepr : (host P).reprOf = P.reprOf := rfl
  rw [hrepr]
  cases admitExecution P.reprOf .tool body s.ledger with
  | error reply => rfl
  | ok admitted =>
    obtain ⟨id, actor, request⟩ := admitted
    dsimp only
    cases extractRequestToolCalls request with
    | none => rfl
    | some calls => rfl

omit [DecidableEq G] in
theorem patchExecution_host (body : PyDict) (s : Comms.Server) (p : Premises C L G H) :
    (Comms.handlePatchExecution (host P) body s p).2.2 =
      match admitExecution P.reprOf .patch body s.ledger with
      | .error _ => p
      | .ok (_, _, request) =>
        match extractRequestPatches request with
        | none => p
        | some patches =>
          { p with volume := (Comms.applyPatchesTo P.workspace patches p.volume).2 } := by
  unfold Comms.handlePatchExecution
  have hrepr : (host P).reprOf = P.reprOf := rfl
  rw [hrepr]
  cases admitExecution P.reprOf .patch body s.ledger with
  | error reply => rfl
  | ok admitted =>
    obtain ⟨id, actor, request⟩ := admitted
    dsimp only
    cases extractRequestPatches request with
    | none => rfl
    | some patches =>
      dsimp only [host]
      generalize Comms.applyPatchesTo P.workspace patches p.volume = result
      obtain ⟨outcome, volume⟩ := result
      cases outcome <;> rfl

theorem extracted_calls {request : Comms.OperationRecord} {calls : List ToolCall}
    (h : extractRequestToolCalls request = some calls) : ∃ call rest, calls = call :: rest := by
  unfold extractRequestToolCalls at h
  split at h
  · split at h
    · cases h
      exact ⟨_, _, rfl⟩
    · cases h
  · cases h

/-- With the killswitch engaged, the path has no effect: it is not an execution, or one
that is refused, or that has nothing to do. -/
def Stopped (P : Plant C L G H V) (s : Site (Premises C L G H)) : Entrance C L G H V → Prop
  | .execution .patch body => ∀ id actor request patches,
      admitExecution P.reprOf .patch body s.server.ledger = .ok (id, actor, request) →
      extractRequestPatches request = some patches →
      writesFiles P.workspace patches s.host.volume = false
  | .execution .tool body => ∀ id actor request call rest,
      admitExecution P.reprOf .tool body s.server.ledger = .ok (id, actor, request) →
      extractRequestToolCalls request = some (call :: rest) →
      ((registry P).objection call).isSome = true
  | _ => True

variable {s : Site (Premises C L G H)}

theorem toolExecution_still_iff (body : PyDict) :
    Still s.host (enter P s (.execution .tool body)).host ↔ Stopped P s (.execution .tool body) := by
  have hhost : (enter P s (.execution .tool body)).host =
      (Comms.handleToolExecution (host P) body s.server s.host).2.2 := rfl
  rw [hhost, toolExecution_host]
  unfold Stopped
  cases hpass : admitExecution P.reprOf .tool body s.server.ledger with
  | error reply =>
    refine iff_of_true (.refl _) ?_
    intro id actor request call rest h
    rw [hpass] at h
    cases h
  | ok admitted =>
    obtain ⟨id, actor, request⟩ := admitted
    dsimp only
    cases hextract : extractRequestToolCalls request with
    | none =>
      refine iff_of_true (.refl _) ?_
      intro id' actor' request' call rest h h'
      rw [hpass] at h
      cases h
      rw [hextract] at h'
      cases h'
    | some calls =>
      obtain ⟨call, rest, rfl⟩ := extracted_calls hextract
      dsimp only
      rw [tools_called]
      constructor
      · intro hobj id' actor' request' call' rest' h h'
        rw [hpass] at h
        cases h
        rw [hextract] at h'
        cases h'
        exact hobj
      · intro h
        exact h id actor request call rest hpass hextract

theorem patchExecution_still_iff (body : PyDict) :
    Still s.host (enter P s (.execution .patch body)).host ↔
      Stopped P s (.execution .patch body) := by
  have hhost : (enter P s (.execution .patch body)).host =
      (Comms.handlePatchExecution (host P) body s.server s.host).2.2 := rfl
  rw [hhost, patchExecution_host]
  unfold Stopped
  cases hpass : admitExecution P.reprOf .patch body s.server.ledger with
  | error reply =>
    refine iff_of_true (.refl _) ?_
    intro id actor request patches h
    rw [hpass] at h
    cases h
  | ok admitted =>
    obtain ⟨id, actor, request⟩ := admitted
    dsimp only
    cases hextract : extractRequestPatches request with
    | none =>
      refine iff_of_true (.refl _) ?_
      intro id' actor' request' patches h h'
      rw [hpass] at h
      cases h
      rw [hextract] at h'
      cases h'
    | some patches =>
      have hstopped : Stopped P s (.execution .patch body) ↔
          writesFiles P.workspace patches s.host.volume = false := by
        constructor
        · intro h
          exact h id actor request patches hpass hextract
        · intro hnone id' actor' request' patches' h h'
          rw [hpass] at h
          cases h
          rw [hextract] at h'
          cases h'
          exact hnone
      refine Iff.trans ?_ hstopped.symm
      rcases Comms.applyPatches_begins (W := P.workspace) patches s.host.volume with
        ⟨hnone, hdrawn, hfiles⟩ | ⟨hsome, hdrawn⟩
      · exact iff_of_true ⟨rfl, hdrawn, hfiles⟩ hnone
      · refine iff_of_false (fun hstill => ?_) (by simp [hsome])
        exact absurd hstill.drawn hdrawn.ne'

theorem execution_still_iff (t : RequestType) (body : PyDict) :
    Still s.host (enter P s (.execution t body)).host ↔ Stopped P s (.execution t body) := by
  cases t with
  | patch => exact patchExecution_still_iff body
  | tool => exact toolExecution_still_iff body

theorem stopped_batch {t : RequestType} {body : PyDict} (h : Stopped P s (.execution t body)) :
    (enter P s (.execution t body)).host.batch = s.host.batch := by
  cases t with
  | patch =>
    show (Comms.handlePatchExecution (host P) body s.server s.host).2.2.batch = _
    rw [patchExecution_host]
    split
    · rfl
    · split <;> rfl
  | tool =>
    show (Comms.handleToolExecution (host P) body s.server s.host).2.2.batch = _
    rw [toolExecution_host]
    split
    · rfl
    · rename_i id actor request hpass
      split
      · rfl
      · rename_i calls hextract
        obtain ⟨call, rest, rfl⟩ := extracted_calls hextract
        obtain ⟨failure, hobj⟩ :=
          Option.isSome_iff_exists.1 (h id actor request call rest hpass hextract)
        unfold runToolCalls
        rw [hobj]

theorem stopped_halted (hs : s.host.killswitched = true) {e : Entrance C L G H V}
    (h : Stopped P s e) : Halted s.host (enter P s e).host := by
  cases e with
  | run userInput => exact run_halted userInput hs
  | pulse userInput => exact pulse_halted userInput hs
  | dispatch intentId => exact dispatch_halted intentId hs
  | batch plans =>
    have hblocked : Runtime.Blocked plans s.host.batch.world := Or.inr (Or.inl hs)
    obtain ⟨results, hrun⟩ := Runtime.blocked_unchanged (T := P.toolbox) hblocked
    have hsame : (enter P s (.batch plans)).host = s.host :=
      congrArg (fun b => { s.host with batch := b }) (Effectful.final_of_run hrun)
    rw [hsame]
    exact .refl hs
  | execution t body =>
    refine ⟨(execution_still_iff t body).2 h, ?_⟩
    unfold Premises.killswitched Premises.state
    rw [stopped_batch h]
    exact hs

theorem still_iff (hs : s.host.killswitched = true) (e : Entrance C L G H V) :
    Still s.host (enter P s e).host ↔ Stopped P s e := by
  cases e with
  | execution t body => exact execution_still_iff t body
  | run userInput => exact iff_of_true (stopped_halted hs (e := .run userInput) trivial).still trivial
  | pulse userInput =>
    exact iff_of_true (stopped_halted hs (e := .pulse userInput) trivial).still trivial
  | dispatch intentId =>
    exact iff_of_true (stopped_halted hs (e := .dispatch intentId) trivial).still trivial
  | batch plans =>
    exact iff_of_true (stopped_halted hs (e := .batch plans) trivial).still trivial

/-- **With the killswitch engaged, a path has no effect exactly when it is stopped**; and
a run whose every step is stopped has none throughout. -/
theorem killswitch_stops_iff (P : Plant C L G H V) (hs : s.host.killswitched = true) :
    (∀ e, Still s.host (enter P s e).host ↔ Stopped P s e) ∧
      ∀ es, Guarded (enter P) (Stopped P) s es →
        Always (enter P) (fun s' => Halted s.host s'.host) s es := by
  refine ⟨still_iff hs, ?_⟩
  intro es hg
  exact always_of_guarded (fun _ _ h hok => h.trans (stopped_halted h.engaged hok)) (.refl hs) hg

def idleTool : Runtime.Tool Unit Unit Unit Unit Unit where
  mutatesState := false
  safetyLevel := .readOnly
  accepts _ := true
  handler _ := pure ()
  rollback := none

/-- A runtime with this tool, on the workspace `/ws`, whose model has asked for a call of
the tool. -/
def idlePlant : Plant Unit Unit Unit Unit Unit where
  outside :=
    { hitlMode := false
      statusBridge := fun _ _ => none
      hitlLogWrites := fun _ => true
      faultText := fun _ _ => []
      runUnhalted := fun _ p => (.ok [], p)
      pulseUnhalted := fun _ p => (.ok [], p) }
  surroundings := { hashOf := fun _ => (), canaryValidatorOpen := fun _ => false }
  toolbox :=
    { registry := fun name => if name = lit "idle" then some idleTool else none
      receipt := fun _ => none
      renders := fun _ => true
      capture := fun _ _ => ⟨.missing, false, ()⟩
      expired := fun _ => false }
  workspace := .small fun _ => false
  reprOf _ := []
  clock n := n
  ingestInput _ p := (.ok (lit "INTENT_1"), p)
  pendingTool _ := some
    { requestId := lit "TOOL_REQ_001"
      toolCalls := [{ name := lit "idle", arguments := [], callId := lit "call_1" }] }

def haltedPremises : Premises Unit Unit Unit Unit where
  batch := .start
    { state := { killswitchEngaged := true }
      gateAnchor := .missing
      sandbox := ⟨(), true, fun _ => none, none, none⟩
      ledger := () }
  persisted := .missing
  writable := true
  log := []
  intents := .empty
  volume := .small none

def toolApproval : PyDict :=
  [(lit "request_id", .str (lit "TOOL_REQ_001")), (lit "decision", .str (lit "approved")),
    (lit "actor", .str (lit "operator")), (lit "rationale", .str (lit "fine"))]

def toolExecution : PyDict :=
  [(lit "request_id", .str (lit "TOOL_REQ_001")), (lit "actor", .str (lit "operator"))]

def approvedSite : Site (Premises Unit Unit Unit Unit) :=
  Machine.run (Comms.serve (host idlePlant)) (.initial haltedPremises)
    [.ideExecute (Comms.proposal "a.txt"), .decision .patch Comms.approval,
      .decision .tool toolApproval]

theorem approvedSite_still :
    Still approvedSite.host (enter idlePlant approvedSite (.run (lit "hello"))).host ∧
      Always (enter idlePlant) (fun s' => Halted approvedSite.host s'.host) approvedSite
        [.pulse (lit "hello"), .dispatch (lit "intent_1")] := by
  have hengaged : approvedSite.host.killswitched = true := by decide +kernel
  obtain ⟨hstep, hrun⟩ := killswitch_stops_iff idlePlant hengaged
  exact ⟨(hstep (.run (lit "hello"))).2 trivial, hrun _ ⟨trivial, trivial, trivial⟩⟩

/-- **The execution endpoints pass an engaged killswitch**: the tool of an approved
request is called, and the file of an approved patch is written. -/
theorem approved_passes :
    (¬ ∀ (s : Site (Premises Unit Unit Unit Unit)) body, s.host.killswitched = true →
      handlerCalls (enter idlePlant s (.execution .tool body)).host.batch.trace =
        handlerCalls s.host.batch.trace) ∧
    ¬ ∀ (s : Site (Premises Unit Unit Unit Unit)) body, s.host.killswitched = true →
      (enter idlePlant s (.execution .patch body)).host.volume.tree.files =
        s.host.volume.tree.files := by
  have hengaged : approvedSite.host.killswitched = true := by decide +kernel
  constructor
  · intro h
    have hcalls := h approvedSite toolExecution hengaged
    revert hcalls
    decide +kernel
  · intro h
    have hfile := congrFun (h approvedSite Comms.execution hengaged) [lit "ws", lit "a.txt"]
    revert hfile
    decide +kernel

end ClawHarder.Entrances
