import ClawHarder.Proof.View

/-!
# What a call does to the facts and the summaries

`Scene` is the part of an engine that the frame laws are about: the facts with
their counter, the summaries and their dependencies. A call that is not a reload
is a sequence of the changes of `Change`; a transition of a fact comes with the
staleness of the summaries that depend on it.

* `step_changes`: **a call is a sequence of changes.**
-/

namespace ClawHarder

open Relation

variable {N : Type}

structure Scene (N : Type) where
  facts : OrderedMap FactId (Fact N)
  lastFactIndex : ℕ
  summaries : OrderedMap SummaryId (Summary N)
  deps : SetMap FactId SummaryId
  conflicted : OrderedSet FactId

def Engine.scene (s : Engine N) : Scene N where
  facts := s.working.facts
  lastFactIndex := s.working.lastFactIndex
  summaries := s.working.summaries
  deps := s.indexes.summaryDeps
  conflicted := s.indexes.conflictedFacts

def markIn (summaries : OrderedMap SummaryId (Summary N)) (sid : SummaryId) :
    OrderedMap SummaryId (Summary N) :=
  match summaries.get? sid with
  | none => summaries
  | some sm => if sm.stale then summaries else summaries.set sid { sm with stale := true }

def staleIn (sids : List SummaryId) (summaries : OrderedMap SummaryId (Summary N)) :
    OrderedMap SummaryId (Summary N) := sids.foldl markIn summaries

/-- The conflicted facts after a transition; an invalidated fact is taken off. -/
def realign (id : FactId) (old : Option FactState) (new : FactState)
    (conflicted : OrderedSet FactId) : OrderedSet FactId :=
  let conflicted :=
    if old = some .conflicted ∨ new = .invalidated then OrderedSet.delete conflicted id
    else conflicted
  if new = .conflicted ∧ old ≠ none then OrderedSet.add conflicted id else conflicted

def Scene.shift (id : FactId) (st : FactState) (now : String) (v : Scene N) : Scene N :=
  { v with
    facts := moveIn id st now v.facts
    summaries := staleIn (v.deps.bucket id) v.summaries
    conflicted := realign id ((v.facts.get? id).map (·.state)) st v.conflicted }

def activeSummary (type scope : String) (summaries : OrderedMap SummaryId (Summary N)) :
    Option (Summary N) :=
  summaries.values.find? fun e => e.type = type ∧ e.scope = scope ∧ e.state = .active

def Scene.replace (type scope : String) (v : Scene N) : Scene N :=
  match activeSummary type scope v.summaries with
  | none => v
  | some old =>
    { v with
      summaries := v.summaries.set old.summaryId { old with state := .superseded }
      deps := old.sourceFactIds.foldl (fun deps fid => deps.remove fid old.summaryId) v.deps }

def Scene.summarize (sm : Summary N) (v : Scene N) : Scene N :=
  { v.replace sm.type sm.scope with
    summaries := (v.replace sm.type sm.scope).summaries.set sm.summaryId sm
    deps := sm.sourceFactIds.foldl (fun deps fid => deps.add fid sm.summaryId)
      (v.replace sm.type sm.scope).deps }

def Scene.insert (f : Fact N) (v : Scene N) : Scene N :=
  { v with
    facts := v.facts.set f.factId f
    lastFactIndex := v.lastFactIndex + 1
    conflicted :=
      if f.state = .conflicted then OrderedSet.add v.conflicted f.factId else v.conflicted }

/-- A new fact is filed under a new id, not invalidated, with the next discovery index
and the key and the hash of its value. -/
structure NewFact [JsNumber N] (E : Env N) (v : Scene N) (f : Fact N) : Prop where
  id : v.facts.get? f.factId = none
  state : f.state ≠ .invalidated
  index : f.discoveryIndex = v.lastFactIndex + 1
  identityKey : f.identityKey = deriveIdentityKey E f.type f.value
  factHash : f.factHash = deriveFactHash E f.type f.value

inductive Change [JsNumber N] (E : Env N) (v : Scene N) : Scene N → Prop
  | insert (f : Fact N) (hnew : NewFact E v f) : Change E v (v.insert f)
  | observe (id : FactId) (source now : String) :
      Change E v { v with facts := observeIn id source now v.facts }
  | force (id : FactId) (f : Fact N) (hget : v.facts.get? id = some f) :
      Change E v { v with facts := v.facts.set id { f with state := .active } }
  | shift (id : FactId) (st : FactState) (now : String) : Change E v (v.shift id st now)
  | summarize (sm : Summary N) (hnew : v.summaries.get? sm.summaryId = none)
      (hactive : sm.state = .active) : Change E v (v.summarize sm)

abbrev Changes [JsNumber N] (E : Env N) : Scene N → Scene N → Prop := ReflTransGen (Change E)

namespace Engine

variable {E : Env N} (s : Engine N)

@[simp] theorem scene_now : (s.now E).2.scene = s.scene := rfl

@[simp] theorem scene_recordOp (type : OperationType) (metadata : List (String × Json N)) :
    (s.recordOp E type metadata).scene = s.scene := rfl

theorem scene_transitionFact {st : FactState} (hst : st ≠ .invalidated) (id : FactId)
    (now : String) :
    (s.transitionFact id st now).scene =
      { s.scene with
        facts := moveIn id st now s.scene.facts
        conflicted := realign id ((s.scene.facts.get? id).map (·.state)) st s.scene.conflicted } := by
  unfold transitionFact moveIn scene realign
  cases hget : s.working.facts.get? id with
  | none => simp [hst]
  | some f => simp [alignStates, hst, setFact]

theorem scene_markStale (id : FactId) (sids : List SummaryId) :
    (sids.foldl (markStale E id) s).scene =
      { s.scene with summaries := staleIn sids s.scene.summaries } := by
  induction sids generalizing s with
  | nil => rfl
  | cons sid sids ih =>
    rw [List.foldl_cons, ih]
    have hturn : (s.markStale E id sid).scene =
        { s.scene with summaries := markIn s.scene.summaries sid } := by
      unfold markStale markIn scene
      cases hget : s.working.summaries.get? sid with
      | none => rfl
      | some sm => cases hstale : sm.stale <;> simp [hstale, recordOp, setSummary]
    rw [hturn]
    rfl

theorem deps_transitionFact (id : FactId) (st : FactState) (now : String) :
    (s.transitionFact id st now).indexes.summaryDeps = s.indexes.summaryDeps := by
  unfold transitionFact
  cases s.working.facts.get? id <;> rfl

/-- **A transition and its staleness.** -/
theorem scene_shift {st : FactState} (hst : st ≠ .invalidated) (id : FactId) (now : String) :
    ((s.transitionFact id st now).propagateStaleness E id).scene = s.scene.shift id st now := by
  unfold propagateStaleness
  rw [scene_markStale, scene_transitionFact s hst]
  unfold collectStaleSummaries Scene.shift
  rw [deps_transitionFact]
  rfl

theorem scene_unlist {id : FactId} {f : Fact N} (hget : s.working.facts.get? id = some f)
    (now : String) (active : OrderedSet FactId) :
    let s' := (s.transitionFact id .invalidated now).propagateStaleness E id
    ({ s' with indexes :=
      { s'.indexes with
        activeFacts := active
        conflictedFacts := OrderedSet.delete s'.indexes.conflictedFacts id } } : Engine N).scene =
      s.scene.shift id .invalidated now := by
  intro s'
  have hmove : (s.transitionFact id .invalidated now).indexes.conflictedFacts =
      if f.state = .conflicted then OrderedSet.delete s.indexes.conflictedFacts id
      else s.indexes.conflictedFacts := by
    unfold transitionFact
    simp [hget, alignStates]
  have htwice : OrderedSet.delete (OrderedSet.delete s.indexes.conflictedFacts id) id =
      OrderedSet.delete s.indexes.conflictedFacts id := by
    simp [OrderedSet.delete]
  have hlist : OrderedSet.delete s'.indexes.conflictedFacts id =
      OrderedSet.delete s.indexes.conflictedFacts id := by
    rw [indexes_propagateStaleness, hmove]
    split
    · exact htwice
    · rfl
  have hscene : s'.scene.summaries = staleIn (s.indexes.summaryDeps.bucket id) s.scene.summaries ∧
      s'.scene.facts = moveIn id .invalidated now s.scene.facts ∧
      s'.scene.lastFactIndex = s.scene.lastFactIndex ∧ s'.scene.deps = s.scene.deps := by
    unfold s' propagateStaleness
    rw [scene_markStale]
    unfold collectStaleSummaries
    rw [deps_transitionFact]
    unfold transitionFact moveIn scene
    cases s.working.facts.get? id <;> exact ⟨rfl, rfl, rfl, rfl⟩
  obtain ⟨hsums, hfacts, hlast, hdeps⟩ := hscene
  unfold Scene.shift realign
  simp only [Engine.scene] at hsums hfacts hlast hdeps ⊢
  simp [hsums, hfacts, hlast, hdeps, hlist]

end Engine

variable [JsNumber N] {E : Env N} {s : Engine N}

theorem Engine.scene_strengthen (id : FactId) (source now : String) :
    (s.strengthen id source now).scene =
      { s.scene with facts := observeIn id source now s.scene.facts } := by
  unfold Engine.strengthen observeIn Engine.scene
  cases s.working.facts.get? id <;> rfl

theorem insert_change (input : AddFactInput N) {st : FactState} (hst : st ≠ .invalidated)
    (hF : s.view.Filed E) : Changes E s.scene (s.scene.insert (s.newFact E input st)) := by
  refine ReflTransGen.single (Change.insert _ ⟨?_, hst, rfl, rfl, rfl⟩)
  exact hF.working.newFact _ le_rfl

/-- **The scene after `addFact`**: the new fact goes in, and the fact that the verdict
names is observed or moved. -/
theorem scene_addFact (E : Env N) (input : AddFactInput N) (s : Engine N) :
    (s.addFact E input).2.2.scene =
      match s.decision E input with
      | .new _ => s.scene.insert (s.newFact E input .active)
      | .converge id _ =>
        { s.scene with facts := observeIn id input.source (s.now E).1 s.scene.facts }
      | .supersede id _ =>
        (s.scene.insert (s.newFact E input .active)).shift id .superseded (s.now E).1
      | .reject id _ =>
        { s.scene.insert (s.newFact E input .superseded) with
          facts := observeIn id input.source (s.now E).1
            (s.scene.insert (s.newFact E input .superseded)).facts }
      | .conflict id _ =>
        (s.scene.insert (s.newFact E input .conflicted)).shift id .conflicted (s.now E).1 := by
  have hsettled : (s.addFact E input).2.2.scene = (s.settled E input).scene := by
    rcases addFact_settled E input s with ⟨hadd, hsettled⟩ | ⟨type, metadata, hadd⟩
    · rw [hadd, hsettled]
    · rw [hadd, Engine.scene_recordOp]
  rw [hsettled]
  unfold Engine.settled
  cases s.decision E input with
  | new reason => rfl
  | converge id reason => exact Engine.scene_strengthen id input.source (s.now E).1
  | supersede id reason =>
    have hst : FactState.superseded ≠ .invalidated := by decide
    exact Engine.scene_shift _ hst id _
  | reject id reason => exact Engine.scene_strengthen id input.source (s.now E).1
  | conflict id reason =>
    have hst : FactState.conflicted ≠ .invalidated := by decide
    exact Engine.scene_shift _ hst id _

theorem addFact_inserts {input : AddFactInput N}
    (hout : (s.decision E input).outcome ≠ .converge) :
    ∃ st, st ≠ .invalidated ∧
      Changes E (s.scene.insert (s.newFact E input st)) (s.addFact E input).2.2.scene := by
  rw [scene_addFact]
  cases hd : s.decision E input with
  | converge id reason =>
    rw [hd] at hout
    exact absurd rfl hout
  | new reason => exact ⟨.active, by decide, ReflTransGen.refl⟩
  | supersede id reason =>
    exact ⟨.active, by decide, ReflTransGen.single (Change.shift id .superseded (s.now E).1)⟩
  | reject id reason =>
    exact ⟨.superseded, by decide, ReflTransGen.single (Change.observe id input.source (s.now E).1)⟩
  | conflict id reason =>
    exact ⟨.conflicted, by decide, ReflTransGen.single (Change.shift id .conflicted (s.now E).1)⟩

theorem addFact_changes (hF : s.view.Filed E) (input : AddFactInput N) :
    Changes E s.scene (s.addFact E input).2.2.scene := by
  by_cases hout : (s.decision E input).outcome = .converge
  · rw [scene_addFact]
    cases hd : s.decision E input with
    | converge id reason =>
      exact ReflTransGen.single (Change.observe id input.source (s.now E).1)
    | _ => rw [hd] at hout; cases hout
  · obtain ⟨st, hst, hch⟩ := addFact_inserts hout
    exact (insert_change input hst hF).trans hch

theorem changes_foldl {α : Type} {f : Engine N → α → Engine N}
    (hf : ∀ s a, Changes E s.scene (f s a).scene) (as : List α) (s : Engine N) :
    Changes E s.scene (as.foldl f s).scene := by
  induction as generalizing s with
  | nil => exact ReflTransGen.refl
  | cons a as ih => exact (hf s a).trans (ih (f s a))

theorem retire_changes (s : Engine N) (id : FactId) (now : String) :
    Changes E s.scene ((s.transitionFact id .superseded now).propagateStaleness E id).scene := by
  rw [Engine.scene_shift s (by decide)]
  exact ReflTransGen.single (Change.shift id .superseded now)

theorem forceRefinement_changes (target id : FactId) (s : Engine N) :
    Changes E s.scene (s.forceRefinement E target id).scene := by
  unfold Engine.forceRefinement
  simp only [Engine.scene_recordOp]
  have hretire : ∀ t : Engine N, Changes E t.scene (t.supersedeTarget E target).scene := by
    intro t
    unfold Engine.supersedeTarget
    split
    · exact ReflTransGen.refl
    · exact retire_changes (t.now E).2 target (t.now E).1
  cases hget : s.working.facts.get? id with
  | none => exact hretire s
  | some f =>
    have hforce : Changes E s.scene (s.setFact id { f with state := .active }).scene :=
      ReflTransGen.single (Change.force id f hget)
    exact hforce.trans (hretire _)

theorem sweepConflict_changes (id : FactId) (key now : String) (s : Engine N) (fid : FactId) :
    Changes E s.scene (s.sweepConflict E id key now fid).scene := by
  unfold Engine.sweepConflict
  split
  · exact ReflTransGen.refl
  · split
    · exact ReflTransGen.refl
    · split
      · exact retire_changes s fid now
      · exact ReflTransGen.refl

theorem proposeRefinement_changes (hF : s.view.Filed E) (target : FactId)
    (refinement : AddFactInput N) :
    Changes E s.scene (s.proposeRefinement E target refinement).2.scene := by
  unfold Engine.proposeRefinement
  split
  · exact ReflTransGen.refl
  · rename_i t ht
    split
    · exact ReflTransGen.refl
    · have hadd := addFact_changes hF (Engine.refinementInput target refinement)
      simp only
      generalize s.addFact E (Engine.refinementInput target refinement) = r at hadd
      have hforce : Changes E s.scene
          (if r.1.outcome.forced = true then r.2.2.forceRefinement E target r.2.1
            else r.2.2).scene := by
        split
        · exact hadd.trans (forceRefinement_changes target r.2.1 r.2.2)
        · exact hadd
      generalize (if r.1.outcome.forced = true then r.2.2.forceRefinement E target r.2.1
        else r.2.2) = s2 at hforce
      refine hforce.trans ?_
      exact changes_foldl (sweepConflict_changes r.2.1 t.identityKey (s2.now E).1) _ (s2.now E).2

theorem consolidated_change (hF : s.view.Filed E) (sources : List FactId)
    (consolidated : AddFactInput N) :
    Changes E s.scene (s.consolidated E sources consolidated).scene :=
  ReflTransGen.single (Change.insert _
    ⟨hF.working.newFact _ le_rfl, FactState.noConfusion, rfl, rfl, rfl⟩)

theorem supersedeSources_changes (now : String) (sources : List FactId) (s : Engine N) :
    Changes E s.scene (sources.foldl (Engine.supersedeSource E now) s).scene :=
  changes_foldl (fun s' fid => retire_changes s' fid now) sources s

theorem proposeConsolidation_changes (hF : s.view.Filed E) (sources : List FactId)
    (consolidated : AddFactInput N) :
    Changes E s.scene (s.proposeConsolidation E sources consolidated).2.scene := by
  rcases proposeConsolidation_cases E sources consolidated s with hsame | ⟨-, -, heq⟩
  · rw [hsame]
  · rw [heq]
    exact (consolidated_change hF sources consolidated).trans
      (supersedeSources_changes (s.now E).1 sources _)

omit [JsNumber N] in
theorem scene_addReference (input : AddReferenceInput) (storeFails : Bool) :
    (s.addReference E input storeFails).scene = s.scene := by
  unfold Engine.addReference
  cases storeFails <;> rfl

theorem scene_addSummary (input : AddSummaryInput N) :
    (s.addSummary E input).scene =
      s.scene.summarize (Engine.makeSummary input ("SUM_" ++ E.shortId s.sys.shortIds)
        ((s.nextShortId E).2.now E).1) := by
  unfold Engine.addSummary Scene.summarize Scene.replace
  have hsame : ((s.nextShortId E).2.now E).2.replacedSummary input.type input.scope =
      activeSummary input.type input.scope s.scene.summaries := rfl
  simp only [hsame]
  cases hold : activeSummary input.type input.scope s.scene.summaries with
  | none => simp only [Engine.makeSummary, hold]; rfl
  | some old => simp only [Engine.makeSummary, hold]; rfl

theorem addSummary_changes (hF : s.view.Filed E) (input : AddSummaryInput N) :
    Changes E s.scene (s.addSummary E input).scene := by
  rw [scene_addSummary]
  exact ReflTransGen.single (Change.summarize _ (hF.working.newSummary _ le_rfl) rfl)

theorem supersedeFact_changes (id : FactId) (reason : String) :
    Changes E s.scene ((s.supersedeFact E id reason).toOption.getD s).scene := by
  unfold Engine.supersedeFact
  split
  · exact ReflTransGen.refl
  · split
    · exact ReflTransGen.refl
    · exact retire_changes (s.now E).2 id (s.now E).1

theorem invalidateFact_changes (id : FactId) (reason : String) :
    Changes E s.scene ((s.invalidateFact E id reason).toOption.getD s).scene := by
  unfold Engine.invalidateFact
  split
  · exact ReflTransGen.refl
  · rename_i f hf
    have hshift := Change.shift (E := E) (v := s.scene) id .invalidated (s.now E).1
    have hf' : (s.now E).2.working.facts.get? id = some f := hf
    rw [← Engine.scene_now (E := E) s, ← Engine.scene_unlist (E := E) _ hf'] at hshift
    exact ReflTransGen.single hshift

theorem scene_commit (io : Io) : (s.commit E io).2.scene = s.scene := by
  unfold Engine.commit
  split
  · rcases commit_cases E io s.actor s.working s.expectedRevision s.disk s.sys with
      ⟨reason, detail, sys, h, -⟩ | ⟨-, h⟩
    · rw [h]
      rfl
    · rw [h]
      rfl
  · rfl

def Op.reloads : Op N → Bool
  | .reload _ => true
  | _ => false

/-- **A call is a sequence of changes**, unless it is a reload. -/
theorem step_changes (hF : s.view.Filed E) {op : Op N} (hop : op.reloads = false) :
    Changes E s.scene (step E s op).scene := by
  cases op with
  | addFact input => exact addFact_changes hF input
  | addReference input storeFails =>
    show Changes E s.scene (s.addReference E input storeFails).scene
    rw [scene_addReference]
  | addSummary input => exact addSummary_changes hF input
  | proposeRefinement target refinement => exact proposeRefinement_changes hF target refinement
  | proposeConsolidation sources consolidated =>
    exact proposeConsolidation_changes hF sources consolidated
  | supersedeFact id reason => exact supersedeFact_changes id reason
  | invalidateFact id reason => exact invalidateFact_changes id reason
  | recordOperation type metadata => exact ReflTransGen.refl
  | commit io =>
    show Changes E s.scene (s.commit E io).2.scene
    rw [scene_commit]
  | reload io => cases hop

def Manifest.scene {N : Type} (m : Manifest N) : Scene N where
  facts := m.facts
  lastFactIndex := m.lastFactIndex
  summaries := m.summaries
  deps := (buildIndexes m).summaryDeps
  conflicted := (buildIndexes m).conflictedFacts

theorem reload_cases (E : Env N) (io : Io) (s : Engine N) :
    (s.reload E io).toOption.getD s = s ∨
      ∃ m, load E io s.disk = .ok m (buildIndexes m) ∧
        s.disk.manifestFile = some (.manifest m) ∧
        ((s.reload E io).toOption.getD s).disk = s.disk ∧
        ((s.reload E io).toOption.getD s).sys.shortIds = s.sys.shortIds ∧
        ((s.reload E io).toOption.getD s).scene = m.scene := by
  unfold Engine.reload
  cases h : load E io s.disk with
  | failed reason detail => exact Or.inl rfl
  | ok m ix =>
    obtain ⟨hfile, -, rfl, -⟩ := load_ok_iff.1 h
    exact Or.inr ⟨m, rfl, hfile, rfl, rfl, rfl⟩

structure FactCore (N : Type) where
  factId : FactId
  factHash : String
  type : String
  value : List (String × Json N)
  identityKey : String
  source : String
  derivedFrom : List FactId
  supersedes : Option FactId
  mergedFrom : Option (List FactId)
  createdAt : String
  discoveryIndex : ℕ

def Fact.core {N : Type} (f : Fact N) : FactCore N where
  factId := f.factId
  factHash := f.factHash
  type := f.type
  value := f.value
  identityKey := f.identityKey
  source := f.source
  derivedFrom := f.derivedFrom
  supersedes := f.supersedes
  mergedFrom := f.mergedFrom
  createdAt := f.createdAt
  discoveryIndex := f.discoveryIndex

omit [JsNumber N] in
@[simp] theorem Fact.core_moved (f : Fact N) (st : FactState) (now : String) :
    (f.moved st now).core = f.core := rfl

@[simp] theorem core_applyConvergence (f : Fact N) (source now : String) :
    (applyConvergence f source now).core = f.core := rfl

def Scene.Keyed (v : Scene N) : Prop := ∀ k f, v.facts.get? k = some f → f.factId = k

/-- **A change leaves a fact in place, with its core.** -/
theorem Change.kept {v w : Scene N} (h : Change E v w) (hk : v.Keyed) {id : FactId} {f : Fact N}
    (hf : v.facts.get? id = some f) : ∃ g, w.facts.get? id = some g ∧ g.core = f.core := by
  cases h with
  | insert n hnew =>
    refine ⟨f, ?_, rfl⟩
    show (v.facts.set n.factId n).get? id = some f
    rw [OrderedMap.get?_set, if_neg, hf]
    rintro rfl
    rw [hnew.id] at hf
    cases hf
  | observe x source now =>
    simp only [get?_observeIn (hk x)]
    by_cases hx : id = x
    · subst hx
      rw [if_pos rfl, hf]
      exact ⟨_, rfl, rfl⟩
    · rw [if_neg hx]
      exact ⟨f, hf, rfl⟩
  | force x g hget =>
    simp only [OrderedMap.get?_set]
    by_cases hx : id = x
    · subst hx
      rw [hf] at hget
      cases hget
      rw [if_pos rfl]
      exact ⟨_, rfl, rfl⟩
    · rw [if_neg hx]
      exact ⟨f, hf, rfl⟩
  | shift x st now =>
    simp only [Scene.shift, get?_moveIn]
    by_cases hx : id = x
    · subst hx
      rw [if_pos rfl, hf]
      exact ⟨_, rfl, rfl⟩
    · rw [if_neg hx]
      exact ⟨f, hf, rfl⟩
  | summarize sm hnew hactive =>
    refine ⟨f, ?_, rfl⟩
    have hsame : (v.summarize sm).facts = v.facts := by
      unfold Scene.summarize Scene.replace
      cases activeSummary sm.type sm.scope v.summaries <;> rfl
    rw [hsame, hf]

/-- **A fact of a changed scene was there with its core, or is new.** -/
theorem Change.origin {v w : Scene N} (h : Change E v w) (hk : v.Keyed) {id : FactId} {g : Fact N}
    (hg : w.facts.get? id = some g) :
    (∃ f, v.facts.get? id = some f ∧ g.core = f.core) ∨
      (NewFact E v g ∧ id = g.factId ∧ w.lastFactIndex = v.lastFactIndex + 1 ∧
        ∀ k, k ≠ id → w.facts.get? k = v.facts.get? k) := by
  cases h with
  | insert n hnew =>
    have hg' : (v.facts.set n.factId n).get? id = some g := hg
    rw [OrderedMap.get?_set] at hg'
    split at hg'
    · rename_i hid
      cases hg'
      refine Or.inr ⟨hnew, hid, rfl, ?_⟩
      intro k hk
      rw [hid] at hk
      exact OrderedMap.get?_set_ne _ _ hk
    · exact Or.inl ⟨g, hg', rfl⟩
  | observe x source now =>
    left
    simp only [get?_observeIn (hk x)] at hg
    split at hg
    · rename_i hx
      subst hx
      obtain ⟨f, hf, rfl⟩ := Option.map_eq_some_iff.1 hg
      exact ⟨f, hf, rfl⟩
    · exact ⟨g, hg, rfl⟩
  | force x f hget =>
    left
    simp only [OrderedMap.get?_set] at hg
    split at hg
    · rename_i hx
      subst hx
      cases hg
      exact ⟨f, hget, rfl⟩
    · exact ⟨g, hg, rfl⟩
  | shift x st now =>
    left
    simp only [Scene.shift, get?_moveIn] at hg
    split at hg
    · rename_i hx
      subst hx
      obtain ⟨f, hf, rfl⟩ := Option.map_eq_some_iff.1 hg
      exact ⟨f, hf, rfl⟩
    · exact ⟨g, hg, rfl⟩
  | summarize sm hnew hactive =>
    left
    have hsame : (v.summarize sm).facts = v.facts := by
      unfold Scene.summarize Scene.replace
      cases activeSummary sm.type sm.scope v.summaries <;> rfl
    rw [hsame] at hg
    exact ⟨g, hg, rfl⟩

theorem keyed_change {v w : Scene N} (h : Change E v w) (hk : v.Keyed) : w.Keyed := by
  intro k g hg
  rcases h.origin hk hg with ⟨f, hf, hcore⟩ | ⟨-, hid, -, -⟩
  · have hid : g.factId = f.factId := congrArg FactCore.factId hcore
    rw [hid]
    exact hk k f hf
  · exact hid.symm

theorem keyed_changes {v w : Scene N} (h : Changes E v w) (hk : v.Keyed) : w.Keyed := by
  induction h with
  | refl => exact hk
  | tail _ hlast ih => exact keyed_change hlast ih

theorem Changes.kept {v w : Scene N} (h : Changes E v w) (hk : v.Keyed) {id : FactId} {f : Fact N}
    (hf : v.facts.get? id = some f) : ∃ g, w.facts.get? id = some g ∧ g.core = f.core := by
  have hboth : w.Keyed ∧ ∃ g, w.facts.get? id = some g ∧ g.core = f.core := by
    induction h with
    | refl => exact ⟨hk, f, hf, rfl⟩
    | tail _ hlast ih =>
      obtain ⟨hku, g, hg, hcore⟩ := ih
      obtain ⟨g', hg', hcore'⟩ := hlast.kept hku hg
      exact ⟨keyed_change hlast hku, g', hg', hcore'.trans hcore⟩
  exact hboth.2

def Scene.Open (v : Scene N) : Prop :=
  ∀ x ∈ v.conflicted, ∀ f, v.facts.get? x = some f → f.state ≠ .invalidated

/-- **Every change keeps the invalidated facts off the list.** -/
theorem open_change {v w : Scene N} (h : Change E v w) (hk : v.Keyed) (hv : v.Open) : w.Open := by
  cases h with
  | insert n hnew =>
    intro x hx f hf
    have hf' : (v.facts.set n.factId n).get? x = some f := hf
    rw [OrderedMap.get?_set] at hf'
    split at hf'
    · cases hf'
      exact hnew.state
    · rename_i hne
      have hin : x ∈ v.conflicted := by
        have hx' : x ∈ (if n.state = .conflicted then OrderedSet.add v.conflicted n.factId
          else v.conflicted) := hx
        split at hx'
        · exact (OrderedSet.mem_add.1 hx').resolve_right hne
        · exact hx'
      exact hv x hin f hf'
  | observe y source now =>
    intro x hx f hf
    simp only [get?_observeIn (hk y)] at hf
    split at hf
    · rename_i hy
      subst hy
      obtain ⟨g, hg, rfl⟩ := Option.map_eq_some_iff.1 hf
      exact hv x hx g hg
    · exact hv x hx f hf
  | force y g hget =>
    intro x hx f hf
    simp only [OrderedMap.get?_set] at hf
    split at hf
    · cases hf
      exact FactState.noConfusion
    · exact hv x hx f hf
  | shift y st now =>
    intro x hx f hf
    simp only [Scene.shift, realign] at hx hf
    rw [get?_moveIn] at hf
    by_cases hxy : x = y
    · subst hxy
      rw [if_pos rfl] at hf
      obtain ⟨g, hg, rfl⟩ := Option.map_eq_some_iff.1 hf
      -- the fact that was moved: an invalidated one has just been taken off
      rintro (hst : st = .invalidated)
      subst hst
      simp at hx
    · rw [if_neg hxy] at hf
      refine hv x ?_ f hf
      split at hx
      · rw [OrderedSet.mem_add] at hx
        rcases hx with hx | hx
        · split at hx
          · exact (OrderedSet.mem_delete.1 hx).1
          · exact hx
        · exact absurd hx hxy
      · split at hx
        · exact (OrderedSet.mem_delete.1 hx).1
        · exact hx
  | summarize sm hnew hactive =>
    have hsame : (v.summarize sm).facts = v.facts ∧ (v.summarize sm).conflicted = v.conflicted := by
      unfold Scene.summarize Scene.replace
      cases activeSummary sm.type sm.scope v.summaries <;> exact ⟨rfl, rfl⟩
    intro x hx f hf
    rw [hsame.2] at hx
    rw [hsame.1] at hf
    exact hv x hx f hf

theorem Change.last_le {v w : Scene N} (h : Change E v w) : v.lastFactIndex ≤ w.lastFactIndex := by
  cases h with
  | insert n hnew => exact Nat.le_succ _
  | summarize sm hnew hactive =>
    apply le_of_eq
    unfold Scene.summarize Scene.replace
    cases activeSummary sm.type sm.scope v.summaries <;> rfl
  | _ => exact le_rfl

theorem Changes.open {v w : Scene N} (h : Changes E v w) (hk : v.Keyed) (hv : v.Open) : w.Open := by
  have hboth : w.Keyed ∧ w.Open := by
    induction h with
    | refl => exact ⟨hk, hv⟩
    | tail _ hlast ih => exact ⟨keyed_change hlast ih.1, open_change hlast ih.1 ih.2⟩
  exact hboth.2

/-- The discovery indices are distinct and counted, the keys and hashes derived. -/
structure Scene.Numbered (E : Env N) (v : Scene N) : Prop where
  keyed : v.Keyed
  apart : ∀ k k' f f', v.facts.get? k = some f → v.facts.get? k' = some f' →
    f.discoveryIndex = f'.discoveryIndex → k = k'
  counted : ∀ k f, v.facts.get? k = some f → f.discoveryIndex ≤ v.lastFactIndex
  derived : ∀ k f, v.facts.get? k = some f →
    f.identityKey = deriveIdentityKey E f.type f.value ∧ f.factHash = deriveFactHash E f.type f.value

/-- **Every change keeps the facts numbered.** -/
theorem numbered_change {v w : Scene N} (h : Change E v w) (hv : v.Numbered E) : w.Numbered E := by
  have hlast := h.last_le
  refine ⟨keyed_change h hv.keyed, ?_, ?_, ?_⟩
  · intro k k' g g' hg hg' heq
    rcases h.origin hv.keyed hg with ⟨f, hf, hcore⟩ | ⟨hnew, hid, -, hframe⟩ <;>
      rcases h.origin hv.keyed hg' with ⟨f', hf', hcore'⟩ | ⟨hnew', hid', -, -⟩
    · have hi : g.discoveryIndex = f.discoveryIndex := congrArg FactCore.discoveryIndex hcore
      have hi' : g'.discoveryIndex = f'.discoveryIndex := congrArg FactCore.discoveryIndex hcore'
      exact hv.apart k k' f f' hf hf' (by omega)
    · -- an old index is counted, a new one is the next
      have hi : g.discoveryIndex = f.discoveryIndex := congrArg FactCore.discoveryIndex hcore
      have hle := hv.counted k f hf
      have hnext := hnew'.index
      omega
    · have hi' : g'.discoveryIndex = f'.discoveryIndex := congrArg FactCore.discoveryIndex hcore'
      have hle := hv.counted k' f' hf'
      have hnext := hnew.index
      omega
    · by_contra hne
      have hsame := hframe k' (fun heq => hne heq.symm)
      rw [hg', hid', hnew'.id] at hsame
      cases hsame
  · intro k g hg
    rcases h.origin hv.keyed hg with ⟨f, hf, hcore⟩ | ⟨hnew, -, hnext, -⟩
    · have hi : g.discoveryIndex = f.discoveryIndex := congrArg FactCore.discoveryIndex hcore
      have hle := hv.counted k f hf
      omega
    · have hi := hnew.index
      omega
  · intro k g hg
    rcases h.origin hv.keyed hg with ⟨f, hf, hcore⟩ | ⟨hnew, -, -, -⟩
    · have ht : g.type = f.type := congrArg FactCore.type hcore
      have hval : g.value = f.value := congrArg FactCore.value hcore
      have hkey : g.identityKey = f.identityKey := congrArg FactCore.identityKey hcore
      have hhash : g.factHash = f.factHash := congrArg FactCore.factHash hcore
      rw [ht, hval, hkey, hhash]
      exact hv.derived k f hf
    · exact ⟨hnew.identityKey, hnew.factHash⟩

end ClawHarder
