import ClawHarder.Proof.Lifecycle

/-!
# Replaying the operation log

`replay` folds the operations of a manifest into the state of each fact. A call
records its operation after the fact, so the two representations meet when the call
returns. `recordOperation` writes what its caller says, so it must not say that a
fact was mutated.

* `replay_addFact`, `replay_force`, `replay_sweep`: the log after each mutator.
* `replay_states`: **in every session without a reload the log reconstructs the states
  of the facts.**
-/

namespace ClawHarder

open Engine (candidate refinementInput)

variable {N : Type}

abbrev FactStates := FactId → Option FactState

def FactStates.set (states : FactStates) (id : Option FactId) (st : FactState) : FactStates :=
  match id with
  | none => states
  | some id => fun x => if x = id then some st else states x

def metaText (key : String) (metadata : List (String × Json N)) : Option String :=
  match metadata.lookup key with
  | some (.str text) => some text
  | _ => none

def metaTexts (key : String) (metadata : List (String × Json N)) : List String :=
  match metadata.lookup key with
  | some (.arr items) => items.filterMap fun | .str text => some text | _ => none
  | _ => []

/-- The state that `fact_added` records; an active fact records none. -/
def recordedState (metadata : List (String × Json N)) : FactState :=
  if metaText "state" metadata = some "superseded" then .superseded else .active

def replayOp (states : FactStates) (type : OperationType) (metadata : List (String × Json N)) :
    FactStates :=
  match type with
  | .factAdded => states.set (metaText "fact_id" metadata) (recordedState metadata)
  | .factSuperseded =>
    ((states.set (metaText "new_fact_id" metadata) .active).set
      (metaText "superseded_id" metadata) .superseded).set (metaText "fact_id" metadata) .superseded
  | .factConflicted =>
    (states.set (metaText "new_fact_id" metadata) .conflicted).set
      (metaText "conflicted_id" metadata) .conflicted
  | .factInvalidated => states.set (metaText "fact_id" metadata) .invalidated
  | .factConsolidated =>
    (metaTexts "source_fact_ids" metadata).foldl (fun states id => states.set (some id) .superseded)
      (states.set (metaText "consolidated_fact_id" metadata) .active)
  | _ => states

def replay (operations : List (Operation N)) : FactStates :=
  operations.foldl (fun states op => replayOp states op.type op.metadata) fun _ => none

def Beliefs.states (B : Beliefs) : FactStates := fun id => (B id).map Prod.snd

namespace Beliefs

variable {B : Beliefs} {n id : FactId} {key : String} {st : FactState}

theorem states_put : (B.put n key st).states = B.states.set (some n) st := by
  funext x
  unfold states Beliefs.put FactStates.set
  by_cases hx : x = n <;> simp [hx]

theorem states_move (h : B id ≠ none) : (B.move id st).states = B.states.set (some id) st := by
  obtain ⟨p, hp⟩ := Option.ne_none_iff_exists'.1 h
  funext x
  unfold states Beliefs.move FactStates.set
  by_cases hx : x = id
  · subst hx
    simp [hp]
  · simp [hx]

theorem put_ne_none (h : B id ≠ none) : B.put n key st id ≠ none := by
  unfold Beliefs.put
  split
  · simp
  · exact h

theorem states_put_move {st' : FactState} (h : B id ≠ none) :
    ((B.put n key st).move id st').states = (B.states.set (some n) st).set (some id) st' := by
  rw [states_move (put_ne_none h), states_put]

theorem move_ne_none {n : FactId} (h : B id ≠ none) : B.move n st id ≠ none := by
  unfold Beliefs.move
  by_cases hx : id = n
  · subst hx
    simpa using h
  · rw [if_neg hx]
    exact h

end Beliefs

namespace Engine

variable {E : Env N} (s : Engine N)

def replayed (s : Engine N) : FactStates := replay s.working.operations

theorem replayed_recordOp (type : OperationType) (metadata : List (String × Json N)) :
    (s.recordOp E type metadata).replayed = replayOp s.replayed type metadata := by
  unfold replayed replay recordOp
  rw [List.foldl_append]
  rfl

@[simp] theorem replayed_transitionFact (id : FactId) (st : FactState) (now : String) :
    (s.transitionFact id st now).replayed = s.replayed := by
  unfold transitionFact
  split <;> rfl

@[simp] theorem replayed_now : (s.now E).2.replayed = s.replayed := rfl

@[simp] theorem replayed_propagateStaleness (id : FactId) :
    (s.propagateStaleness E id).replayed = s.replayed := by
  unfold propagateStaleness
  generalize collectStaleSummaries id s.indexes = sids
  induction sids generalizing s with
  | nil => rfl
  | cons sid sids ih =>
    rw [List.foldl_cons, ih]
    unfold markStale
    split
    · rfl
    · split
      · rfl
      · exact replayed_recordOp _ _ _

@[simp] theorem replayed_indexes (indexes : ManifestIndexes) :
    ({ s with indexes } : Engine N).replayed = s.replayed := rfl

@[simp] theorem replayed_insertFact (f : Fact N) : (s.insertFact f).replayed = s.replayed := rfl

end Engine

def Engine.Tells (s : Engine N) : Prop := s.replayed = (beliefs s.working.facts).states

variable [JsNumber N] {E : Env N} {s : Engine N}

@[simp] theorem Engine.replayed_strengthen (id : FactId) (source now : String) :
    (s.strengthen id source now).replayed = s.replayed := by
  unfold Engine.strengthen
  split <;> rfl

/-- **The log after `addFact`.** -/
theorem replay_addFact (hF : s.view.Filed E) (h : s.Tells) (input : AddFactInput N) :
    (s.addFact E input).2.2.Tells := by
  unfold Engine.Tells at h ⊢
  rw [beliefs_addFact hF]
  have hbuild {st : FactState} : ((s.now E).2.buildFact E input
      (deriveIdentityKey E input.type input.value) (deriveFactHash E input.type input.value) st none
      (s.now E).1).2.replayed = s.replayed := rfl
  have hex : ∀ id, (s.decision E input).existingId? = some id →
      beliefs s.working.facts id ≠ none := by
    intro id hid
    obtain ⟨f, hf⟩ := decision_existing hF hid
    simp [beliefs, hf]
  unfold Engine.addFact
  cases hd : s.decision E input with
  | new reason =>
    simp only [Engine.replayed_recordOp, Engine.replayed_insertFact, hbuild, h]
    exact (Beliefs.states_put).symm
  | converge id reason =>
    simp only
    split
    · exact h
    · rw [Engine.replayed_recordOp]
      exact h
  | supersede id reason =>
    simp only [Engine.replayed_recordOp, Engine.replayed_propagateStaleness,
      Engine.replayed_transitionFact, Engine.replayed_insertFact, hbuild, h]
    exact (Beliefs.states_put_move (hex id (by rw [hd]; rfl))).symm
  | reject id reason =>
    simp only [Engine.replayed_recordOp, Engine.replayed_strengthen, Engine.replayed_insertFact,
      hbuild, h]
    exact (Beliefs.states_put).symm
  | conflict id reason =>
    simp only [Engine.replayed_recordOp, Engine.replayed_indexes,
      Engine.replayed_propagateStaleness, Engine.replayed_transitionFact,
      Engine.replayed_insertFact, hbuild, h]
    exact (Beliefs.states_put_move (hex id (by rw [hd]; rfl))).symm

omit [JsNumber N] in
/-- **The log after the override of a refinement.** -/
theorem replay_force (h : s.Tells) {target id : FactId} {f t : Fact N}
    (hf : s.working.facts.get? id = some f) (ht : s.working.facts.get? target = some t) :
    (s.forceRefinement E target id).Tells := by
  unfold Engine.Tells at h ⊢
  have hid : beliefs s.working.facts id ≠ none := by simp [beliefs, hf]
  have htarget : beliefs s.working.facts target ≠ none := by simp [beliefs, ht]
  rw [beliefs_force hf, Beliefs.states_move (Beliefs.move_ne_none htarget), Beliefs.states_move hid,
    ← h]
  unfold Engine.forceRefinement
  simp only [hf, Engine.replayed_recordOp]
  have hsame : (s.setFact id { f with state := .active }).replayed = s.replayed := rfl
  split
  · rw [hsame]
    rfl
  · rw [Engine.replayed_propagateStaleness, Engine.replayed_transitionFact, Engine.replayed_now,
      hsame]
    rfl

omit [JsNumber N] in
theorem replay_sweepConflict (id : FactId) (key now : String) (fid : FactId) (s : Engine N)
    (h : s.Tells) : (s.sweepConflict E id key now fid).Tells := by
  unfold Engine.sweepConflict
  split
  · exact h
  · split
    · exact h
    · rename_i f hf
      split
      · have hfid : beliefs s.working.facts fid ≠ none := by simp [beliefs, hf]
        unfold Engine.Tells at h ⊢
        rw [Engine.replayed_recordOp, Engine.replayed_propagateStaleness,
          Engine.replayed_transitionFact, h]
        show replayOp _ _ _ = (beliefs ((s.transitionFact fid .superseded now).propagateStaleness E
          fid).working.facts).states
        rw [beliefs_retire, Beliefs.states_move hfid]
        rfl
      · exact h

omit [JsNumber N] in
/-- **The log after the sweep.** -/
theorem replay_sweep (id : FactId) (key now : String) (L : List FactId) (s : Engine N)
    (h : s.Tells) : (L.foldl (Engine.sweepConflict E id key now) s).Tells := by
  induction L generalizing s with
  | nil => exact h
  | cons fid L ih => exact ih _ (replay_sweepConflict id key now fid s h)

/-- **The log after a refinement.** -/
theorem replay_refinement (hF : s.view.Filed E) (hB : s.view.Booked) (h : s.Tells)
    (target : FactId) (refinement : AddFactInput N) :
    (s.proposeRefinement E target refinement).2.Tells := by
  rcases proposeRefinement_cases (E := E) s target refinement with hsame | ⟨t, ht, hst⟩
  · rw [hsame]
    exact h
  · have hadd := replay_addFact hF h (refinementInput target refinement)
    have hrefined : (refined E s target (refinementInput target refinement)).Tells := by
      unfold refined
      split
      · -- both facts of the override are there
        obtain ⟨st, hnamed⟩ := addFact_names hF hB (refinementInput target refinement)
        obtain ⟨f, hf, -⟩ := beliefs_eq_some.1 hnamed
        obtain ⟨t', ht', -⟩ := (addFact_changes hF (refinementInput target refinement)).kept
          hF.working.factId ht
        exact replay_force hadd hf ht'
      · exact hadd
    rw [proposeRefinement_eq ht hst]
    exact replay_sweep _ _ _ _ _ hrefined

omit [JsNumber N] in
theorem replay_sources (now : String) (sources : List FactId) (s : Engine N)
    (hall : ∀ fid ∈ sources, beliefs s.working.facts fid ≠ none) :
    (sources.foldl (Engine.supersedeSource E now) s).replayed = s.replayed ∧
    (beliefs (sources.foldl (Engine.supersedeSource E now) s).working.facts).states =
      sources.foldl (fun states id => states.set (some id) .superseded)
        (beliefs s.working.facts).states := by
  induction sources generalizing s with
  | nil => exact ⟨rfl, rfl⟩
  | cons fid sources ih =>
    have hturn : beliefs (s.supersedeSource E now fid).working.facts =
        (beliefs s.working.facts).move fid .superseded := beliefs_retire s fid .superseded now
    have hrest : ∀ x ∈ sources, beliefs (s.supersedeSource E now fid).working.facts x ≠ none := by
      intro x hx
      rw [hturn]
      exact Beliefs.move_ne_none (hall x (List.mem_cons_of_mem fid hx))
    obtain ⟨hlog, hstates⟩ := ih (s.supersedeSource E now fid) hrest
    rw [List.foldl_cons, List.foldl_cons, hlog, hstates, hturn,
      Beliefs.states_move (hall fid List.mem_cons_self)]
    refine ⟨?_, rfl⟩
    unfold Engine.supersedeSource
    rw [Engine.replayed_propagateStaleness, Engine.replayed_transitionFact]

/-- **The log after a consolidation.** -/
theorem replay_consolidation (h : s.Tells) (sources : List FactId)
    (consolidated : AddFactInput N) :
    (s.proposeConsolidation E sources consolidated).2.Tells := by
  rcases proposeConsolidation_cases E sources consolidated s with hsame | ⟨-, hall, heq⟩
  · rw [hsame]
    exact h
  · have hput := beliefs_consolidated (E := E) s sources consolidated
    have hsource : ∀ fid ∈ sources,
        beliefs (s.consolidated E sources consolidated).working.facts fid ≠ none := by
      intro fid hfid
      rw [hput]
      apply Beliefs.put_ne_none
      obtain ⟨f, hf⟩ := OrderedMap.contains_iff.1 (hall fid hfid)
      simp [beliefs, hf]
    obtain ⟨hlog, hstates⟩ := replay_sources (E := E) (s.now E).1 sources _ hsource
    have hlist : metaTexts "source_fact_ids" ([("consolidated_fact_id", .str (s.nextFactId E)),
        ("source_fact_ids", jsonStrings sources), ("identity_key",
          .str (deriveIdentityKey E consolidated.type consolidated.value))] :
        List (String × Json N)) = sources := by
      unfold metaTexts jsonStrings
      simp [List.lookup_cons, List.filterMap_map]
    have hstored : (s.consolidated E sources consolidated).replayed = s.replayed := rfl
    unfold Engine.Tells at h ⊢
    rw [heq]
    show (Engine.recordOp E .factConsolidated _ _).replayed =
      (beliefs (sources.foldl (Engine.supersedeSource E (s.now E).1)
        (s.consolidated E sources consolidated)).working.facts).states
    rw [Engine.replayed_recordOp, hlog, hstored, hstates, hput, Beliefs.states_put, ← h]
    unfold replayOp
    simp only [hlist]
    rfl

def OperationType.mutates : OperationType → Bool
  | .factAdded => true
  | .factSuperseded => true
  | .factInvalidated => true
  | .factConflicted => true
  | .factConsolidated => true
  | _ => false

/-- The calls of a replayable session: no reload, and `recordOperation` logs no fact
mutation. -/
def Op.replayable : Op N → Bool
  | .reload _ => false
  | .recordOperation type _ => !type.mutates
  | _ => true

omit [JsNumber N] in
theorem replayed_addReference (input : AddReferenceInput) (storeFails : Bool) :
    (s.addReference E input storeFails).replayed = s.replayed := by
  unfold Engine.addReference
  cases storeFails with
  | true => rfl
  | false => exact Engine.replayed_recordOp _ _ _

theorem replayed_addSummary (input : AddSummaryInput N) :
    (s.addSummary E input).replayed = s.replayed := by
  unfold Engine.addSummary
  cases hr : ((s.nextShortId E).2.now E).2.replacedSummary input.type input.scope with
  | none =>
    simp only [hr]
    exact Engine.replayed_recordOp _ _ _
  | some old =>
    simp only [hr]
    refine (Engine.replayed_recordOp _ _ _).trans ?_
    exact Engine.replayed_recordOp _ _ _

theorem replayed_commit (io : Io) : (s.commit E io).2.replayed = s.replayed := by
  unfold Engine.commit
  split
  · rcases commit_cases E io s.actor s.working s.expectedRevision s.disk s.sys with
      ⟨reason, detail, sys, h, -⟩ | ⟨-, h⟩
    · rw [h]
      rfl
    · rw [h]
      rfl
  · rfl

omit [JsNumber N] in
theorem replay_supersedeFact (h : s.Tells) (id : FactId) (reason : String) :
    ((s.supersedeFact E id reason).toOption.getD s).Tells := by
  unfold Engine.supersedeFact
  split
  · exact h
  · rename_i f hf
    split
    · exact h
    · have hid : beliefs s.working.facts id ≠ none := by simp [beliefs, hf]
      unfold Engine.Tells at h ⊢
      show (Engine.recordOp E .factSuperseded _ _).replayed =
        (beliefs (((s.now E).2.transitionFact id .superseded (s.now E).1).propagateStaleness E
          id).working.facts).states
      rw [Engine.replayed_recordOp, Engine.replayed_propagateStaleness,
        Engine.replayed_transitionFact, beliefs_retire]
      show replayOp s.replayed _ _ = ((beliefs s.working.facts).move id .superseded).states
      rw [h, Beliefs.states_move hid]
      rfl

omit [JsNumber N] in
theorem replay_invalidateFact (h : s.Tells) (id : FactId) (reason : String) :
    ((s.invalidateFact E id reason).toOption.getD s).Tells := by
  unfold Engine.invalidateFact
  split
  · exact h
  · rename_i f hf
    have hid : beliefs s.working.facts id ≠ none := by simp [beliefs, hf]
    unfold Engine.Tells at h ⊢
    show (Engine.recordOp E .factInvalidated _ _).replayed =
      (beliefs (((s.now E).2.transitionFact id .invalidated (s.now E).1).propagateStaleness E
        id).working.facts).states
    rw [Engine.replayed_recordOp, Engine.replayed_indexes, Engine.replayed_propagateStaleness,
      Engine.replayed_transitionFact, beliefs_retire]
    show replayOp s.replayed _ _ = ((beliefs s.working.facts).move id .invalidated).states
    rw [h, Beliefs.states_move hid]
    rfl

/-- **Every call keeps the log in step with the facts.** -/
theorem replay_step (hL : Living E s) (h : s.Tells) {op : Op N} (hop : op.replayable = true) :
    (step E s op).Tells := by
  -- a call that leaves the facts and tells nothing of them
  have hquiet : ∀ s' : Engine N, s'.replayed = s.replayed → s'.working.facts = s.working.facts →
      s'.Tells := by
    intro s' hlog hfacts
    unfold Engine.Tells at h ⊢
    rw [hlog, hfacts, h]
  cases op with
  | addFact input => exact replay_addFact hL.filed h input
  | addReference input storeFails =>
    exact hquiet _ (replayed_addReference input storeFails) (facts_addReference input storeFails)
  | addSummary input => exact hquiet _ (replayed_addSummary input) (facts_addSummary input)
  | proposeRefinement target refinement =>
    exact replay_refinement hL.filed hL.booked h target refinement
  | proposeConsolidation sources consolidated => exact replay_consolidation h sources consolidated
  | supersedeFact id reason => exact replay_supersedeFact h id reason
  | invalidateFact id reason => exact replay_invalidateFact h id reason
  | recordOperation type metadata =>
    refine hquiet _ ?_ rfl
    rw [show step E s (.recordOperation type metadata) = s.recordOp E type metadata from rfl,
      Engine.replayed_recordOp]
    cases type <;> first | rfl | cases hop
  | commit io => exact hquiet _ (replayed_commit io) (facts_commit io)
  | reload io => cases hop

/-- **Replaying the log reconstructs the states of the facts**, in every session from an
empty manifest without a reload, in which `recordOperation` logs no fact mutation. -/
theorem replay_states (hE : Function.Injective E.shortId) (actor : String) {disk : Disk N}
    (hdisk : disk.manifestFile = none) (sys : Sys) {ops : List (Op N)}
    (hops : ∀ op ∈ ops, op.replayable = true) (id : FactId) :
    let s := Machine.run (step E) (Engine.fresh E actor disk sys) ops
    replay s.working.operations id = (s.working.facts.get? id).map (·.state) := by
  intro s
  have hstart : Living E (Engine.fresh E actor disk sys) ∧ (Engine.fresh E actor disk sys).Tells :=
    ⟨living_started (started_fresh E actor hdisk sys) (keyed_fresh E actor disk sys)
      (uniqueIds_fresh hE actor disk sys), rfl⟩
  have hrun : ∀ (ops : List (Op N)) (s : Engine N), Living E s ∧ s.Tells →
      (∀ op ∈ ops, op.replayable = true) → (Machine.run (step E) s ops).Tells := by
    intro ops
    induction ops with
    | nil => exact fun s hs _ => hs.2
    | cons op ops ih =>
      intro s hs hops
      refine ih (step E s op) ⟨living_step hE hs.1 op, ?_⟩ ?_
      · exact replay_step hs.1 hs.2 (hops op List.mem_cons_self)
      · exact fun o ho => hops o (List.mem_cons_of_mem op ho)
  have htells : s.Tells := hrun ops _ hstart hops
  have hid := congrFun htells id
  have hstate : (beliefs s.working.facts).states id = (s.working.facts.get? id).map (·.state) := by
    unfold Beliefs.states beliefs
    rw [Option.map_map]
    rfl
  exact hid.trans hstate

theorem replay_states_city :
    replay (afterSession [.addFact (cityInput "Rome" 0.5), .addFact (cityInput "Oslo" 0.5),
      .proposeRefinement "FACT_" (cityInput "Lima" 0.4)]).working.operations "FACT_I" =
      some .superseded := by
  have hdisk : (Disk.empty ℚ).manifestFile = none := rfl
  have hops : ∀ op ∈ ([.addFact (cityInput "Rome" 0.5), .addFact (cityInput "Oslo" 0.5),
      .proposeRefinement "FACT_" (cityInput "Lima" 0.4)] : List (Op ℚ)), op.replayable = true := by
    decide
  exact (replay_states (Env.plain_injective ℚ) "agent" hdisk {} hops "FACT_I").trans
    (by decide +kernel)

/-- **`recordOperation` can log a mutation that did not happen.** -/
theorem recorded_not_replayed :
    ¬ ∀ ops : List (Op ℚ), (∀ op ∈ ops, op.reloads = false) → ∀ id,
      replay (afterSession ops).working.operations id =
        ((afterSession ops).working.facts.get? id).map (·.state) := by
  intro h
  have hlog := h [.addFact (cityInput "Rome" 0.5),
    .recordOperation .factInvalidated [("fact_id", .str "FACT_")]] (by decide) "FACT_"
  exact absurd hlog (by decide +kernel)

end ClawHarder
