import ClawHarder.Proof.AppendOnly
import ClawHarder.Spec.ContextEngine

/-!
# What a call adds to a manager

A call other than a commit or a reload stays on the revision that the manager
expects, and files at most one fact more: the one that it tells its caller of.

* `Grows`: one fact more, and then the manager is dirty.
* `grows_addFact`, `grows_refinement`: **what these calls add is what they tell.**
-/

namespace ClawHarder

variable {N : Type}

def cores (facts : OrderedMap FactId (Fact N)) (id : FactId) : Option (FactCore N) :=
  (facts.get? id).map Fact.core

section Cores

variable {facts : OrderedMap FactId (Fact N)}

theorem cores_moveIn (id : FactId) (st : FactState) (now : String) :
    cores (moveIn id st now facts) = cores facts := by
  funext k
  unfold cores
  rw [get?_moveIn]
  by_cases hk : k = id
  · subst hk
    rw [if_pos rfl, Option.map_map]
    rfl
  · rw [if_neg hk]

theorem cores_observeIn [JsNumber N] {id : FactId} {source now : String}
    (hid : ∀ f, facts.get? id = some f → f.factId = id) :
    cores (observeIn id source now facts) = cores facts := by
  funext k
  unfold cores
  rw [get?_observeIn hid]
  by_cases hk : k = id
  · subst hk
    rw [if_pos rfl, Option.map_map]
    rfl
  · rw [if_neg hk]

theorem cores_set (id : FactId) (f : Fact N) :
    cores (facts.set id f) = Function.update (cores facts) id (some f.core) := by
  funext k
  unfold cores
  rw [OrderedMap.get?_set, Function.update_apply]
  split <;> rfl

theorem cores_rewrite {id : FactId} {f g : Fact N} (hf : facts.get? id = some f)
    (hcore : g.core = f.core) : cores (facts.set id g) = cores facts := by
  have hid : cores facts id = some g.core := by
    unfold cores
    rw [hf, hcore]
    rfl
  rw [cores_set, ← hid, Function.update_eq_self]

end Cores

variable {E : Env N} {s s' s'' : Engine N}

/-- The manager expects the revision that it did, and no id comes back. -/
structure Moored (s s' : Engine N) : Prop where
  expected : s'.expectedRevision = s.expectedRevision
  shortIds : s.sys.shortIds ≤ s'.sys.shortIds

theorem Moored.refl (s : Engine N) : Moored s s := ⟨rfl, le_rfl⟩

theorem Moored.trans (h : Moored s s') (h' : Moored s' s'') : Moored s s'' :=
  ⟨h'.expected.trans h.expected, h.shortIds.trans h'.shortIds⟩

theorem moored_transitionFact (id : FactId) (st : FactState) (now : String) (s : Engine N) :
    Moored s (s.transitionFact id st now) := by
  unfold Engine.transitionFact
  split
  · exact Moored.refl s
  · exact ⟨rfl, le_rfl⟩

theorem moored_propagateStaleness (id : FactId) (s : Engine N) :
    Moored s (s.propagateStaleness E id) := by
  unfold Engine.propagateStaleness
  generalize collectStaleSummaries id s.indexes = sids
  induction sids generalizing s with
  | nil => exact Moored.refl s
  | cons sid sids ih =>
    refine Moored.trans ?_ (ih (s.markStale E id sid))
    unfold Engine.markStale
    split
    · exact Moored.refl s
    · split
      · exact Moored.refl s
      · exact ⟨rfl, le_rfl⟩

theorem moored_retire (id : FactId) (st : FactState) (now : String) (s : Engine N) :
    Moored s ((s.transitionFact id st now).propagateStaleness E id) :=
  (moored_transitionFact id st now s).trans (moored_propagateStaleness id _)

theorem moored_forceRefinement (target id : FactId) (s : Engine N) :
    Moored s (s.forceRefinement E target id) := by
  have hrest (s' : Engine N) (h : Moored s s') : Moored s (s'.supersedeTarget E target) := by
    unfold Engine.supersedeTarget
    split
    · exact h
    · have hnow : Moored s' (s'.now E).2 := ⟨rfl, le_rfl⟩
      exact h.trans (hnow.trans (moored_retire target .superseded _ _))
  unfold Engine.forceRefinement
  cases s.working.facts.get? id with
  | none => exact (hrest s (Moored.refl s)).trans ⟨rfl, le_rfl⟩
  | some f =>
    have hset : Moored s (s.setFact id { f with state := .active }) := ⟨rfl, le_rfl⟩
    exact (hrest _ hset).trans ⟨rfl, le_rfl⟩

theorem moored_sweep (id : FactId) (key now : String) (L : List FactId) (s : Engine N) :
    Moored s (L.foldl (Engine.sweepConflict E id key now) s) := by
  induction L generalizing s with
  | nil => exact Moored.refl s
  | cons fid L ih =>
    refine Moored.trans ?_ (ih (s.sweepConflict E id key now fid))
    unfold Engine.sweepConflict
    split
    · exact Moored.refl s
    · split
      · exact Moored.refl s
      · split
        · exact (moored_retire fid .superseded now s).trans ⟨rfl, le_rfl⟩
        · exact Moored.refl s

theorem moored_addReference (input : AddReferenceInput) (storeFails : Bool) (s : Engine N) :
    Moored s (s.addReference E input storeFails) := by
  unfold Engine.addReference
  cases storeFails <;> exact ⟨rfl, Nat.le_succ _⟩

/-- The manager stays on its revision and has the fact `told` more, if there is one;
then it is dirty. -/
structure Grows (s s' : Engine N) (told : Option (FactCore N)) : Prop where
  moored : Moored s s'
  file : s'.disk.manifestFile = s.disk.manifestFile
  facts : cores s'.working.facts =
    match told with
    | none => cores s.working.facts
    | some c => Function.update (cores s.working.facts) c.factId (some c)
  new : ∀ c, told = some c → cores s.working.facts c.factId = none
  dirty : s'.dirty = false → s.dirty = false ∧ told = none

theorem Grows.quiet (hm : Moored s s') (hn : Noted s s')
    (hc : cores s'.working.facts = cores s.working.facts) : Grows s s' none where
  moored := hm
  file := hn.1
  facts := hc
  new c h := by cases h
  dirty hd := by
    refine ⟨?_, rfl⟩
    by_contra hs
    rw [hn.2.1 (by simpa using hs)] at hd
    cases hd

theorem Grows.refl (s : Engine N) : Grows s s none :=
  Grows.quiet (Moored.refl s) (Noted.of_eq rfl rfl rfl) rfl

theorem Grows.then {told : Option (FactCore N)} (h : Grows s s' told) (h' : Grows s' s'' none) :
    Grows s s'' told where
  moored := h.moored.trans h'.moored
  file := h'.file.trans h.file
  facts := h'.facts.trans h.facts
  new := h.new
  dirty hd := h.dirty (h'.dirty hd).1

theorem cores_sweep (id : FactId) (key now : String) (L : List FactId) (s : Engine N) :
    cores (L.foldl (Engine.sweepConflict E id key now) s).working.facts =
      cores s.working.facts := by
  induction L generalizing s with
  | nil => rfl
  | cons fid L ih =>
    refine (ih (s.sweepConflict E id key now fid)).trans ?_
    unfold Engine.sweepConflict
    split
    · rfl
    · split
      · rfl
      · split
        · simp only [Engine.recordOp, Engine.facts_propagateStaleness,
            Engine.facts_transitionFact]
          exact cores_moveIn fid .superseded now
        · rfl

theorem cores_forceRefinement (target id : FactId) (s : Engine N) :
    cores (s.forceRefinement E target id).working.facts = cores s.working.facts := by
  have hrest (s' : Engine N) :
      cores (s'.supersedeTarget E target).working.facts = cores s'.working.facts := by
    unfold Engine.supersedeTarget
    split
    · rfl
    · simp only [Engine.facts_propagateStaleness, Engine.facts_transitionFact]
      exact cores_moveIn target .superseded _
  unfold Engine.forceRefinement
  cases hf : s.working.facts.get? id with
  | none => exact hrest s
  | some f => exact (hrest _).trans (cores_rewrite hf rfl)

variable [JsNumber N]

theorem moored_strengthen (id : FactId) (source now : String) (s : Engine N) :
    Moored s (s.strengthen id source now) := by
  unfold Engine.strengthen
  split
  · exact Moored.refl s
  · exact ⟨rfl, le_rfl⟩

theorem moored_inserted (input : AddFactInput N) (st : FactState) (s : Engine N) :
    Moored s (s.inserted E input st) := ⟨rfl, Nat.le_succ _⟩

theorem moored_settled (input : AddFactInput N) (s : Engine N) :
    Moored s (s.settled E input) := by
  unfold Engine.settled
  cases s.decision E input with
  | new reason => exact moored_inserted input .active s
  | converge id reason =>
    have hnow : Moored s (s.now E).2 := ⟨rfl, le_rfl⟩
    exact hnow.trans (moored_strengthen id _ _ (s.now E).2)
  | supersede id reason =>
    exact (moored_inserted input .active s).trans (moored_retire id .superseded _ _)
  | reject id reason =>
    exact (moored_inserted input .superseded s).trans (moored_strengthen id _ _ _)
  | conflict id reason =>
    exact (moored_inserted input .conflicted s).trans (moored_retire id .conflicted _ _)

theorem moored_addFact (input : AddFactInput N) (s : Engine N) :
    Moored s (s.addFact E input).2.2 := by
  rcases addFact_settled E input s with ⟨hadd, -⟩ | ⟨type, metadata, hadd⟩
  · rw [hadd]
    exact ⟨rfl, le_rfl⟩
  · rw [hadd]
    exact (moored_settled input s).trans ⟨rfl, le_rfl⟩

theorem moored_addSummary (input : AddSummaryInput N) (s : Engine N) :
    Moored s (s.addSummary E input) := by
  unfold Engine.addSummary
  cases hr : ((s.nextShortId E).2.now E).2.replacedSummary input.type input.scope with
  | none =>
    simp only [hr]
    exact ⟨rfl, Nat.le_succ _⟩
  | some old =>
    simp only [hr]
    exact ⟨rfl, Nat.le_succ _⟩

theorem cores_addFact (hF : s.view.Filed E) (input : AddFactInput N) :
    cores (s.addFact E input).2.2.working.facts = cores s.working.facts ∧
        (s.decision E input).outcome = .converge ∨
      ∃ st, cores (s.addFact E input).2.2.working.facts =
          Function.update (cores s.working.facts) (s.nextFactId E)
            (some (s.newFact E input st).core) ∧
        (s.decision E input).outcome ≠ .converge ∧
        (s.addFact E input).2.1 = s.nextFactId E ∧ (s.addFact E input).2.2.dirty = true := by
  rw [facts_addFact E input s, id_addFact E input s]
  have hdirty : (s.decision E input).outcome ≠ .converge →
      (s.addFact E input).2.2.dirty = true := dirty_addFact
  cases hd : s.decision E input with
  | converge id reason => exact Or.inl ⟨cores_observeIn (hF.working.factId id), rfl⟩
  | new reason =>
    rw [hd] at hdirty
    have hout : (ArbitrationDecision.new reason).outcome ≠ .converge := nofun
    exact Or.inr ⟨.active, cores_set _ _, hout, rfl, hdirty hout⟩
  | supersede id reason =>
    rw [hd] at hdirty
    have hout : (ArbitrationDecision.supersede id reason).outcome ≠ .converge := nofun
    exact Or.inr ⟨.active, (cores_moveIn id .superseded _).trans (cores_set _ _), hout, rfl,
      hdirty hout⟩
  | reject id reason =>
    rw [hd] at hdirty
    have hout : (ArbitrationDecision.reject id reason).outcome ≠ .converge := nofun
    exact Or.inr ⟨.superseded,
      (cores_observeIn (hF.working.factId_set _ id)).trans (cores_set _ _), hout, rfl,
      hdirty hout⟩
  | conflict id reason =>
    rw [hd] at hdirty
    have hout : (ArbitrationDecision.conflict id reason).outcome ≠ .converge := nofun
    exact Or.inr ⟨.conflicted, (cores_moveIn id .conflicted _).trans (cores_set _ _), hout, rfl,
      hdirty hout⟩

/-- **What `addFact` adds is what it tells its caller.** -/
theorem grows_addFact (hF : s.view.Filed E) (input : AddFactInput N) :
    Grows s (s.addFact E input).2.2
      ((storedFact (s.addFact E input).1 (s.addFact E input).2.1
        (s.addFact E input).2.2).map Fact.core) := by
  have hm := moored_addFact (E := E) input s
  have hn := noted_addFact (E := E) (s := s) input
  rw [addFact_decision]
  rcases cores_addFact hF input with ⟨hc, hout⟩ | ⟨st, hc, hout, hid, hdirty⟩
  · unfold storedFact
    rw [if_pos hout]
    exact Grows.quiet hm hn hc
  · have htold : (storedFact (s.decision E input) (s.addFact E input).2.1
        (s.addFact E input).2.2).map Fact.core = some (s.newFact E input st).core := by
      unfold storedFact
      rw [if_neg hout, hid]
      show cores (s.addFact E input).2.2.working.facts (s.nextFactId E) = _
      rw [hc, Function.update_self]
    rw [htold]
    refine ⟨hm, hn.1, hc, ?_, ?_⟩
    · rintro c hc'
      cases hc'
      have hnone : s.working.facts.get? (s.nextFactId E) = none := hF.working.newFact _ le_rfl
      show cores s.working.facts (s.nextFactId E) = none
      unfold cores
      rw [hnone]
      rfl
    · intro hd
      rw [hdirty] at hd
      cases hd

theorem refinement_quiet {target : FactId} {t : Fact N} (ht : s.working.facts.get? target = some t)
    (hst : t.state ≠ .invalidated) (refinement : AddFactInput N) :
    let a := (s.addFact E (Engine.refinementInput target refinement)).2.2
    let r := (s.proposeRefinement E target refinement).2
    Moored a r ∧ Noted a r ∧ cores r.working.facts = cores a.working.facts := by
  intro a r
  have hover : Moored a (refined E s target (Engine.refinementInput target refinement)) ∧
      Noted a (refined E s target (Engine.refinementInput target refinement)) ∧
      cores (refined E s target (Engine.refinementInput target refinement)).working.facts =
        cores a.working.facts := by
    unfold refined
    split
    · exact ⟨moored_forceRefinement target _ _, noted_forceRefinement target _,
        cores_forceRefinement target _ _⟩
    · exact ⟨Moored.refl a, Noted.of_eq rfl rfl rfl, rfl⟩
  show Moored a (s.proposeRefinement E target refinement).2 ∧
    Noted a (s.proposeRefinement E target refinement).2 ∧
    cores (s.proposeRefinement E target refinement).2.working.facts = cores a.working.facts
  rw [proposeRefinement_eq ht hst]
  obtain ⟨hm, hn, hc⟩ := hover
  refine ⟨hm.trans (Moored.trans ?_ (moored_sweep _ _ _ _ _)),
    hn.trans (Noted.after (noted_sweep _ _ _ _ _) rfl rfl rfl), (cores_sweep _ _ _ _ _).trans hc⟩
  exact ⟨rfl, le_rfl⟩

/-- **So it is with `proposeRefinement`.** -/
theorem grows_refinement (hF : s.view.Filed E) (target : FactId) (refinement : AddFactInput N) :
    (∃ reason, s.proposeRefinement E target refinement = (.failed reason, s)) ∨
      ∃ id old decision s', s.proposeRefinement E target refinement = (.ok id old decision, s') ∧
        Grows s s' ((storedFact decision id s').map Fact.core) := by
  cases ht : s.working.facts.get? target with
  | none =>
    left
    unfold Engine.proposeRefinement
    rw [ht]
    exact ⟨_, rfl⟩
  | some t =>
    by_cases hst : t.state = .invalidated
    · left
      unfold Engine.proposeRefinement
      rw [ht]
      simp only [hst, if_true]
      exact ⟨_, rfl⟩
    · right
      have hresult : (s.proposeRefinement E target refinement).1 =
          .ok (s.addFact E (Engine.refinementInput target refinement)).2.1 target
            (s.addFact E (Engine.refinementInput target refinement)).1 := by
        unfold Engine.proposeRefinement
        rw [ht]
        simp only [hst, if_false]
      obtain ⟨hm, hn, hc⟩ := refinement_quiet (E := E) ht hst refinement
      have htold (id : FactId) (d : ArbitrationDecision) :
          (storedFact d id (s.proposeRefinement E target refinement).2).map Fact.core =
          (storedFact d id (s.addFact E (Engine.refinementInput target refinement)).2.2).map
            Fact.core := by
        unfold storedFact
        split
        · rfl
        · exact congrFun hc id
      refine ⟨_, _, _, (s.proposeRefinement E target refinement).2, Prod.ext hresult rfl, ?_⟩
      rw [htold]
      exact (grows_addFact hF (Engine.refinementInput target refinement)).then (Grows.quiet hm hn hc)

omit [JsNumber N] in
theorem grows_addReference (input : AddReferenceInput) (storeFails : Bool) :
    Grows s (s.addReference E input storeFails) none :=
  Grows.quiet (moored_addReference input storeFails s) (noted_addReference input storeFails)
    (by rw [facts_addReference])

theorem grows_addSummary (input : AddSummaryInput N) : Grows s (s.addSummary E input) none :=
  Grows.quiet (moored_addSummary input s) (noted_addSummary input) (by rw [facts_addSummary])

omit [JsNumber N] in
theorem grows_recordOp (type : OperationType) (metadata : List (String × Json N)) :
    Grows s (s.recordOp E type metadata) none :=
  Grows.quiet ⟨rfl, le_rfl⟩
    (Logged.record (E := E) (Logged.of_eq rfl (fun h => h) rfl) type metadata _ (fun h => h)) rfl

end ClawHarder
