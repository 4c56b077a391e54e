import ClawHarder.Proof.View
import ClawHarder.Proof.Indexing

/-!
# The indexes over a session

The manager patches its indexes by hand. Two calls do not: `proposeRefinement`
writes `active` over a fact that arbitration left in another state, past the
indexes, and `addSummary` drops the dependencies of the summary it replaces, which
`buildIndexes` keeps. `IndexSafe` excludes these.

* `coherent_edit`: every edit that the tidy policy allows keeps the law.
* `indexes_coherent`: **a session of safe calls has the indexes of its manifest.**
-/

namespace ClawHarder

variable {N : Type} [JsNumber N] {E : Env N}

def Policy.tidy : Policy N where
  insert _ _ := True
  summarize _ _ := True
  replace sm := sm.sourceFactIds = []
  force st := st = .active
  retire st := st = .active ∨ st = .superseded
  save _ := True

def View.Lawful (v : View N) : Prop := IndexLaw v.facts v.references v.summaries v.indexes

/-- **A tidy edit keeps the law.** -/
theorem lawful_edit {v w : View N} (he : Edit E Policy.tidy v w) (hF : v.Filed E)
    (h : v.Lawful) : w.Lawful := by
  obtain ⟨hfacts, hrefs, hdeps⟩ := h
  cases he with
  | insertFact f hid hp =>
    have hnew : v.facts.get? f.factId = none := by
      rw [hid]; exact hF.working.newFact _ le_rfl
    exact ⟨hfacts.insert hnew, hrefs, hdeps⟩
  | observe id f source now hget => exact ⟨hfacts.rewrite hget ⟨rfl, rfl, rfl⟩ rfl, hrefs, hdeps⟩
  | move id f st now hget =>
    have hmoved : FactLaw (v.facts.set id (f.moved st now)) (alignStates v.indexes id f.state st) :=
      hfacts.move hget (f.moved_filing st now) (fun h => h) (fun h => h)
    exact ⟨hmoved, hrefs, hdeps⟩
  | force id f hget hp =>
    have hst : f.state = .active := hp
    exact ⟨hfacts.rewrite hget ⟨rfl, rfl, rfl⟩ hst.symm, hrefs, hdeps⟩
  | retire id f now hget hp =>
    -- the indexes are told that the fact was active; a superseded one is in no state set
    have hc : f.state = .conflicted → FactState.active = .conflicted := by
      intro hst
      rcases hp with h | h <;> rw [hst] at h <;> cases h
    have hmoved : FactLaw (v.facts.set id (f.moved .superseded now))
        (alignStates v.indexes id .active .superseded) :=
      hfacts.move hget (f.moved_filing .superseded now) (fun _ => rfl) hc
    exact ⟨hmoved, hrefs, hdeps⟩
  | unlist id f hget hst =>
    have hna : id ∉ v.indexes.activeFacts := by
      rw [hfacts.active id]
      rintro ⟨g, hg, hact⟩
      rw [hget] at hg
      cases hg
      rw [hst] at hact
      cases hact
    have hnc : id ∉ v.indexes.conflictedFacts := by
      rw [hfacts.conflicted id]
      rintro ⟨g, hg, hcon⟩
      rw [hget] at hg
      cases hg
      rw [hst] at hcon
      cases hcon
    refine ⟨⟨hfacts.type, hfacts.identityKey, hfacts.source, ?_, ?_⟩, hrefs, hdeps⟩
    · intro x
      rw [← hfacts.active x, OrderedSet.mem_delete]
      exact ⟨And.left, fun hx => ⟨hx, fun heq => hna (heq ▸ hx)⟩⟩
    · intro x
      rw [← hfacts.conflicted x, OrderedSet.mem_delete]
      exact ⟨And.left, fun hx => ⟨hx, fun heq => hnc (heq ▸ hx)⟩⟩
  | stale sid sm hget => exact ⟨hfacts, hrefs, hdeps.rewrite hget rfl⟩
  | replace sid sm hget hp =>
    have hnil : sm.sourceFactIds = [] := hp
    have hix : unindexSummaryDeps v.indexes sid sm.sourceFactIds = v.indexes := by
      rw [hnil]; rfl
    simp only [View.Lawful, hix]
    exact ⟨hfacts, hrefs, hdeps.rewrite hget rfl⟩
  | insertSummary sm hid hp =>
    have hnew : v.summaries.get? sm.summaryId = none := by
      rw [hid]; exact hF.working.newSummary _ le_rfl
    exact ⟨hfacts.frame _ _, hrefs, hdeps.insert hnew⟩
  | insertReference r hid =>
    have hnew : v.references.get? r.refId = none := by
      rw [hid]; exact hF.working.newRef _ le_rfl
    exact ⟨hfacts.frame _ _, hrefs.insert hnew, hdeps⟩
  | skipId => exact ⟨hfacts, hrefs, hdeps⟩
  | write m hf hr hs hp => exact ⟨hfacts, hrefs, hdeps⟩
  | load m hfile =>
    have hm := hF.file m hfile
    exact indexLaw_buildIndexes ⟨hm.factId, hm.summaryId⟩

/-- The calls after which the indexes still agree with the manifest:
`addSummary` replaces no summary that has source facts, and arbitration leaves to
`proposeRefinement` a fact whose state the override does not change, or the
target itself when that is superseded. -/
def IndexSafe (E : Env N) (s : Engine N) : Op N → Prop
  | .addSummary input =>
    ∀ old, s.replacedSummary input.type input.scope = some old → old.sourceFactIds = []
  | .proposeRefinement target refinement =>
    ∀ t, s.working.facts.get? target = some t → t.state ≠ .invalidated →
      match s.decision E (Engine.refinementInput target refinement) with
      | .new _ => True
      | .supersede _ _ => True
      | .reject _ _ => False
      | .conflict _ _ => False
      | .converge id _ => ∀ f, s.working.facts.get? id = some f →
          f.state = .active ∨ (id = target ∧ f.state = .superseded)
  | _ => True

theorem IndexSafe.allows {s : Engine N} {op : Op N} (h : IndexSafe E s op) :
    Policy.tidy.Allows E s op := by
  cases op with
  | proposeRefinement target refinement =>
    intro t ht hst
    have h' := h t ht hst
    refine ⟨fun _ _ _ => trivial, ?_⟩
    unfold Policy.AllowsForce
    cases hd : s.decision E (Engine.refinementInput target refinement) with
    | new reason => trivial
    | supersede id reason => trivial
    | reject id reason => rw [hd] at h'; exact h'.elim
    | conflict id reason => rw [hd] at h'; exact h'.elim
    | converge id reason =>
      rw [hd] at h'
      intro f hf
      rcases h' f hf with hact | ⟨hid, hsup⟩
      · split
        · exact Or.inl hact
        · exact hact
      · rw [if_pos hid]
        exact Or.inr hsup
  | addSummary input => exact ⟨h, fun _ _ _ _ _ _ => trivial⟩
  | addFact input => exact fun _ _ _ => trivial
  | proposeConsolidation sources consolidated => exact fun _ _ _ => trivial
  | _ => trivial

theorem IndexSafe.of_unforced {s : Engine N} {target : FactId} {refinement : AddFactInput N}
    (h : (s.decision E (Engine.refinementInput target refinement)).outcome.forced = false) :
    IndexSafe E s (.proposeRefinement target refinement) := by
  intro t _ _
  cases hd : s.decision E (Engine.refinementInput target refinement) with
  | new reason => trivial
  | supersede id reason => trivial
  | _ => simp [hd, ArbitrationDecision.outcome, Outcome.forced] at h

theorem lawful_step (hE : Function.Injective E.shortId) (s : Engine N) (op : Op N)
    (h : s.view.Filed E ∧ s.view.Lawful) (hop : IndexSafe E s op) :
    (step E s op).view.Filed E ∧ (step E s op).view.Lawful :=
  Edits.inv (I := fun v => v.Filed E ∧ v.Lawful)
    (fun _ _ he hv => ⟨filed_edit hE he hv.1, lawful_edit he hv.1 hv.2⟩)
    (step_edits hE h.1 hop.allows) h

/-- **A session of safe calls has the indexes of its manifest**: those that
`buildIndexes` derives, up to empty buckets and the order inside a bucket. -/
theorem indexes_coherent {s : Engine N} (hs : Started E s) (hk : s.working.Keyed)
    (hid : UniqueIds E s) {ops : List (Op N)} (hg : Machine.Guarded (step E) (IndexSafe E) s ops) :
    (Machine.run (step E) s ops).indexes.Equiv
      (buildIndexes (Machine.run (step E) s ops).working) := by
  have hF := hs.filed hk hid
  have hlaw : s.view.Lawful := by
    have hb := indexLaw_buildIndexes hk
    rw [← hs.loaded.1] at hb
    exact hb
  obtain ⟨hF', hlaw'⟩ := Machine.run_inv (lawful_step hid.injective) ⟨hF, hlaw⟩ hg
  exact (indexLaw_iff ⟨hF'.working.factId, hF'.working.summaryId⟩).1 hlaw'

/-- A session on an empty disk: a fact, a summary of it, a refinement that wins, a
commit and a reload. -/
def citySession : List (Op ℚ) :=
  [.addFact
      { type := "city", value := [("name", .str "Rome")], confidence := 0.5, source := "user" },
    .addSummary
      { type := "trip", scope := "week", keyPoints := [], sourceFactIds := ["FACT_"],
        confidence := 0.9 },
    .proposeRefinement "FACT_"
      { type := "city", value := [("name", .str "Oslo")], confidence := 0.9, source := "user" },
    .commit {},
    .reload {}]

theorem citySession_coherent :
    (afterSession citySession).indexes.Equiv (buildIndexes (afterSession citySession).working) := by
  refine indexes_coherent (started_fresh _ "agent" rfl {}) (keyed_fresh _ "agent" _ {})
    (uniqueIds_fresh (Env.plain_injective ℚ) "agent" _ {}) ⟨trivial, ?_, ?_, trivial, trivial, trivial⟩
  · intro old hold
    cases hold
  · exact IndexSafe.of_unforced (by decide +kernel)

def weakRefinement : List (Op ℚ) :=
  [.addFact
      { type := "city", value := [("name", .str "Rome")], confidence := 0.9, source := "user" },
    .proposeRefinement "FACT_"
      { type := "city", value := [("name", .str "Oslo")], confidence := 0.5, source := "user" }]

/-- **The override of `proposeRefinement` breaks the indexes**: the forced fact is
active and not in `active_facts`. -/
theorem weakRefinement_incoherent :
    ¬ ∀ s : Engine ℚ, Started (Env.plain ℚ) s → s.working.Keyed → UniqueIds (Env.plain ℚ) s →
      ∀ ops, (Machine.run (step (Env.plain ℚ)) s ops).indexes.Equiv
        (buildIndexes (Machine.run (step (Env.plain ℚ)) s ops).working) := by
  intro h
  have heq := h (Engine.fresh _ "agent" (Disk.empty ℚ) {}) (started_fresh _ "agent" rfl {})
    (keyed_fresh _ "agent" _ {}) (uniqueIds_fresh (Env.plain_injective ℚ) "agent" _ {}) weakRefinement
  have hin : "FACT_I" ∈ (buildIndexes (afterSession weakRefinement).working).activeFacts := by
    decide +kernel
  have hout : "FACT_I" ∉ (afterSession weakRefinement).indexes.activeFacts := by decide +kernel
  exact hout ((heq.activeFacts "FACT_I").2 hin)

end ClawHarder
