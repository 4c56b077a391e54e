import Mathlib.Logic.Relation
import ClawHarder.Spec.Manager
import ClawHarder.Proof.Arbitration
import ClawHarder.Proof.Persistence

/-!
# A session as a sequence of edits

`View` is the part of an engine that its invariants are about: the stores, the
indexes, the manifest on disk and the number of identifiers drawn. Every call of
the API is a sequence of the elementary changes of `Edit`, so an invariant is
proved once for each of them.

* `step_edits`: **a call is a sequence of edits**, under what the policy asks of it.
* `filed_step`: records stay filed under their own ids, and new ids stay new.
-/

namespace ClawHarder

open Relation

variable {N : Type}

structure View (N : Type) where
  facts : OrderedMap FactId (Fact N)
  references : OrderedMap RefId Reference
  summaries : OrderedMap SummaryId (Summary N)
  indexes : ManifestIndexes
  file : Option (ManifestFile N)
  shortIds : ℕ

def Engine.view (s : Engine N) : View N where
  facts := s.working.facts
  references := s.working.references
  summaries := s.working.summaries
  indexes := s.indexes
  file := s.disk.manifestFile
  shortIds := s.sys.shortIds

structure Policy (N : Type) where
  /-- insert this fact -/
  insert : View N → Fact N → Prop
  /-- insert this summary -/
  summarize : View N → Summary N → Prop
  /-- supersede this summary -/
  replace : Summary N → Prop
  /-- write `active` over a fact in this state, past the indexes -/
  force : FactState → Prop
  /-- the same, with the transition to `superseded` that follows -/
  retire : FactState → Prop
  /-- write the stores to disk -/
  save : View N → Prop

def Policy.any : Policy N where
  insert _ _ := True
  summarize _ _ := True
  replace _ := True
  force _ := True
  retire _ := True
  save _ := True

inductive Edit [JsNumber N] (E : Env N) (P : Policy N) (v : View N) : View N → Prop
  | insertFact (f : Fact N) (hid : f.factId = "FACT_" ++ E.shortId v.shortIds)
      (hp : P.insert v f) :
      Edit E P v { v with
        facts := v.facts.set f.factId f
        indexes := indexFact v.indexes f
        shortIds := v.shortIds + 1 }
  | observe (id : FactId) (f : Fact N) (source now : String) (hget : v.facts.get? id = some f) :
      Edit E P v { v with facts := v.facts.set id (applyConvergence f source now) }
  | move (id : FactId) (f : Fact N) (st : FactState) (now : String)
      (hget : v.facts.get? id = some f) :
      Edit E P v { v with
        facts := v.facts.set id (f.moved st now)
        indexes := alignStates v.indexes id f.state st }
  | force (id : FactId) (f : Fact N) (hget : v.facts.get? id = some f) (hp : P.force f.state) :
      Edit E P v { v with facts := v.facts.set id { f with state := .active } }
  | retire (id : FactId) (f : Fact N) (now : String) (hget : v.facts.get? id = some f)
      (hp : P.retire f.state) :
      Edit E P v { v with
        facts := v.facts.set id (f.moved .superseded now)
        indexes := alignStates v.indexes id .active .superseded }
  | unlist (id : FactId) (f : Fact N) (hget : v.facts.get? id = some f)
      (hst : f.state = .invalidated) :
      Edit E P v { v with indexes :=
        { v.indexes with
          activeFacts := OrderedSet.delete v.indexes.activeFacts id
          conflictedFacts := OrderedSet.delete v.indexes.conflictedFacts id } }
  | stale (sid : SummaryId) (sm : Summary N) (hget : v.summaries.get? sid = some sm) :
      Edit E P v { v with summaries := v.summaries.set sid { sm with stale := true } }
  | replace (sid : SummaryId) (sm : Summary N) (hget : v.summaries.get? sid = some sm)
      (hp : P.replace sm) :
      Edit E P v { v with
        summaries := v.summaries.set sid { sm with state := .superseded }
        indexes := unindexSummaryDeps v.indexes sid sm.sourceFactIds }
  | insertSummary (sm : Summary N) (hid : sm.summaryId = "SUM_" ++ E.shortId v.shortIds)
      (hp : P.summarize v sm) :
      Edit E P v { v with
        summaries := v.summaries.set sm.summaryId sm
        indexes := indexSummaryDeps v.indexes sm.summaryId sm.sourceFactIds
        shortIds := v.shortIds + 1 }
  | insertReference (r : Reference) (hid : r.refId = "REF_" ++ E.shortId v.shortIds) :
      Edit E P v { v with
        references := v.references.set r.refId r
        indexes := indexReference v.indexes r
        shortIds := v.shortIds + 1 }
  | skipId : Edit E P v { v with shortIds := v.shortIds + 1 }
  | write (m : Manifest N) (hf : m.facts = v.facts) (hr : m.references = v.references)
      (hs : m.summaries = v.summaries) (hp : P.save v) :
      Edit E P v { v with file := some (.manifest m) }
  | load (m : Manifest N) (hfile : v.file = some (.manifest m)) :
      Edit E P v { v with
        facts := m.facts
        references := m.references
        summaries := m.summaries
        indexes := buildIndexes m }

abbrev Edits [JsNumber N] (E : Env N) (P : Policy N) : View N → View N → Prop :=
  ReflTransGen (Edit E P)

namespace Engine

variable {E : Env N} (s : Engine N)

@[simp] theorem view_now : (s.now E).2.view = s.view := rfl

@[simp] theorem view_recordOp (type : OperationType) (metadata : List (String × Json N)) :
    (s.recordOp E type metadata).view = s.view := rfl

theorem view_setDirty (b : Bool) : ({ s with dirty := b } : Engine N).view = s.view := rfl

theorem view_markStale (id : FactId) (sid : SummaryId) :
    ∃ sums, (s.markStale E id sid).view = { s.view with summaries := sums } := by
  unfold markStale
  split
  · exact ⟨_, rfl⟩
  · split
    · exact ⟨_, rfl⟩
    · exact ⟨_, rfl⟩

theorem view_propagateStaleness (id : FactId) :
    ∃ sums, (s.propagateStaleness E id).view = { s.view with summaries := sums } := by
  unfold propagateStaleness
  generalize collectStaleSummaries id s.indexes = sids
  induction sids generalizing s with
  | nil => exact ⟨_, rfl⟩
  | cons sid sids ih =>
    obtain ⟨sums, h⟩ := view_markStale (E := E) s id sid
    obtain ⟨sums', h'⟩ := ih (s.markStale E id sid)
    exact ⟨sums', by rw [List.foldl_cons, h', h]⟩

@[simp] theorem facts_propagateStaleness (id : FactId) :
    (s.propagateStaleness E id).working.facts = s.working.facts := by
  obtain ⟨_, h⟩ := view_propagateStaleness (E := E) s id
  exact congrArg View.facts h

@[simp] theorem indexes_propagateStaleness (id : FactId) :
    (s.propagateStaleness E id).indexes = s.indexes := by
  obtain ⟨_, h⟩ := view_propagateStaleness (E := E) s id
  exact congrArg View.indexes h

end Engine

/-- Records are filed under their own ids, and the ids still to come are new. -/
structure Filed (E : Env N) (n : ℕ) (facts : OrderedMap FactId (Fact N))
    (references : OrderedMap RefId Reference) (summaries : OrderedMap SummaryId (Summary N)) :
    Prop where
  factId : ∀ k f, facts.get? k = some f → f.factId = k
  summaryId : ∀ k sm, summaries.get? k = some sm → sm.summaryId = k
  newFact : ∀ m, n ≤ m → facts.get? ("FACT_" ++ E.shortId m) = none
  newRef : ∀ m, n ≤ m → references.get? ("REF_" ++ E.shortId m) = none
  newSummary : ∀ m, n ≤ m → summaries.get? ("SUM_" ++ E.shortId m) = none

structure View.Filed (E : Env N) (v : View N) : Prop where
  working : ClawHarder.Filed E v.shortIds v.facts v.references v.summaries
  file : ∀ m : Manifest N, v.file = some (.manifest m) →
    ClawHarder.Filed E v.shortIds m.facts m.references m.summaries

namespace Filed

variable {E : Env N} {n : ℕ} {facts : OrderedMap FactId (Fact N)}
  {references : OrderedMap RefId Reference} {summaries : OrderedMap SummaryId (Summary N)}

theorem later {n' : ℕ} (hn : n ≤ n') (h : Filed E n facts references summaries) :
    Filed E n' facts references summaries where
  factId := h.factId
  summaryId := h.summaryId
  newFact m hm := h.newFact m (by omega)
  newRef m hm := h.newRef m (by omega)
  newSummary m hm := h.newSummary m (by omega)

theorem setFact {id : FactId} {f f' : Fact N} (h : Filed E n facts references summaries)
    (hget : facts.get? id = some f) (hf : f'.factId = f.factId) :
    Filed E n (facts.set id f') references summaries where
  factId k g hg := by
    rw [OrderedMap.get?_set] at hg
    split at hg
    · rename_i hk
      cases hg
      rw [hf, hk]
      exact h.factId id f hget
    · exact h.factId k g hg
  summaryId := h.summaryId
  newFact m hm := by
    have hnone := h.newFact m hm
    rw [OrderedMap.get?_set, if_neg (fun heq => by rw [heq, hget] at hnone; cases hnone)]
    exact hnone
  newRef := h.newRef
  newSummary := h.newSummary

theorem setSummary {sid : SummaryId} {sm sm' : Summary N}
    (h : Filed E n facts references summaries) (hget : summaries.get? sid = some sm)
    (hs : sm'.summaryId = sm.summaryId) :
    Filed E n facts references (summaries.set sid sm') where
  factId := h.factId
  summaryId k g hg := by
    rw [OrderedMap.get?_set] at hg
    split at hg
    · rename_i hk
      cases hg
      rw [hs, hk]
      exact h.summaryId sid sm hget
    · exact h.summaryId k g hg
  newFact := h.newFact
  newRef := h.newRef
  newSummary m hm := by
    have hnone := h.newSummary m hm
    rw [OrderedMap.get?_set, if_neg (fun heq => by rw [heq, hget] at hnone; cases hnone)]
    exact hnone

theorem id_ne (hE : Function.Injective E.shortId) (tag : String) {m : ℕ} (hm : n + 1 ≤ m) :
    tag ++ E.shortId m ≠ tag ++ E.shortId n := by
  intro heq
  have hmn := hE ((String.append_right_inj tag).1 heq)
  omega

theorem factId_set (h : Filed E n facts references summaries) (f : Fact N) (k : FactId)
    (g : Fact N) (hg : (facts.set f.factId f).get? k = some g) : g.factId = k := by
  rw [OrderedMap.get?_set] at hg
  split at hg
  · rename_i hk; cases hg; exact hk.symm
  · exact h.factId k g hg

theorem insertFact (hE : Function.Injective E.shortId) {f : Fact N}
    (h : Filed E n facts references summaries) (hid : f.factId = "FACT_" ++ E.shortId n) :
    Filed E (n + 1) (facts.set f.factId f) references summaries where
  factId := h.factId_set f
  summaryId := h.summaryId
  newFact m hm := by
    rw [OrderedMap.get?_set, hid, if_neg (id_ne hE "FACT_" hm)]
    exact h.newFact m (by omega)
  newRef m hm := h.newRef m (by omega)
  newSummary m hm := h.newSummary m (by omega)

theorem insertSummary (hE : Function.Injective E.shortId) {sm : Summary N}
    (h : Filed E n facts references summaries) (hid : sm.summaryId = "SUM_" ++ E.shortId n) :
    Filed E (n + 1) facts references (summaries.set sm.summaryId sm) where
  factId := h.factId
  summaryId k g hg := by
    rw [OrderedMap.get?_set] at hg
    split at hg
    · rename_i hk; cases hg; exact hk.symm
    · exact h.summaryId k g hg
  newFact m hm := h.newFact m (by omega)
  newRef m hm := h.newRef m (by omega)
  newSummary m hm := by
    rw [OrderedMap.get?_set, hid, if_neg (id_ne hE "SUM_" hm)]
    exact h.newSummary m (by omega)

theorem insertReference (hE : Function.Injective E.shortId) {r : Reference}
    (h : Filed E n facts references summaries) (hid : r.refId = "REF_" ++ E.shortId n) :
    Filed E (n + 1) facts (references.set r.refId r) summaries where
  factId := h.factId
  summaryId := h.summaryId
  newFact m hm := h.newFact m (by omega)
  newRef m hm := by
    rw [OrderedMap.get?_set, hid, if_neg (id_ne hE "REF_" hm)]
    exact h.newRef m (by omega)
  newSummary m hm := h.newSummary m (by omega)

end Filed

/-- `transitionFact` on facts. -/
def moveIn (id : FactId) (st : FactState) (now : String) (facts : OrderedMap FactId (Fact N)) :
    OrderedMap FactId (Fact N) :=
  match facts.get? id with
  | none => facts
  | some f => facts.set id (f.moved st now)

theorem get?_moveIn (id : FactId) (st : FactState) (now : String)
    (facts : OrderedMap FactId (Fact N)) (k : FactId) :
    (moveIn id st now facts).get? k =
      if k = id then (facts.get? id).map (·.moved st now) else facts.get? k := by
  unfold moveIn
  split
  · rename_i h
    by_cases hk : k = id
    · rw [if_pos hk, hk, h]; rfl
    · rw [if_neg hk]
  · rename_i f h
    rw [OrderedMap.get?_set, h]
    rfl

@[simp] theorem Engine.facts_transitionFact (id : FactId) (st : FactState) (now : String)
    (s : Engine N) :
    (s.transitionFact id st now).working.facts = moveIn id st now s.working.facts := by
  unfold Engine.transitionFact moveIn
  cases s.working.facts.get? id <;> rfl

variable [JsNumber N] {E : Env N} {P : Policy N}

/-- `strengthen` on facts. -/
def observeIn (id : FactId) (source now : String) (facts : OrderedMap FactId (Fact N)) :
    OrderedMap FactId (Fact N) :=
  match facts.get? id with
  | none => facts
  | some f => facts.set f.factId (applyConvergence f source now)

theorem get?_observeIn {id : FactId} {source now : String}
    {facts : OrderedMap FactId (Fact N)} (hid : ∀ f, facts.get? id = some f → f.factId = id)
    (k : FactId) :
    (observeIn id source now facts).get? k =
      if k = id then (facts.get? id).map (applyConvergence · source now) else facts.get? k := by
  unfold observeIn
  split
  · rename_i h
    by_cases hk : k = id
    · rw [if_pos hk, hk, h]; rfl
    · rw [if_neg hk]
  · rename_i f h
    rw [hid f h, OrderedMap.get?_set, h]
    rfl

@[simp] theorem Engine.facts_strengthen (id : FactId) (source now : String) (s : Engine N) :
    (s.strengthen id source now).working.facts = observeIn id source now s.working.facts := by
  unfold Engine.strengthen observeIn
  cases s.working.facts.get? id <;> rfl

def Engine.newFact (E : Env N) (input : AddFactInput N) (st : FactState) (s : Engine N) : Fact N :=
  ((s.now E).2.buildFact E input (deriveIdentityKey E input.type input.value)
    (deriveFactHash E input.type input.value) st none (s.now E).1).1

/-- **The facts after `addFact`.** -/
theorem facts_addFact (E : Env N) (input : AddFactInput N) (s : Engine N) :
    (s.addFact E input).2.2.working.facts =
      match s.decision E input with
      | .new _ => s.working.facts.set (s.newFact E input .active).factId (s.newFact E input .active)
      | .converge id _ => observeIn id input.source (s.now E).1 s.working.facts
      | .supersede id _ =>
        moveIn id .superseded (s.now E).1
          (s.working.facts.set (s.newFact E input .active).factId (s.newFact E input .active))
      | .reject id _ =>
        observeIn id input.source (s.now E).1
          (s.working.facts.set (s.newFact E input .superseded).factId
            (s.newFact E input .superseded))
      | .conflict id _ =>
        moveIn id .conflicted (s.now E).1
          (s.working.facts.set (s.newFact E input .conflicted).factId
            (s.newFact E input .conflicted)) := by
  unfold Engine.addFact
  cases hd : s.decision E input with
  | new reason => rfl
  | converge id reason =>
    simp only [observeIn]
    have hnow : (s.now E).2.working.facts = s.working.facts := rfl
    rw [hnow]
    cases s.working.facts.get? id <;> rfl
  | supersede id reason =>
    simp only [Engine.recordOp, Engine.facts_propagateStaleness, Engine.facts_transitionFact]
    rfl
  | reject id reason =>
    simp only [Engine.recordOp, Engine.facts_strengthen]
    rfl
  | conflict id reason =>
    simp only [Engine.recordOp, Engine.facts_propagateStaleness, Engine.facts_transitionFact]
    rfl

def Engine.nextFactId (E : Env N) (s : Engine N) : FactId := "FACT_" ++ E.shortId s.sys.shortIds

@[simp] theorem Engine.newFact_id (input : AddFactInput N) (st : FactState) (s : Engine N) :
    (s.newFact E input st).factId = s.nextFactId E := rfl

theorem id_addFact (E : Env N) (input : AddFactInput N) (s : Engine N) :
    (s.addFact E input).2.1 =
      match s.decision E input with
      | .converge id _ => ((s.working.facts.get? id).map (·.factId)).getD id
      | _ => s.nextFactId E := by
  unfold Engine.addFact
  cases hd : s.decision E input with
  | converge id reason =>
    have hnow : (s.now E).2.working.facts = s.working.facts := rfl
    simp only [hnow]
    cases s.working.facts.get? id <;> rfl
  | _ => rfl

/-- **What every edit keeps, every sequence keeps.** -/
theorem Edits.inv {I : View N → Prop} (h : ∀ v w, Edit E P v w → I v → I w) {v w : View N}
    (he : Edits E P v w) (hv : I v) : I w := by
  induction he with
  | refl => exact hv
  | tail _ hstep ih => exact h _ _ hstep ih

theorem edits_foldl {α : Type} {f : Engine N → α → Engine N}
    (hf : ∀ s a, Edits E P s.view (f s a).view) (as : List α) (s : Engine N) :
    Edits E P s.view (as.foldl f s).view := by
  induction as generalizing s with
  | nil => exact ReflTransGen.refl
  | cons a as ih => exact (hf s a).trans (ih (f s a))

omit [JsNumber N] in
theorem View.Filed.edited {v w : View N} (h : v.Filed E) (hfile : w.file = v.file)
    (hn : v.shortIds ≤ w.shortIds)
    (hw : ClawHarder.Filed E w.shortIds w.facts w.references w.summaries) : w.Filed E where
  working := hw
  file m hm := (h.file m (by rw [← hfile, hm])).later hn

/-- **Every edit keeps the records filed.** -/
theorem filed_edit (hE : Function.Injective E.shortId) {v w : View N} (he : Edit E P v w)
    (h : v.Filed E) : w.Filed E := by
  have hw := h.working
  cases he with
  | insertFact f hid hp => exact h.edited rfl (by simp) (hw.insertFact hE hid)
  | observe id f source now hget => exact h.edited rfl le_rfl (hw.setFact hget rfl)
  | move id f st now hget => exact h.edited rfl le_rfl (hw.setFact hget rfl)
  | force id f hget hp => exact h.edited rfl le_rfl (hw.setFact hget rfl)
  | retire id f now hget hp => exact h.edited rfl le_rfl (hw.setFact hget rfl)
  | unlist id f hget hst => exact h.edited rfl le_rfl hw
  | stale sid sm hget => exact h.edited rfl le_rfl (hw.setSummary hget rfl)
  | replace sid sm hget hp => exact h.edited rfl le_rfl (hw.setSummary hget rfl)
  | insertSummary sm hid hp => exact h.edited rfl (by simp) (hw.insertSummary hE hid)
  | insertReference r hid => exact h.edited rfl (by simp) (hw.insertReference hE hid)
  | skipId => exact h.edited rfl (by simp) (hw.later (by simp))
  | write m hf hr hs hp =>
    refine ⟨hw, ?_⟩
    intro m' hm'
    cases hm'
    rw [hf, hr, hs]
    exact hw
  | load m hfile => exact h.edited rfl le_rfl (h.file m hfile)

section Helpers

variable (s : Engine N)

theorem transitionFact_edits (id : FactId) (st : FactState) (now : String) :
    Edits E P s.view (s.transitionFact id st now).view := by
  unfold Engine.transitionFact
  split
  · exact ReflTransGen.refl
  · rename_i f hf
    exact ReflTransGen.single (Edit.move id f st now hf)

theorem markStale_edits (id : FactId) (sid : SummaryId) :
    Edits E P s.view (s.markStale E id sid).view := by
  unfold Engine.markStale
  split
  · exact ReflTransGen.refl
  · rename_i sm hsm
    split
    · exact ReflTransGen.refl
    · exact ReflTransGen.single (Edit.stale sid sm hsm)

theorem propagateStaleness_edits (id : FactId) :
    Edits E P s.view (s.propagateStaleness E id).view :=
  edits_foldl (fun s sid => markStale_edits s id sid) _ s

theorem retire_edits (id : FactId) (st : FactState) (now : String) :
    Edits E P s.view ((s.transitionFact id st now).propagateStaleness E id).view :=
  (transitionFact_edits s id st now).trans (propagateStaleness_edits _ id)

theorem insert_edits (input : AddFactInput N) (key hash : String) (st : FactState) (now : String)
    (hp : P.insert s.view (s.buildFact E input key hash st none now).1) :
    Edits E P s.view ((s.buildFact E input key hash st none now).2.insertFact
      (s.buildFact E input key hash st none now).1).view :=
  ReflTransGen.single (Edit.insertFact _ rfl hp)

theorem strengthen_edits (hF : s.view.Filed E) (id : FactId) (source now : String) :
    Edits E P s.view (s.strengthen id source now).view := by
  unfold Engine.strengthen
  split
  · exact ReflTransGen.refl
  · rename_i f hf
    rw [hF.working.factId id f hf]
    exact ReflTransGen.single (Edit.observe id f source now hf)

omit [JsNumber N] in
theorem mem_conflicted_transition {id x : FactId} {now : String}
    (h : x ∈ s.indexes.conflictedFacts) :
    x ∈ (s.transitionFact id .conflicted now).indexes.conflictedFacts := by
  unfold Engine.transitionFact
  split
  · exact h
  · rename_i f hf
    by_cases hx : x = id <;> by_cases hc : f.state = .conflicted <;> simp [alignStates, h, hx, hc]

omit [JsNumber N] in
theorem relist_conflicted {id : FactId} (h : id ∈ s.indexes.conflictedFacts) :
    { s with indexes :=
      { s.indexes with conflictedFacts := OrderedSet.add s.indexes.conflictedFacts id } } = s := by
  rw [OrderedSet.add_of_mem h]

end Helpers

structure Fact.Cites (f : Fact N) (derivedFrom : List FactId) (mergedFrom : Option (List FactId)) :
    Prop where
  derivedFrom : f.derivedFrom = derivedFrom
  supersedes : f.supersedes = none
  mergedFrom : f.mergedFrom = mergedFrom

/-- The policy allows what `addFact` inserts for an input. -/
def Policy.AllowsFact (P : Policy N) (E : Env N) (s : Engine N) (input : AddFactInput N) : Prop :=
  (s.decision E input).outcome ≠ .converge →
    ∀ f : Fact N, f.Cites (input.derivedFrom.getD []) none → P.insert s.view f

variable {s : Engine N}

def Engine.inserted (E : Env N) (input : AddFactInput N) (st : FactState) (s : Engine N) :
    Engine N :=
  ((s.now E).2.buildFact E input (deriveIdentityKey E input.type input.value)
    (deriveFactHash E input.type input.value) st none (s.now E).1).2.insertFact
      (s.newFact E input st)

/-- The manager with the verdict on an observation settled, but not yet recorded. -/
def Engine.settled (E : Env N) (input : AddFactInput N) (s : Engine N) : Engine N :=
  match s.decision E input with
  | .new _ => s.inserted E input .active
  | .converge id _ => (s.now E).2.strengthen id input.source (s.now E).1
  | .supersede id _ =>
    ((s.inserted E input .active).transitionFact id .superseded (s.now E).1).propagateStaleness E id
  | .reject id _ => (s.inserted E input .superseded).strengthen id input.source (s.now E).1
  | .conflict id _ =>
    ((s.inserted E input .conflicted).transitionFact id .conflicted (s.now E).1).propagateStaleness
      E id

theorem listed_inserted (input : AddFactInput N) (id : FactId) (now : String) :
    s.nextFactId E ∈ (((s.inserted E input .conflicted).transitionFact id .conflicted
      now).propagateStaleness E id).indexes.conflictedFacts := by
  rw [Engine.indexes_propagateStaleness]
  apply mem_conflicted_transition
  simp [Engine.inserted, Engine.insertFact, Engine.updateIndexesForFact, indexFact, Engine.newFact,
    Engine.buildFact, Engine.nextFactId, Engine.nextShortId, Engine.now]

/-- **`addFact` settles the verdict and records it**; nothing happens when the verdict
names a fact that is not there. -/
theorem addFact_settled (E : Env N) (input : AddFactInput N) (s : Engine N) :
    ((s.addFact E input).2.2 = (s.now E).2 ∧ s.settled E input = (s.now E).2) ∨
      ∃ type metadata, (s.addFact E input).2.2 = (s.settled E input).recordOp E type metadata := by
  unfold Engine.addFact Engine.settled
  cases hd : s.decision E input with
  | new reason => exact Or.inr ⟨_, _, rfl⟩
  | converge id reason =>
    simp only [Engine.strengthen]
    cases hget : (s.now E).2.working.facts.get? id with
    | none => exact Or.inl ⟨rfl, rfl⟩
    | some f => exact Or.inr ⟨_, _, rfl⟩
  | supersede id reason => exact Or.inr ⟨_, _, rfl⟩
  | reject id reason => exact Or.inr ⟨_, _, rfl⟩
  | conflict id reason =>
    -- the new fact is in the index since it was inserted
    have hlisted := relist_conflicted _ (listed_inserted (E := E) (s := s) input id (s.now E).1)
    refine Or.inr ⟨.factConflicted,
      [("new_fact_id", .str (s.nextFactId E)), ("conflicted_id", .str id),
        ("identity_key", .str (deriveIdentityKey E input.type input.value)),
        ("decision", Engine.decisionJson (.conflict id reason))], ?_⟩
    exact congrArg (fun u => Engine.recordOp E _ _ u) hlisted

theorem view_addFact (E : Env N) (input : AddFactInput N) (s : Engine N) :
    (s.addFact E input).2.2.view = (s.settled E input).view := by
  rcases addFact_settled E input s with ⟨hadd, hsettled⟩ | ⟨type, metadata, hadd⟩
  · rw [hadd, hsettled]
  · rw [hadd, Engine.view_recordOp]

theorem addFact_edits (hE : Function.Injective E.shortId) (hF : s.view.Filed E)
    {input : AddFactInput N} (hp : P.AllowsFact E s input) :
    Edits E P s.view (s.addFact E input).2.2.view := by
  unfold Policy.AllowsFact at hp
  rw [view_addFact]
  unfold Engine.settled
  -- the state just after the new fact is in, for the four outcomes that have one
  have hins (st : FactState) (hd : (s.decision E input).outcome ≠ .converge) :
      Edits E P s.view (s.inserted E input st).view :=
    insert_edits (s.now E).2 input (deriveIdentityKey E input.type input.value)
      (deriveFactHash E input.type input.value) st (s.now E).1 (hp hd _ ⟨rfl, rfl, rfl⟩)
  cases hd : s.decision E input with
  | new reason => exact hins .active (by simp [hd, ArbitrationDecision.outcome])
  | converge id reason => exact strengthen_edits (s.now E).2 hF id input.source (s.now E).1
  | supersede id reason =>
    have h := hins .active (by simp [hd, ArbitrationDecision.outcome])
    exact h.trans (retire_edits _ id .superseded (s.now E).1)
  | reject id reason =>
    have h := hins .superseded (by simp [hd, ArbitrationDecision.outcome])
    have hF' := h.inv (fun _ _ => filed_edit hE) hF
    exact h.trans (strengthen_edits _ hF' id input.source (s.now E).1)
  | conflict id reason =>
    have h := hins .conflicted (by simp [hd, ArbitrationDecision.outcome])
    exact h.trans (retire_edits _ id .conflicted (s.now E).1)

def Engine.supersedeTarget (E : Env N) (target : FactId) (s : Engine N) : Engine N :=
  match s.working.facts.get? target with
  | none => s
  | some _ => ((s.now E).2.transitionFact target .superseded (s.now E).1).propagateStaleness E target

theorem forceRefinement_edits {target id : FactId} {f : Fact N}
    (hget : s.working.facts.get? id = some f)
    (hp : if id = target then P.retire f.state else P.force f.state) :
    Edits E P s.view (s.forceRefinement E target id).view := by
  unfold Engine.forceRefinement
  simp only [hget, Engine.view_recordOp]
  by_cases hid : id = target
  · subst hid
    rw [if_pos rfl] at hp
    have hself : (s.setFact id { f with state := .active }).working.facts.get? id =
        some { f with state := .active } := OrderedMap.get?_set_self _ _ _
    simp only [hself]
    refine ReflTransGen.trans ?_ (propagateStaleness_edits _ id)
    have hmove : (((s.setFact id { f with state := .active }).now E).2.transitionFact id
        .superseded ((s.setFact id { f with state := .active }).now E).1).view =
        { s.view with
          facts := s.view.facts.set id
            (f.moved .superseded ((s.setFact id { f with state := .active }).now E).1)
          indexes := alignStates s.view.indexes id .active .superseded } := by
      unfold Engine.transitionFact
      have hnow : ((s.setFact id { f with state := .active }).now E).2.working.facts.get? id =
        some { f with state := .active } := hself
      simp only [hnow]
      simp only [Engine.view, Engine.setFact, Engine.now, OrderedMap.set_set, Fact.moved]
    rw [hmove]
    exact ReflTransGen.single (Edit.retire id f _ hget hp)
  · rw [if_neg hid] at hp
    have hforce : Edits E P s.view (s.setFact id { f with state := .active }).view :=
      ReflTransGen.single (Edit.force id f hget hp)
    refine hforce.trans ?_
    generalize s.setFact id { f with state := .active } = s1
    split
    · exact ReflTransGen.refl
    · exact retire_edits (s1.now E).2 target .superseded (s1.now E).1

theorem sweepConflict_edits (id : FactId) (key now : String) (s : Engine N) (fid : FactId) :
    Edits E P s.view (s.sweepConflict E id key now fid).view := by
  unfold Engine.sweepConflict
  split
  · exact ReflTransGen.refl
  · split
    · exact ReflTransGen.refl
    · split
      · exact retire_edits s fid .superseded now
      · exact ReflTransGen.refl

theorem decision_existing (hF : s.view.Filed E) {input : AddFactInput N} {id : FactId}
    (h : (s.decision E input).existingId? = some id) : ∃ f, s.working.facts.get? id = some f := by
  obtain ⟨f, hfind, hid⟩ := arbitrate_existing h
  obtain ⟨k, -, hget⟩ := findAuthoritativeFact_mem hfind
  have hk : f.factId = k := hF.working.factId k f hget
  rw [hid] at hk
  exact ⟨f, by rw [hk]; exact hget⟩

theorem addFact_decision (E : Env N) (input : AddFactInput N) (s : Engine N) :
    (s.addFact E input).1 = s.decision E input := by
  unfold Engine.addFact
  cases s.decision E input with
  | converge id reason =>
    simp only
    split <;> rfl
  | _ => rfl

/-- The policy allows what `proposeRefinement` does after arbitration. -/
def Policy.AllowsForce (P : Policy N) (E : Env N) (s : Engine N) (target : FactId)
    (refinement : AddFactInput N) : Prop :=
  match s.decision E (Engine.refinementInput target refinement) with
  | .new _ => True
  | .supersede _ _ => True
  | .reject _ _ => P.force .superseded
  | .conflict _ _ => P.force .conflicted
  | .converge id _ => ∀ f, s.working.facts.get? id = some f →
      if id = target then P.retire f.state else P.force f.state

theorem addFact_named (hF : s.view.Filed E) (input : AddFactInput N) :
    match s.decision E input with
    | .reject _ _ => ∃ f, (s.addFact E input).2.2.working.facts.get? (s.nextFactId E) = some f ∧
        f.state = .superseded
    | .conflict _ _ => ∃ f, (s.addFact E input).2.2.working.facts.get? (s.nextFactId E) = some f ∧
        f.state = .conflicted
    | .converge id _ => ∀ f, s.working.facts.get? id = some f →
        ∃ f', (s.addFact E input).2.2.working.facts.get? id = some f' ∧ f'.state = f.state
    | _ => True := by
  rw [facts_addFact]
  cases s.decision E input with
  | new reason => trivial
  | supersede id reason => trivial
  | converge id reason =>
    intro f hf
    have hid : ∀ g, s.working.facts.get? id = some g → g.factId = id := hF.working.factId id
    refine ⟨applyConvergence f input.source (s.now E).1, ?_, rfl⟩
    simp only [get?_observeIn hid, hf, if_true, Option.map_some]
  | reject id reason =>
    have hid := hF.working.factId_set (s.newFact E input .superseded) id
    simp only [Engine.view, Engine.newFact_id] at hid
    simp only [Engine.newFact_id, get?_observeIn hid, OrderedMap.get?_set]
    split
    · rename_i hid
      simp only [if_pos hid.symm, Option.map_some]
      exact ⟨_, rfl, rfl⟩
    · exact ⟨s.newFact E input .superseded, by simp, rfl⟩
  | conflict id reason =>
    simp only [Engine.newFact_id, get?_moveIn, OrderedMap.get?_set]
    split
    · rename_i hid
      simp only [if_pos hid.symm, Option.map_some]
      exact ⟨_, rfl, rfl⟩
    · exact ⟨s.newFact E input .conflicted, by simp, rfl⟩

theorem addFact_force_edits (hF : s.view.Filed E)
    {target : FactId} {t : Fact N} (ht : s.working.facts.get? target = some t)
    {refinement : AddFactInput N} (hp : P.AllowsForce E s target refinement)
    (hforced : (s.decision E (Engine.refinementInput target refinement)).outcome.forced = true) :
    Edits E P (s.addFact E (Engine.refinementInput target refinement)).2.2.view
      ((s.addFact E (Engine.refinementInput target refinement)).2.2.forceRefinement E target
        (s.addFact E (Engine.refinementInput target refinement)).2.1).view := by
  have hnew : s.nextFactId E ≠ target := by
    intro heq
    have hnone := hF.working.newFact s.sys.shortIds le_rfl
    have hsome : s.working.facts.get? (s.nextFactId E) = some t := by rw [heq, ht]
    exact absurd (hsome.symm.trans hnone) (by simp)
  have hnamed := addFact_named hF (Engine.refinementInput target refinement)
  rw [id_addFact]
  unfold Policy.AllowsForce at hp
  cases hd : s.decision E (Engine.refinementInput target refinement) with
  | new reason => simp [hd, ArbitrationDecision.outcome, Outcome.forced] at hforced
  | supersede id reason => simp [hd, ArbitrationDecision.outcome, Outcome.forced] at hforced
  | reject id reason =>
    rw [hd] at hp hnamed
    obtain ⟨f, hf, hst⟩ := hnamed
    exact forceRefinement_edits hf (by rw [if_neg hnew, hst]; exact hp)
  | conflict id reason =>
    rw [hd] at hp hnamed
    obtain ⟨f, hf, hst⟩ := hnamed
    exact forceRefinement_edits hf (by rw [if_neg hnew, hst]; exact hp)
  | converge id reason =>
    rw [hd] at hp hnamed
    have hex : (s.decision E (Engine.refinementInput target refinement)).existingId? = some id := by
      rw [hd]; rfl
    obtain ⟨f, hf⟩ := decision_existing hF hex
    obtain ⟨f', hf', hst⟩ := hnamed f hf
    have hid : f.factId = id := hF.working.factId id f hf
    simp only [hf, Option.map_some, Option.getD_some, hid]
    refine forceRefinement_edits hf' ?_
    rw [hst]
    exact hp f hf

/-- What `proposeRefinement` asks of a policy. -/
def Policy.AllowsRefinement (P : Policy N) (E : Env N) (s : Engine N) (target : FactId)
    (refinement : AddFactInput N) : Prop :=
  P.AllowsFact E s (Engine.refinementInput target refinement) ∧ P.AllowsForce E s target refinement

theorem proposeRefinement_edits (hE : Function.Injective E.shortId) (hF : s.view.Filed E)
    {target : FactId} {refinement : AddFactInput N}
    (hp : ∀ t, s.working.facts.get? target = some t → t.state ≠ .invalidated →
      P.AllowsRefinement E s target refinement) :
    Edits E P s.view (s.proposeRefinement E target refinement).2.view := by
  unfold Engine.proposeRefinement
  split
  · exact ReflTransGen.refl
  · rename_i t ht
    split
    · exact ReflTransGen.refl
    · rename_i hst
      obtain ⟨hadd, hforce⟩ := hp t ht hst
      have h1 := addFact_edits hE hF hadd
      have hout : (s.addFact E (Engine.refinementInput target refinement)).1 =
          s.decision E (Engine.refinementInput target refinement) := addFact_decision _ _ _
      have h2 := addFact_force_edits hF ht hforce
      simp only [hout]
      generalize s.addFact E (Engine.refinementInput target refinement) = r at h1 h2
      have h3 : Edits E P s.view
          (if (s.decision E (Engine.refinementInput target refinement)).outcome.forced = true then
            r.2.2.forceRefinement E target r.2.1 else r.2.2).view := by
        split
        · rename_i hf; exact h1.trans (h2 hf)
        · exact h1
      generalize (if (s.decision E (Engine.refinementInput target refinement)).outcome.forced = true
        then r.2.2.forceRefinement E target r.2.1 else r.2.2) = s3 at h3
      refine h3.trans ?_
      exact edits_foldl (sweepConflict_edits r.2.1 t.identityKey (s3.now E).1) _ (s3.now E).2

/-- The engine with the consolidated fact stored, before its sources are superseded. -/
def Engine.consolidated (E : Env N) (sources : List FactId) (consolidated : AddFactInput N)
    (s : Engine N) : Engine N :=
  let built := (s.now E).2.buildConsolidated E sources consolidated (s.inheritedSources sources)
    (s.now E).1
  (built.2.setFact built.1.factId built.1).updateIndexesForFact built.1

/-- **A consolidation fails and leaves the engine, or stores its fact and supersedes
its sources.** -/
theorem proposeConsolidation_cases (E : Env N) (sources : List FactId)
    (consolidated : AddFactInput N) (s : Engine N) :
    (s.proposeConsolidation E sources consolidated).2 = s ∨
    (2 ≤ sources.length ∧ (∀ fid ∈ sources, s.working.facts.contains fid = true) ∧
      (s.proposeConsolidation E sources consolidated).2 =
        { (sources.foldl (Engine.supersedeSource E (s.now E).1)
            (s.consolidated E sources consolidated)).recordOp E .factConsolidated
            [("consolidated_fact_id", .str (s.nextFactId E)),
              ("source_fact_ids", jsonStrings sources),
              ("identity_key", .str (deriveIdentityKey E consolidated.type consolidated.value))] with
          dirty := true }) := by
  unfold Engine.proposeConsolidation
  split
  · rename_i first second rest
    split
    · exact Or.inl rfl
    · rename_i hfind
      have hall : ∀ fid ∈ first :: second :: rest, s.working.facts.contains fid = true := by
        intro fid hin
        simpa using List.find?_eq_none.1 hfind fid hin
      exact Or.inr ⟨by simp, hall, rfl⟩
  · exact Or.inl rfl

theorem proposeConsolidation_edits {sources : List FactId} {consolidated : AddFactInput N}
    (hp : (∀ fid ∈ sources, s.working.facts.contains fid = true) →
      ∀ f : Fact N, f.Cites sources (some sources) → P.insert s.view f) :
    Edits E P s.view (s.proposeConsolidation E sources consolidated).2.view := by
  rcases proposeConsolidation_cases E sources consolidated s with hsame | ⟨-, hall, heq⟩
  · rw [hsame]
  · have hins : Edits E P s.view (s.consolidated E sources consolidated).view :=
      ReflTransGen.single (Edit.insertFact _ rfl (hp hall _ ⟨rfl, rfl, rfl⟩))
    rw [heq]
    refine hins.trans ?_
    simp only [Engine.view_setDirty, Engine.view_recordOp]
    exact edits_foldl (f := Engine.supersedeSource E (s.now E).1)
      (fun s' fid => retire_edits s' fid .superseded (s.now E).1) sources _

theorem addReference_edits (input : AddReferenceInput) (storeFails : Bool) :
    Edits E P s.view (s.addReference E input storeFails).view := by
  unfold Engine.addReference
  cases storeFails with
  | true => exact ReflTransGen.single Edit.skipId
  | false =>
    exact ReflTransGen.single (Edit.insertReference
      (Engine.makeReference E input ("REF_" ++ E.shortId s.sys.shortIds)
        (artifactPath s.disk ("REF_" ++ E.shortId s.sys.shortIds)) (s.now E).1) rfl)

/-- What `addSummary` asks of a policy. -/
def Policy.AllowsSummary (P : Policy N) (s : Engine N) (input : AddSummaryInput N) : Prop :=
  (∀ old, s.replacedSummary input.type input.scope = some old → P.replace old) ∧
  ∀ (v : View N) (sm : Summary N), v.facts = s.working.facts → v.references = s.working.references →
    sm.sourceFactIds = input.sourceFactIds → sm.sourceRefIds = input.sourceRefIds.getD [] →
    P.summarize v sm

theorem addSummary_edits (hF : s.view.Filed E) {input : AddSummaryInput N}
    (hp : P.AllowsSummary s input) : Edits E P s.view (s.addSummary E input).view := by
  obtain ⟨hreplace, hsum⟩ := hp
  unfold Engine.addSummary
  have hins (v : View N) (hf : v.facts = s.working.facts) (hr : v.references = s.working.references)
      (hn : v.shortIds = s.sys.shortIds) :=
    Edit.insertSummary (E := E) (P := P) (v := v)
      (Engine.makeSummary input ("SUM_" ++ E.shortId s.sys.shortIds) (s.now E).1)
      (by rw [hn]; rfl) (hsum v _ hf hr rfl rfl)
  cases hr : s.replacedSummary input.type input.scope with
  | none =>
    have hr' : (((s.nextShortId E).2.now E).2.replacedSummary input.type input.scope) = none := hr
    simp only [hr']
    exact ReflTransGen.single (hins s.view rfl rfl rfl)
  | some old =>
    have hr' : (((s.nextShortId E).2.now E).2.replacedSummary input.type input.scope) = some old :=
      hr
    simp only [hr']
    obtain ⟨k, hk⟩ := OrderedMap.mem_values.1 (List.mem_of_find?_eq_some hr)
    have hid : old.summaryId = k := hF.working.summaryId k old hk
    rw [← hid] at hk
    exact ReflTransGen.head (Edit.replace old.summaryId old hk (hreplace old hr))
      (ReflTransGen.single (hins _ rfl rfl rfl))

theorem supersedeFact_edits (id : FactId) (reason : String) :
    Edits E P s.view ((s.supersedeFact E id reason).toOption.getD s).view := by
  unfold Engine.supersedeFact
  split
  · exact ReflTransGen.refl
  · split
    · exact ReflTransGen.refl
    · exact retire_edits (s.now E).2 id .superseded (s.now E).1

theorem invalidateFact_edits (id : FactId) (reason : String) :
    Edits E P s.view ((s.invalidateFact E id reason).toOption.getD s).view := by
  unfold Engine.invalidateFact
  split
  · exact ReflTransGen.refl
  · rename_i f hf
    have h := retire_edits (E := E) (P := P) (s.now E).2 id .invalidated (s.now E).1
    refine ReflTransGen.tail h (Edit.unlist id (f.moved .invalidated (s.now E).1) ?_ rfl)
    have hf' : (s.now E).2.working.facts.get? id = some f := hf
    simp only [Engine.view, Engine.facts_propagateStaleness, Engine.facts_transitionFact,
      get?_moveIn, hf', if_true, Option.map_some]

theorem commit_edits (hp : P.save s.view) (io : Io) :
    Edits E P s.view (s.commit E io).2.view := by
  unfold Engine.commit
  split
  · rcases commit_cases E io s.actor s.working s.expectedRevision s.disk s.sys with
      ⟨reason, detail, sys, h, hids⟩ | ⟨-, h⟩
    · rw [h]
      have hview : ({ s with disk := s.disk, sys := sys } : Engine N).view = s.view := by
        simp only [Engine.view, hids]
      simp only [hview]
      exact ReflTransGen.refl
    · rw [h]
      exact ReflTransGen.single (Edit.write
        (nextManifest E s.sys s.actor s.working s.expectedRevision).1 rfl rfl rfl hp)
  · exact ReflTransGen.refl

theorem reload_edits (io : Io) : Edits E P s.view ((s.reload E io).toOption.getD s).view := by
  unfold Engine.reload
  cases h : load E io s.disk with
  | failed reason detail => exact ReflTransGen.refl
  | ok m ix =>
    obtain ⟨hfile, -, rfl, -⟩ := load_ok_iff.1 h
    exact ReflTransGen.single (Edit.load m hfile)

def Policy.Allows (P : Policy N) (E : Env N) (s : Engine N) : Op N → Prop
  | .addFact input => P.AllowsFact E s input
  | .addSummary input => P.AllowsSummary s input
  | .proposeRefinement target refinement =>
    ∀ t, s.working.facts.get? target = some t → t.state ≠ .invalidated →
      P.AllowsRefinement E s target refinement
  | .proposeConsolidation sources _ =>
    (∀ fid ∈ sources, s.working.facts.contains fid = true) →
      ∀ f : Fact N, f.Cites sources (some sources) → P.insert s.view f
  | .commit _ => P.save s.view
  | _ => True

/-- **A call is a sequence of edits.** -/
theorem step_edits (hE : Function.Injective E.shortId) (hF : s.view.Filed E) {op : Op N}
    (hp : P.Allows E s op) : Edits E P s.view (step E s op).view := by
  cases op with
  | addFact input => exact addFact_edits hE hF hp
  | addReference input storeFails => exact addReference_edits input storeFails
  | addSummary input => exact addSummary_edits hF hp
  | proposeRefinement target refinement => exact proposeRefinement_edits hE hF hp
  | proposeConsolidation sources consolidated => exact proposeConsolidation_edits hp
  | supersedeFact id reason => exact supersedeFact_edits id reason
  | invalidateFact id reason => exact invalidateFact_edits id reason
  | recordOperation type metadata => exact ReflTransGen.refl
  | commit io => exact commit_edits hp io
  | reload io => exact reload_edits io

theorem allows_any (op : Op N) : Policy.any.Allows E s op := by
  cases op with
  | proposeRefinement target refinement =>
    intro t _ _
    refine ⟨fun _ _ _ => trivial, ?_⟩
    unfold Policy.AllowsForce
    split
    · trivial
    · trivial
    · trivial
    · trivial
    · intro f _
      split <;> trivial
  | addSummary input => exact ⟨fun _ _ => trivial, fun _ _ _ _ _ _ => trivial⟩
  | addFact input => exact fun _ _ _ => trivial
  | proposeConsolidation sources consolidated => exact fun _ _ _ => trivial
  | _ => trivial

/-- **Records stay filed under their own ids, and new ids stay new.** -/
theorem filed_step (hE : Function.Injective E.shortId) (hF : s.view.Filed E) (op : Op N) :
    (step E s op).view.Filed E :=
  (step_edits hE hF (allows_any op)).inv (fun _ _ => filed_edit hE) hF

def Policy.unsaved : Policy N := { Policy.any with save := fun _ => False }

def Op.commits : Op N → Bool
  | .commit _ => true
  | _ => false

/-- **Only a commit writes the manifest.** -/
theorem file_step (hE : Function.Injective E.shortId) (hF : s.view.Filed E) {op : Op N}
    (hop : op.commits = false) : (step E s op).disk.manifestFile = s.disk.manifestFile := by
  have hp : Policy.unsaved.Allows E s op := by
    cases op with
    | commit io => cases hop
    | proposeRefinement target refinement => exact allows_any (.proposeRefinement target refinement)
    | addSummary input => exact allows_any (E := E) (s := s) (.addSummary input)
    | addFact input => exact allows_any (.addFact input)
    | proposeConsolidation sources consolidated =>
      exact allows_any (E := E) (s := s) (.proposeConsolidation sources consolidated)
    | _ => trivial
  have hfile : ∀ v w : View N, Edit E Policy.unsaved v w → v.file = s.view.file →
      w.file = s.view.file := by
    intro v w he hv
    cases he with
    | write m hf hr hs hp => exact hp.elim
    | _ => exact hv
  exact (step_edits hE hF hp).inv hfile rfl

omit [JsNumber N] in
theorem facts_addReference {E : Env N} (input : AddReferenceInput) (storeFails : Bool) :
    (s.addReference E input storeFails).working.facts = s.working.facts := by
  unfold Engine.addReference
  cases storeFails <;> rfl

theorem facts_addSummary (input : AddSummaryInput N) :
    (s.addSummary E input).working.facts = s.working.facts := by
  unfold Engine.addSummary
  cases hr : ((s.nextShortId E).2.now E).2.replacedSummary input.type input.scope with
  | none => simp only [hr]; rfl
  | some old => simp only [hr]; rfl

theorem facts_commit (io : Io) : (s.commit E io).2.working.facts = s.working.facts := by
  unfold Engine.commit
  split
  · rcases commit_cases E io s.actor s.working s.expectedRevision s.disk s.sys with
      ⟨reason, detail, sys, h, -⟩ | ⟨-, h⟩
    · rw [h]
    · rw [h]
  · rfl

theorem facts_reload (io : Io) :
    ((s.reload E io).toOption.getD s).working.facts = s.working.facts ∨
      ∃ m, s.disk.manifestFile = some (.manifest m) ∧
        ((s.reload E io).toOption.getD s).working.facts = m.facts := by
  unfold Engine.reload
  cases h : load E io s.disk with
  | failed reason detail => exact Or.inl rfl
  | ok m ix =>
    obtain ⟨hfile, -⟩ := load_ok_iff.1 h
    exact Or.inr ⟨m, hfile, rfl⟩

/-- A manager just loaded, from a manifest that `load` accepts or from none. -/
def Started (E : Env N) (s : Engine N) : Prop :=
  ∃ io actor disk sys, managerLoad E io actor disk sys = some s

theorem Started.loaded (h : Started E s) :
    s.indexes = buildIndexes s.working ∧ s.disk.manifestFile = some (.manifest s.working) := by
  obtain ⟨io, actor, disk, sys, h⟩ := h
  unfold managerLoad loadOrCreate at h
  cases hl : load E io disk with
  | ok m ix =>
    rw [hl] at h
    cases h
    obtain ⟨hfile, -, hix, -⟩ := load_ok_iff.1 hl
    exact ⟨hix, hfile⟩
  | failed reason detail =>
    rw [hl] at h
    cases reason with
    | notFound =>
      by_cases hw : io.writeFails = true
      · simp [hw] at h
      · simp only [hw, Bool.false_eq_true, if_false, Option.some.injEq] at h
        subst h
        exact ⟨rfl, rfl⟩
    | _ => simp at h

/-- `randomUUID` never repeats itself or an id of the loaded manifest. -/
structure UniqueIds (E : Env N) (s : Engine N) : Prop where
  injective : Function.Injective E.shortId
  fact : ∀ n, s.sys.shortIds ≤ n → s.working.facts.get? ("FACT_" ++ E.shortId n) = none
  reference : ∀ n, s.sys.shortIds ≤ n → s.working.references.get? ("REF_" ++ E.shortId n) = none
  summary : ∀ n, s.sys.shortIds ≤ n → s.working.summaries.get? ("SUM_" ++ E.shortId n) = none

theorem Started.filed (hs : Started E s) (hk : s.working.Keyed) (hid : UniqueIds E s) :
    s.view.Filed E := by
  have hw : Filed E s.sys.shortIds s.working.facts s.working.references s.working.summaries :=
    ⟨hk.facts, hk.summaries, hid.fact, hid.reference, hid.summary⟩
  refine ⟨hw, ?_⟩
  intro m hm
  have hfile : s.disk.manifestFile = some (.manifest m) := hm
  rw [hs.loaded.2] at hfile
  cases hfile
  exact hw

/-! A session without a file starts from the manifest that `loadOrCreate` makes. -/

def Engine.fresh (E : Env N) (actor : String) (disk : Disk N) (sys : Sys) : Engine N where
  working := (freshManifest E sys actor actor).1
  indexes := buildIndexes (freshManifest E sys actor actor).1
  dirty := false
  expectedRevision := 0
  actor
  disk := { disk with manifestFile := some (.manifest (freshManifest E sys actor actor).1) }
  sys := (freshManifest E sys actor actor).2

theorem started_fresh (E : Env N) (actor : String) {disk : Disk N} (h : disk.manifestFile = none)
    (sys : Sys) : Started E (Engine.fresh E actor disk sys) := by
  refine ⟨{}, actor, disk, sys, ?_⟩
  unfold managerLoad loadOrCreate load
  rw [h]
  rfl

theorem keyed_fresh (E : Env N) (actor : String) (disk : Disk N) (sys : Sys) :
    (Engine.fresh E actor disk sys).working.Keyed where
  facts k f h := by cases h
  summaries k sm h := by cases h

theorem uniqueIds_fresh (hE : Function.Injective E.shortId) (actor : String) (disk : Disk N)
    (sys : Sys) : UniqueIds E (Engine.fresh E actor disk sys) where
  injective := hE
  fact _ _ := rfl
  reference _ _ := rfl
  summary _ _ := rfl

/-- A quiet environment: the identity key of a fact is its type, a hash is the text
itself, the clock stands still and ids are tallies. -/
def Env.plain (N : Type) : Env N where
  strategy type := some fun _ => some type
  sha256 text := text
  clock _ := { millis := 0, iso := "1970-01-01T00:00:00.000Z" }
  shortId n := String.ofList (List.replicate n 'I')

theorem Env.plain_injective (N : Type) : Function.Injective (Env.plain N).shortId := by
  intro a b h
  have hl := congrArg String.length h
  simpa [Env.plain] using hl

def Disk.empty (N : Type) : Disk N where
  manifestPath := "manifest.json"
  artifactsDir := "artifacts"
  manifestFile := none
  artifacts := .empty

def afterSession (ops : List (Op ℚ)) : Engine ℚ :=
  Machine.run (step (Env.plain ℚ)) (Engine.fresh (Env.plain ℚ) "agent" (Disk.empty ℚ) {}) ops

def cityInput (name : String) (confidence : ℚ) : AddFactInput ℚ :=
  { type := "city", value := [("name", .str name)], confidence, source := "user" }

end ClawHarder
