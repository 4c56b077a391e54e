import ClawHarder.Proof.Belief
import ClawHarder.Proof.Freshness

/-!
# Observations of different keys

An observation reads the facts of its own identity key and writes those and the
summaries that depend on them. So two observations of different keys do not see one
another, in whichever order they are made.

* `addFact_same`: **where its spokesman is the same, an observation does the same.**
* `observations_independent`: **in every session, two observations of different keys
  give the same in either order, and each changes only what has its own key.**
-/

namespace ClawHarder

open Engine (candidate)

variable {N : Type} [JsNumber N] {E : Env N}

def View.Sourced (v : View N) : Prop :=
  ∀ fid sid, sid ∈ v.indexes.summaryDeps.bucket fid →
    ∃ sm, v.summaries.get? sid = some sm ∧ fid ∈ sm.sourceFactIds

omit [JsNumber N] in
theorem View.Sourced.rewrite {v : View N} (h : v.Sourced) {sid : SummaryId} {sm : Summary N}
    (hget : v.summaries.get? sid = some sm) (sm' : Summary N)
    (hsrc : sm'.sourceFactIds = sm.sourceFactIds)
    {fid : FactId} {k : SummaryId} (hk : k ∈ v.indexes.summaryDeps.bucket fid) :
    ∃ x, (v.summaries.set sid sm').get? k = some x ∧ fid ∈ x.sourceFactIds := by
  obtain ⟨x, hx, hin⟩ := h fid k hk
  rw [OrderedMap.get?_set]
  by_cases heq : k = sid
  · subst heq
    rw [hget] at hx
    cases hx
    exact ⟨sm', if_pos rfl, by rw [hsrc]; exact hin⟩
  · exact ⟨x, by rw [if_neg heq]; exact hx, hin⟩

/-- **Every edit keeps the listed summaries sourced.** -/
theorem sourced_edit {P : Policy N} {v w : View N} (he : Edit E P v w) (hF : v.Filed E)
    (h : v.Sourced) : w.Sourced := by
  cases he with
  | stale sid sm hget => exact fun fid k hk => h.rewrite hget { sm with stale := true } rfl hk
  | replace sid sm hget hp =>
    intro fid k hk
    have hold : k ∈ v.indexes.summaryDeps.bucket fid :=
      ((SetMap.mem_bucket_foldl_remove sm.sourceFactIds sid v.indexes.summaryDeps fid k).1 hk).1
    exact h.rewrite hget { sm with state := .superseded } rfl hold
  | insertSummary sm hid hp =>
    have hnew : v.summaries.get? sm.summaryId = none := by
      rw [hid]
      exact hF.working.newSummary _ le_rfl
    intro fid k hk
    show ∃ x, (v.summaries.set sm.summaryId sm).get? k = some x ∧ fid ∈ x.sourceFactIds
    rw [OrderedMap.get?_set]
    rcases (SetMap.mem_bucket_foldl_add (fun fid => fid) (fun _ => sm.summaryId) sm.sourceFactIds
      v.indexes.summaryDeps fid k).1 hk with hold | ⟨fid', hin, rfl, rfl⟩
    · obtain ⟨x, hx, hin⟩ := h fid k hold
      have hne : k ≠ sm.summaryId := by
        intro heq
        rw [heq, hnew] at hx
        cases hx
      exact ⟨x, by rw [if_neg hne]; exact hx, hin⟩
    · exact ⟨sm, if_pos rfl, hin⟩
  | load m hfile =>
    have hm := hF.file m hfile
    have hk : m.Keyed := ⟨hm.factId, hm.summaryId⟩
    intro fid sid hin
    exact ((indexLaw_buildIndexes hk).summaries fid sid).1 hin
  | _ => exact h

/-- What the calls of a session keep, for observations to be told apart. -/
structure Engine.InOrder (E : Env N) (s : Engine N) : Prop where
  filed : s.view.Filed E
  booked : s.view.Booked
  sourced : s.view.Sourced

theorem inOrder_step (hE : Function.Injective E.shortId) (s : Engine N) (op : Op N)
    (h : s.InOrder E) : (step E s op).InOrder E := by
  have hedits := step_edits hE h.filed (allows_any op)
  have hkept : (step E s op).view.Filed E ∧ (step E s op).view.Booked ∧
      (step E s op).view.Sourced := by
    refine hedits.inv (I := fun v => v.Filed E ∧ v.Booked ∧ v.Sourced) ?_
      ⟨h.filed, h.booked, h.sourced⟩
    rintro v w he ⟨hF, hB, hS⟩
    exact ⟨filed_edit hE he hF, booked_edit he hF hB, sourced_edit he hF hS⟩
  exact ⟨hkept.1, hkept.2.1, hkept.2.2⟩

theorem inOrder_started {s : Engine N} (hs : Started E s) (hk : s.working.Keyed)
    (hid : UniqueIds E s) : s.InOrder E := by
  have hlaw : IndexLaw s.working.facts s.working.references s.working.summaries s.indexes := by
    rw [hs.loaded.1]
    exact indexLaw_buildIndexes hk
  refine ⟨hs.filed hk hid, ⟨?_, ?_⟩, ?_⟩
  · intro key
    show s.indexes.factsByIdentityKey.bucket key = _
    rw [hs.loaded.1]
    exact booked_build hk key
  · intro id f hf hst
    exact (hlaw.facts.conflicted id).2 ⟨f, hf, hst⟩
  · intro fid sid hin
    exact (hlaw.summaries fid sid).1 hin

def Outcome.newState : Outcome → Option FactState
  | .new => some .active
  | .converge => none
  | .supersede => some .active
  | .reject => some .superseded
  | .conflict => some .conflicted

theorem Outcome.newState_eq_none {o : Outcome} : o.newState = none ↔ o = .converge := by
  cases o <;> simp [Outcome.newState]

def Fact.answer (f : Fact N) (source now : String) : Outcome → Fact N
  | .new => f
  | .converge => applyConvergence f source now
  | .supersede => f.moved .superseded now
  | .reject => applyConvergence f source now
  | .conflict => f.moved .conflicted now

def Fact.untimed (f : Fact N) : Fact N :=
  { f with
    factId := ""
    discoveryIndex := 0
    createdAt := ""
    observations := { f.observations with firstSeen := "", lastSeen := "" } }

@[simp] theorem Fact.answer_identityKey (f : Fact N) (source now : String) (o : Outcome) :
    (f.answer source now o).identityKey = f.identityKey := by
  cases o <;> rfl

theorem Fact.answer_untimed (f : Fact N) (source now now' : String) (o : Outcome) :
    (f.answer source now o).untimed = (f.answer source now' o).untimed := by
  cases o <;> rfl

section Observation

variable {s : Engine N} {input : AddFactInput N} {x : FactId}

@[simp] theorem newFact_identityKey (st : FactState) :
    (s.newFact E input st).identityKey = (candidate E input).identityKey := rfl

theorem filed_newFact (h : s.InOrder E) (st : FactState) (id : FactId) (f : Fact N)
    (hf : (s.working.facts.set (s.newFact E input st).factId (s.newFact E input st)).get? id =
      some f) : f.factId = id :=
  h.filed.working.factId_set (s.newFact E input st) id f hf

variable {id : FactId}

theorem speaker_of_existing (h : s.InOrder E)
    (hid : (s.decision E input).existingId? = some id) :
    ∃ a, speaker E s input = some a ∧ a.factId = id ∧ s.working.facts.get? id = some a := by
  have hex := (decision_eq h.filed h.booked input).2
  rw [hid] at hex
  obtain ⟨a, hsp, rfl⟩ := Option.map_eq_some_iff.1 hex.symm
  exact ⟨a, hsp, rfl, (speaker_get h.filed hsp).1⟩

/-- **The new fact**, if the outcome stores one. -/
theorem get?_addFact_new (h : s.InOrder E) {st : FactState}
    (hst : (s.decision E input).outcome.newState = some st) :
    (s.addFact E input).2.2.working.facts.get? (s.nextFactId E) = some (s.newFact E input st) := by
  have hother (id : FactId) (hid : (s.decision E input).existingId? = some id) :
      s.nextFactId E ≠ id := by
    obtain ⟨a, hsp, rfl, -⟩ := speaker_of_existing h hid
    exact nextFactId_ne_speaker h.filed hsp
  rw [facts_addFact]
  cases hd : s.decision E input with
  | new reason =>
    rw [hd] at hst
    cases hst
    exact OrderedMap.get?_set_self _ _ _
  | converge id reason =>
    rw [hd] at hst
    cases hst
  | supersede id reason =>
    rw [hd] at hst
    cases hst
    simp only [get?_moveIn]
    rw [if_neg (hother id (by rw [hd]; rfl))]
    exact OrderedMap.get?_set_self _ _ _
  | reject id reason =>
    rw [hd] at hst
    cases hst
    rw [get?_observeIn (filed_newFact h .superseded id),
      if_neg (hother id (by rw [hd]; rfl))]
    exact OrderedMap.get?_set_self _ _ _
  | conflict id reason =>
    rw [hd] at hst
    cases hst
    simp only [get?_moveIn]
    rw [if_neg (hother id (by rw [hd]; rfl))]
    exact OrderedMap.get?_set_self _ _ _

omit [JsNumber N] in
theorem old_ne_next (h : s.InOrder E) {f : Fact N} (hx : s.working.facts.get? x = some f) :
    x ≠ s.nextFactId E := by
  rintro rfl
  have hnone := h.filed.working.newFact s.sys.shortIds le_rfl
  exact absurd (hx.symm.trans hnone) (by simp)

/-- **The facts that were there**: the spokesman answers, the others stay. -/
theorem get?_addFact_old (h : s.InOrder E) (hx : x ≠ s.nextFactId E) :
    (s.addFact E input).2.2.working.facts.get? x =
      if (s.decision E input).existingId? = some x then
        (s.working.facts.get? x).map fun f =>
          f.answer input.source (s.now E).1 (s.decision E input).outcome
      else s.working.facts.get? x := by
  have hset (st : FactState) :
      (s.working.facts.set (s.newFact E input st).factId (s.newFact E input st)).get? x =
        s.working.facts.get? x := OrderedMap.get?_set_ne _ _ hx
  rw [facts_addFact]
  cases hd : s.decision E input with
  | new reason => exact hset .active
  | converge id reason =>
    have hfiled : ∀ f, s.working.facts.get? id = some f → f.factId = id :=
      h.filed.working.factId id
    simp only [get?_observeIn hfiled, ArbitrationDecision.existingId?, Option.some.injEq,
      eq_comm (a := id)]
    by_cases hid : x = id
    · subst hid
      rw [if_pos rfl, if_pos rfl]
      rfl
    · rw [if_neg hid, if_neg hid]
  | supersede id reason =>
    simp only [get?_moveIn, ArbitrationDecision.existingId?, Option.some.injEq, eq_comm (a := id)]
    by_cases hid : x = id
    · subst hid
      rw [if_pos rfl, if_pos rfl, hset]
      rfl
    · rw [if_neg hid, if_neg hid, hset]
  | reject id reason =>
    simp only [get?_observeIn (filed_newFact h .superseded id), ArbitrationDecision.existingId?,
      Option.some.injEq, eq_comm (a := id)]
    by_cases hid : x = id
    · subst hid
      rw [if_pos rfl, if_pos rfl, hset]
      rfl
    · rw [if_neg hid, if_neg hid, hset]
  | conflict id reason =>
    simp only [get?_moveIn, ArbitrationDecision.existingId?, Option.some.injEq, eq_comm (a := id)]
    by_cases hid : x = id
    · subst hid
      rw [if_pos rfl, if_pos rfl, hset]
      rfl
    · rw [if_neg hid, if_neg hid, hset]

theorem addFact_frame (h : s.InOrder E) {f : Fact N} (hx : s.working.facts.get? x = some f)
    (hk : f.identityKey ≠ (candidate E input).identityKey) :
    (s.addFact E input).2.2.working.facts.get? x = some f := by
  rw [get?_addFact_old h (old_ne_next h hx), if_neg, hx]
  intro hid
  obtain ⟨a, hsp, rfl, hget⟩ := speaker_of_existing h hid
  rw [hx] at hget
  cases hget
  exact hk (keyFacts_get h.filed (spokesman_mem hsp).1).2

variable {facts : OrderedMap FactId (Fact N)} {key : String}

omit [JsNumber N] in
theorem keyFacts_set_other {f : Fact N} (hold : ∀ g, facts.get? id = some g → g.identityKey ≠ key)
    (hnew : f.identityKey ≠ key) : keyFacts (facts.set id f) key = keyFacts facts key := by
  unfold keyFacts
  cases hget : facts.get? id with
  | none =>
    rw [OrderedMap.values_set_new f hget, List.filter_append]
    simp [hnew]
  | some g =>
    obtain ⟨l, r, hbefore, hafter⟩ := OrderedMap.values_set_old f hget
    have hg := hold g hget
    rw [hbefore, hafter, List.filter_append, List.filter_append]
    simp [hnew, hg]

omit [JsNumber N] in
theorem keyFacts_moveIn_other
    (st : FactState) (now : String)
    (hold : ∀ g, facts.get? id = some g → g.identityKey ≠ key) :
    keyFacts (moveIn id st now facts) key = keyFacts facts key := by
  unfold moveIn
  cases hget : facts.get? id with
  | none => rfl
  | some g => exact keyFacts_set_other hold (hold g hget)

theorem keyFacts_observeIn_other
    (source now : String) (hid : ∀ f, facts.get? id = some f → f.factId = id)
    (hold : ∀ g, facts.get? id = some g → g.identityKey ≠ key) :
    keyFacts (observeIn id source now facts) key = keyFacts facts key := by
  unfold observeIn
  cases hget : facts.get? id with
  | none => rfl
  | some g =>
    simp only [hid g hget]
    exact keyFacts_set_other hold (hold g hget)

/-- **An observation of another key leaves the facts of a key, in their order.** -/
theorem keyFacts_addFact_other (h : s.InOrder E)
    (hk : (candidate E input).identityKey ≠ key) :
    keyFacts (s.addFact E input).2.2.working.facts key = keyFacts s.working.facts key := by
  have hnone : s.working.facts.get? (s.nextFactId E) = none :=
    h.filed.working.newFact _ le_rfl
  have hinsert (st : FactState) :
      keyFacts (s.working.facts.set (s.newFact E input st).factId (s.newFact E input st)) key =
        keyFacts s.working.facts key := by
    refine keyFacts_set_other ?_ hk
    intro g hg
    exact absurd (hnone.symm.trans hg) (by simp)
  -- the spokesman has the key of the observation, with the new fact in or not
  have hspeaker (id : FactId) (hid : (s.decision E input).existingId? = some id) :
      ∀ g, s.working.facts.get? id = some g → g.identityKey ≠ key := by
    obtain ⟨a, hsp, rfl, hget⟩ := speaker_of_existing h hid
    intro g hg
    rw [hget] at hg
    cases hg
    rw [(keyFacts_get h.filed (spokesman_mem hsp).1).2]
    exact hk
  have hlater (st : FactState) (id : FactId) (hid : (s.decision E input).existingId? = some id) :
      ∀ g, (s.working.facts.set (s.newFact E input st).factId (s.newFact E input st)).get? id =
        some g → g.identityKey ≠ key := by
    intro g hg
    rw [OrderedMap.get?_set] at hg
    split at hg
    · cases hg
      exact hk
    · exact hspeaker id hid g hg
  rw [facts_addFact]
  cases hd : s.decision E input with
  | new reason => exact hinsert .active
  | converge id reason =>
    exact keyFacts_observeIn_other _ _ (h.filed.working.factId id) (hspeaker id (by rw [hd]; rfl))
  | supersede id reason =>
    exact (keyFacts_moveIn_other _ _ (hlater .active id (by rw [hd]; rfl))).trans (hinsert .active)
  | reject id reason =>
    exact (keyFacts_observeIn_other _ _ (filed_newFact h .superseded id)
      (hlater .superseded id (by rw [hd]; rfl))).trans (hinsert .superseded)
  | conflict id reason =>
    exact (keyFacts_moveIn_other _ _ (hlater .conflicted id (by rw [hd]; rfl))).trans
      (hinsert .conflicted)

theorem speaker_other (h : s.InOrder E) (other : AddFactInput N)
    (hk : (candidate E input).identityKey ≠ (candidate E other).identityKey) :
    speaker E (s.addFact E input).2.2 other = speaker E s other := by
  unfold speaker
  rw [keyFacts_addFact_other h hk]

variable {t : Engine N}

theorem verdict_same (hs : s.InOrder E) (ht : t.InOrder E)
    (hsp : speaker E s input = speaker E t input) :
    (s.decision E input).outcome = (t.decision E input).outcome ∧
      (s.decision E input).existingId? = (t.decision E input).existingId? := by
  obtain ⟨hout, hex⟩ := decision_eq hs.filed hs.booked input
  obtain ⟨hout', hex'⟩ := decision_eq ht.filed ht.booked input
  rw [hout, hex, hout', hex', hsp]
  exact ⟨rfl, rfl⟩

/-- **Where the spokesman is the same, an observation does the same** to a fact that is
there in both states. -/
theorem addFact_same (hs : s.InOrder E) (ht : t.InOrder E)
    (hsp : speaker E s input = speaker E t input) {f : Fact N}
    (hx : s.working.facts.get? x = some f) (hx' : t.working.facts.get? x = some f) :
    ∃ g g', (s.addFact E input).2.2.working.facts.get? x = some g ∧
      (t.addFact E input).2.2.working.facts.get? x = some g' ∧
      g.untimed = g'.untimed ∧ g.identityKey = f.identityKey := by
  obtain ⟨hout, hex⟩ := verdict_same hs ht hsp
  rw [get?_addFact_old hs (old_ne_next hs hx), get?_addFact_old ht (old_ne_next ht hx'), hx, hx',
    hout, hex]
  by_cases hid : (t.decision E input).existingId? = some x
  · rw [if_pos hid, if_pos hid]
    exact ⟨_, _, rfl, rfl, f.answer_untimed _ _ _ _, f.answer_identityKey _ _ _⟩
  · rw [if_neg hid, if_neg hid]
    exact ⟨f, f, rfl, rfl, rfl, rfl⟩

theorem addFact_named_fact (h : s.InOrder E) (input : AddFactInput N) :
    ∃ g, (s.addFact E input).2.2.working.facts.get? (s.addFact E input).2.1 = some g ∧
      g.identityKey = (candidate E input).identityKey ∧
      match (s.decision E input).outcome.newState with
      | some st => g = s.newFact E input st
      | none => ∃ a, speaker E s input = some a ∧
          g = a.answer input.source (s.now E).1 (s.decision E input).outcome := by
  cases hst : (s.decision E input).outcome.newState with
  | some st =>
    have hne : (s.decision E input).outcome ≠ .converge := by
      intro hcon
      rw [Outcome.newState_eq_none.2 hcon] at hst
      cases hst
    rw [(id_of_contest h.filed h.booked input).2 hne, get?_addFact_new h hst]
    exact ⟨_, rfl, rfl, rfl⟩
  | none =>
    have hcon : (s.decision E input).outcome = .converge := Outcome.newState_eq_none.1 hst
    obtain ⟨id, hid⟩ : ∃ id, (s.decision E input).existingId? = some id := by
      cases hd : s.decision E input with
      | converge id reason => exact ⟨id, rfl⟩
      | _ => rw [hd] at hcon; cases hcon
    obtain ⟨a, hsp, rfl, hget⟩ := speaker_of_existing h hid
    have hcontest : contest (candidate E input) a = .converge := by
      have hout := (decision_eq h.filed h.booked input).1
      rw [hsp, hcon] at hout
      exact hout.symm
    rw [(id_of_contest h.filed h.booked input).1 a hsp hcontest,
      get?_addFact_old h (old_ne_next h hget), if_pos hid, hget]
    refine ⟨_, rfl, ?_, a, hsp, rfl⟩
    rw [Fact.answer_identityKey]
    exact (keyFacts_get h.filed (spokesman_mem hsp).1).2

/-- **Where the spokesman is the same, the facts that are named are**, up to ids and
times. -/
theorem addFact_same_named (hs : s.InOrder E) (ht : t.InOrder E)
    (hsp : speaker E s input = speaker E t input) :
    ∃ g g', (s.addFact E input).2.2.working.facts.get? (s.addFact E input).2.1 = some g ∧
      (t.addFact E input).2.2.working.facts.get? (t.addFact E input).2.1 = some g' ∧
      g.untimed = g'.untimed ∧ g.identityKey = (candidate E input).identityKey := by
  obtain ⟨g, hg, hkey, hform⟩ := addFact_named_fact hs input
  obtain ⟨g', hg', -, hform'⟩ := addFact_named_fact ht input
  refine ⟨g, g', hg, hg', ?_, hkey⟩
  rw [(verdict_same hs ht hsp).1] at hform
  cases hst : (t.decision E input).outcome.newState with
  | some st =>
    rw [hst] at hform hform'
    rw [hform, hform']
    rfl
  | none =>
    rw [hst] at hform hform'
    obtain ⟨a, ha, rfl⟩ := hform
    obtain ⟨a', ha', rfl⟩ := hform'
    rw [hsp, ha'] at ha
    cases ha
    exact a.answer_untimed _ _ _ _

/-- The summaries that an observation makes stale: those listed under the fact that it
supersedes or disputes. -/
def staledBy (E : Env N) (s : Engine N) (input : AddFactInput N) : List SummaryId :=
  match s.decision E input with
  | .supersede id _ => s.indexes.summaryDeps.bucket id
  | .conflict id _ => s.indexes.summaryDeps.bucket id
  | _ => []

/-- **The summaries after an observation**, and their dependencies. -/
theorem summaries_addFact (E : Env N) (s : Engine N) (input : AddFactInput N) :
    (s.addFact E input).2.2.working.summaries = staleIn (staledBy E s input) s.working.summaries ∧
      (s.addFact E input).2.2.indexes.summaryDeps = s.indexes.summaryDeps := by
  have hscene : (s.addFact E input).2.2.scene.summaries =
        staleIn (staledBy E s input) s.scene.summaries ∧
      (s.addFact E input).2.2.scene.deps = s.scene.deps := by
    rw [scene_addFact]
    unfold staledBy
    cases s.decision E input <;> exact ⟨rfl, rfl⟩
  exact hscene

theorem staledBy_same (hs : s.InOrder E) (ht : t.InOrder E)
    (hsp : speaker E s input = speaker E t input)
    (hdeps : s.indexes.summaryDeps = t.indexes.summaryDeps) :
    staledBy E s input = staledBy E t input := by
  obtain ⟨hout, hex⟩ := verdict_same hs ht hsp
  have hform (u : Engine N) : staledBy E u input =
      if (u.decision E input).outcome = .supersede ∨ (u.decision E input).outcome = .conflict then
        (u.decision E input).existingId?.elim [] u.indexes.summaryDeps.bucket
      else [] := by
    unfold staledBy
    cases u.decision E input <;> rfl
  rw [hform s, hform t, hout, hex, hdeps]

theorem staledBy_depends (h : s.InOrder E) {sid : SummaryId} (hin : sid ∈ staledBy E s input) :
    ∃ sm fid f, s.working.summaries.get? sid = some sm ∧ fid ∈ sm.sourceFactIds ∧
      s.working.facts.get? fid = some f ∧
      f.identityKey = (candidate E input).identityKey := by
  have hnamed : ∃ id, (s.decision E input).existingId? = some id ∧
      sid ∈ s.indexes.summaryDeps.bucket id := by
    unfold staledBy at hin
    cases hd : s.decision E input with
    | supersede id reason =>
      rw [hd] at hin
      exact ⟨id, rfl, hin⟩
    | conflict id reason =>
      rw [hd] at hin
      exact ⟨id, rfl, hin⟩
    | _ => rw [hd] at hin; cases hin
  obtain ⟨id, hid, hlisted⟩ := hnamed
  obtain ⟨a, hsp, rfl, hget⟩ := speaker_of_existing h hid
  obtain ⟨sm, hsm, hsource⟩ := h.sourced _ _ hlisted
  exact ⟨sm, a.factId, a, hsm, hsource, hget, (keyFacts_get h.filed (spokesman_mem hsp).1).2⟩

theorem references_settled (E : Env N) (s : Engine N) (input : AddFactInput N) :
    (s.settled E input).working.references = s.working.references := by
  have hretire (u : Engine N) (id : FactId) (st : FactState) (now : String) :
      ((u.transitionFact id st now).propagateStaleness E id).working.references =
        u.working.references := by
    obtain ⟨sums, hview⟩ := Engine.view_propagateStaleness (E := E) (u.transitionFact id st now) id
    have hrefs := congrArg View.references hview
    refine hrefs.trans ?_
    unfold Engine.transitionFact
    cases u.working.facts.get? id <;> rfl
  have hstrengthen (u : Engine N) (id : FactId) (source now : String) :
      (u.strengthen id source now).working.references = u.working.references := by
    unfold Engine.strengthen
    cases u.working.facts.get? id <;> rfl
  unfold Engine.settled
  cases s.decision E input with
  | new reason => rfl
  | converge id reason => exact hstrengthen (s.now E).2 id _ _
  | supersede id reason => exact hretire (s.inserted E input .active) id .superseded _
  | reject id reason => exact hstrengthen (s.inserted E input .superseded) id _ _
  | conflict id reason => exact hretire (s.inserted E input .conflicted) id .conflicted _

theorem references_addFact (E : Env N) (s : Engine N) (input : AddFactInput N) :
    (s.addFact E input).2.2.working.references = s.working.references :=
  (congrArg View.references (view_addFact E input s)).trans (references_settled E s input)

end Observation

/-- The step changes facts of this key only, and the summaries that depend on them. -/
structure Engine.ChangesOnly (key : String) (s s' : Engine N) : Prop where
  facts : ∀ id, s'.working.facts.get? id = s.working.facts.get? id ∨
    (∀ f, s.working.facts.get? id = some f → f.identityKey = key) ∧
      ∃ g, s'.working.facts.get? id = some g ∧ g.identityKey = key
  summaries : ∀ sid, s'.working.summaries.get? sid = s.working.summaries.get? sid ∨
    ∃ sm fid f, s.working.summaries.get? sid = some sm ∧ fid ∈ sm.sourceFactIds ∧
      s.working.facts.get? fid = some f ∧ f.identityKey = key ∧
      s'.working.summaries.get? sid = some { sm with stale := true }
  references : s'.working.references = s.working.references

variable {s : Engine N}

/-- **An observation changes only what has its own key.** -/
theorem changesOnly_addFact (h : s.InOrder E) (input : AddFactInput N) :
    s.ChangesOnly (deriveIdentityKey E input.type input.value) (s.addFact E input).2.2 := by
  refine ⟨?_, ?_, references_addFact E s input⟩
  · intro id
    cases hx : s.working.facts.get? id with
    | some f =>
      by_cases hk : f.identityKey = (candidate E input).identityKey
      · right
        have hsame : speaker E s input = speaker E s input := rfl
        obtain ⟨g, -, hg, -, -, hkey⟩ := addFact_same h h hsame hx hx
        refine ⟨?_, g, hg, hkey.trans hk⟩
        intro f' hf'
        cases hf'
        exact hk
      · exact Or.inl (addFact_frame h hx hk)
    | none =>
      by_cases hn : id = s.nextFactId E
      · cases hst : (s.decision E input).outcome.newState with
        | some st =>
          right
          refine ⟨?_, s.newFact E input st, ?_, rfl⟩
          · intro f hf
            cases hf
          · rw [hn]
            exact get?_addFact_new h hst
        | none =>
          -- a converging observation stores nothing
          left
          rw [facts_addFact]
          cases hd : s.decision E input with
          | converge fid reason =>
            have hfiled : ∀ f, s.working.facts.get? fid = some f → f.factId = fid :=
              h.filed.working.factId fid
            simp only [get?_observeIn hfiled]
            split
            · rename_i heq
              rw [← heq, hx]
              rfl
            · exact hx
          | _ => rw [hd] at hst; cases hst
      · left
        rw [get?_addFact_old h hn, hx]
        split <;> rfl
  · intro sid
    rw [(summaries_addFact E s input).1, get?_staleIn]
    by_cases hin : sid ∈ staledBy E s input
    · obtain ⟨sm, fid, f, hsm, hsource, hf, hk⟩ := staledBy_depends h hin
      right
      refine ⟨sm, fid, f, hsm, hsource, hf, hk, ?_⟩
      rw [hsm, Option.map_some, if_pos hin]
    · left
      simp only [if_neg hin]
      cases s.working.summaries.get? sid <;> rfl

/-- Two observations in either order: what they name, what they do to the facts that
were there, and the summaries that they leave. -/
structure Independent (E : Env N) (s : Engine N) (a b : AddFactInput N) : Prop where
  /-- a fact that was there, up to its times -/
  facts : ∀ id f, s.working.facts.get? id = some f →
    ∃ g g', ((s.addFact E a).2.2.addFact E b).2.2.working.facts.get? id = some g ∧
      ((s.addFact E b).2.2.addFact E a).2.2.working.facts.get? id = some g' ∧
      g.untimed = g'.untimed
  /-- the verdict on an observation, and the fact that it names -/
  named : ((s.addFact E a).1.outcome = ((s.addFact E b).2.2.addFact E a).1.outcome) ∧
    ∃ g g', ((s.addFact E a).2.2.addFact E b).2.2.working.facts.get? (s.addFact E a).2.1 = some g ∧
      ((s.addFact E b).2.2.addFact E a).2.2.working.facts.get?
        ((s.addFact E b).2.2.addFact E a).2.1 = some g' ∧
      g.untimed = g'.untimed
  /-- the summaries, stale flags and all -/
  summaries : ∀ sid,
    ((s.addFact E a).2.2.addFact E b).2.2.working.summaries.get? sid =
      ((s.addFact E b).2.2.addFact E a).2.2.working.summaries.get? sid

section Order

variable {a b : AddFactInput N}

theorem fact_either_order (hE : Function.Injective E.shortId) (h : s.InOrder E)
    (hkeys : (candidate E a).identityKey ≠ (candidate E b).identityKey) {x : FactId} {f : Fact N}
    (hx : s.working.facts.get? x = some f)
    (hk : f.identityKey ≠ (candidate E b).identityKey) :
    ∃ g g', ((s.addFact E a).2.2.addFact E b).2.2.working.facts.get? x = some g ∧
      ((s.addFact E b).2.2.addFact E a).2.2.working.facts.get? x = some g' ∧
      g.untimed = g'.untimed := by
  have ha : (s.addFact E a).2.2.InOrder E := inOrder_step hE s (.addFact a) h
  have hb : (s.addFact E b).2.2.InOrder E := inOrder_step hE s (.addFact b) h
  -- `b` does not see the fact, and leaves the spokesman of `a`
  have hframe := addFact_frame h hx hk
  have hsp := speaker_other h a (Ne.symm hkeys)
  obtain ⟨g, g', hg, hg', hsame, hkey⟩ := addFact_same h hb hsp.symm hx hframe
  exact ⟨g, g', addFact_frame ha hg (by rw [hkey]; exact hk), hg', hsame⟩

theorem named_either_order (hE : Function.Injective E.shortId) (h : s.InOrder E)
    (hkeys : (candidate E a).identityKey ≠ (candidate E b).identityKey) :
    ((s.addFact E a).1.outcome = ((s.addFact E b).2.2.addFact E a).1.outcome) ∧
    ∃ g g', ((s.addFact E a).2.2.addFact E b).2.2.working.facts.get? (s.addFact E a).2.1 = some g ∧
      ((s.addFact E b).2.2.addFact E a).2.2.working.facts.get?
        ((s.addFact E b).2.2.addFact E a).2.1 = some g' ∧
      g.untimed = g'.untimed := by
  have ha : (s.addFact E a).2.2.InOrder E := inOrder_step hE s (.addFact a) h
  have hb : (s.addFact E b).2.2.InOrder E := inOrder_step hE s (.addFact b) h
  have hsp := speaker_other h a (Ne.symm hkeys)
  refine ⟨?_, ?_⟩
  · rw [addFact_decision, addFact_decision]
    exact (verdict_same h hb hsp.symm).1
  · obtain ⟨g, g', hg, hg', hsame, hkey⟩ := addFact_same_named h hb hsp.symm
    exact ⟨g, g', addFact_frame ha hg (by rw [hkey]; exact hkeys), hg', hsame⟩

/-- **Observations of different keys are independent.** -/
theorem independent_of_keys (hE : Function.Injective E.shortId) (h : s.InOrder E)
    (hkeys : (candidate E a).identityKey ≠ (candidate E b).identityKey) :
    Independent E s a b := by
  have ha : (s.addFact E a).2.2.InOrder E := inOrder_step hE s (.addFact a) h
  have hb : (s.addFact E b).2.2.InOrder E := inOrder_step hE s (.addFact b) h
  refine ⟨?_, named_either_order hE h hkeys, ?_⟩
  · intro id f hf
    by_cases hk : f.identityKey = (candidate E b).identityKey
    · have hka : f.identityKey ≠ (candidate E a).identityKey := by
        rw [hk]
        exact Ne.symm hkeys
      obtain ⟨g, g', hg, hg', hsame⟩ := fact_either_order hE h (Ne.symm hkeys) hf hka
      exact ⟨g', g, hg', hg, hsame.symm⟩
    · exact fact_either_order hE h hkeys hf hk
  · intro sid
    obtain ⟨hsa, hda⟩ := summaries_addFact E s a
    obtain ⟨hsb, hdb⟩ := summaries_addFact E s b
    have hstale : staledBy E (s.addFact E a).2.2 b = staledBy E s b :=
      staledBy_same ha h (speaker_other h b hkeys) hda
    have hstale' : staledBy E (s.addFact E b).2.2 a = staledBy E s a :=
      staledBy_same hb h (speaker_other h a (Ne.symm hkeys)) hdb
    rw [(summaries_addFact E (s.addFact E a).2.2 b).1, (summaries_addFact E (s.addFact E b).2.2 a).1,
      hsa, hsb, hstale, hstale']
    simp only [get?_staleIn, Option.map_map]
    congr 1
    funext sm
    simp only [Function.comp_apply]
    -- a flag that is set twice is set
    by_cases hina : sid ∈ staledBy E s a <;> by_cases hinb : sid ∈ staledBy E s b <;>
      simp only [hina, hinb, if_true, if_false]

end Order

/-- **In every session, observations of different identity keys give the same in either
order, and each changes only what has its own key.** -/
theorem observations_independent {s₀ : Engine N} (hs : Started E s₀) (hk : s₀.working.Keyed)
    (hid : UniqueIds E s₀) (ops : List (Op N)) {a b : AddFactInput N}
    (hkeys : deriveIdentityKey E a.type a.value ≠ deriveIdentityKey E b.type b.value) :
    let s := Machine.run (step E) s₀ ops
    Independent E s a b ∧ Independent E s b a ∧
      ∀ input : AddFactInput N,
        s.ChangesOnly (deriveIdentityKey E input.type input.value) (s.addFact E input).2.2 := by
  intro s
  have h : s.InOrder E :=
    Machine.run_inv_all (inOrder_step hid.injective) (inOrder_started hs hk hid) ops
  exact ⟨independent_of_keys hid.injective h hkeys,
    independent_of_keys hid.injective h (Ne.symm hkeys), changesOnly_addFact h⟩

def cityAndDrink : List (Op ℚ) :=
  [.addFact (cityInput "Rome" 0.5),
    .addSummary
      { type := "session"
        scope := "session:1"
        keyPoints := ["The user lives in Rome."]
        sourceFactIds := ["FACT_"]
        confidence := 0.8 }]

/-- An observation of another type, so of another key in the quiet environment. -/
def drinkInput : AddFactInput ℚ :=
  { type := "drink", value := [("name", .str "tea")], confidence := 0.9, source := "user" }

theorem cityAndDrink_independent :
    Independent (Env.plain ℚ) (afterSession cityAndDrink) (cityInput "Oslo" 0.9) drinkInput := by
  refine (observations_independent (started_fresh _ "agent" rfl {})
    (keyed_fresh _ "agent" (Disk.empty ℚ) {})
    (uniqueIds_fresh (Env.plain_injective ℚ) "agent" (Disk.empty ℚ) {}) cityAndDrink ?_).1
  show "city" ≠ "drink"
  decide

end ClawHarder
