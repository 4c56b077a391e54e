import ClawHarder.Proof.Chronicle
import ClawHarder.Proof.Lifecycle

/-!
# Who succeeded a superseded fact

A fact is *named* by a stored fact that derives from it, supersedes it or was merged
from it. The manager never writes `supersedes`; a new fact names what the caller put
in `derived_from`, the target of a refinement, or the sources of a consolidation. So
the facts that `addFact` supersedes, those that a refinement sweeps, and the target of
one that converges stay unnamed; `Succeeds` excludes exactly these.

* `leaves_addFact`, `leaves_refinement`: what a call supersedes.
* `succession_named`: **in a session of safe calls every fact that a successor
  superseded is named.**
-/

namespace ClawHarder

open Engine (candidate refinementInput)

variable {N : Type}

def Fact.Names (f : Fact N) (id : FactId) : Prop :=
  f.supersedes = some id ∨ id ∈ f.derivedFrom ∨ id ∈ f.mergedFrom.getD []

def Named (facts : OrderedMap FactId (Fact N)) (id : FactId) : Prop :=
  ∃ k f, facts.get? k = some f ∧ f.Names id

variable {id : FactId}

theorem Fact.Names.core {f g : Fact N} (h : g.core = f.core) (hn : f.Names id) :
    g.Names id := by
  have hs : g.supersedes = f.supersedes := congrArg FactCore.supersedes h
  have hd : g.derivedFrom = f.derivedFrom := congrArg FactCore.derivedFrom h
  have hm : g.mergedFrom = f.mergedFrom := congrArg FactCore.mergedFrom h
  unfold Fact.Names
  rw [hs, hd, hm]
  exact hn

variable [JsNumber N] {E : Env N} {s : Engine N}

theorem Changes.named {v w : Scene N} (h : Changes E v w) (hk : v.Keyed)
    (hn : Named v.facts id) : Named w.facts id := by
  obtain ⟨k, f, hf, hnames⟩ := hn
  obtain ⟨g, hg, hcore⟩ := h.kept hk hf
  exact ⟨k, g, hg, hnames.core hcore⟩

/-- The facts that a call supersedes: there before in another state. -/
def supersededBy (s s' : Engine N) : List FactId :=
  s'.working.facts.entries.filterMap fun e =>
    match s.working.facts.get? e.1 with
    | none => none
    | some f => if f.state ≠ .superseded ∧ e.2.state = .superseded then some e.1 else none

/-- The facts that a successor supersedes in a call: by `addFact`, a refinement or a
consolidation. -/
def successionLog (E : Env N) (s : Engine N) (op : Op N) : List FactId :=
  match op with
  | .addFact _ => supersededBy s (step E s op)
  | .proposeRefinement _ _ => supersededBy s (step E s op)
  | .proposeConsolidation _ _ => supersededBy s (step E s op)
  | _ => []

omit [JsNumber N] in
theorem mem_supersededBy {s s' : Engine N} :
    id ∈ supersededBy s s' ↔
      ∃ k st, beliefs s.working.facts id = some (k, st) ∧ st ≠ .superseded ∧
        ∃ k', beliefs s'.working.facts id = some (k', .superseded) := by
  unfold supersededBy
  rw [List.mem_filterMap]
  constructor
  · rintro ⟨e, he, hev⟩
    split at hev
    · cases hev
    · rename_i f hf
      split at hev
      · rename_i hst
        cases hev
        exact ⟨f.identityKey, f.state, beliefs_eq_some.2 ⟨f, hf, rfl, rfl⟩, hst.1, e.2.identityKey,
          beliefs_eq_some.2 ⟨e.2, OrderedMap.get?_eq_some.2 he, rfl, hst.2⟩⟩
      · cases hev
  · rintro ⟨k, st, hb, hne, k', hb'⟩
    obtain ⟨f, hf, -, rfl⟩ := beliefs_eq_some.1 hb
    obtain ⟨g, hg, -, hst⟩ := beliefs_eq_some.1 hb'
    refine ⟨(id, g), OrderedMap.get?_eq_some.1 hg, ?_⟩
    simp [hf, hne, hst]

theorem leaves_addFact (hF : s.view.Filed E) (hB : s.view.Booked) {input : AddFactInput N} (h : id ∈ supersededBy s (s.addFact E input).2.2) :
    ∃ a, speaker E s input = some a ∧ contest (candidate E input) a = .supersede ∧
      id = a.factId ∧ a.state ≠ .superseded := by
  obtain ⟨k, st, hb, hne, k', hb'⟩ := mem_supersededBy.1 h
  have hn := nextFactId_new (E := E) hF
  have hold : id ≠ s.nextFactId E := by
    rintro rfl
    rw [hn] at hb
    cases hb
  -- the state of an old fact after the new one is put, and after a move
  have hput {st' : FactState} : (beliefs s.working.facts).put (s.nextFactId E)
      (candidate E input).identityKey st' id = some (k, st) := by
    unfold Beliefs.put
    rw [if_neg hold, hb]
  cases hsp : speaker E s input with
  | none =>
    rw [beliefs_addFact_none hF hB hsp, hput] at hb'
    cases hb'
    exact absurd rfl hne
  | some a =>
    rw [beliefs_addFact_some hF hB hsp] at hb'
    cases hc : contest (candidate E input) a with
    | new => exact absurd hc (contest_ne_new _ _)
    | converge =>
      rw [hc] at hb'
      have hsame : beliefs s.working.facts id = some (k', .superseded) := hb'
      rw [hb] at hsame
      cases hsame
      exact absurd rfl hne
    | reject =>
      rw [hc] at hb'
      have hsame := hb'
      simp only [Beliefs.settle] at hsame
      rw [hput] at hsame
      cases hsame
      exact absurd rfl hne
    | supersede =>
      refine ⟨a, rfl, hc, ?_, ?_⟩
      · by_contra hid
        rw [hc] at hb'
        simp only [Beliefs.settle] at hb'
        unfold Beliefs.move at hb'
        rw [if_neg hid, hput] at hb'
        cases hb'
        exact hne rfl
      · by_cases hid : id = a.factId
        · intro hst
          rw [hid, (speaker_get hF hsp).2] at hb
          cases hb
          exact hne hst
        · rw [hc] at hb'
          simp only [Beliefs.settle] at hb'
          unfold Beliefs.move at hb'
          rw [if_neg hid, hput] at hb'
          cases hb'
          exact absurd rfl hne
    | conflict =>
      rw [hc] at hb'
      simp only [Beliefs.settle] at hb'
      have hcon := Beliefs.move_ne (by decide) hb'
      rw [hput] at hcon
      cases hcon.1
      exact absurd rfl hne

theorem addFact_derives (hF : s.view.Filed E) {input : AddFactInput N}
    (hout : (s.decision E input).outcome ≠ .converge)
    (hid : id ∈ input.derivedFrom.getD []) :
    Named (s.addFact E input).2.2.working.facts id := by
  obtain ⟨st, hst, hch⟩ := addFact_inserts hout
  have hnew : NewFact E s.scene (s.newFact E input st) :=
    ⟨hF.working.newFact _ le_rfl, hst, rfl, rfl, rfl⟩
  -- it is stored first, and keeps its core
  refine hch.named (keyed_change (Change.insert _ hnew) hF.working.factId) ?_
  exact ⟨_, s.newFact E input st, OrderedMap.get?_set_self _ _ _, Or.inr (Or.inl hid)⟩

section Refinement

variable {target : FactId} {t : Fact N}

omit [JsNumber N] in
theorem sweep_frame (id : FactId) (key now : String) (L : List FactId) (s : Engine N) (x : FactId) :
    beliefs (L.foldl (Engine.sweepConflict E id key now) s).working.facts x =
        beliefs s.working.facts x ∨
      (x ∈ L ∧ x ≠ id ∧ (beliefs s.working.facts x).map Prod.fst = some key) := by
  induction L generalizing s with
  | nil => exact Or.inl rfl
  | cons fid L ih =>
    have hturn := beliefs_sweepConflict (E := E) id key now fid s
    rw [List.foldl_cons]
    by_cases hx : x = fid
    · by_cases hmove : fid ≠ id ∧ (beliefs s.working.facts fid).map Prod.fst = some key
      · exact Or.inr ⟨hx ▸ List.mem_cons_self, hx ▸ hmove.1, hx ▸ hmove.2⟩
      · rw [if_neg hmove] at hturn
        rcases ih (s.sweepConflict E id key now fid) with hsame | ⟨hin, hne, hk⟩
        · exact Or.inl (by rw [hsame, hturn])
        · exact Or.inr ⟨List.mem_cons_of_mem fid hin, hne, by rw [← hturn]; exact hk⟩
    · have hother : beliefs (s.sweepConflict E id key now fid).working.facts x =
          beliefs s.working.facts x := by
        rw [hturn]
        split
        · unfold Beliefs.move
          rw [if_neg hx]
        · rfl
      rcases ih (s.sweepConflict E id key now fid) with hsame | ⟨hin, hne, hk⟩
      · exact Or.inl (by rw [hsame, hother])
      · exact Or.inr ⟨List.mem_cons_of_mem fid hin, hne, by rw [← hother]; exact hk⟩

omit [JsNumber N] in
theorem listed_transition {id x : FactId} {st : FactState} {now : String}
    (h : x ∈ (s.transitionFact id st now).indexes.conflictedFacts) :
    x ∈ s.indexes.conflictedFacts ∨ (x = id ∧ st = .conflicted) := by
  unfold Engine.transitionFact at h
  split at h
  · exact Or.inl h
  · simp only at h
    rw [mem_align_conflicted] at h
    split at h
    · rename_i hx
      rcases h with hst | ⟨-, hin⟩
      · exact Or.inr ⟨hx, hst⟩
      · exact Or.inl hin
    · exact Or.inl h

theorem listed_addFact {input : AddFactInput N} {x : FactId}
    (h : x ∈ (s.addFact E input).2.2.indexes.conflictedFacts) :
    x ∈ s.indexes.conflictedFacts ∨ x = s.nextFactId E ∨
      ((s.decision E input).outcome = .conflict ∧ (s.decision E input).existingId? = some x) := by
  have hinsert (st : FactState) {y : FactId}
      (hy : y ∈ (s.inserted E input st).indexes.conflictedFacts) :
      y ∈ s.indexes.conflictedFacts ∨ y = s.nextFactId E := by
    have hy' : y ∈ (if st = .conflicted then
        OrderedSet.add s.indexes.conflictedFacts (s.nextFactId E)
        else s.indexes.conflictedFacts) := hy
    split at hy'
    · exact OrderedSet.mem_add.1 hy'
    · exact Or.inl hy'
  have hsame (u : Engine N) (id : FactId) (now : String) :
      (u.strengthen id input.source now).indexes = u.indexes := by
    unfold Engine.strengthen
    split <;> rfl
  have hsettled : (s.addFact E input).2.2.indexes = (s.settled E input).indexes := by
    rcases addFact_settled E input s with ⟨hadd, hsettled⟩ | ⟨type, metadata, hadd⟩
    · rw [hadd, hsettled]
    · rw [hadd]
      rfl
  rw [hsettled] at h
  unfold Engine.settled at h
  cases hd : s.decision E input with
  | new reason =>
    rw [hd] at h
    exact (hinsert .active h).imp_right Or.inl
  | converge id reason =>
    rw [hd] at h
    simp only [hsame] at h
    exact Or.inl h
  | supersede id reason =>
    rw [hd] at h
    simp only [Engine.indexes_propagateStaleness] at h
    rcases listed_transition h with hin | ⟨-, hst⟩
    · exact (hinsert .active hin).imp_right Or.inl
    · cases hst
  | reject id reason =>
    rw [hd] at h
    simp only [hsame] at h
    exact (hinsert .superseded h).imp_right Or.inl
  | conflict id reason =>
    rw [hd] at h
    simp only [Engine.indexes_propagateStaleness] at h
    rcases listed_transition h with hin | ⟨hid, -⟩
    · exact (hinsert .conflicted hin).imp_right Or.inl
    · subst hid
      exact Or.inr (Or.inr ⟨rfl, rfl⟩)

omit [JsNumber N] in
theorem listed_force {id x : FactId}
    (h : x ∈ (s.forceRefinement E target id).indexes.conflictedFacts) :
    x ∈ s.indexes.conflictedFacts := by
  unfold Engine.forceRefinement at h
  simp only [Engine.recordOp] at h
  have hretire : ∀ s' : Engine N, x ∈ (s'.supersedeTarget E target).indexes.conflictedFacts →
      x ∈ s'.indexes.conflictedFacts := by
    intro s' hx
    unfold Engine.supersedeTarget at hx
    split at hx
    · exact hx
    · rw [Engine.indexes_propagateStaleness] at hx
      rcases listed_transition hx with hin | ⟨-, hst⟩
      · exact hin
      · cases hst
  cases hget : s.working.facts.get? id with
  | none =>
    simp only [hget] at h
    exact hretire s h
  | some f =>
    simp only [hget] at h
    exact hretire (s.setFact id { f with state := .active }) h

/-- What a refinement may supersede: the spokesman that loses to the new fact, the
target when the verdict is overridden, and the conflicted facts of the target's key
other than the fact that the observation joins. -/
def Leaves (E : Env N) (s : Engine N) (target : FactId) (t : Fact N) (input : AddFactInput N)
    (x : Fact N) : Prop :=
  (∃ a, speaker E s input = some a ∧
    ((contest (candidate E input) a = .supersede ∧ x.factId = a.factId) ∨
      (contest (candidate E input) a ≠ .supersede ∧ x.factId = target))) ∨
  (x.identityKey = t.identityKey ∧
    (x.factId ∈ s.indexes.conflictedFacts ∨ ∃ a, speaker E s input = some a ∧
      contest (candidate E input) a = .conflict ∧ x.factId = a.factId) ∧
    ∀ a, speaker E s input = some a → contest (candidate E input) a = .converge →
      x.factId ≠ a.factId)

/-- Before the sweep only the loser of the contest and an overridden target are
superseded. -/
theorem leaves_refined (hF : s.view.Filed E) (hB : s.view.Booked) {input : AddFactInput N}
    {x : FactId} {k k' : String} {st : FactState} (hb : beliefs s.working.facts x = some (k, st))
    (hst : st ≠ .superseded)
    (hb' : beliefs (refined E s target input).working.facts x = some (k', .superseded)) :
    ∃ a, speaker E s input = some a ∧
      ((contest (candidate E input) a = .supersede ∧ x = a.factId) ∨
        (contest (candidate E input) a ≠ .supersede ∧ x = target)) := by
  have hn := nextFactId_new (E := E) hF
  have hold : x ≠ s.nextFactId E := by
    rintro rfl
    rw [hn] at hb
    cases hb
  have hput {st' : FactState} : (beliefs s.working.facts).put (s.nextFactId E)
      (candidate E input).identityKey st' x = some (k, st) := by
    unfold Beliefs.put
    rw [if_neg hold, hb]
  have hkept : ∀ {B : Beliefs}, B x = some (k, st) → B x ≠ some (k', .superseded) := by
    intro B h h'
    rw [h] at h'
    cases h'
    exact hst rfl
  have hout := (decision_eq hF hB input).1
  rw [beliefs_refined hF hB] at hb'
  cases hsp : speaker E s input with
  | none =>
    rw [hsp] at hout
    have hout' : (s.decision E input).outcome = .new := hout
    rw [hout', if_neg (by decide), beliefs_addFact_none hF hB hsp] at hb'
    exact absurd hb' (hkept hput)
  | some a =>
    rw [hsp] at hout
    have hout' : (s.decision E input).outcome = contest (candidate E input) a := hout
    refine ⟨a, rfl, ?_⟩
    rw [hout', beliefs_addFact_some hF hB hsp] at hb'
    by_cases hc : contest (candidate E input) a = .supersede
    · left
      refine ⟨hc, ?_⟩
      rw [hc, if_neg (by decide)] at hb'
      simp only [Beliefs.settle] at hb'
      by_contra hne
      unfold Beliefs.move at hb'
      rw [if_neg hne] at hb'
      exact hkept hput hb'
    · right
      refine ⟨hc, ?_⟩
      have hforced : (contest (candidate E input) a).forced = true := by
        have hnew := contest_ne_new (candidate E input) a
        cases h : contest (candidate E input) a <;> simp_all [Outcome.forced]
      rw [if_pos hforced] at hb'
      by_contra hne
      unfold Beliefs.move at hb'
      rw [if_neg hne] at hb'
      -- what was forced active is not superseded
      have hfirst := (Beliefs.move_ne (by decide) hb').1
      cases hcon : contest (candidate E input) a with
      | new => exact contest_ne_new _ _ hcon
      | supersede => exact hc hcon
      | converge =>
        rw [hcon] at hfirst
        exact hkept hb hfirst
      | reject =>
        rw [hcon] at hfirst
        exact hkept hput hfirst
      | conflict =>
        rw [hcon] at hfirst
        exact hkept hput (Beliefs.move_ne (by decide) hfirst).1

/-- **What a refinement supersedes.** -/
theorem leaves_refinement (hF : s.view.Filed E) (hB : s.view.Booked)
    (ht : s.working.facts.get? target = some t) (hst : t.state ≠ .invalidated)
    {refinement : AddFactInput N} {x : FactId}
    (hx : x ∈ supersededBy s (s.proposeRefinement E target refinement).2) :
    ∃ f, s.working.facts.get? x = some f ∧ f.state ≠ .superseded ∧
      Leaves E s target t (refinementInput target refinement) f := by
  obtain ⟨k, st, hb, hne, k', hb'⟩ := mem_supersededBy.1 hx
  obtain ⟨f, hf, hkf, rfl⟩ := beliefs_eq_some.1 hb
  have hid : f.factId = x := hF.working.factId x f hf
  refine ⟨f, hf, hne, ?_⟩
  rw [proposeRefinement_eq ht hst] at hb'
  rcases sweep_frame (E := E) (s.addFact E (refinementInput target refinement)).2.1 t.identityKey
    ((refined E s target (refinementInput target refinement)).now E).1
    (refined E s target (refinementInput target refinement)).indexes.conflictedFacts
    ((refined E s target (refinementInput target refinement)).now E).2 x with
    hsame | ⟨hlisted, hother, hkey⟩
  · rw [hsame] at hb'
    left
    rw [hid]
    exact leaves_refined hF hB hb hne hb'
  · right
    rw [hid]
    obtain ⟨hout, hex⟩ := decision_eq hF hB (refinementInput target refinement)
    refine ⟨?_, ?_, ?_⟩
    · -- the key is part of the core
      obtain ⟨p, hp, hpk⟩ := Option.map_eq_some_iff.1 hkey
      obtain ⟨g, hg, hgk, -⟩ := beliefs_eq_some.1 (show beliefs (refined E s target
        (refinementInput target refinement)).working.facts x = some (p.1, p.2) from hp)
      obtain ⟨g', hg', hcore⟩ := (refined_changes hF target
        (refinementInput target refinement)).kept hF.working.factId hf
      have hsome : (refined E s target (refinementInput target refinement)).scene.facts.get? x =
        some g := hg
      rw [hg', Option.some.injEq] at hsome
      have hik : g'.identityKey = f.identityKey := congrArg FactCore.identityKey hcore
      rw [← hik, hsome, hgk, hpk]
    · have hadd : x ∈ (s.addFact E
          (refinementInput target refinement)).2.2.indexes.conflictedFacts := by
        unfold refined at hlisted
        split at hlisted
        · exact listed_force hlisted
        · exact hlisted
      rcases listed_addFact hadd with hin | hnew | ⟨hcon, hexists⟩
      · exact Or.inl hin
      · have hnone := nextFactId_new (E := E) hF
        rw [← hnew, hb] at hnone
        cases hnone
      · right
        rw [hexists] at hex
        obtain ⟨a, hsp, hida⟩ := Option.map_eq_some_iff.1 hex.symm
        rw [hsp] at hout
        exact ⟨a, hsp, hout.symm.trans hcon, hida.symm⟩
    · intro a hsp hc heq
      have hjoin := (id_of_contest hF hB (refinementInput target refinement)).1 a hsp hc
      exact hother (heq.trans hjoin.symm)

end Refinement

/-- The calls that leave no unnamed predecessor: what the call supersedes is named
already, or named by the new fact. -/
def Succeeds (E : Env N) (s : Engine N) : Op N → Prop
  | .addFact input =>
    ∀ a, speaker E s input = some a → contest (candidate E input) a = .supersede →
      a.state ≠ .superseded → a.factId ∈ input.derivedFrom.getD [] ∨ Named s.working.facts a.factId
  | .proposeRefinement target refinement =>
    ∀ t, s.working.facts.get? target = some t → t.state ≠ .invalidated →
      ∀ id f, s.working.facts.get? id = some f → f.state ≠ .superseded →
        Leaves E s target t (refinementInput target refinement) f →
        (id = target ∧ (s.decision E (refinementInput target refinement)).outcome ≠ .converge) ∨
          Named s.working.facts id
  | _ => True

theorem named_step (hF : s.view.Filed E) {op : Op N} (hop : op.reloads = false)
    (hn : Named s.working.facts id) : Named (step E s op).working.facts id :=
  (step_changes hF hop).named hF.working.factId hn

omit [JsNumber N] in
theorem supersededBy_same {s' : Engine N} (h : s'.working.facts = s.working.facts) {x : FactId} :
    x ∉ supersededBy s s' := by
  intro hin
  obtain ⟨k, st, hb, hne, k', hb'⟩ := mem_supersededBy.1 hin
  rw [h, hb] at hb'
  cases hb'
  exact hne rfl

omit [JsNumber N] in
theorem supersedeSources_frame (now : String) (sources : List FactId) (s : Engine N) {x : FactId}
    (hx : x ∉ sources) :
    beliefs (sources.foldl (Engine.supersedeSource E now) s).working.facts x =
      beliefs s.working.facts x := by
  induction sources generalizing s with
  | nil => rfl
  | cons fid sources ih =>
    rw [List.mem_cons, not_or] at hx
    have hturn : beliefs (s.supersedeSource E now fid).working.facts =
        (beliefs s.working.facts).move fid .superseded := beliefs_retire s fid .superseded now
    rw [List.foldl_cons, ih _ hx.2, hturn]
    unfold Beliefs.move
    rw [if_neg hx.1]

theorem consolidation_named (hF : s.view.Filed E) {sources : List FactId}
    {consolidated : AddFactInput N} {x : FactId}
    (hx : x ∈ supersededBy s (s.proposeConsolidation E sources consolidated).2) :
    Named (s.proposeConsolidation E sources consolidated).2.working.facts x := by
  obtain ⟨k, st, hb, hne, k', hb'⟩ := mem_supersededBy.1 hx
  have hold : x ≠ s.nextFactId E := by
    rintro rfl
    rw [nextFactId_new hF] at hb
    cases hb
  rcases proposeConsolidation_cases E sources consolidated s with hsame | ⟨-, -, heq⟩
  · rw [hsame] at hx
    exact absurd hx (supersededBy_same rfl)
  · have hin : x ∈ sources := by
      by_contra hnot
      have hframe := supersedeSources_frame (E := E) (s.now E).1 sources
        (s.consolidated E sources consolidated) hnot
      rw [heq] at hb'
      simp only [Engine.recordOp] at hb'
      rw [hframe, beliefs_consolidated] at hb'
      unfold Beliefs.put at hb'
      rw [if_neg hold, hb] at hb'
      cases hb'
      exact hne rfl
    rw [heq]
    have hnew : Named (s.consolidated E sources consolidated).working.facts x :=
      ⟨_, _, OrderedMap.get?_set_self _ _ _, Or.inr (Or.inl hin)⟩
    have hk := keyed_changes (consolidated_change hF sources consolidated) hF.working.factId
    exact (supersedeSources_changes (s.now E).1 sources _).named hk hnew

theorem refinement_rest {target : FactId} {t : Fact N} {refinement : AddFactInput N}
    (ht : s.working.facts.get? target = some t) (hst : t.state ≠ .invalidated) :
    Changes E (s.addFact E (refinementInput target refinement)).2.2.scene
      (s.proposeRefinement E target refinement).2.scene := by
  have hforce : Changes E (s.addFact E (refinementInput target refinement)).2.2.scene
      (refined E s target (refinementInput target refinement)).scene := by
    unfold refined
    split
    · exact forceRefinement_changes target _ _
    · exact Relation.ReflTransGen.refl
  rw [proposeRefinement_eq ht hst]
  refine hforce.trans ?_
  exact changes_foldl (sweepConflict_changes _ _ _) _
    ((refined E s target (refinementInput target refinement)).now E).2

/-- **What a safe call supersedes is named when it ends.** -/
theorem succession_step (h : Living E s) {op : Op N}
    (hsafe : Succeeds E s op) {x : FactId} (hx : x ∈ successionLog E s op) :
    Named (step E s op).working.facts x := by
  cases op with
  | addFact input =>
    obtain ⟨a, hsp, hc, rfl, hst⟩ := leaves_addFact h.filed h.booked hx
    rcases hsafe a hsp hc hst with hderived | hnamed
    · have hout := (decision_eq h.filed h.booked input).1
      rw [hsp] at hout
      have hout' : (s.decision E input).outcome = .supersede := hout.trans hc
      exact addFact_derives h.filed (by rw [hout']; decide) hderived
    · exact named_step h.filed rfl hnamed
  | proposeRefinement target refinement =>
    have hx' : x ∈ supersededBy s (s.proposeRefinement E target refinement).2 := hx
    rcases proposeRefinement_cases (E := E) s target refinement with hsame | ⟨t, ht, hst⟩
    · refine absurd hx' (supersededBy_same ?_)
      rw [hsame]
    · obtain ⟨f, hf, hne, hleaves⟩ := leaves_refinement h.filed h.booked ht hst hx'
      rcases hsafe t ht hst x f hf hne hleaves with ⟨rfl, hout⟩ | hnamed
      · -- the new fact derives from the target
        have hderives : Named (s.addFact E (refinementInput x refinement)).2.2.working.facts x :=
          addFact_derives h.filed hout List.mem_cons_self
        have hk := keyed_changes (addFact_changes h.filed (refinementInput x refinement))
          h.filed.working.factId
        exact (refinement_rest ht hst).named hk hderives
      · exact named_step h.filed rfl hnamed
  | proposeConsolidation sources consolidated => exact consolidation_named h.filed hx
  | _ => cases hx

/-- **Successions are recorded**: in every session of safe calls, each fact that a
successor superseded is named by a stored fact, as long as the change is not discarded
by a reload. -/
theorem succession_named (hs : Started E s) (hk : s.working.Keyed) (hid : UniqueIds E s)
    {ops : List (Op N)} (hg : Machine.Guarded (step E) (Succeeds E) s ops) :
    let c := Machine.run (chronicle E (successionLog E)) (Chronicle.start s) ops
    c.engine = Machine.run (step E) s ops ∧
    ∀ id ∈ c.trail, Named c.engine.working.facts id := by
  intro c
  refine ⟨chronicle_run _ ops, ?_⟩
  have hnone : ∀ facts : OrderedMap FactId (Fact N), ∀ id ∈ ([] : List FactId), Named facts id :=
    fun _ id hin => absurd hin List.not_mem_nil
  refine Chronicle.run_inv (J := Living E) (G := Succeeds E)
    (W := fun v t => ∀ id ∈ t, Named v.facts id) (F := fun m t => ∀ id ∈ t, Named m.facts id)
    hid.injective (fun _ h => h.filed) (fun _ op h => living_step hid.injective h op) ?_ ?_
    (fun _ _ _ h => h) (living_started hs hk hid) (hnone _) (fun _ _ => hnone _) hg
  · intro s' t op hJ hop hsafe hW id hin
    rcases List.mem_append.1 hin with hold | hnew
    · exact named_step hJ.filed hop (hW id hold)
    · exact succession_step hJ hsafe hnew
  · intro s' t m _ hW hm _
    rw [hm]
    exact hW

def refinedCity : List (Op ℚ) :=
  [.addFact (cityInput "Rome" 0.5), .proposeRefinement "FACT_" (cityInput "Oslo" 0.9)]

theorem refinedCity_named : Named (afterSession refinedCity).working.facts "FACT_" := by
  have hdisk : (Disk.empty ℚ).manifestFile = none := rfl
  have hg : Machine.Guarded (step (Env.plain ℚ)) (Succeeds (Env.plain ℚ))
      (Engine.fresh (Env.plain ℚ) "agent" (Disk.empty ℚ) {}) refinedCity := by
    refine ⟨?_, ?_, trivial⟩
    · intro a hsp
      cases hsp
    · intro t ht hst id f hf _ _
      have honly : ∀ e ∈ (afterSession [.addFact (cityInput "Rome" 0.5)]).working.facts.entries,
          e.1 = "FACT_" := by decide +kernel
      exact Or.inl ⟨honly (id, f) (OrderedMap.get?_eq_some.1 hf), by decide +kernel⟩
  obtain ⟨hsame, hnamed⟩ := succession_named (started_fresh (Env.plain ℚ) "agent" hdisk {})
    (keyed_fresh _ _ _ _) (uniqueIds_fresh (Env.plain_injective ℚ) _ _ _) hg
  rw [hsame] at hnamed
  exact hnamed "FACT_" (by decide +kernel)

/-- **`addFact` records no succession**: after a surer city the first one is superseded,
and no stored fact names it. -/
theorem surerCity_unnamed :
    ¬ ∀ ops, ∀ id ∈ (Machine.run (chronicle (Env.plain ℚ) (successionLog (Env.plain ℚ)))
      (Chronicle.start (Engine.fresh (Env.plain ℚ) "agent" (Disk.empty ℚ) {})) ops).trail,
      Named (afterSession ops).working.facts id := by
  intro h
  obtain ⟨k, f, hf, hnames⟩ := h [.addFact (cityInput "Rome" 0.5), .addFact (cityInput "Oslo" 0.9)]
    "FACT_" (by decide +kernel)
  have hnot : ∀ e ∈ (afterSession [.addFact (cityInput "Rome" 0.5),
      .addFact (cityInput "Oslo" 0.9)]).working.facts.entries, e.2.supersedes ≠ some "FACT_" ∧
      "FACT_" ∉ e.2.derivedFrom ∧ "FACT_" ∉ e.2.mergedFrom.getD [] := by decide +kernel
  obtain ⟨h1, h2, h3⟩ := hnot (k, f) (OrderedMap.get?_eq_some.1 hf)
  rcases hnames with hs | hd | hm
  · exact h1 hs
  · exact h2 hd
  · exact h3 hm

end ClawHarder
