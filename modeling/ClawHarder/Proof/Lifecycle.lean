import ClawHarder.Proof.Belief
import ClawHarder.Proof.Change

/-!
# The lifecycle of a fact

A fact ages: it is live, then superseded or archived, then invalidated. `Aged`
compares two stores of beliefs. Arbitration can make a superseded spokesman
conflicted, `proposeRefinement` can reactivate the one that its fact converges on,
`proposeConsolidation` supersedes sources without looking, and `reload` brings back
what was saved; `LifecycleSafe` excludes exactly these.

* `addFact_aged`, `proposeRefinement_aged`, `proposeConsolidation_aged`: **a safe
  call makes no fact younger.**
* `lifecycle_monotone`: **nor does a session of safe calls.**
-/

namespace ClawHarder

open Engine (candidate refinementInput)

variable {N : Type}

def FactState.age : FactState → ℕ
  | .active => 0
  | .conflicted => 0
  | .archived => 1
  | .superseded => 1
  | .invalidated => 2

theorem FactState.age_le_one {st : FactState} (h : st ≠ .invalidated) : st.age ≤ 1 := by
  cases st <;> simp_all [FactState.age]

theorem FactState.age_dead {st : FactState} (h : st.live = false) : 1 ≤ st.age := by
  cases st <;> simp_all [FactState.age, FactState.live]

namespace Beliefs

def AgedAt (B B' : Beliefs) (x : FactId) : Prop :=
  ∀ k st, B x = some (k, st) → ∃ st', B' x = some (k, st') ∧ st.age ≤ st'.age

def Aged (B B' : Beliefs) : Prop := ∀ x, AgedAt B B' x

def OpenAt (B : Beliefs) (x : FactId) : Prop := ∀ k st, B x = some (k, st) → st ≠ .invalidated

variable {B B' B'' : Beliefs} {key : String} {n x : FactId} {st : FactState}

theorem AgedAt.refl (B : Beliefs) (x : FactId) : AgedAt B B x :=
  fun _ st h => ⟨st, h, le_rfl⟩

theorem AgedAt.trans (h : AgedAt B B' x) (h' : AgedAt B' B'' x) : AgedAt B B'' x := by
  intro k st hx
  obtain ⟨st', hx', hle⟩ := h k st hx
  obtain ⟨st'', hx'', hle'⟩ := h' k st' hx'
  exact ⟨st'', hx'', hle.trans hle'⟩

theorem AgedAt.put (hn : B n = none) : AgedAt B (B.put n key st) x := by
  intro k st₀ hx
  unfold Beliefs.put
  rw [if_neg]
  · exact ⟨st₀, hx, le_rfl⟩
  · rintro rfl
    rw [hn] at hx
    cases hx

theorem AgedAt.move (hst : x = n → ∀ k st₀, B n = some (k, st₀) → st₀.age ≤ st.age) :
    AgedAt B (B.move n st) x := by
  intro k st₀ hx
  unfold Beliefs.move
  by_cases hxn : x = n
  · rw [if_pos hxn]
    rw [hxn] at hx
    rw [hx]
    exact ⟨st, rfl, hst hxn k st₀ hx⟩
  · rw [if_neg hxn]
    exact ⟨st₀, hx, le_rfl⟩

theorem AgedAt.supersede (ho : B.OpenAt n) : AgedAt B (B.move n .superseded) x :=
  AgedAt.move fun _ k st₀ hn => FactState.age_le_one (ho k st₀ hn)

theorem move_move (B : Beliefs) (n : FactId) (st st' : FactState) :
    (B.move n st).move n st' = B.move n st' := by
  funext x
  unfold Beliefs.move
  by_cases hx : x = n
  · subst hx
    cases B x <;> simp
  · simp [hx]

theorem move_absorb (B : Beliefs) {a n : FactId} (hne : n ≠ a) (st st' st'' : FactState) :
    ((B.move a st).move n st').move a st'' = (B.move n st').move a st'' := by
  funext x
  unfold Beliefs.move
  by_cases hx : x = a
  · subst hx
    cases B x <;> simp [hne.symm]
  · simp [hx, hne]

theorem put_move (B : Beliefs) (n : FactId) (key : String) (st st' : FactState) :
    (B.put n key st).move n st' = B.put n key st' := by
  funext x
  unfold Beliefs.move Beliefs.put
  by_cases hx : x = n <;> simp [hx]

theorem OpenAt.put (h : B.OpenAt x) (hst : st ≠ .invalidated) : (B.put n key st).OpenAt x := by
  intro k st₀ hx
  unfold Beliefs.put at hx
  split at hx
  · cases hx
    exact hst
  · exact h k st₀ hx

theorem OpenAt.move (h : B.OpenAt x) (hst : st ≠ .invalidated) : (B.move n st).OpenAt x := by
  intro k st₀ hx
  unfold Beliefs.move at hx
  split at hx
  · obtain ⟨p, -, hp⟩ := Option.map_eq_some_iff.1 hx
    cases hp
    exact hst
  · exact h k st₀ hx

end Beliefs

open Beliefs

variable [JsNumber N] {E : Env N} {s : Engine N}

/-- The calls of `addFact` that make no fact younger: a superseded spokesman is not
made conflicted. -/
def AddAges (E : Env N) (s : Engine N) (input : AddFactInput N) : Prop :=
  ∀ a, speaker E s input = some a → contest (candidate E input) a = .conflict →
    a.state ≠ .superseded

theorem speaker_age {input : AddFactInput N} {a : Fact N}
    (h : speaker E s input = some a) :
    a.state.age ≤ 1 ∧ (a.state ≠ .superseded → a.state.age = 0) := by
  have hr := (spokesman_mem h).2
  cases hst : a.state <;> simp_all [FactState.age, FactState.retired]

/-- **A safe `addFact` makes no fact younger.** -/
theorem addFact_aged (hF : s.view.Filed E) (hB : s.view.Booked) {input : AddFactInput N}
    (hsafe : AddAges E s input) :
    Aged (beliefs s.working.facts) (beliefs (s.addFact E input).2.2.working.facts) := by
  intro x
  have hn := nextFactId_new (E := E) hF
  cases hsp : speaker E s input with
  | none =>
    rw [beliefs_addFact_none hF hB hsp]
    exact AgedAt.put hn
  | some a =>
    obtain ⟨hage, hlive⟩ := speaker_age hsp
    have hne := nextFactId_ne_speaker hF hsp
    have hat {st : FactState} : ∀ k st₀, (beliefs s.working.facts).put (s.nextFactId E)
        (candidate E input).identityKey st a.factId = some (k, st₀) → st₀ = a.state := by
      intro k st₀ hk
      unfold Beliefs.put at hk
      rw [if_neg hne.symm, (speaker_get hF hsp).2] at hk
      cases hk
      rfl
    rw [beliefs_addFact_some hF hB hsp]
    cases hc : contest (candidate E input) a with
    | new => exact AgedAt.put hn
    | converge => exact AgedAt.refl _ x
    | reject => exact AgedAt.put hn
    | supersede =>
      refine (AgedAt.put hn).trans (AgedAt.move ?_)
      intro _ k st₀ hk
      rw [hat k st₀ hk]
      exact hage
    | conflict =>
      refine (AgedAt.put hn).trans (AgedAt.move ?_)
      intro _ k st₀ hk
      rw [hat k st₀ hk, hlive (hsafe a hsp hc)]
      exact Nat.zero_le _

section Refinement

variable {target : FactId} {t : Fact N}

/-- The calls of `proposeRefinement` that make no fact younger: a superseded
spokesman is superseded again before the call ends. -/
def RefineAges (E : Env N) (s : Engine N) (target : FactId) (t : Fact N) (input : AddFactInput N) :
    Prop :=
  ∀ a, speaker E s input = some a → a.state = .superseded →
    (contest (candidate E input) a = .converge → a.factId = target) ∧
    (contest (candidate E input) a = .conflict →
      a.factId = target ∨ (candidate E input).identityKey = t.identityKey)

omit [JsNumber N] in
theorem open_target (ht : s.working.facts.get? target = some t) (hst : t.state ≠ .invalidated) :
    (beliefs s.working.facts).OpenAt target := by
  intro k st hk
  obtain ⟨f, hf, -, rfl⟩ := beliefs_eq_some.1 hk
  rw [ht] at hf
  cases hf
  exact hst

theorem refined_aged (hF : s.view.Filed E) (hB : s.view.Booked) {input : AddFactInput N}
    (ho : (beliefs s.working.facts).OpenAt target)
    (hconv : ∀ a, speaker E s input = some a → a.state = .superseded →
      contest (candidate E input) a = .converge → a.factId = target) {x : FactId}
    (hx : ∀ a, speaker E s input = some a → a.state = .superseded →
      contest (candidate E input) a = .conflict → a.factId ≠ target → x ≠ a.factId) :
    AgedAt (beliefs s.working.facts) (beliefs (refined E s target input).working.facts) x := by
  have hn := nextFactId_new (E := E) hF
  obtain ⟨hjoin, hnew⟩ := id_of_contest hF hB input
  have hout := (decision_eq hF hB input).1
  rw [beliefs_refined hF hB]
  cases hsp : speaker E s input with
  | none =>
    rw [hsp] at hout
    have hout' : (s.decision E input).outcome = .new := hout
    rw [hout', if_neg (by decide), beliefs_addFact_none hF hB hsp]
    exact AgedAt.put hn
  | some a =>
    rw [hsp] at hout
    have hout' : (s.decision E input).outcome = contest (candidate E input) a := hout
    obtain ⟨hage, hlive⟩ := speaker_age hsp
    have hne := nextFactId_ne_speaker hF hsp
    have hget := (speaker_get hF hsp).2
    have hput {st : FactState} : ∀ k st₀, (beliefs s.working.facts).put (s.nextFactId E)
        (candidate E input).identityKey st a.factId = some (k, st₀) → st₀ = a.state := by
      intro k st₀ hk
      unfold Beliefs.put at hk
      rw [if_neg hne.symm, hget] at hk
      cases hk
      rfl
    rw [beliefs_addFact_some hF hB hsp, hout']
    cases hc : contest (candidate E input) a with
    | new => exact absurd hc (contest_ne_new _ _)
    | supersede =>
      rw [if_neg (by decide)]
      refine (AgedAt.put hn).trans (AgedAt.move ?_)
      intro _ k st₀ hk
      rw [hput k st₀ hk]
      exact hage
    | converge =>
      rw [if_pos (by decide), hjoin a hsp hc]
      show AgedAt _ (((beliefs s.working.facts).move a.factId .active).move target .superseded) x
      by_cases hat : a.factId = target
      · rw [hat, move_move]
        exact AgedAt.supersede ho
      · -- the spokesman is live, so activating it makes it no younger
        have hnot : a.state ≠ .superseded := fun hst => hat (hconv a hsp hst hc)
        refine (AgedAt.move ?_).trans (AgedAt.supersede (OpenAt.move ho (by decide)))
        intro _ k st₀ hk
        rw [hget] at hk
        cases hk
        rw [hlive hnot]
        exact Nat.zero_le _
    | reject =>
      rw [if_pos (by decide), hnew (by rw [hout', hc]; decide)]
      show AgedAt _ ((((beliefs s.working.facts).put (s.nextFactId E) _ .superseded).move
        (s.nextFactId E) .active).move target .superseded) x
      rw [put_move]
      exact (AgedAt.put hn).trans (AgedAt.supersede (ho.put (by decide)))
    | conflict =>
      rw [if_pos (by decide), hnew (by rw [hout', hc]; decide)]
      show AgedAt _ (((((beliefs s.working.facts).put (s.nextFactId E) _ .conflicted).move a.factId
        .conflicted).move (s.nextFactId E) .active).move target .superseded) x
      have hactivate : ∀ B : Beliefs, (∀ k st₀, B (s.nextFactId E) = some (k, st₀) →
          st₀ = .conflicted) → AgedAt B (B.move (s.nextFactId E) .active) x := by
        intro B hB'
        apply AgedAt.move
        intro _ k st₀ hk
        rw [hB' k st₀ hk]
        exact Nat.zero_le _
      have hself : ∀ k st₀, (beliefs s.working.facts).put (s.nextFactId E)
          (candidate E input).identityKey .conflicted (s.nextFactId E) = some (k, st₀) →
          st₀ = .conflicted := by
        intro k st₀ hk
        unfold Beliefs.put at hk
        rw [if_pos rfl] at hk
        cases hk
        rfl
      by_cases hat : a.factId = target
      · subst hat
        rw [move_absorb _ hne]
        refine (AgedAt.put hn).trans ((hactivate _ hself).trans ?_)
        exact AgedAt.supersede (OpenAt.move (OpenAt.put ho (by decide)) (by decide))
      · refine (AgedAt.put hn).trans (AgedAt.trans (AgedAt.move ?_) ((hactivate _ ?_).trans
          (AgedAt.supersede ?_)))
        · intro hxa k st₀ hk
          have hnot : a.state ≠ .superseded := fun hst => hx a hsp hst hc hat hxa
          rw [hput k st₀ hk, hlive hnot]
          exact Nat.zero_le _
        · intro k st₀ hk
          unfold Beliefs.move at hk
          rw [if_neg hne] at hk
          exact hself k st₀ hk
        · exact OpenAt.move (OpenAt.move (OpenAt.put ho (by decide)) (by decide)) (by decide)

theorem refined_conflicted (hF : s.view.Filed E) (hB : s.view.Booked) {input : AddFactInput N}
    {a : Fact N} (hsp : speaker E s input = some a)
    (hc : contest (candidate E input) a = .conflict) (hat : a.factId ≠ target) :
    beliefs (refined E s target input).working.facts a.factId =
        some ((candidate E input).identityKey, .conflicted) ∧
      a.factId ≠ (s.addFact E input).2.1 := by
  have hne := nextFactId_ne_speaker hF hsp
  have hout := (decision_eq hF hB input).1
  rw [hsp] at hout
  have hout' : (s.decision E input).outcome = .conflict := hout.trans hc
  have hid := (id_of_contest hF hB input).2 (by rw [hout']; decide)
  rw [beliefs_refined hF hB, hout', if_pos (by decide), hid, beliefs_addFact_some hF hB hsp, hc]
  have hget := (speaker_get hF hsp).2
  refine ⟨?_, hne.symm⟩
  simp [Beliefs.settle, Beliefs.move, Beliefs.put, hat, hne.symm, hget]

omit [JsNumber N] in
theorem sweep_aged (id : FactId) (key now : String) (L : List FactId) (s : Engine N)
    (ho : ∀ fid ∈ L, (beliefs s.working.facts).OpenAt fid) (x : FactId) :
    AgedAt (beliefs s.working.facts)
      (beliefs (L.foldl (Engine.sweepConflict E id key now) s).working.facts) x := by
  induction L generalizing s with
  | nil => exact AgedAt.refl _ x
  | cons fid L ih =>
    have hturn := beliefs_sweepConflict (E := E) id key now fid s
    rw [List.foldl_cons]
    have hopen : ∀ y ∈ L, (beliefs (s.sweepConflict E id key now fid).working.facts).OpenAt y := by
      intro y hy
      rw [hturn]
      split
      · exact OpenAt.move (ho y (List.mem_cons_of_mem fid hy)) (by decide)
      · exact ho y (List.mem_cons_of_mem fid hy)
    refine AgedAt.trans ?_ (ih (s.sweepConflict E id key now fid) hopen)
    rw [hturn]
    split
    · exact AgedAt.supersede (ho fid List.mem_cons_self)
    · exact AgedAt.refl _ x

theorem refined_changes (hF : s.view.Filed E) (target : FactId) (input : AddFactInput N) :
    Changes E s.scene (refined E s target input).scene := by
  unfold refined
  split
  · exact (addFact_changes hF input).trans (forceRefinement_changes target _ _)
  · exact addFact_changes hF input

theorem open_refined (hF : s.view.Filed E) (hO : s.scene.Open) (target : FactId)
    (input : AddFactInput N) : (refined E s target input).scene.Open :=
  (refined_changes hF target input).open hF.working.factId hO

/-- **A safe `proposeRefinement` makes no fact younger.** -/
theorem proposeRefinement_aged (hE : Function.Injective E.shortId) (hF : s.view.Filed E)
    (hB : s.view.Booked) (hO : s.scene.Open) {refinement : AddFactInput N}
    (hsafe : ∀ t, s.working.facts.get? target = some t → t.state ≠ .invalidated →
      RefineAges E s target t (refinementInput target refinement)) :
    Aged (beliefs s.working.facts)
      (beliefs (s.proposeRefinement E target refinement).2.working.facts) := by
  rcases proposeRefinement_cases (E := E) s target refinement with hsame | ⟨t, ht, hst⟩
  · rw [hsame]
    exact AgedAt.refl _
  · have hguard := hsafe t ht hst
    have ho := open_target ht hst
    have hbook := booked_refined hE hF hB ht hst refinement
    have hopen := open_refined hF hO target (refinementInput target refinement)
    rw [proposeRefinement_eq ht hst]
    intro x
    have hvisit : ∀ fid ∈ (refined E s target
        (refinementInput target refinement)).indexes.conflictedFacts,
        (beliefs ((refined E s target (refinementInput target refinement)).now
          E).2.working.facts).OpenAt fid := by
      intro fid hfid k st hk
      obtain ⟨f, hf, -, rfl⟩ := beliefs_eq_some.1 hk
      exact hopen fid hfid f hf
    have hsweep := sweep_aged (E := E)
      (s.addFact E (refinementInput target refinement)).2.1 t.identityKey
      ((refined E s target (refinementInput target refinement)).now E).1
      (refined E s target (refinementInput target refinement)).indexes.conflictedFacts
      ((refined E s target (refinementInput target refinement)).now E).2 hvisit x
    by_cases hx : ∃ a, speaker E s (refinementInput target refinement) = some a ∧
        a.state = .superseded ∧
        contest (candidate E (refinementInput target refinement)) a = .conflict ∧
        a.factId ≠ target ∧ x = a.factId
    · -- the spokesman is conflicted when the sweep starts, and swept
      obtain ⟨a, hsp, hsta, hc, hat, rfl⟩ := hx
      have hkey := ((hguard a hsp hsta).2 hc).resolve_left hat
      obtain ⟨hcon, hid⟩ := refined_conflicted hF hB hsp hc hat
      have hgone := (sweep_spec (E := E)
        (s.addFact E (refinementInput target refinement)).2.1 t.identityKey
        ((refined E s target (refinementInput target refinement)).now E).1
        (refined E s target (refinementInput target refinement)).indexes.conflictedFacts
        ((refined E s target (refinementInput target refinement)).now E).2).2
      intro k st hk
      rw [(speaker_get hF hsp).2] at hk
      cases hk
      obtain ⟨f, hf, -, hst'⟩ := beliefs_eq_some.1 hcon
      have hlisted := hbook.conflicted _ f hf hst'
      obtain ⟨st', hfinal, -⟩ := hsweep _ _ hcon
      rw [hkey] at hfinal ⊢
      refine ⟨st', hfinal, ?_⟩
      rw [hsta]
      exact FactState.age_dead (hgone _ hlisted hid st' hfinal)
    · refine AgedAt.trans (refined_aged hF hB ho (fun a hsp hsta => (hguard a hsp hsta).1) ?_) hsweep
      intro a hsp hsta hc hat hxa
      exact hx ⟨a, hsp, hsta, hc, hat, hxa⟩

end Refinement

omit [JsNumber N] in
theorem supersedeSources_aged (now : String) (sources : List FactId) (s : Engine N)
    (ho : ∀ fid ∈ sources, (beliefs s.working.facts).OpenAt fid) (x : FactId) :
    AgedAt (beliefs s.working.facts)
      (beliefs (sources.foldl (Engine.supersedeSource E now) s).working.facts) x := by
  induction sources generalizing s with
  | nil => exact AgedAt.refl _ x
  | cons fid sources ih =>
    have hturn : beliefs (s.supersedeSource E now fid).working.facts =
        (beliefs s.working.facts).move fid .superseded := beliefs_retire s fid .superseded now
    have hopen : ∀ y ∈ sources,
        (beliefs (s.supersedeSource E now fid).working.facts).OpenAt y := by
      intro y hy
      rw [hturn]
      exact OpenAt.move (ho y (List.mem_cons_of_mem fid hy)) (by decide)
    rw [List.foldl_cons]
    refine AgedAt.trans ?_ (ih (s.supersedeSource E now fid) hopen)
    rw [hturn]
    exact AgedAt.supersede (ho fid List.mem_cons_self)

/-- The calls of `proposeConsolidation` that make no fact younger: no source is
invalidated. -/
def ConsolidateAges (s : Engine N) (sources : List FactId) : Prop :=
  2 ≤ sources.length → (∀ fid ∈ sources, s.working.facts.contains fid = true) →
    ∀ fid ∈ sources, ∀ f, s.working.facts.get? fid = some f → f.state ≠ .invalidated

/-- **A consolidation without an invalidated source makes no fact younger.** -/
theorem proposeConsolidation_aged (hF : s.view.Filed E) {sources : List FactId}
    {consolidated : AddFactInput N} (hsafe : ConsolidateAges s sources) :
    Aged (beliefs s.working.facts)
      (beliefs (s.proposeConsolidation E sources consolidated).2.working.facts) := by
  intro x
  rcases proposeConsolidation_cases E sources consolidated s with hsame | ⟨hlen, hall, heq⟩
  · rw [hsame]
    exact AgedAt.refl _ x
  · have hopen := hsafe hlen hall
    have hput := beliefs_consolidated (E := E) s sources consolidated
    have hsource : ∀ fid ∈ sources,
        (beliefs (s.consolidated E sources consolidated).working.facts).OpenAt fid := by
      intro fid hfid
      rw [hput]
      apply OpenAt.put _ (by decide)
      intro k st hk
      obtain ⟨f, hf, -, rfl⟩ := beliefs_eq_some.1 hk
      exact hopen fid hfid f hf
    rw [heq]
    refine AgedAt.trans ?_ (supersedeSources_aged (s.now E).1 sources _ hsource x)
    rw [hput]
    exact AgedAt.put (nextFactId_new hF)

omit [JsNumber N] in
theorem supersedeFact_aged (id : FactId) (reason : String) :
    Aged (beliefs s.working.facts)
      (beliefs ((s.supersedeFact E id reason).toOption.getD s).working.facts) := by
  intro x
  unfold Engine.supersedeFact
  split
  · exact AgedAt.refl _ x
  · rename_i f hf
    split
    · exact AgedAt.refl _ x
    · rename_i hst
      show AgedAt _ (beliefs (((s.now E).2.transitionFact id .superseded
        (s.now E).1).propagateStaleness E id).working.facts) x
      rw [beliefs_retire]
      exact AgedAt.supersede (open_target hf hst)

omit [JsNumber N] in
theorem invalidateFact_aged (id : FactId) (reason : String) :
    Aged (beliefs s.working.facts)
      (beliefs ((s.invalidateFact E id reason).toOption.getD s).working.facts) := by
  intro x
  unfold Engine.invalidateFact
  split
  · exact AgedAt.refl _ x
  · show AgedAt _ (beliefs (((s.now E).2.transitionFact id .invalidated
      (s.now E).1).propagateStaleness E id).working.facts) x
    rw [beliefs_retire]
    apply AgedAt.move
    intro _ k st _
    cases st <;> decide

def LifecycleSafe (E : Env N) (s : Engine N) : Op N → Prop
  | .addFact input => AddAges E s input
  | .proposeRefinement target refinement =>
    ∀ t, s.working.facts.get? target = some t → t.state ≠ .invalidated →
      RefineAges E s target t (refinementInput target refinement)
  | .proposeConsolidation sources _ => ConsolidateAges s sources
  | .reload io =>
    ∀ m ix, load E io s.disk = .ok m ix → ∀ id f g, s.working.facts.get? id = some f →
      m.facts.get? id = some g → f.state.age ≤ g.state.age
  | _ => True

structure Living (E : Env N) (s : Engine N) : Prop where
  filed : s.view.Filed E
  booked : s.view.Booked
  «open» : s.scene.Open

omit [JsNumber N] in
theorem aged_same {facts facts' : OrderedMap FactId (Fact N)} (h : facts' = facts) :
    Aged (beliefs facts) (beliefs facts') := by
  intro x
  rw [h]
  exact AgedAt.refl _ x

theorem aged_step (hE : Function.Injective E.shortId) (h : Living E s) {op : Op N}
    (hop : op.reloads = false) (hsafe : LifecycleSafe E s op) :
    Aged (beliefs s.working.facts) (beliefs (step E s op).working.facts) := by
  cases op with
  | addFact input => exact addFact_aged h.filed h.booked hsafe
  | proposeRefinement target refinement =>
    exact proposeRefinement_aged hE h.filed h.booked h.open hsafe
  | proposeConsolidation sources consolidated => exact proposeConsolidation_aged h.filed hsafe
  | supersedeFact id reason => exact supersedeFact_aged id reason
  | invalidateFact id reason => exact invalidateFact_aged id reason
  | addReference input storeFails => exact aged_same (facts_addReference input storeFails)
  | addSummary input => exact aged_same (facts_addSummary input)
  | recordOperation type metadata => exact AgedAt.refl _
  | commit io => exact aged_same (facts_commit io)
  | reload io => cases hop

omit [JsNumber N] in
theorem open_loaded {m : Manifest N} (hk : m.Keyed) {v : Scene N} (hf : v.facts = m.facts)
    (hc : v.conflicted = (buildIndexes m).conflictedFacts) : v.Open := by
  intro x hx f hget
  rw [hc, (indexLaw_buildIndexes hk).facts.conflicted x] at hx
  obtain ⟨g, hg, hst⟩ := hx
  rw [hf, hg] at hget
  cases hget
  rw [hst]
  exact FactState.noConfusion

theorem living_step (hE : Function.Injective E.shortId) (h : Living E s) (op : Op N) :
    Living E (step E s op) := by
  have hbook : (step E s op).view.Filed E ∧ (step E s op).view.Booked :=
    Edits.inv (I := fun v => v.Filed E ∧ v.Booked)
      (fun _ _ he hv => ⟨filed_edit hE he hv.1, booked_edit he hv.1 hv.2⟩)
      (step_edits hE h.filed (allows_any op)) ⟨h.filed, h.booked⟩
  refine ⟨hbook.1, hbook.2, ?_⟩
  cases hop : op.reloads with
  | false => exact (step_changes h.filed hop).open h.filed.working.factId h.open
  | true =>
    cases op with
    | reload io =>
      rcases reload_cases E io s with hsame | ⟨m, -, hfile, -, -, hscene⟩
      · show ((s.reload E io).toOption.getD s).scene.Open
        rw [hsame]
        exact h.open
      · have hm := h.filed.file m hfile
        show ((s.reload E io).toOption.getD s).scene.Open
        rw [hscene]
        exact open_loaded ⟨hm.factId, hm.summaryId⟩ rfl rfl
    | _ => cases hop

/-- This fact is gone: it is neither in the working manifest nor on disk, and its id
is not drawn again. -/
structure View.Gone (E : Env N) (id : FactId) (v : View N) : Prop where
  working : v.facts.get? id = none
  file : ∀ m : Manifest N, v.file = some (.manifest m) → m.facts.get? id = none
  drawn : ∀ n, v.shortIds ≤ n → id ≠ "FACT_" ++ E.shortId n

theorem gone_edit {id : FactId} {P : Policy N} {v w : View N} (he : Edit E P v w)
    (h : v.Gone E id) : w.Gone E id := by
  obtain ⟨hw, hf, hd⟩ := h
  have hother : ∀ {x : FactId} {f g : Fact N}, v.facts.get? x = some f →
      (v.facts.set x g).get? id = none := by
    intro x f g hget
    rw [OrderedMap.get?_set, if_neg]
    · exact hw
    · rintro rfl
      rw [hw] at hget
      cases hget
  cases he with
  | insertFact f hid hp =>
    refine ⟨?_, hf, fun n hn => hd n (Nat.le_of_succ_le hn)⟩
    show (v.facts.set f.factId f).get? id = none
    rw [OrderedMap.get?_set, if_neg, hw]
    rw [hid]
    exact hd _ le_rfl
  | observe x f source now hget => exact ⟨hother hget, hf, hd⟩
  | move x f st now hget => exact ⟨hother hget, hf, hd⟩
  | force x f hget hp => exact ⟨hother hget, hf, hd⟩
  | retire x f now hget hp => exact ⟨hother hget, hf, hd⟩
  | insertSummary sm hid hp => exact ⟨hw, hf, fun n hn => hd n (Nat.le_of_succ_le hn)⟩
  | insertReference r hid => exact ⟨hw, hf, fun n hn => hd n (Nat.le_of_succ_le hn)⟩
  | skipId => exact ⟨hw, hf, fun n hn => hd n (Nat.le_of_succ_le hn)⟩
  | write m hfacts hr hs hp =>
    refine ⟨hw, ?_, hd⟩
    intro m' hm'
    cases hm'
    rw [hfacts]
    exact hw
  | load m hfile => exact ⟨hf m hfile, hf, hd⟩
  | _ => exact ⟨hw, hf, hd⟩

def AtLeast (E : Env N) (id : FactId) (n : ℕ) (s : Engine N) : Prop :=
  (∃ f, s.working.facts.get? id = some f ∧ n ≤ f.state.age) ∨ s.view.Gone E id

/-- **A safe call makes no fact younger, and brings none back.** -/
theorem atLeast_step (hE : Function.Injective E.shortId) (h : Living E s) {op : Op N}
    (hsafe : LifecycleSafe E s op) {id : FactId} {n : ℕ} (hn : AtLeast E id n s) :
    AtLeast E id n (step E s op) := by
  rcases hn with ⟨f, hget, hle⟩ | hgone
  · cases hop : op.reloads with
    | false =>
      have hx : beliefs s.working.facts id = some (f.identityKey, f.state) :=
        beliefs_eq_some.2 ⟨f, hget, rfl, rfl⟩
      obtain ⟨st', hst', hage⟩ := aged_step hE h hop hsafe id _ _ hx
      obtain ⟨g, hg, -, rfl⟩ := beliefs_eq_some.1 hst'
      exact Or.inl ⟨g, hg, hle.trans hage⟩
    | true =>
      cases op with
      | reload io =>
        rcases reload_cases E io s with hsame | ⟨m, hload, hfile, hdisk, hids, hscene⟩
        · have hstep : step E s (.reload io) = s := hsame
          rw [hstep]
          exact Or.inl ⟨f, hget, hle⟩
        · have hfacts : (step E s (.reload io)).working.facts = m.facts :=
            congrArg Scene.facts hscene
          cases hm : m.facts.get? id with
          | some g =>
            refine Or.inl ⟨g, ?_, hle.trans (hsafe m _ hload id f g hget hm)⟩
            rw [hfacts, hm]
          | none =>
            -- the fact was never saved
            have hF := filed_step hE h.filed (.reload io)
            refine Or.inr ⟨?_, ?_, ?_⟩
            · show (step E s (.reload io)).working.facts.get? id = none
              rw [hfacts, hm]
            · intro m' hm'
              have hm'' : (step E s (.reload io)).disk.manifestFile = some (.manifest m') := hm'
              have hdisk' : (step E s (.reload io)).disk = s.disk := hdisk
              rw [hdisk', hfile] at hm''
              cases hm''
              exact hm
            · intro k hk heq
              have hle' : s.sys.shortIds ≤ k := hids ▸ hk
              have hnew := h.filed.working.newFact k hle'
              rw [← heq] at hnew
              have hsome : s.view.facts.get? id = some f := hget
              rw [hnew] at hsome
              cases hsome
      | _ => cases hop
  · exact Or.inr ((step_edits hE h.filed (allows_any op)).inv (fun _ _ => gone_edit) hgone)

theorem living_started (hs : Started E s) (hk : s.working.Keyed) (hid : UniqueIds E s) :
    Living E s := by
  have hix := hs.loaded.1
  refine ⟨hs.filed hk hid, ⟨?_, ?_⟩, ?_⟩
  · intro key
    show s.indexes.factsByIdentityKey.bucket key = _
    rw [hix]
    exact booked_build hk key
  · intro x f hget hst
    show x ∈ s.indexes.conflictedFacts
    rw [hix]
    exact ((indexLaw_buildIndexes hk).facts.conflicted x).2 ⟨f, hget, hst⟩
  · exact open_loaded hk rfl (congrArg ManifestIndexes.conflictedFacts hix)

theorem atLeast_run (hE : Function.Injective E.shortId) (h : Living E s) {ops : List (Op N)}
    (hg : Machine.Guarded (step E) (LifecycleSafe E) s ops) {id : FactId} {n : ℕ}
    (hn : AtLeast E id n s) : AtLeast E id n (Machine.run (step E) s ops) := by
  have hboth := Machine.run_inv (I := fun s => Living E s ∧ AtLeast E id n s)
    (fun s op hI hsafe => ⟨living_step hE hI.1 op, atLeast_step hE hI.1 hsafe hI.2⟩) ⟨h, hn⟩ hg
  exact hboth.2

/-- **The lifecycle is monotone** in every session of safe calls: from any moment of it
to any later one, an invalidated fact stays invalidated, and a superseded one becomes
neither active nor conflicted. -/
theorem lifecycle_monotone (hs : Started E s) (hk : s.working.Keyed) (hid : UniqueIds E s)
    {before after : List (Op N)}
    (hg : Machine.Guarded (step E) (LifecycleSafe E) s (before ++ after)) :
    let s₁ := Machine.run (step E) s before
    let s₂ := Machine.run (step E) s₁ after
    ∀ id f g, s₁.working.facts.get? id = some f → s₂.working.facts.get? id = some g →
      (f.state = .invalidated → g.state = .invalidated) ∧
      (f.state = .superseded → g.state ≠ .active ∧ g.state ≠ .conflicted) := by
  intro s₁ s₂ id f g hf hg'
  obtain ⟨hbefore, hafter⟩ := Machine.guarded_append.1 hg
  have hliving : Living E s₁ := by
    have hrun := Machine.run_inv (I := Living E) (fun s op hI _ => living_step hid.injective hI op)
      (living_started hs hk hid) hbefore
    exact hrun
  have hage : f.state.age ≤ g.state.age := by
    rcases atLeast_run hid.injective hliving hafter (Or.inl ⟨f, hf, le_rfl⟩) with
      ⟨g', hget, hle⟩ | hgone
    · rw [hg'] at hget
      cases hget
      exact hle
    · have hnone := hgone.working
      have hsome : s₂.view.facts.get? id = some g := hg'
      rw [hsome] at hnone
      cases hnone
  refine ⟨?_, ?_⟩
  · intro hst
    rw [hst] at hage
    cases hgs : g.state <;> rw [hgs] at hage <;> first | rfl | exact absurd hage (by decide)
  · intro hst
    rw [hst] at hage
    refine ⟨?_, ?_⟩ <;> intro hgs <;> rw [hgs] at hage <;> exact absurd hage (by decide)

theorem lifecycle_city :
    let s₁ := afterSession [.addFact (cityInput "Rome" 0.5), .addFact (cityInput "Oslo" 0.8)]
    let s₂ := Machine.run (step (Env.plain ℚ)) s₁
      [.invalidateFact "FACT_I" "retracted", .addFact (cityInput "Lima" 0.9)]
    ∀ id f g, s₁.working.facts.get? id = some f → s₂.working.facts.get? id = some g →
      (f.state = .invalidated → g.state = .invalidated) ∧
      (f.state = .superseded → g.state ≠ .active ∧ g.state ≠ .conflicted) := by
  have hdisk : (Disk.empty ℚ).manifestFile = none := rfl
  refine lifecycle_monotone (started_fresh (Env.plain ℚ) "agent" hdisk {})
    (keyed_fresh _ _ _ _) (uniqueIds_fresh (Env.plain_injective ℚ) _ _ _) ?_
  refine ⟨?_, ?_, trivial, ?_, trivial⟩
  · have h : ∀ a ∈ speaker (Env.plain ℚ) (afterSession []) (cityInput "Rome" 0.5),
        contest (candidate (Env.plain ℚ) (cityInput "Rome" 0.5)) a = .conflict →
          a.state ≠ .superseded := by decide +kernel
    exact h
  · have h : ∀ a ∈ speaker (Env.plain ℚ) (afterSession [.addFact (cityInput "Rome" 0.5)])
        (cityInput "Oslo" 0.8), contest (candidate (Env.plain ℚ) (cityInput "Oslo" 0.8)) a =
          .conflict → a.state ≠ .superseded := by decide +kernel
    exact h
  · have h : ∀ a ∈ speaker (Env.plain ℚ) (afterSession [.addFact (cityInput "Rome" 0.5),
        .addFact (cityInput "Oslo" 0.8), .invalidateFact "FACT_I" "retracted"])
        (cityInput "Lima" 0.9), contest (candidate (Env.plain ℚ) (cityInput "Lima" 0.9)) a =
          .conflict → a.state ≠ .superseded := by decide +kernel
    exact h

def stateAfter (ops : List (Op ℚ)) (id : FactId) : Option FactState :=
  ((afterSession ops).working.facts.get? id).map (·.state)

/-- A fact superseded by hand, which a less sure observation then disputes. -/
def disputedFact : List (Op ℚ) :=
  [.addFact (cityInput "Rome" 0.5), .supersedeFact "FACT_" "moved", .addFact (cityInput "Oslo" 0.5)]

def mergedFact : List (Op ℚ) :=
  [.addFact (cityInput "Rome" 0.5), .addFact (cityInput "Oslo" 0.8),
    .invalidateFact "FACT_" "wrong",
    .proposeConsolidation ["FACT_", "FACT_I"] (cityInput "Lima" 0.9)]

/-- **Both halves fail**: `mergedFact` turns an invalidated fact superseded, and
`disputedFact` a superseded one conflicted. -/
theorem lifecycle_turns_back :
    (¬ ∀ before after id, stateAfter before id = some .invalidated →
      stateAfter (before ++ after) id = some .invalidated) ∧
    ¬ ∀ before after id, stateAfter before id = some .superseded →
      stateAfter (before ++ after) id ≠ some .conflicted := by
  refine ⟨?_, ?_⟩
  · intro h
    have hbefore : stateAfter (mergedFact.take 3) "FACT_" = some .invalidated := by decide +kernel
    have hafter := h (mergedFact.take 3) (mergedFact.drop 3) "FACT_" hbefore
    have hnow : stateAfter (mergedFact.take 3 ++ mergedFact.drop 3) "FACT_" = some .superseded := by
      decide +kernel
    rw [hnow] at hafter
    cases hafter
  · intro h
    have hbefore : stateAfter (disputedFact.take 2) "FACT_" = some .superseded := by decide +kernel
    have hnow : stateAfter (disputedFact.take 2 ++ disputedFact.drop 2) "FACT_" =
        some .conflicted := by decide +kernel
    exact h (disputedFact.take 2) (disputedFact.drop 2) "FACT_" hbefore hnow

end ClawHarder
