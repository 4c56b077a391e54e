import ClawHarder.Proof.Independence
import ClawHarder.Proof.Succession

/-!
# What a refinement leaves behind

`proposeRefinement` hands its input to `addFact`, overrides the verdict if that is not
`new` or `supersede`, and sweeps the conflicted facts of the target's key. `Resolved`
is what it is for: the new fact is active and the only active one of the target's key,
the target is superseded and no conflict is left.

* `refinement_iff`: **a refinement does what it is for just in case its state and input
  settle it.**
-/

namespace ClawHarder

open Engine (candidate refinementInput)

variable {N : Type}

/-- What a refinement is for, of a new fact, a target and the key of the target. -/
structure Resolved (s : Engine N) (named target : FactId) (key : String) : Prop where
  active : ∃ f, s.working.facts.get? named = some f ∧ f.state = .active
  other : named ≠ target
  superseded : ∃ f, s.working.facts.get? target = some f ∧ f.state = .superseded
  settled : ∀ x f, s.working.facts.get? x = some f → f.identityKey = key → f.state ≠ .conflicted
  one : ∃! x, ∃ f, s.working.facts.get? x = some f ∧ f.identityKey = key ∧ f.state = .active

variable [JsNumber N] {E : Env N} {s : Engine N} {target id : FactId} {key : String} {t : Fact N}

/-- A refinement that succeeds does what it is for, one that fails does nothing. -/
def RefinementLaw (E : Env N) (s : Engine N) (target : FactId) (refinement : AddFactInput N) :
    Prop :=
  match s.proposeRefinement E target refinement with
  | (.ok named _ _, after) =>
    ∀ t, s.working.facts.get? target = some t → Resolved after named target t.identityKey
  | (.failed _, after) => after.working = s.working ∧ after.indexes = s.indexes

/-- The fact of the verdict takes part, unless it rejects the input. -/
def Engine.Opponent (E : Env N) (s : Engine N) (input : AddFactInput N) (x : FactId) : Prop :=
  (s.decision E input).outcome ≠ .reject ∧ (s.decision E input).existingId? = some x

/-- An active fact of the key that the refinement does not touch: not the target, not
the fact it joins, supersedes or disputes, and not listed as conflicted. -/
structure Engine.Bystander (E : Env N) (s : Engine N) (target : FactId) (key : String)
    (input : AddFactInput N) (x : FactId) : Prop where
  active : beliefs s.working.facts x = some (key, .active)
  target : x ≠ target
  opponent : ¬ s.Opponent E input x
  unlisted : x ∉ s.indexes.conflictedFacts

structure Settles (E : Env N) (s : Engine N) (target : FactId) (t : Fact N)
    (input : AddFactInput N) : Prop where
  /-- The input does not converge on the target itself. -/
  other : ¬ ((s.decision E input).outcome = .converge ∧
    (s.decision E input).existingId? = some target)
  /-- The verdict is overridden or is against the target, or the target is superseded
  or listed as conflicted already. -/
  retired : (s.decision E input).outcome.forced = true ∨
    ((s.decision E input).outcome = .supersede ∧
      (s.decision E input).existingId? = some target) ∨
    t.state = .superseded ∨ target ∈ s.indexes.conflictedFacts
  /-- Within the target's key no other active fact stays, under another one a single. -/
  alone : if (candidate E input).identityKey = t.identityKey then
      ∀ x, ¬ s.Bystander E target t.identityKey input x
    else ∃! x, s.Bystander E target t.identityKey input x

omit [JsNumber N] in
/-- **The sweep** supersedes the facts of the key among those it visits, but for the
new one. -/
theorem beliefs_sweep (key now : String) (L : List FactId) (s : Engine N) (x : FactId) :
    beliefs (L.foldl (Engine.sweepConflict E id key now) s).working.facts x =
      if x ∈ L ∧ x ≠ id ∧ (beliefs s.working.facts x).map Prod.fst = some key then
        some (key, .superseded)
      else beliefs s.working.facts x := by
  induction L generalizing s with
  | nil => simp
  | cons fid L ih =>
    have hturn := beliefs_sweepConflict (E := E) id key now fid s
    rw [List.foldl_cons, ih, hturn]
    by_cases hx : x = fid
    · subst hx
      by_cases hhit : x ≠ id ∧ (beliefs s.working.facts x).map Prod.fst = some key
      · obtain ⟨p, hp, hkey⟩ := Option.map_eq_some_iff.1 hhit.2
        have hmoved : (beliefs s.working.facts).move x .superseded x = some (key, .superseded) := by
          simp [Beliefs.move, hp, hkey]
        rw [if_pos hhit, hmoved]
        simp [hhit]
      · rw [if_neg hhit, if_neg (fun h => hhit h.2), if_neg (fun h => hhit h.2)]
    · -- a turn for another fact
      have hsame : (if fid ≠ id ∧ (beliefs s.working.facts fid).map Prod.fst = some key then
          (beliefs s.working.facts).move fid .superseded else beliefs s.working.facts) x =
          beliefs s.working.facts x := by
        split
        · unfold Beliefs.move
          rw [if_neg hx]
        · rfl
      have hmem : x ∈ fid :: L ↔ x ∈ L := List.mem_cons.trans (or_iff_right hx)
      rw [hsame]
      simp only [hmem]

omit [JsNumber N] in
theorem listed_transition_other {x : FactId} (hx : x ≠ id) (st : FactState) (now : String) :
    x ∈ (s.transitionFact id st now).indexes.conflictedFacts ↔ x ∈ s.indexes.conflictedFacts := by
  unfold Engine.transitionFact
  split
  · exact Iff.rfl
  · simp only
    rw [mem_align_conflicted, if_neg hx]

theorem listed_addFact_other {input : AddFactInput N} {x : FactId} (hnew : x ≠ s.nextFactId E)
    (hopp : ¬ s.Opponent E input x) :
    x ∈ (s.addFact E input).2.2.indexes.conflictedFacts ↔ x ∈ s.indexes.conflictedFacts := by
  have hinsert (st : FactState) :
      x ∈ (s.inserted E input st).indexes.conflictedFacts ↔ x ∈ s.indexes.conflictedFacts := by
    show x ∈ (if st = .conflicted then
        OrderedSet.add s.indexes.conflictedFacts (s.nextFactId E)
        else s.indexes.conflictedFacts) ↔ _
    split
    · rw [OrderedSet.mem_add]
      exact or_iff_left hnew
    · exact Iff.rfl
  have hsame (u : Engine N) (id : FactId) (now : String) :
      (u.strengthen id input.source now).indexes = u.indexes := by
    unfold Engine.strengthen
    split <;> rfl
  have hsettled : (s.addFact E input).2.2.indexes = (s.settled E input).indexes := by
    rcases addFact_settled E input s with ⟨hadd, hsettled⟩ | ⟨type, metadata, hadd⟩
    · rw [hadd, hsettled]
    · rw [hadd]
      rfl
  rw [hsettled]
  unfold Engine.settled
  unfold Engine.Opponent at hopp
  cases hd : s.decision E input with
  | new reason => exact hinsert .active
  | converge id reason =>
    simp only [hsame]
    exact Iff.rfl
  | supersede id reason =>
    have hne : x ≠ id := by
      rintro rfl
      rw [hd] at hopp
      exact hopp ⟨Outcome.noConfusion, rfl⟩
    simp only [Engine.indexes_propagateStaleness]
    exact (listed_transition_other hne _ _).trans (hinsert .active)
  | reject id reason =>
    simp only [hsame]
    exact hinsert .superseded
  | conflict id reason =>
    have hne : x ≠ id := by
      rintro rfl
      rw [hd] at hopp
      exact hopp ⟨Outcome.noConfusion, rfl⟩
    simp only [Engine.indexes_propagateStaleness]
    exact (listed_transition_other hne _ _).trans (hinsert .conflicted)

omit [JsNumber N] in
theorem listed_force_other {x : FactId} (hx : x ≠ target) :
    x ∈ (s.forceRefinement E target id).indexes.conflictedFacts ↔
      x ∈ s.indexes.conflictedFacts := by
  have hretire : ∀ s' : Engine N, x ∈ (s'.supersedeTarget E target).indexes.conflictedFacts ↔
      x ∈ s'.indexes.conflictedFacts := by
    intro s'
    unfold Engine.supersedeTarget
    split
    · exact Iff.rfl
    · rw [Engine.indexes_propagateStaleness]
      exact listed_transition_other hx _ _
  unfold Engine.forceRefinement
  simp only [Engine.recordOp]
  cases hget : s.working.facts.get? id with
  | none => exact hretire s
  | some f => exact hretire (s.setFact id { f with state := .active })

theorem listed_refined (target : FactId) {input : AddFactInput N} {x : FactId}
    (hnew : x ≠ s.nextFactId E) (hopp : ¬ s.Opponent E input x)
    (hx : (s.decision E input).outcome.forced = true → x ≠ target) :
    x ∈ (refined E s target input).indexes.conflictedFacts ↔ x ∈ s.indexes.conflictedFacts := by
  unfold refined
  split
  · rename_i hforced
    exact (listed_force_other (hx hforced)).trans (listed_addFact_other hnew hopp)
  · exact listed_addFact_other hnew hopp

section Refined

variable {input : AddFactInput N}

theorem opponent_stored (hF : s.view.Filed E) (hB : s.view.Booked) {x : FactId}
    (h : (s.decision E input).existingId? = some x) :
    x ≠ s.nextFactId E ∧
      ∃ st, beliefs s.working.facts x = some ((candidate E input).identityKey, st) := by
  have hex := (decision_eq hF hB input).2
  rw [h] at hex
  obtain ⟨a, hsp, hid⟩ := Option.map_eq_some_iff.1 hex.symm
  subst hid
  exact ⟨(nextFactId_ne_speaker hF hsp).symm, a.state, (speaker_get hF hsp).2⟩

theorem opponent_named {d : ArbitrationDecision} (h : d.outcome ≠ .new) :
    ∃ x, d.existingId? = some x := by
  cases d with
  | new reason => exact absurd rfl h
  | _ => exact ⟨_, rfl⟩

theorem named_eq (hF : s.view.Filed E) (hB : s.view.Booked) (input : AddFactInput N) :
    ((s.decision E input).outcome = .converge ∧
        (s.decision E input).existingId? = some (s.addFact E input).2.1) ∨
      ((s.decision E input).outcome ≠ .converge ∧
        (s.addFact E input).2.1 = s.nextFactId E) := by
  obtain ⟨hjoin, hnew⟩ := id_of_contest hF hB input
  by_cases hc : (s.decision E input).outcome = .converge
  · obtain ⟨hout, hex⟩ := decision_eq hF hB input
    obtain ⟨x, hx⟩ := opponent_named (d := s.decision E input) (by rw [hc]; exact Outcome.noConfusion)
    rw [hx] at hex
    obtain ⟨a, hsp, hid⟩ := Option.map_eq_some_iff.1 hex.symm
    rw [hsp, hc] at hout
    refine Or.inl ⟨hc, ?_⟩
    rw [hjoin a hsp hout.symm, hx, hid]
  · exact Or.inr ⟨hc, hnew hc⟩

/-- **The new fact is active**, unless it is the target. -/
theorem refined_named (input : AddFactInput N) (hF : s.view.Filed E) (hB : s.view.Booked)
    (hne : (s.addFact E input).2.1 ≠ target) :
    beliefs (refined E s target input).working.facts (s.addFact E input).2.1 =
      some ((candidate E input).identityKey, .active) := by
  obtain ⟨st, hst⟩ := addFact_names hF hB input
  rw [beliefs_refined hF hB]
  by_cases hforced : (s.decision E input).outcome.forced = true
  · rw [if_pos hforced]
    simp [Beliefs.move, hne, hst]
  · rw [if_neg hforced]
    have hnew : (s.addFact E input).2.1 = s.nextFactId E := by
      rcases named_eq hF hB input with ⟨hc, -⟩ | ⟨-, hid⟩
      · rw [hc] at hforced
        exact absurd rfl hforced
      · exact hid
    rw [hnew, beliefs_addFact hF]
    cases hd : s.decision E input with
    | new reason => simp [ArbitrationDecision.outcome, Beliefs.settle, Beliefs.put]
    | supersede id reason =>
      have hnamed : (s.decision E input).existingId? = some id := by
        rw [hd]
        rfl
      have hid := (opponent_stored hF hB hnamed).1
      simp [ArbitrationDecision.outcome, ArbitrationDecision.existingId?, Beliefs.settle,
        Beliefs.move, Beliefs.put, hid.symm]
    | _ => rw [hd] at hforced; exact absurd rfl hforced

theorem beliefs_addFact_apart (hF : s.view.Filed E) (hB : s.view.Booked) {x : FactId}
    (hnamed : x ≠ (s.addFact E input).2.1) (hopp : ¬ s.Opponent E input x) :
    beliefs (s.addFact E input).2.2.working.facts x = beliefs s.working.facts x := by
  unfold Engine.Opponent at hopp
  rw [beliefs_addFact hF]
  rcases named_eq hF hB input with ⟨hc, -⟩ | ⟨-, hid⟩
  · rw [hc]
    rfl
  · have hnew : x ≠ s.nextFactId E := hid ▸ hnamed
    cases hd : s.decision E input with
    | new reason => simp [ArbitrationDecision.outcome, Beliefs.settle, Beliefs.put, hnew]
    | converge id reason => rfl
    | reject id reason => simp [ArbitrationDecision.outcome, Beliefs.settle, Beliefs.put, hnew]
    | supersede id reason | conflict id reason =>
      have hne : x ≠ id := by
        rintro rfl
        rw [hd] at hopp
        exact hopp ⟨Outcome.noConfusion, rfl⟩
      simp [ArbitrationDecision.outcome, ArbitrationDecision.existingId?, Beliefs.settle,
        Beliefs.move, Beliefs.put, hnew, hne]

theorem refined_apart (target : FactId) (hF : s.view.Filed E) (hB : s.view.Booked) {x : FactId}
    (hnamed : x ≠ (s.addFact E input).2.1) (hopp : ¬ s.Opponent E input x)
    (hx : (s.decision E input).outcome.forced = true → x ≠ target) :
    beliefs (refined E s target input).working.facts x = beliefs s.working.facts x := by
  rw [beliefs_refined hF hB]
  split
  · rename_i hforced
    unfold Beliefs.move
    rw [if_neg (hx hforced), if_neg hnamed, beliefs_addFact_apart hF hB hnamed hopp]
  · exact beliefs_addFact_apart hF hB hnamed hopp

theorem refined_opponent (hF : s.view.Filed E) (hB : s.view.Booked) {x : FactId}
    (hnamed : x ≠ (s.addFact E input).2.1) (hopp : s.Opponent E input x) :
    beliefs (refined E s target input).working.facts x ≠ some (key, .active) := by
  intro hactive
  have hx := (opponent_stored hF hB hopp.2).1
  have hadd : beliefs (s.addFact E input).2.2.working.facts x = some (key, .active) := by
    rw [beliefs_refined hF hB] at hactive
    split at hactive
    · have hmoved := (Beliefs.move_ne (by decide) hactive).1
      unfold Beliefs.move at hmoved
      rwa [if_neg hnamed] at hmoved
    · exact hactive
  rw [beliefs_addFact hF] at hadd
  obtain ⟨hne, hid⟩ := hopp
  cases hd : s.decision E input with
  | new reason => rw [hd] at hid; cases hid
  | reject id reason => rw [hd] at hne; exact hne rfl
  | converge id reason =>
    rcases named_eq hF hB input with ⟨-, hsame⟩ | ⟨hc, -⟩
    · rw [hid] at hsame
      exact hnamed (Option.some.inj hsame)
    · rw [hd] at hc
      exact hc rfl
  | supersede id reason | conflict id reason =>
    rw [hd] at hid hadd
    cases hid
    exact (Beliefs.move_ne (by decide) hadd).2 rfl

theorem refined_target (hF : s.view.Filed E) (hB : s.view.Booked)
    (ht : s.working.facts.get? target = some t)
    (hne : (s.addFact E input).2.1 ≠ target)
    (h : (s.decision E input).outcome.forced = true ∨
      ((s.decision E input).outcome = .supersede ∧
        (s.decision E input).existingId? = some target)) :
    ∃ k, beliefs (refined E s target input).working.facts target = some (k, .superseded) := by
  have hstored : beliefs s.working.facts target = some (t.identityKey, t.state) :=
    beliefs_eq_some.2 ⟨t, ht, rfl, rfl⟩
  have hnew : target ≠ s.nextFactId E := by
    rintro rfl
    rw [nextFactId_new hF] at hstored
    cases hstored
  rw [beliefs_refined hF hB]
  rcases h with hforced | ⟨hout, hid⟩
  · rw [if_pos hforced]
    have hkept : ∃ p, beliefs (s.addFact E input).2.2.working.facts target = some p := by
      rw [beliefs_addFact hF]
      cases s.decision E input with
      | new reason | reject id reason => simp [ArbitrationDecision.outcome, Beliefs.settle, Beliefs.put, hnew, hstored]
      | converge id reason => exact ⟨_, hstored⟩
      | supersede id reason | conflict id reason =>
        by_cases htid : target = id
        · subst htid
          simp [ArbitrationDecision.outcome, ArbitrationDecision.existingId?, Beliefs.settle,
            Beliefs.move, Beliefs.put, hnew, hstored]
        · simp [ArbitrationDecision.outcome, ArbitrationDecision.existingId?, Beliefs.settle,
            Beliefs.move, Beliefs.put, hnew, hstored, htid]
    obtain ⟨p, hp⟩ := hkept
    refine ⟨p.1, ?_⟩
    simp [Beliefs.move, hne.symm, hp]
  · have hforced : (s.decision E input).outcome.forced ≠ true := by
      rw [hout]
      decide
    rw [if_neg hforced, beliefs_addFact hF, hout, hid]
    refine ⟨t.identityKey, ?_⟩
    simp [Beliefs.settle, Beliefs.move, Beliefs.put, hnew, hstored]

end Refined

omit [JsNumber N] in
theorem resolved_iff {after : Engine N} {named : FactId} :
    Resolved after named target key ↔
      (∃ k, beliefs after.working.facts named = some (k, .active)) ∧ named ≠ target ∧
        (∃ k, beliefs after.working.facts target = some (k, .superseded)) ∧
        (∀ x, beliefs after.working.facts x ≠ some (key, .conflicted)) ∧
        ∃! x, beliefs after.working.facts x = some (key, .active) := by
  have hany (x : FactId) (st : FactState) : (∃ f, after.working.facts.get? x = some f ∧
      f.state = st) ↔ ∃ k, beliefs after.working.facts x = some (k, st) := by
    simp only [beliefs_eq_some]
    constructor
    · rintro ⟨f, hf, hst⟩
      exact ⟨f.identityKey, f, hf, rfl, hst⟩
    · rintro ⟨k, f, hf, -, hst⟩
      exact ⟨f, hf, hst⟩
  have hnone : (∀ x f, after.working.facts.get? x = some f → f.identityKey = key →
      f.state ≠ .conflicted) ↔ ∀ x, beliefs after.working.facts x ≠ some (key, .conflicted) := by
    refine forall_congr' fun x => ?_
    rw [Ne, beliefs_eq_some]
    push Not
    rfl
  have hone : (∃! x, ∃ f, after.working.facts.get? x = some f ∧ f.identityKey = key ∧
      f.state = .active) ↔ ∃! x, beliefs after.working.facts x = some (key, .active) := by
    simp only [beliefs_eq_some]
  constructor
  · intro h
    exact ⟨(hany _ _).1 h.active, h.other, (hany _ _).1 h.superseded, hnone.1 h.settled,
      hone.1 h.one⟩
  · rintro ⟨hactive, hother, hsuperseded, hsettled, hsingle⟩
    exact ⟨(hany _ _).2 hactive, hother, (hany _ _).2 hsuperseded, hnone.2 hsettled,
      hone.2 hsingle⟩

section After

variable {refinement : AddFactInput N}

theorem beliefs_refinement (ht : s.working.facts.get? target = some t)
    (hst : t.state ≠ .invalidated) (x : FactId) :
    beliefs (s.proposeRefinement E target refinement).2.working.facts x =
      if x ∈ (refined E s target (refinementInput target refinement)).indexes.conflictedFacts ∧
          x ≠ (s.addFact E (refinementInput target refinement)).2.1 ∧
          (beliefs (refined E s target (refinementInput target refinement)).working.facts
            x).map Prod.fst = some t.identityKey then
        some (t.identityKey, .superseded)
      else beliefs (refined E s target (refinementInput target refinement)).working.facts x := by
  rw [proposeRefinement_eq ht hst, beliefs_sweep]
  rfl

theorem refinement_settled (hE : Function.Injective E.shortId) (hF : s.view.Filed E)
    (hB : s.view.Booked) (ht : s.working.facts.get? target = some t)
    (hst : t.state ≠ .invalidated)
    (hne : (s.addFact E (refinementInput target refinement)).2.1 ≠ target) (x : FactId) :
    beliefs (s.proposeRefinement E target refinement).2.working.facts x ≠
      some (t.identityKey, .conflicted) := by
  have hnamed := refined_named (refinementInput target refinement) hF hB hne
  intro hx
  rw [beliefs_refinement ht hst] at hx
  split at hx
  · cases hx
  · rename_i hskipped
    -- it is listed, and not the new fact, which is active
    obtain ⟨f, hf, -, hcon⟩ := beliefs_eq_some.1 hx
    have hlisted := (booked_refined hE hF hB ht hst refinement).conflicted x f hf hcon
    refine hskipped ⟨hlisted, ?_, by rw [hx]; rfl⟩
    rintro rfl
    rw [hx] at hnamed
    simp at hnamed

/-- **The target is superseded** just in case something retires it. -/
theorem refinement_retires_iff (hF : s.view.Filed E) (hB : s.view.Booked)
    (ht : s.working.facts.get? target = some t) (hst : t.state ≠ .invalidated)
    (hne : (s.addFact E (refinementInput target refinement)).2.1 ≠ target) :
    (∃ k, beliefs (s.proposeRefinement E target refinement).2.working.facts target =
        some (k, .superseded)) ↔
      (s.decision E (refinementInput target refinement)).outcome.forced = true ∨
        ((s.decision E (refinementInput target refinement)).outcome = .supersede ∧
          (s.decision E (refinementInput target refinement)).existingId? = some target) ∨
        t.state = .superseded ∨ target ∈ s.indexes.conflictedFacts := by
  set input := refinementInput target refinement with hinput
  have hstored : beliefs s.working.facts target = some (t.identityKey, t.state) :=
    beliefs_eq_some.2 ⟨t, ht, rfl, rfl⟩
  have hnew : target ≠ s.nextFactId E := by
    rintro rfl
    rw [nextFactId_new hF] at hstored
    cases hstored
  rw [beliefs_refinement ht hst, ← hinput]
  by_cases h : (s.decision E input).outcome.forced = true ∨
      ((s.decision E input).outcome = .supersede ∧ (s.decision E input).existingId? = some target)
  · obtain ⟨k, hk⟩ := refined_target hF hB ht hne h
    rw [hk]
    refine iff_of_true ?_ (or_assoc.1 (Or.inl h))
    split
    · exact ⟨_, rfl⟩
    · exact ⟨k, rfl⟩
  · -- the verdict says nothing of the target: it is as before, and swept if it is listed
    push Not at h
    obtain ⟨hforced, hlost⟩ := h
    have hopp : ¬ s.Opponent E input target := by
      rintro ⟨hrej, hid⟩
      cases hd : s.decision E input with
      | supersede id reason => rw [hd] at hlost hid; exact hlost rfl hid
      | new reason => rw [hd] at hid; cases hid
      | _ => rw [hd] at hforced; exact hforced rfl
    have hsame := refined_apart target hF hB hne.symm hopp (fun h => absurd h hforced)
    have hlisted := listed_refined target hnew hopp (fun h => absurd h hforced)
    rw [hsame, hstored]
    simp only [hlisted, Option.map_some, and_true, hne.symm, ne_eq, not_false_eq_true]
    constructor
    · rintro ⟨k, hk⟩
      split at hk
      · rename_i hin
        exact Or.inr (Or.inr (Or.inr hin))
      · exact Or.inr (Or.inr (Or.inl (Prod.mk.inj (Option.some.inj hk)).2))
    · intro hretired
      split
      · exact ⟨_, rfl⟩
      · rename_i hin
        rcases hretired with h | h | h | h
        · exact absurd h hforced
        · exact absurd h.2 (hlost h.1)
        · exact ⟨_, by rw [h]⟩
        · exact absurd h hin

/-- **The active facts of the target's key** are the new one, if it has this key, and
those that the refinement does not touch. -/
theorem refinement_active_iff (hF : s.view.Filed E) (hB : s.view.Booked)
    (ht : s.working.facts.get? target = some t) (hst : t.state ≠ .invalidated)
    (hne : (s.addFact E (refinementInput target refinement)).2.1 ≠ target)
    (hsup : ∃ k, beliefs (s.proposeRefinement E target refinement).2.working.facts target =
      some (k, .superseded)) (x : FactId) :
    beliefs (s.proposeRefinement E target refinement).2.working.facts x =
        some (t.identityKey, .active) ↔
      (x = (s.addFact E (refinementInput target refinement)).2.1 ∧
        (candidate E (refinementInput target refinement)).identityKey = t.identityKey) ∨
      s.Bystander E target t.identityKey (refinementInput target refinement) x := by
  set input := refinementInput target refinement with hinput
  by_cases hx : x = (s.addFact E input).2.1
  · -- the new fact, which the sweep skips
    have hby : ¬ s.Bystander E target t.identityKey input x := by
      intro h
      rcases named_eq hF hB input with ⟨hc, hid⟩ | ⟨-, hid⟩
      · refine h.opponent ⟨by rw [hc]; exact Outcome.noConfusion, ?_⟩
        rw [hx, hid]
      · have hactive := h.active
        rw [hx, hid, nextFactId_new hF] at hactive
        cases hactive
    have hnamed := refined_named input hF hB hne
    rw [beliefs_refinement ht hst, ← hinput]
    simp only [hx, ne_eq, not_true_eq_false, false_and, and_false, if_false, hnamed,
      Option.some.injEq, Prod.mk.injEq, and_true, true_and]
    rw [hx] at hby
    exact (or_iff_left hby).symm
  · rw [or_iff_right (fun h => hx h.1)]
    by_cases htarget : x = target
    · refine iff_of_false ?_ (fun h => h.target htarget)
      obtain ⟨k, hk⟩ := hsup
      rw [htarget, hk]
      exact fun h => by cases h
    · by_cases hopp : s.Opponent E input x
      · refine iff_of_false ?_ (fun h => h.opponent hopp)
        rw [beliefs_refinement ht hst, ← hinput]
        split
        · exact fun h => by cases h
        · exact refined_opponent hF hB hx hopp
      · have hsame := refined_apart target hF hB hx hopp (fun _ => htarget)
        rw [beliefs_refinement ht hst, ← hinput, hsame]
        constructor
        · intro h
          split at h
          · cases h
          · rename_i hskipped
            have hnew : x ≠ s.nextFactId E := by
              rintro rfl
              rw [nextFactId_new hF] at h
              cases h
            have hlisted := listed_refined target hnew hopp (fun _ => htarget)
            refine ⟨h, htarget, hopp, fun hin => ?_⟩
            exact hskipped ⟨hlisted.2 hin, hx, by rw [h]; rfl⟩
        · intro h
          have hnew : x ≠ s.nextFactId E := by
            rintro rfl
            have hactive := h.active
            rw [nextFactId_new hF] at hactive
            cases hactive
          have hlisted := listed_refined target hnew hopp (fun _ => htarget)
          rw [if_neg (fun hhit => h.unlisted (hlisted.1 hhit.1))]
          exact h.active

/-- A refinement that `addFact` has a say in does what it is for just in case it is
settled. -/
theorem resolved_iff_settles (hE : Function.Injective E.shortId) (hF : s.view.Filed E)
    (hB : s.view.Booked) (ht : s.working.facts.get? target = some t)
    (hst : t.state ≠ .invalidated) :
    Resolved (s.proposeRefinement E target refinement).2
        (s.addFact E (refinementInput target refinement)).2.1 target t.identityKey ↔
      Settles E s target t (refinementInput target refinement) := by
  set input := refinementInput target refinement with hinput
  have hother : (s.addFact E input).2.1 ≠ target ↔
      ¬ ((s.decision E input).outcome = .converge ∧
        (s.decision E input).existingId? = some target) := by
    rcases named_eq hF hB input with ⟨hc, hid⟩ | ⟨hc, hid⟩
    · rw [hid, hc]
      simp
    · have hnew : (s.addFact E input).2.1 ≠ target := by
        rw [hid]
        rintro rfl
        have hnone := nextFactId_new (E := E) hF
        rw [beliefs_eq_some.2 ⟨t, ht, rfl, rfl⟩] at hnone
        cases hnone
      exact iff_of_true hnew (fun h => hc h.1)
  rw [resolved_iff]
  by_cases hne : (s.addFact E input).2.1 ≠ target
  · have hretires := refinement_retires_iff hF hB ht hst hne
    have hactive := refinement_active_iff hF hB ht hst hne
    have hnamed : ∃ k, beliefs (s.proposeRefinement E target refinement).2.working.facts
        (s.addFact E input).2.1 = some (k, .active) := by
      refine ⟨(candidate E input).identityKey, ?_⟩
      rw [beliefs_refinement ht hst, ← hinput]
      simp only [ne_eq, not_true_eq_false, false_and, and_false, if_false]
      exact refined_named input hF hB hne
    have hbystander : ¬ s.Bystander E target t.identityKey input (s.addFact E input).2.1 := by
      intro h
      rcases named_eq hF hB input with ⟨hc, hid⟩ | ⟨-, hid⟩
      · exact h.opponent ⟨by rw [hc]; exact Outcome.noConfusion, hid⟩
      · have hold := h.active
        rw [hid, nextFactId_new hF] at hold
        cases hold
    have hone (hsup : ∃ k, beliefs (s.proposeRefinement E target refinement).2.working.facts
        target = some (k, .superseded)) :
        (∃! x, beliefs (s.proposeRefinement E target refinement).2.working.facts x =
          some (t.identityKey, .active)) ↔
        if (candidate E input).identityKey = t.identityKey then
          ∀ x, ¬ s.Bystander E target t.identityKey input x
        else ∃! x, s.Bystander E target t.identityKey input x := by
      simp only [hactive hsup, ← hinput]
      split
      · rename_i hk
        simp only [hk, and_true]
        constructor
        · rintro ⟨y, -, huniq⟩ x hx
          have hxy := huniq x (Or.inr hx)
          have hny := huniq _ (Or.inl rfl)
          rw [hxy, ← hny] at hx
          exact hbystander hx
        · intro h
          exact ⟨_, Or.inl rfl, fun x hx => hx.resolve_right (h x)⟩
      · rename_i hk
        simp only [hk, and_false, false_or]
    constructor
    · rintro ⟨-, -, hsup, -, hsingle⟩
      exact ⟨hother.1 hne, hretires.1 hsup, (hone hsup).1 hsingle⟩
    · intro h
      have hsup := hretires.2 h.retired
      exact ⟨hnamed, hne, hsup, refinement_settled hE hF hB ht hst hne, (hone hsup).2 h.alone⟩
  · exact iff_of_false (fun h => hne h.2.1) (fun h => hne (hother.2 h.other))

theorem refinementLaw_iff (ht : s.working.facts.get? target = some t)
    (hst : t.state ≠ .invalidated) :
    RefinementLaw E s target refinement ↔
      Resolved (s.proposeRefinement E target refinement).2
        (s.addFact E (refinementInput target refinement)).2.1 target t.identityKey := by
  have hok : s.proposeRefinement E target refinement =
      (.ok (s.addFact E (refinementInput target refinement)).2.1 target
        (s.addFact E (refinementInput target refinement)).1,
        (s.proposeRefinement E target refinement).2) := by
    unfold Engine.proposeRefinement
    rw [ht]
    simp only [hst, if_false]
  unfold RefinementLaw
  rw [hok]
  constructor
  · intro h
    exact h t ht
  · intro h t' ht'
    rw [ht] at ht'
    cases ht'
    exact h

theorem refinementLaw_failed
    (h : ∀ t, s.working.facts.get? target = some t → t.state = .invalidated) :
    RefinementLaw E s target refinement := by
  unfold RefinementLaw Engine.proposeRefinement
  cases ht : s.working.facts.get? target with
  | none => exact ⟨rfl, rfl⟩
  | some t =>
    simp only [h t ht, if_true, and_self]

end After

/-- **In every session a refinement does what it is for, or fails and does nothing,
just in case its target, where there is one that is not invalidated, is settled.** -/
theorem refinement_iff {s₀ : Engine N} (hs : Started E s₀) (hk : s₀.working.Keyed)
    (hid : UniqueIds E s₀) (ops : List (Op N)) (target : FactId) (refinement : AddFactInput N) :
    RefinementLaw E (Machine.run (step E) s₀ ops) target refinement ↔
      ∀ t, (Machine.run (step E) s₀ ops).working.facts.get? target = some t →
        t.state ≠ .invalidated →
        Settles E (Machine.run (step E) s₀ ops) target t (refinementInput target refinement) := by
  have horder : (Machine.run (step E) s₀ ops).InOrder E :=
    Machine.run_inv_all (inOrder_step hid.injective) (inOrder_started hs hk hid) ops
  generalize Machine.run (step E) s₀ ops = s at horder ⊢
  by_cases h : ∀ t, s.working.facts.get? target = some t → t.state = .invalidated
  · exact iff_of_true (refinementLaw_failed h) (fun t ht hst => absurd (h t ht) hst)
  · push Not at h
    obtain ⟨t, ht, hst⟩ := h
    have hlaw : RefinementLaw E s target refinement ↔
        Settles E s target t (refinementInput target refinement) :=
      (refinementLaw_iff ht hst).trans
        (resolved_iff_settles hid.injective horder.filed horder.booked ht hst)
    constructor
    · intro h t' ht' _
      rw [ht] at ht'
      cases ht'
      exact hlaw.1 h
    · intro h
      exact hlaw.2 (h t ht hst)

theorem surerCity_refined_iff :
    RefinementLaw (Env.plain ℚ) (afterSession [.addFact (cityInput "Rome" 0.5)]) "FACT_"
        (cityInput "Oslo" 0.9) ↔
      ∀ t, (afterSession [.addFact (cityInput "Rome" 0.5)]).working.facts.get? "FACT_" = some t →
        t.state ≠ .invalidated →
        Settles (Env.plain ℚ) (afterSession [.addFact (cityInput "Rome" 0.5)]) "FACT_" t
          (refinementInput "FACT_" (cityInput "Oslo" 0.9)) :=
  refinement_iff (started_fresh _ "agent" rfl {}) (keyed_fresh _ "agent" _ {})
    (uniqueIds_fresh (Env.plain_injective ℚ) "agent" _ {}) [.addFact (cityInput "Rome" 0.5)] "FACT_"
    (cityInput "Oslo" 0.9)

/-- **A refinement by the value that the target has** converges on the target, which is
then superseded: its key is left without an active fact. -/
theorem sameCity_unresolved :
    ¬ ∀ s₀ : Engine ℚ, Started (Env.plain ℚ) s₀ → s₀.working.Keyed → UniqueIds (Env.plain ℚ) s₀ →
      ∀ ops target refinement,
        RefinementLaw (Env.plain ℚ) (Machine.run (step (Env.plain ℚ)) s₀ ops) target refinement := by
  intro h
  have hlaw := h (Engine.fresh _ "agent" (Disk.empty ℚ) {}) (started_fresh _ "agent" rfl {})
    (keyed_fresh _ "agent" _ {}) (uniqueIds_fresh (Env.plain_injective ℚ) "agent" _ {})
    [.addFact (cityInput "Rome" 0.5)] "FACT_" (cityInput "Rome" 0.5)
  have htarget : ∃ t, (afterSession [.addFact (cityInput "Rome" 0.5)]).working.facts.get?
      "FACT_" = some t ∧ t.state = .active := by
    refine ⟨((afterSession [.addFact (cityInput "Rome" 0.5)]).working.facts.get? "FACT_").get ?_,
      ?_, ?_⟩ <;> first | decide +kernel | simp
  obtain ⟨t, ht, hst⟩ := htarget
  have hresolved := (refinementLaw_iff ht (by rw [hst]; decide)).1 hlaw
  have hsame : ((afterSession [.addFact (cityInput "Rome" 0.5)]).addFact (Env.plain ℚ)
      (refinementInput "FACT_" (cityInput "Rome" 0.5))).2.1 = "FACT_" := by decide +kernel
  exact hresolved.other hsame

end ClawHarder
