import ClawHarder.Proof.Belief

/-!
# One live belief over a session

`BeliefSafe` is the condition under which a call keeps a single belief. `addFact`
listens to retired facts when no active one speaks for the key, and
`proposeRefinement` activates its fact whatever the verdict was, so both need it;
a consolidation supersedes only the facts it was given.

* `believing_step`: every safe call keeps the invariant.
* `single_belief`: **a session of safe calls from an empty manifest keeps one live
  belief for each key, and `addFact` answers `new` exactly for keys with none.**
-/

namespace ClawHarder

open Engine (candidate refinementInput)

variable {N : Type}

section Calls

variable {s : Engine N} {key : String}

theorem retire_single {E : Env N} {st : FactState} (hst : st.live = false) (id : FactId)
    (now : String) (hS : (beliefs s.working.facts).SingleAt key) :
    (beliefs ((s.transitionFact id st now).propagateStaleness E id).working.facts).SingleAt key := by
  rw [beliefs_retire]
  exact hS.move_out id hst

theorem supersedeFact_single {E : Env N} (id : FactId) (reason : String)
    (hS : (beliefs s.working.facts).SingleAt key) :
    (beliefs ((s.supersedeFact E id reason).toOption.getD s).working.facts).SingleAt key := by
  unfold Engine.supersedeFact
  split
  · exact hS
  · split
    · exact hS
    · show (beliefs (((s.now E).2.transitionFact id .superseded (s.now E).1).propagateStaleness
        E id).working.facts).SingleAt key
      exact retire_single rfl id _ hS

theorem invalidateFact_single {E : Env N} (id : FactId) (reason : String)
    (hS : (beliefs s.working.facts).SingleAt key) :
    (beliefs ((s.invalidateFact E id reason).toOption.getD s).working.facts).SingleAt key := by
  unfold Engine.invalidateFact
  split
  · exact hS
  · show (beliefs (((s.now E).2.transitionFact id .invalidated (s.now E).1).propagateStaleness
      E id).working.facts).SingleAt key
    exact retire_single rfl id _ hS

end Calls

variable [JsNumber N] {E : Env N}

/-- Everything is allowed, but the facts are saved only with a single belief for
each key. -/
def Policy.single : Policy N where
  insert _ _ := True
  summarize _ _ := True
  replace _ := True
  force _ := True
  retire _ := True
  save v := ∀ key, (beliefs v.facts).SingleAt key

def View.FileSingle (v : View N) : Prop :=
  ∀ m : Manifest N, v.file = some (.manifest m) → ∀ key, (beliefs m.facts).SingleAt key

theorem fileSingle_edit {v w : View N} (he : Edit E Policy.single v w) (h : v.FileSingle) :
    w.FileSingle := by
  cases he with
  | write m hf hr hs hp =>
    intro m' hm' key
    cases hm'
    rw [hf]
    exact hp key
  | _ => exact h

variable {s : Engine N}

theorem allows_single (hS : ∀ key, (beliefs s.working.facts).SingleAt key)
    (op : Op N) : Policy.single.Allows E s op := by
  cases op with
  | commit io => exact hS
  | proposeRefinement target refinement => exact allows_any (.proposeRefinement target refinement)
  | addSummary input => exact allows_any (E := E) (s := s) (.addSummary input)
  | addFact input => exact allows_any (.addFact input)
  | proposeConsolidation sources consolidated =>
    exact allows_any (E := E) (s := s) (.proposeConsolidation sources consolidated)
  | _ => trivial

def BeliefSafe (E : Env N) (s : Engine N) : Op N → Prop
  | .addFact input => AddSafe E s input
  | .proposeRefinement target refinement =>
    ∀ t, s.working.facts.get? target = some t → t.state ≠ .invalidated →
      RefineSafe E s target t (refinementInput target refinement)
  | .proposeConsolidation sources consolidated =>
    2 ≤ sources.length → (∀ fid ∈ sources, s.working.facts.contains fid = true) →
      ∀ x st, beliefs s.working.facts x = some ((candidate E consolidated).identityKey, st) →
        st.live = true → x ∈ sources
  | _ => True

/-- The observation that a call hands to `addFact`. -/
def Op.observation? (s : Engine N) : Op N → Option (AddFactInput N)
  | .addFact input => some input
  | .proposeRefinement target refinement =>
    match s.working.facts.get? target with
    | none => none
    | some t => if t.state = .invalidated then none else some (refinementInput target refinement)
  | _ => none

structure Believing (E : Env N) (s : Engine N) : Prop where
  filed : s.view.Filed E
  booked : s.view.Booked
  single : ∀ key, (beliefs s.working.facts).SingleAt key
  file : s.view.FileSingle

theorem single_step (hE : Function.Injective E.shortId) (h : Believing E s)
    {op : Op N} (hop : BeliefSafe E s op) (key : String) :
    (beliefs (step E s op).working.facts).SingleAt key := by
  cases op with
  | addFact input => exact addFact_single h.filed h.booked h.single hop key
  | addReference input storeFails =>
    show (beliefs (s.addReference E input storeFails).working.facts).SingleAt key
    rw [facts_addReference]
    exact h.single key
  | addSummary input =>
    show (beliefs (s.addSummary E input).working.facts).SingleAt key
    rw [facts_addSummary]
    exact h.single key
  | proposeRefinement target refinement =>
    exact proposeRefinement_single hE h.filed h.booked h.single hop key
  | proposeConsolidation sources consolidated =>
    exact proposeConsolidation_single h.single hop key
  | supersedeFact id reason => exact supersedeFact_single id reason (h.single key)
  | invalidateFact id reason => exact invalidateFact_single id reason (h.single key)
  | recordOperation type metadata => exact h.single key
  | commit io =>
    show (beliefs (s.commit E io).2.working.facts).SingleAt key
    rw [facts_commit]
    exact h.single key
  | reload io =>
    show (beliefs ((s.reload E io).toOption.getD s).working.facts).SingleAt key
    rcases facts_reload (E := E) (s := s) io with hkeep | ⟨m, hfile, hload⟩
    · rw [hkeep]
      exact h.single key
    · rw [hload]
      exact h.file m hfile key

/-- **A safe call keeps the invariant.** -/
theorem believing_step (hE : Function.Injective E.shortId) (s : Engine N) (op : Op N)
    (h : Believing E s) (hop : BeliefSafe E s op) : Believing E (step E s op) := by
  have hbook : (step E s op).view.Filed E ∧ (step E s op).view.Booked :=
    Edits.inv (I := fun v => v.Filed E ∧ v.Booked)
      (fun _ _ he hv => ⟨filed_edit hE he hv.1, booked_edit he hv.1 hv.2⟩)
      (step_edits hE h.filed (allows_any op)) ⟨h.filed, h.booked⟩
  have hfile : (step E s op).view.FileSingle :=
    (step_edits hE h.filed (allows_single h.single op)).inv (fun _ _ => fileSingle_edit) h.file
  exact ⟨hbook.1, hbook.2, single_step hE h hop, hfile⟩

theorem believing_fresh (hE : Function.Injective E.shortId) (actor : String) {disk : Disk N}
    (hdisk : disk.manifestFile = none) (sys : Sys) : Believing E (Engine.fresh E actor disk sys) where
  filed := (started_fresh E actor hdisk sys).filed (keyed_fresh E actor disk sys)
    (uniqueIds_fresh hE actor disk sys)
  booked := ⟨booked_build (keyed_fresh E actor disk sys), fun id f hget => by cases hget⟩
  single key := by
    intro a b st ha
    cases ha
  file := by
    intro m hm key a b st ha
    cases hm
    cases ha

theorem BeliefSafe.speaker_live {op : Op N} (hop : BeliefSafe E s op)
    {input : AddFactInput N} (hin : op.observation? s = some input) {a : Fact N}
    (h : speaker E s input = some a) : a.state.live = true := by
  cases op with
  | addFact input' =>
    cases hin
    exact (hop a h).1
  | proposeRefinement target refinement =>
    unfold Op.observation? at hin
    cases ht : s.working.facts.get? target with
    | none => simp only [ht] at hin; cases hin
    | some t =>
      by_cases hst : t.state = .invalidated
      · simp only [ht, hst, if_true] at hin
        cases hin
      · simp only [ht, hst, if_false, Option.some.injEq] at hin
        subst hin
        exact (hop t ht hst a h).1
  | _ => cases hin

/-- **A session of safe calls from an empty manifest** has for each key at most one
active fact, and then no conflicted one; and the observation of a next safe call is
judged `new` exactly when its key has neither, by a live fact otherwise. -/
theorem single_belief (hE : Function.Injective E.shortId) (actor : String) {disk : Disk N}
    (hdisk : disk.manifestFile = none) (sys : Sys) {ops : List (Op N)}
    (hg : Machine.Guarded (step E) (BeliefSafe E) (Engine.fresh E actor disk sys) ops) :
    let s := Machine.run (step E) (Engine.fresh E actor disk sys) ops
    (∀ key, (beliefs s.working.facts).SingleAt key) ∧
    ∀ op input, BeliefSafe E s op → op.observation? s = some input →
      ((s.decision E input).outcome = .new ↔
        (beliefs s.working.facts).NoLive (candidate E input).identityKey) ∧
      ∀ id, (s.decision E input).existingId? = some id →
        ∃ f, s.working.facts.get? id = some f ∧ f.state.live = true := by
  intro s
  have h : Believing E s := Machine.run_inv (believing_step hE) (believing_fresh hE actor hdisk sys) hg
  refine ⟨h.single, ?_⟩
  intro op input hop hin
  exact addFact_choice h.filed h.booked fun a hsp => hop.speaker_live hin hsp

theorem AddSafe.of_only {input : AddFactInput N}
    (h : ∀ a ∈ speaker E s input, a.state.live = true ∧ ∀ e ∈ s.working.facts.entries,
      e.2.identityKey = (candidate E input).identityKey → e.2.state.live = true →
      e.1 = a.factId) : AddSafe E s input := by
  intro a hsp
  obtain ⟨hlive, honly⟩ := h a hsp
  refine ⟨hlive, fun _ x st hx hl => ?_⟩
  obtain ⟨f, hget, hk, rfl⟩ := beliefs_eq_some.1 hx
  exact honly (x, f) (OrderedMap.get?_eq_some.1 hget) hk hl

def changedMind : List (Op ℚ) :=
  [.addFact (cityInput "Rome" 0.5), .addFact (cityInput "Oslo" 0.8), .commit {}, .reload {}]

theorem changedMind_single :
    (beliefs (afterSession changedMind).working.facts).SingleAt "city" ∧
    (((afterSession changedMind).decision (Env.plain ℚ) (cityInput "Lima" 0.8)).outcome = .new ↔
      (beliefs (afterSession changedMind).working.facts).NoLive "city") := by
  have hg : Machine.Guarded (step (Env.plain ℚ)) (BeliefSafe (Env.plain ℚ))
      (Engine.fresh (Env.plain ℚ) "agent" (Disk.empty ℚ) {}) changedMind :=
    ⟨AddSafe.of_only (by decide +kernel), AddSafe.of_only (by decide +kernel), trivial, trivial,
      trivial⟩
  obtain ⟨hsingle, hchoice⟩ := single_belief (Env.plain_injective ℚ) "agent" rfl {} hg
  refine ⟨hsingle "city", ?_⟩
  have hsafe : BeliefSafe (Env.plain ℚ) (afterSession changedMind)
      (.addFact (cityInput "Lima" 0.8)) := AddSafe.of_only (by decide +kernel)
  exact (hchoice _ _ hsafe rfl).1

def oldAuthority : List (Op ℚ) :=
  [.addFact (cityInput "Rome" 0.9), .supersedeFact "FACT_" "moved"]

def thirdOpinion : List (Op ℚ) :=
  [.addFact (cityInput "Rome" 0.5), .addFact (cityInput "Oslo" 0.5),
    .addFact (cityInput "Lima" 0.9)]

/-- **Both halves fail**: after `thirdOpinion` an active fact stands beside a
conflicted one, and after `oldAuthority` a superseded fact rejects a new one. -/
theorem belief_not_single :
    (¬ ∀ ops key, (beliefs (afterSession ops).working.facts).SingleAt key) ∧
    ¬ ∀ ops input, ((afterSession ops).decision (Env.plain ℚ) input).outcome = .new ↔
      (beliefs (afterSession ops).working.facts).NoLive
        (candidate (Env.plain ℚ) input).identityKey := by
  refine ⟨?_, ?_⟩
  · intro h
    have hwinner : beliefs (afterSession thirdOpinion).working.facts "FACT_II" =
        some ("city", .active) := by decide +kernel
    have hrival : beliefs (afterSession thirdOpinion).working.facts "FACT_I" =
        some ("city", .conflicted) := by decide +kernel
    have heq := h thirdOpinion "city" _ _ _ hwinner hrival rfl
    exact absurd heq (by decide)
  · intro h
    have hkept : ((afterSession oldAuthority).decision (Env.plain ℚ)
        (cityInput "Oslo" 0.5)).outcome = .reject := by decide +kernel
    have hno : (beliefs (afterSession oldAuthority).working.facts).NoLive "city" := by
      intro x st hx
      obtain ⟨f, hget, -, rfl⟩ := beliefs_eq_some.1 hx
      have hall : ∀ g ∈ (afterSession oldAuthority).working.facts.values,
          g.state.live = false := by decide +kernel
      exact hall f (OrderedMap.mem_values.2 ⟨x, hget⟩)
    have hnew := (h oldAuthority (cityInput "Oslo" 0.5)).2 hno
    rw [hkept] at hnew
    cases hnew

end ClawHarder
