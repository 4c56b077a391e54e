import ClawHarder.Proof.Dedup

/-!
# Where the support of a fact comes from

An observation changes at most one fact that is already stored, the one its verdict
names: a verdict of converge or reject strengthens it, one of supersede or conflict
moves it.

* `addFact_origin`: what `addFact` does to each fact.
* `support_traced`: **every supporting source is one that an earlier call gave for
  the value, or that of an observation rejected for it; and a fact is strengthened by
  an observation of its own value or one rejected for it.**
-/

namespace ClawHarder

open Engine

variable {N : Type} [JsNumber N] {E : Env N} {s : Engine N} {input : AddFactInput N} {x : FactId}
  {f f' : Fact N}

def Answered (E : Env N) (s : Engine N) (input : AddFactInput N) (f f' : Fact N) : Prop :=
  match (s.decision E input).outcome with
  | .new => False
  | .converge => f' = applyConvergence f input.source (s.now E).1
  | .supersede => f' = f.moved .superseded (s.now E).1
  | .reject => f' = applyConvergence f input.source (s.now E).1
  | .conflict => f' = f.moved .conflicted (s.now E).1

omit [JsNumber N] in
theorem edited_origin {id : FactId} {g : Fact N → Fact N} {before : Option (Fact N)}
    {old : Option (Fact N)} (h : (if x = id then old.map g else before) = some f') :
    (x = id ∧ ∃ f, old = some f ∧ f' = g f) ∨ before = some f' := by
  split at h
  · rename_i hx
    obtain ⟨f, hf, hg⟩ := Option.map_eq_some_iff.1 h
    exact Or.inl ⟨hx, f, hf, hg.symm⟩
  · exact Or.inr h

/-- **A fact after `addFact`** is the new one, one left alone, or the one that the
verdict names. -/
theorem addFact_origin (hF : s.view.Filed E)
    (h : (s.addFact E input).2.2.working.facts.get? x = some f') :
    (x = s.nextFactId E ∧ ∃ st, f' = s.newFact E input st) ∨
      ∃ f, s.working.facts.get? x = some f ∧
        (f' = f ∨ ((s.decision E input).existingId? = some x ∧ Answered E s input f f')) := by
  have hfresh : s.working.facts.get? (s.nextFactId E) = none := hF.working.newFact _ le_rfl
  -- a fact other than the new one is read past its insertion
  have hset : ∀ y st, (s.working.facts.set (s.newFact E input st).factId
      (s.newFact E input st)).get? y =
        if y = s.nextFactId E then some (s.newFact E input st) else s.working.facts.get? y :=
    fun y st => OrderedMap.get?_set ..
  have hnew : ∀ st, (s.working.facts.set (s.newFact E input st).factId
      (s.newFact E input st)).get? x = some f' →
      (x = s.nextFactId E ∧ ∃ st, f' = s.newFact E input st) ∨ s.working.facts.get? x = some f' := by
    intro st hg
    rw [hset] at hg
    split at hg
    · rename_i hx
      exact Or.inl ⟨hx, st, (Option.some.inj hg).symm⟩
    · exact Or.inr hg
  have hnamed : ∀ id st, (s.decision E input).existingId? = some id →
      (s.working.facts.set (s.newFact E input st).factId (s.newFact E input st)).get? id =
        s.working.facts.get? id := by
    intro id st hex
    obtain ⟨g, hg⟩ := decision_existing hF hex
    have hne : id ≠ s.nextFactId E := by
      rintro rfl
      rw [hfresh] at hg
      cases hg
    rw [hset, if_neg hne]
  unfold Answered
  rw [facts_addFact] at h
  cases hd : s.decision E input with
  | new reason =>
    rw [hd] at h
    rcases hnew _ h with hn | hold
    · exact Or.inl hn
    · exact Or.inr ⟨f', hold, Or.inl rfl⟩
  | converge id reason =>
    rw [hd] at h
    replace h := (get?_observeIn (hF.working.factId id) x).symm.trans h
    rcases edited_origin h with ⟨rfl, f, hf, hf'⟩ | hold
    · exact Or.inr ⟨f, hf, Or.inr ⟨rfl, hf'⟩⟩
    · exact Or.inr ⟨f', hold, Or.inl rfl⟩
  | reject id reason =>
    rw [hd] at h
    replace h := (get?_observeIn (hF.working.factId_set _ id) x).symm.trans h
    rcases edited_origin h with ⟨rfl, f, hf, hf'⟩ | hold
    · have hf₀ := (hnamed x .superseded (by rw [hd]; rfl)).symm.trans hf
      exact Or.inr ⟨f, hf₀, Or.inr ⟨rfl, hf'⟩⟩
    · rcases hnew _ hold with hn | hold
      · exact Or.inl hn
      · exact Or.inr ⟨f', hold, Or.inl rfl⟩
  | supersede id reason =>
    rw [hd] at h
    replace h := (get?_moveIn _ _ _ _ x).symm.trans h
    rcases edited_origin h with ⟨rfl, f, hf, hf'⟩ | hold
    · have hf₀ := (hnamed x .active (by rw [hd]; rfl)).symm.trans hf
      exact Or.inr ⟨f, hf₀, Or.inr ⟨rfl, hf'⟩⟩
    · rcases hnew _ hold with hn | hold
      · exact Or.inl hn
      · exact Or.inr ⟨f', hold, Or.inl rfl⟩
  | conflict id reason =>
    rw [hd] at h
    replace h := (get?_moveIn _ _ _ _ x).symm.trans h
    rcases edited_origin h with ⟨rfl, f, hf, hf'⟩ | hold
    · have hf₀ := (hnamed x .conflicted (by rw [hd]; rfl)).symm.trans hf
      exact Or.inr ⟨f, hf₀, Or.inr ⟨rfl, hf'⟩⟩
    · rcases hnew _ hold with hn | hold
      · exact Or.inl hn
      · exact Or.inr ⟨f', hold, Or.inl rfl⟩

/-- The fact that a verdict names has the key of the observation, and its hash when the
verdict is to converge. -/
theorem named_fact (hF : s.view.Filed E) (hB : s.view.Booked)
    (hex : (s.decision E input).existingId? = some x) (hf : s.working.facts.get? x = some f) :
    f.identityKey = (candidate E input).identityKey ∧
      ((s.decision E input).outcome = .converge → f.factHash = (candidate E input).factHash) := by
  obtain ⟨hout, hid⟩ := decision_eq hF hB input
  rw [hid] at hex
  obtain ⟨a, hsp, rfl⟩ := Option.map_eq_some_iff.1 hex
  obtain ⟨hget, hbelief⟩ := speaker_get hF hsp
  rw [hget] at hf
  cases hf
  obtain ⟨g, hg, hk, -⟩ := beliefs_eq_some.1 hbelief
  rw [hget] at hg
  cases hg
  refine ⟨hk, fun hcon => ?_⟩
  rw [hout, hsp] at hcon
  have hcontest : contest (candidate E input) f = .converge := hcon
  unfold contest at hcontest
  simp only at hcontest
  split_ifs at hcontest with hhash
  exact hhash.symm

theorem fact_observed (hF : s.view.Filed E) (hf : s.working.facts.get? x = some f)
    (hf' : (observe E s input).working.facts.get? x = some f') :
    f' = f ∨ ((s.decision E input).existingId? = some x ∧ Answered E s input f f') := by
  rcases addFact_origin hF hf' with ⟨rfl, -⟩ | ⟨g, hg, hcases⟩
  · have hfresh : s.working.facts.get? (s.nextFactId E) = none := hF.working.newFact _ le_rfl
    rw [hfresh] at hf
    cases hf
  · rw [hf] at hg
    cases hg
    exact hcases

def RejectedBy (E : Env N) (s : Engine N) (input : AddFactInput N) (x : FactId) : Prop :=
  (s.decision E input).outcome = .reject ∧ (s.decision E input).existingId? = some x

/-- **A fact is strengthened by an observation of its value or by one rejected for it.** -/
theorem strengthened_by (hF : s.view.Filed E) (hB : s.view.Booked)
    (hf : s.working.facts.get? x = some f)
    (hf' : (observe E s input).working.facts.get? x = some f')
    (hne : f'.confidence ≠ f.confidence ∨
      f'.observations.observationCount ≠ f.observations.observationCount) :
    f.identityKey = (candidate E input).identityKey ∧
      (f.factHash = (candidate E input).factHash ∨ RejectedBy E s input x) := by
  rcases fact_observed hF hf hf' with rfl | ⟨hex, hanswer⟩
  · simp at hne
  · obtain ⟨hk, hhash⟩ := named_fact hF hB hex hf
    refine ⟨hk, ?_⟩
    unfold Answered at hanswer
    cases hout : (s.decision E input).outcome with
    | converge => exact Or.inl (hhash hout)
    | reject => exact Or.inr ⟨hout, hex⟩
    | new =>
      rw [hout] at hanswer
      exact hanswer.elim
    | _ =>
      rw [hout] at hanswer
      subst hanswer
      simp [Fact.moved] at hne

theorem seen_by (hF : s.view.Filed E) (hB : s.view.Booked)
    (hf : s.working.facts.get? x = some f)
    (hf' : (observe E s input).working.facts.get? x = some f')
    (hne : f'.observations.lastSeen ≠ f.observations.lastSeen) :
    f.identityKey = (candidate E input).identityKey ∧
      (s.decision E input).existingId? = some x := by
  rcases fact_observed hF hf hf' with rfl | ⟨hex, -⟩
  · exact absurd rfl hne
  · exact ⟨(named_fact hF hB hex hf).1, hex⟩

def Asserted (E : Env N) (inputs : List (AddFactInput N)) (f : Fact N) (source : String) : Prop :=
  ∃ input ∈ inputs, (candidate E input).identityKey = f.identityKey ∧
    (candidate E input).factHash = f.factHash ∧
    (source = input.source ∨ source ∈ input.supportingSources.getD [])

/-- The source made an observation that was rejected in favour of the fact. -/
def Overruled (E : Env N) (start : Engine N) (inputs : List (AddFactInput N)) (x : FactId)
    (source : String) : Prop :=
  ∃ earlier input later, inputs = earlier ++ input :: later ∧
    RejectedBy E (Machine.run (observe E) start earlier) input x ∧ source = input.source

variable {inputs : List (AddFactInput N)}

theorem Asserted.mono {source : String}
    (h : Asserted E inputs f source) (later : List (AddFactInput N))
    (hk : f'.identityKey = f.identityKey) (hh : f'.factHash = f.factHash) :
    Asserted E (inputs ++ later) f' source := by
  obtain ⟨input, hin, hkey, hhash, hsource⟩ := h
  exact ⟨input, List.mem_append_left later hin, hkey.trans hk.symm, hhash.trans hh.symm, hsource⟩

theorem Overruled.mono {start : Engine N} {source : String}
    (h : Overruled E start inputs x source) (last : List (AddFactInput N)) :
    Overruled E start (inputs ++ last) x source := by
  obtain ⟨earlier, input, later, rfl, hrest⟩ := h
  exact ⟨earlier, input, later ++ last, by simp, hrest⟩

def Supported (E : Env N) (start s : Engine N) (inputs : List (AddFactInput N)) : Prop :=
  ∀ x f, s.working.facts.get? x = some f → ∀ source ∈ f.supportingSources,
    Asserted E inputs f source ∨ Overruled E start inputs x source

/-- **An observation leaves every supporting source with a call behind it.** -/
theorem supported_observe {start : Engine N}
    (hF : (Machine.run (observe E) start inputs).view.Filed E)
    (hB : (Machine.run (observe E) start inputs).view.Booked)
    (h : Supported E start (Machine.run (observe E) start inputs) inputs)
    (input : AddFactInput N) :
    Supported E start (observe E (Machine.run (observe E) start inputs) input)
      (inputs ++ [input]) := by
  intro x f' hf' source hsource
  have hlast : input ∈ inputs ++ [input] := by simp
  rcases addFact_origin hF hf' with ⟨-, st, rfl⟩ | ⟨f, hf, rfl | ⟨hex, hanswer⟩⟩
  · -- the new fact lists what its own call gave
    left
    exact ⟨input, hlast, rfl, rfl, List.mem_cons.1 hsource⟩
  · rcases h x f' hf source hsource with hold | hold
    · exact Or.inl (hold.mono [input] rfl rfl)
    · exact Or.inr (hold.mono [input])
  · have hkeep : f'.identityKey = f.identityKey → f'.factHash = f.factHash →
        source ∈ f.supportingSources → Asserted E (inputs ++ [input]) f' source ∨
          Overruled E start (inputs ++ [input]) x source := by
      intro hk hh hin
      rcases h x f hf source hin with hold | hold
      · exact Or.inl (hold.mono [input] hk hh)
      · exact Or.inr (hold.mono [input])
    obtain ⟨hk, hhash⟩ := named_fact hF hB hex hf
    unfold Answered at hanswer
    cases hout : ((Machine.run (observe E) start inputs).decision E input).outcome with
    | new =>
      rw [hout] at hanswer
      exact hanswer.elim
    | converge =>
      rw [hout] at hanswer
      subst hanswer
      rcases List.mem_append.1 (OrderedSet.mem_ofList.1 hsource) with hin | hin
      · exact hkeep rfl rfl hin
      · exact Or.inl ⟨input, hlast, hk.symm, (hhash hout).symm, Or.inl (List.mem_singleton.1 hin)⟩
    | reject =>
      rw [hout] at hanswer
      subst hanswer
      rcases List.mem_append.1 (OrderedSet.mem_ofList.1 hsource) with hin | hin
      · exact hkeep rfl rfl hin
      · exact Or.inr ⟨inputs, input, [], rfl, ⟨hout, hex⟩, List.mem_singleton.1 hin⟩
    | supersede =>
      rw [hout] at hanswer
      subst hanswer
      exact hkeep rfl rfl hsource
    | conflict =>
      rw [hout] at hanswer
      subst hanswer
      exact hkeep rfl rfl hsource

/-- **Support and strength have their observations**: every supporting source was given
by an earlier call for the value of the fact, or observed something rejected for it;
and only an observation of its value, or one rejected for it, strengthens a fact. -/
theorem support_traced (hE : Function.Injective E.shortId) (actor : String) {disk : Disk N}
    (hdisk : disk.manifestFile = none) (sys : Sys) (inputs : List (AddFactInput N)) :
    let start := Engine.fresh E actor disk sys
    let s := Machine.run (observe E) start inputs
    Supported E start s inputs ∧
    ∀ input x f f', s.working.facts.get? x = some f →
      (observe E s input).working.facts.get? x = some f' →
      (f'.confidence ≠ f.confidence ∨
          f'.observations.observationCount ≠ f.observations.observationCount →
        f.identityKey = (candidate E input).identityKey ∧
          (f.factHash = (candidate E input).factHash ∨ RejectedBy E s input x)) ∧
      (f'.observations.lastSeen ≠ f.observations.lastSeen →
        f.identityKey = (candidate E input).identityKey ∧
          (s.decision E input).existingId? = some x) := by
  intro start s
  have hrun : Living E s ∧ Supported E start s inputs := by
    induction inputs using List.reverseRecOn with
    | nil =>
      refine ⟨living_started (started_fresh E actor hdisk sys) (keyed_fresh E actor disk sys)
        (uniqueIds_fresh hE actor disk sys), ?_⟩
      intro x f hf
      cases hf
    | append_singleton inputs input ih =>
      obtain ⟨hL, hsupport⟩ := ih
      have hlast : s = observe E (Machine.run (observe E) start inputs) input :=
        Machine.run_concat start inputs input
      rw [hlast]
      exact ⟨living_step hE hL (.addFact input),
        supported_observe hL.filed hL.booked hsupport input⟩
  obtain ⟨hL, hsupport⟩ := hrun
  refine ⟨hsupport, ?_⟩
  intro input x f f' hf hf'
  exact ⟨strengthened_by hL.filed hL.booked hf hf', seen_by hL.filed hL.booked hf hf'⟩

def overruledCity : List (AddFactInput ℚ) :=
  [cityInput "Rome" 0.9, { cityInput "Oslo" 0.5 with source := "bob" }]

theorem overruledCity_supported :
    Supported (Env.plain ℚ) (Engine.fresh (Env.plain ℚ) "agent" (Disk.empty ℚ) {})
      (Machine.run (observe (Env.plain ℚ))
        (Engine.fresh (Env.plain ℚ) "agent" (Disk.empty ℚ) {}) overruledCity) overruledCity := by
  have hdisk : (Disk.empty ℚ).manifestFile = none := rfl
  exact (support_traced (Env.plain_injective ℚ) "agent" hdisk {} overruledCity).1

/-- **A rejected observation strengthens the fact that it contradicts**, and its source
becomes a supporting one. -/
theorem rejection_strengthens :
    (¬ ∀ inputs x f, (Machine.run (observe (Env.plain ℚ))
        (Engine.fresh (Env.plain ℚ) "agent" (Disk.empty ℚ) {}) inputs).working.facts.get? x =
          some f → ∀ source ∈ f.supportingSources, Asserted (Env.plain ℚ) inputs f source) ∧
    ¬ ∀ inputs input x f f', (Machine.run (observe (Env.plain ℚ))
        (Engine.fresh (Env.plain ℚ) "agent" (Disk.empty ℚ) {}) inputs).working.facts.get? x =
          some f →
      (observe (Env.plain ℚ) (Machine.run (observe (Env.plain ℚ))
        (Engine.fresh (Env.plain ℚ) "agent" (Disk.empty ℚ) {}) inputs) input).working.facts.get? x =
          some f' →
      f.confidence < f'.confidence → f.factHash = (candidate (Env.plain ℚ) input).factHash := by
  constructor
  · intro h
    have hread : ((Machine.run (observe (Env.plain ℚ)) (Engine.fresh (Env.plain ℚ) "agent"
        (Disk.empty ℚ) {}) overruledCity).working.facts.get? "FACT_").map
          (fun f => (f.factHash, f.supportingSources)) =
        some ((candidate (Env.plain ℚ) (cityInput "Rome" 0.9)).factHash, ["user", "bob"]) := by
      decide +kernel
    obtain ⟨f, hf, heq⟩ := Option.map_eq_some_iff.1 hread
    simp only [Prod.mk.injEq] at heq
    have hbob : "bob" ∈ f.supportingSources := by
      rw [heq.2]
      decide
    -- neither of the two calls gave bob for Rome
    obtain ⟨input, hin, -, hhash, hsource⟩ := h overruledCity "FACT_" f hf "bob" hbob
    rw [heq.1] at hhash
    have hnone : ∀ input ∈ overruledCity,
        (candidate (Env.plain ℚ) input).factHash =
          (candidate (Env.plain ℚ) (cityInput "Rome" 0.9)).factHash →
        ¬ ("bob" = input.source ∨ "bob" ∈ input.supportingSources.getD []) := by
      decide +kernel
    exact hnone input hin hhash hsource
  · intro h
    have hbefore : ((Machine.run (observe (Env.plain ℚ)) (Engine.fresh (Env.plain ℚ) "agent"
        (Disk.empty ℚ) {}) [cityInput "Rome" 0.9]).working.facts.get? "FACT_").map
          (fun f => (f.factHash, f.confidence)) =
        some ((candidate (Env.plain ℚ) (cityInput "Rome" 0.9)).factHash, 0.9) := by
      decide +kernel
    have hafter : ((observe (Env.plain ℚ) (Machine.run (observe (Env.plain ℚ))
        (Engine.fresh (Env.plain ℚ) "agent" (Disk.empty ℚ) {}) [cityInput "Rome" 0.9])
          (cityInput "Oslo" 0.5)).working.facts.get? "FACT_").map (·.confidence) = some 0.92 := by
      decide +kernel
    obtain ⟨f, hf, heq⟩ := Option.map_eq_some_iff.1 hbefore
    obtain ⟨f', hf', hconf⟩ := Option.map_eq_some_iff.1 hafter
    simp only [Prod.mk.injEq] at heq
    have hraised : f.confidence < f'.confidence := by
      rw [heq.2, hconf]
      decide +kernel
    have hhash := h [cityInput "Rome" 0.9] (cityInput "Oslo" 0.5) "FACT_" f f' hf hf' hraised
    rw [heq.1] at hhash
    exact absurd hhash (by decide +kernel)

end ClawHarder
