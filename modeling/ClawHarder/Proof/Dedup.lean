import ClawHarder.Proof.Lifecycle

/-!
# Deduplication

`addFact` compares an observation with one fact only, the spokesman of its key. The
facts that hold a value are the live ones with its key and hash.

* `observation_distinct`: what one observation needs to converge and to leave no
  value held twice.
* `observations_converge`: **in sessions of `addFact` alone, no value is held twice
  and a held one is joined, exactly when each observation meets this.**
-/

namespace ClawHarder

variable {N : Type}

/-- A live fact under `x` has this key and this hash. -/
def Holds (facts : OrderedMap FactId (Fact N)) (x : FactId) (key hash : String) : Prop :=
  ∃ f, facts.get? x = some f ∧ f.state.live = true ∧ f.identityKey = key ∧ f.factHash = hash

def Distinct (facts : OrderedMap FactId (Fact N)) : Prop :=
  ∀ x y key hash, Holds facts x key hash → Holds facts y key hash → x = y

section Store

variable {facts : OrderedMap FactId (Fact N)} {x id : FactId} {key hash now : String}
  {st : FactState}

theorem holds_insert {f : Fact N} (hnew : facts.get? f.factId = none) :
    Holds (facts.set f.factId f) x key hash ↔
      (x = f.factId ∧ f.state.live = true ∧ f.identityKey = key ∧ f.factHash = hash) ∨
        Holds facts x key hash := by
  unfold Holds
  rw [OrderedMap.get?_set]
  by_cases hx : x = f.factId
  · subst hx
    simp [hnew]
  · simp [hx]

theorem holds_retire (hst : st.live = false) :
    Holds (moveIn id st now facts) x key hash ↔ x ≠ id ∧ Holds facts x key hash := by
  unfold Holds
  rw [get?_moveIn]
  by_cases hx : x = id
  · subst hx
    simp [Fact.moved, hst]
  · simp [hx]

theorem holds_revive {f : Fact N} (hf : facts.get? id = some f) (hst : st.live = true) :
    Holds (moveIn id st now facts) x key hash ↔
      (x = id ∧ f.identityKey = key ∧ f.factHash = hash) ∨ (x ≠ id ∧ Holds facts x key hash) := by
  unfold Holds
  rw [get?_moveIn]
  by_cases hx : x = id
  · subst hx
    simp [hf, Fact.moved, hst]
  · simp [hx]

theorem holds_observeIn [JsNumber N] {source : String}
    (hid : ∀ f, facts.get? id = some f → f.factId = id) :
    Holds (observeIn id source now facts) x key hash ↔ Holds facts x key hash := by
  unfold Holds
  rw [get?_observeIn hid]
  by_cases hx : x = id
  · subst hx
    cases hf : facts.get? x <;> simp [applyConvergence]
  · simp [hx]

end Store

open Engine

variable [JsNumber N] {E : Env N} {s : Engine N} {input : AddFactInput N} {a : Fact N}

/-- `x` is the id of the fact that `addFact` would store, with its key and hash. -/
def Brings (E : Env N) (s : Engine N) (input : AddFactInput N) (x : FactId) (key hash : String) :
    Prop :=
  x = s.nextFactId E ∧ (candidate E input).identityKey = key ∧ (candidate E input).factHash = hash

theorem holds_newFact (hF : s.view.Filed E) {st : FactState} {x : FactId} {key hash : String} :
    Holds (s.working.facts.set (s.newFact E input st).factId (s.newFact E input st)) x key hash ↔
      (st.live = true ∧ Brings E s input x key hash) ∨ Holds s.working.facts x key hash := by
  rw [holds_insert (hF.working.newFact _ le_rfl)]
  have hst : (s.newFact E input st).state = st := rfl
  rw [hst]
  constructor
  · rintro (⟨hx, hl, hk, hh⟩ | h)
    · exact Or.inl ⟨hl, hx, hk, hh⟩
    · exact Or.inr h
  · rintro (⟨hl, hx, hk, hh⟩ | h)
    · exact Or.inl ⟨hx, hl, hk, hh⟩
    · exact Or.inr h

/-- Who holds what after a verdict that names `id`. -/
def HoldsAfter (E : Env N) (s : Engine N) (input : AddFactInput N) (id : FactId)
    (outcome : Outcome) (x : FactId) (key hash : String) : Prop :=
  match outcome with
  | .new => Brings E s input x key hash ∨ Holds s.working.facts x key hash
  | .converge => Holds s.working.facts x key hash
  | .supersede => x ≠ id ∧ (Brings E s input x key hash ∨ Holds s.working.facts x key hash)
  | .reject => Holds s.working.facts x key hash
  | .conflict =>
    (x = id ∧ ∃ f, s.working.facts.get? id = some f ∧ f.identityKey = key ∧ f.factHash = hash) ∨
      (x ≠ id ∧ (Brings E s input x key hash ∨ Holds s.working.facts x key hash))

/-- **Who holds what after `addFact`.** -/
theorem holds_addFact (hF : s.view.Filed E) (x : FactId) (key hash : String) :
    Holds (s.addFact E input).2.2.working.facts x key hash ↔
      HoldsAfter E s input ((s.decision E input).existingId?.getD "")
        (s.decision E input).outcome x key hash := by
  rw [facts_addFact]
  cases hd : s.decision E input with
  | new reason =>
    refine (holds_newFact hF).trans ?_
    simp [FactState.live, HoldsAfter, ArbitrationDecision.outcome]
  | converge id reason => exact holds_observeIn (hF.working.factId id)
  | supersede id reason =>
    refine (holds_retire rfl).trans ?_
    rw [holds_newFact hF]
    simp [FactState.live, HoldsAfter, ArbitrationDecision.outcome, ArbitrationDecision.existingId?]
  | reject id reason =>
    refine (holds_observeIn (hF.working.factId_set _ id)).trans ((holds_newFact hF).trans ?_)
    simp [FactState.live, HoldsAfter, ArbitrationDecision.outcome]
  | conflict id reason =>
    have hex : (s.decision E input).existingId? = some id := by rw [hd]; rfl
    obtain ⟨f, hf⟩ := decision_existing hF hex
    have hne : id ≠ s.nextFactId E := by
      rintro rfl
      have hnone : s.working.facts.get? (s.nextFactId E) = none := hF.working.newFact _ le_rfl
      rw [hf] at hnone
      cases hnone
    have hget : (s.working.facts.set (s.newFact E input .conflicted).factId
        (s.newFact E input .conflicted)).get? id = some f := by
      rw [OrderedMap.get?_set, Engine.newFact_id, if_neg hne, hf]
    refine (holds_revive hget rfl).trans ?_
    rw [holds_newFact hF]
    simp [FactState.live, HoldsAfter, ArbitrationDecision.outcome, ArbitrationDecision.existingId?,
      hf]

def Joins (E : Env N) (s : Engine N) (input : AddFactInput N) : Prop :=
  ∀ x, Holds s.working.facts x (candidate E input).identityKey (candidate E input).factHash →
    (s.addFact E input).1.outcome = .converge ∧ (s.addFact E input).2.1 = x

/-- The live fact with the key and the hash of the input, if any, is the spokesman. -/
def Heard (E : Env N) (s : Engine N) (input : AddFactInput N) : Prop :=
  ∀ x, Holds s.working.facts x (candidate E input).identityKey (candidate E input).factHash →
    ∃ a, speaker E s input = some a ∧ a.factId = x

/-- A spokesman that the observation brings back to life holds nothing that a live fact
holds. -/
def Unheld (E : Env N) (s : Engine N) (input : AddFactInput N) : Prop :=
  ∀ a, speaker E s input = some a → contest (candidate E input) a = .conflict →
    a.state.live = false → ∀ x, ¬ Holds s.working.facts x a.identityKey a.factHash

theorem speaker_holds (hF : s.view.Filed E) (h : speaker E s input = some a) {key hash : String}
    (hh : Holds s.working.facts a.factId key hash) :
    a.state.live = true ∧ a.identityKey = key ∧ a.factHash = hash := by
  obtain ⟨f, hf, hl, hk, hhash⟩ := hh
  rw [(speaker_get hF h).1] at hf
  cases hf
  exact ⟨hl, hk, hhash⟩

theorem joins_iff (hF : s.view.Filed E) (hB : s.view.Booked) : Joins E s input ↔ Heard E s input := by
  obtain ⟨hout, -⟩ := decision_eq hF hB input
  constructor
  · intro h x hx
    obtain ⟨hcon, hid⟩ := h x hx
    rw [addFact_decision, hout] at hcon
    cases hsp : speaker E s input with
    | none =>
      rw [hsp] at hcon
      cases hcon
    | some a =>
      rw [hsp] at hcon
      have hjoin := (id_of_contest hF hB input).1 a hsp hcon
      exact ⟨a, rfl, hjoin.symm.trans hid⟩
  · intro h x hx
    obtain ⟨a, hsp, rfl⟩ := h x hx
    obtain ⟨-, -, hhash⟩ := speaker_holds hF hsp hx
    have hcon : contest (candidate E input) a = .converge := by
      unfold contest
      rw [if_pos hhash.symm]
    refine ⟨?_, (id_of_contest hF hB input).1 a hsp hcon⟩
    rw [addFact_decision, hout, hsp]
    exact hcon

theorem conflict_hash {incoming : Incoming N} (h : contest incoming a = .conflict) :
    a.factHash ≠ incoming.factHash := by
  intro heq
  unfold contest at h
  rw [if_pos heq.symm] at h
  cases h

/-- The spokesman is now held because the observation disputes it. -/
def Disputed (E : Env N) (s : Engine N) (input : AddFactInput N) (x : FactId) (key hash : String) :
    Prop :=
  ∃ a, speaker E s input = some a ∧ contest (candidate E input) a = .conflict ∧
    x = a.factId ∧ a.identityKey = key ∧ a.factHash = hash

def Undisputed (E : Env N) (s : Engine N) (input : AddFactInput N) (x : FactId)
    (key hash : String) : Prop :=
  (∀ a, speaker E s input = some a → x ≠ a.factId) ∧
    (Brings E s input x key hash ∨ Holds s.working.facts x key hash)

theorem disputed_alone (hF : s.view.Filed E) (hD : Distinct s.working.facts)
    (hU : Unheld E s input) {x y : FactId} {key hash : String}
    (hx : Disputed E s input x key hash) (hy : Undisputed E s input y key hash) : False := by
  obtain ⟨a, hsp, hcon, rfl, rfl, rfl⟩ := hx
  obtain ⟨hne, hbrings | hholds⟩ := hy
  · exact conflict_hash hcon hbrings.2.2.symm
  · by_cases hl : a.state.live = true
    · have ha : Holds s.working.facts a.factId a.identityKey a.factHash :=
        ⟨a, (speaker_get hF hsp).1, hl, rfl, rfl⟩
      exact hne a hsp (hD y a.factId _ _ hholds ha)
    · exact hU a hsp hcon (by simpa using hl) y hholds

theorem brought_alone (hH : Heard E s input) {x y : FactId} {key hash : String}
    (hx : Brings E s input x key hash) (hy : Undisputed E s input y key hash) : x = y := by
  obtain ⟨hne, hbrings | hholds⟩ := hy
  · exact hx.1.trans hbrings.1.symm
  · obtain ⟨-, rfl, rfl⟩ := hx
    obtain ⟨a, hsp, ha⟩ := hH y hholds
    exact absurd ha.symm (hne a hsp)

theorem distinct_settled (hF : s.view.Filed E) (hD : Distinct s.working.facts)
    (hH : Heard E s input) (hU : Unheld E s input) {facts : OrderedMap FactId (Fact N)}
    (hafter : ∀ x key hash, Holds facts x key hash →
      Disputed E s input x key hash ∨ Undisputed E s input x key hash) : Distinct facts := by
  intro x y key hash hx hy
  rcases hafter x key hash hx with hx | hx
  · rcases hafter y key hash hy with hy | hy
    · obtain ⟨a, hsp, -, rfl, -⟩ := hx
      obtain ⟨b, hsp', -, rfl, -⟩ := hy
      rw [hsp] at hsp'
      cases hsp'
      rfl
    · exact absurd hy (disputed_alone hF hD hU hx)
  · rcases hafter y key hash hy with hy | hy
    · exact absurd hx (disputed_alone hF hD hU hy)
    · obtain ⟨hnx, hbx | hhx⟩ := hx
      · exact brought_alone hH hbx hy
      · obtain ⟨hny, hby | hhy⟩ := hy
        · exact (brought_alone hH hby ⟨hnx, Or.inr hhx⟩).symm
        · exact hD x y key hash hhx hhy

/-- **Each value stays held once exactly when the observation brings no held value
back.** -/
theorem distinct_iff (hF : s.view.Filed E) (hB : s.view.Booked)
    (hD : Distinct s.working.facts) (hH : Heard E s input) :
    Distinct (s.addFact E input).2.2.working.facts ↔ Unheld E s input := by
  obtain ⟨hout, hex⟩ := decision_eq hF hB input
  have hafter : ∀ x key hash, Holds (s.addFact E input).2.2.working.facts x key hash ↔ _ :=
    holds_addFact hF
  rw [hout, hex] at hafter
  cases hsp : speaker E s input with
  | none =>
    rw [hsp] at hafter
    have hno : ∀ a, speaker E s input ≠ some a := by
      intro a ha
      rw [hsp] at ha
      cases ha
    refine ⟨fun _ a ha => absurd ha (hno a), fun hU => distinct_settled hF hD hH hU ?_⟩
    intro x key hash hx
    exact Or.inr ⟨fun a ha => absurd ha (hno a), (hafter x key hash).1 hx⟩
  | some a =>
    rw [hsp] at hafter
    have hspeaks : ∀ b, speaker E s input = some b → b = a := by
      intro b hb
      rw [hsp] at hb
      cases hb
      rfl
    -- only a conflict can bring the spokesman back
    have hvacuous : contest (candidate E input) a ≠ .conflict → Unheld E s input := by
      intro hne b hb hcon
      rw [hspeaks b hb] at hcon
      exact absurd hcon hne
    have hkept : contest (candidate E input) a ≠ .conflict →
        (∀ x key hash, Holds (s.addFact E input).2.2.working.facts x key hash ↔
          Holds s.working.facts x key hash) →
        (Distinct (s.addFact E input).2.2.working.facts ↔ Unheld E s input) := by
      intro hne hsame
      refine ⟨fun _ => hvacuous hne, fun _ x y key hash hx hy => ?_⟩
      exact hD x y key hash ((hsame x key hash).1 hx) ((hsame y key hash).1 hy)
    have hundisputed : ∀ x key hash, x ≠ a.factId ∧
        (Brings E s input x key hash ∨ Holds s.working.facts x key hash) →
        Undisputed E s input x key hash := by
      rintro x key hash ⟨hne, h⟩
      refine ⟨?_, h⟩
      intro b hb
      rw [hspeaks b hb]
      exact hne
    simp only [Option.map_some, Option.getD_some] at hafter
    cases hcon : contest (candidate E input) a with
    | new => exact absurd hcon (contest_ne_new _ a)
    | converge =>
      rw [hcon] at hafter
      exact hkept (by rw [hcon]; decide) hafter
    | reject =>
      rw [hcon] at hafter
      exact hkept (by rw [hcon]; decide) hafter
    | supersede =>
      rw [hcon] at hafter
      refine ⟨fun _ => hvacuous (by rw [hcon]; decide), fun hU => ?_⟩
      refine distinct_settled hF hD hH hU ?_
      intro x key hash hx
      exact Or.inr (hundisputed x key hash ((hafter x key hash).1 hx))
    | conflict =>
      rw [hcon] at hafter
      have hget := (speaker_get hF hsp).1
      constructor
      · -- two facts hold what the spokesman holds
        intro hdistinct b hb _ hdead x hx
        rw [hspeaks b hb] at hdead hx
        have hne : x ≠ a.factId := by
          rintro rfl
          rw [(speaker_holds hF hsp hx).1] at hdead
          cases hdead
        have hback := (hafter a.factId a.identityKey a.factHash).2 (Or.inl ⟨rfl, a, hget, rfl, rfl⟩)
        have hstays := (hafter x a.identityKey a.factHash).2 (Or.inr ⟨hne, Or.inr hx⟩)
        exact hne (hdistinct _ _ _ _ hstays hback)
      · intro hU
        refine distinct_settled hF hD hH hU ?_
        intro x key hash hx
        rcases (hafter x key hash).1 hx with ⟨rfl, f, hf, hk, hh⟩ | hrest
        · rw [hget] at hf
          cases hf
          exact Or.inl ⟨a, hsp, hcon, rfl, hk, hh⟩
        · exact Or.inr (hundisputed x key hash hrest)

def observe (E : Env N) (s : Engine N) (input : AddFactInput N) : Engine N :=
  (s.addFact E input).2.2

/-- **Every value is held at most once, and a held one is joined, exactly when each
observation hears the fact that holds its value and brings no held value back.** -/
theorem observations_converge (hE : Function.Injective E.shortId) (actor : String)
    {disk : Disk N} (hdisk : disk.manifestFile = none) (sys : Sys)
    (inputs : List (AddFactInput N)) :
    Machine.Guarded (observe E)
      (fun s input => Joins E s input ∧ Distinct (observe E s input).working.facts)
      (Engine.fresh E actor disk sys) inputs ↔
    Machine.Guarded (observe E)
      (fun s input => Heard E s input ∧ Unheld E s input) (Engine.fresh E actor disk sys) inputs := by
  have hrun : ∀ (inputs : List (AddFactInput N)) (s : Engine N), Living E s →
      Distinct s.working.facts →
      (Machine.Guarded (observe E)
        (fun s input => Joins E s input ∧ Distinct (observe E s input).working.facts)
        s inputs ↔
      Machine.Guarded (observe E)
        (fun s input => Heard E s input ∧ Unheld E s input) s inputs) := by
    intro inputs
    induction inputs with
    | nil => exact fun _ _ _ => Iff.rfl
    | cons input inputs ih =>
      intro s hL hD
      have hnext : Living E (observe E s input) := living_step hE hL (.addFact input)
      have hjoin : Joins E s input ↔ Heard E s input := joins_iff hL.filed hL.booked
      constructor
      · rintro ⟨⟨hj, hd⟩, hrest⟩
        have hH := hjoin.1 hj
        exact ⟨⟨hH, (distinct_iff hL.filed hL.booked hD hH).1 hd⟩, (ih _ hnext hd).1 hrest⟩
      · rintro ⟨⟨hH, hU⟩, hrest⟩
        have hd := (distinct_iff hL.filed hL.booked hD hH).2 hU
        exact ⟨⟨hjoin.2 hH, hd⟩, (ih _ hnext hd).2 hrest⟩
  refine hrun inputs _ (living_started (started_fresh E actor hdisk sys)
    (keyed_fresh E actor disk sys) (uniqueIds_fresh hE actor disk sys)) ?_
  rintro x y key hash ⟨f, hf, -⟩ -
  cases hf

theorem observations_converge_city :
    Machine.Guarded (observe (Env.plain ℚ))
      (fun s input => Joins (Env.plain ℚ) s input ∧
        Distinct (observe (Env.plain ℚ) s input).working.facts)
      (Engine.fresh (Env.plain ℚ) "agent" (Disk.empty ℚ) {})
      [cityInput "Rome" 0.5, cityInput "Rome" 0.5] := by
  have hdisk : (Disk.empty ℚ).manifestFile = none := rfl
  refine (observations_converge (Env.plain_injective ℚ) "agent" hdisk {} _).2 ⟨⟨?_, ?_⟩, ⟨?_, ?_⟩,
    trivial⟩
  · rintro x ⟨f, hf, -⟩
    cases hf
  · intro a ha
    cases ha
  · rintro x ⟨f, hf, -⟩
    -- the only fact of the store speaks for its key
    have hx := OrderedMap.mem_keys.2 ⟨f, hf⟩
    have hkeys : ((afterSession [.addFact (cityInput "Rome" 0.5)]).working.facts.keys) =
      ["FACT_"] := by decide +kernel
    have hxid : x = "FACT_" := List.mem_singleton.1 (hkeys ▸ hx)
    have hspeaks : (speaker (Env.plain ℚ) (afterSession [.addFact (cityInput "Rome" 0.5)])
      (cityInput "Rome" 0.5)).map (·.factId) = some "FACT_" := by decide +kernel
    obtain ⟨a, ha, hid⟩ := Option.map_eq_some_iff.1 hspeaks
    exact ⟨a, ha, hid.trans hxid.symm⟩
  · have hjoin : ∀ a ∈ speaker (Env.plain ℚ) (afterSession [.addFact (cityInput "Rome" 0.5)])
        (cityInput "Rome" 0.5), contest (candidate (Env.plain ℚ) (cityInput "Rome" 0.5)) a ≠
        .conflict := by decide +kernel
    intro a ha hcon
    exact absurd hcon (hjoin a ha)

omit [JsNumber N] in
theorem holds_of_map {facts : OrderedMap FactId (Fact N)} {x : FactId} {key hash : String}
    (h : (facts.get? x).map (fun f => (f.state.live, f.identityKey, f.factHash)) =
      some (true, key, hash)) : Holds facts x key hash := by
  obtain ⟨f, hf, heq⟩ := Option.map_eq_some_iff.1 h
  simp only [Prod.mk.injEq] at heq
  exact ⟨f, hf, heq.1, heq.2.1, heq.2.2⟩

/-- **The second of two conflicted facts is not seen**: its value is stored again. -/
theorem observation_doubled :
    ¬ ∀ inputs : List (AddFactInput ℚ),
      Machine.Guarded (observe (Env.plain ℚ))
        (fun s input => Joins (Env.plain ℚ) s input ∧
          Distinct (observe (Env.plain ℚ) s input).working.facts)
        (Engine.fresh (Env.plain ℚ) "agent" (Disk.empty ℚ) {}) inputs := by
  intro h
  obtain ⟨-, -, ⟨-, hdistinct⟩, -⟩ := h [cityInput "Rome" 0.5, cityInput "Oslo" 0.5,
    cityInput "Oslo" 0.5]
  have hsame := hdistinct "FACT_I" "FACT_II" "city"
    (candidate (Env.plain ℚ) (cityInput "Oslo" 0.5)).factHash
    (holds_of_map (by decide +kernel)) (holds_of_map (by decide +kernel))
  exact absurd hsame (by decide)

end ClawHarder
