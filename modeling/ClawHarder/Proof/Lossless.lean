import ClawHarder.Proof.View
import ClawHarder.Proof.Indexing

/-!
# What a commit writes can be loaded

`commit` writes the working manifest as the mutators left it; `load` validates
what it reads. The two differ in one check: `commit` never looks at the lineage,
which `addFact` and `addSummary` take from their callers.

* `sound_step`: calls that cite what exists keep the lineage.
* `commit_lossless`: **what a commit wrote loads back exactly when the lineage and
  the indexes of the working manifest pass, and always after such calls.**
-/

namespace ClawHarder

variable {N : Type}

structure Fact.CitesIn (f : Fact N) (facts : OrderedMap FactId (Fact N)) : Prop where
  derivedFrom : ∀ id ∈ f.derivedFrom, facts.contains id = true
  supersedes : ∀ id, f.supersedes = some id → facts.contains id = true
  mergedFrom : ∀ id ∈ f.mergedFrom.getD [], facts.contains id = true

structure Summary.CitesIn (sm : Summary N) (facts : OrderedMap FactId (Fact N))
    (references : OrderedMap RefId Reference) : Prop where
  facts : ∀ id ∈ sm.sourceFactIds, facts.contains id = true
  references : ∀ id ∈ sm.sourceRefIds, references.contains id = true

structure Lineage (facts : OrderedMap FactId (Fact N)) (references : OrderedMap RefId Reference)
    (summaries : OrderedMap SummaryId (Summary N)) : Prop where
  fact : ∀ f ∈ facts.values, f.CitesIn facts
  summary : ∀ sm ∈ summaries.values, sm.CitesIn facts references

theorem flatMap_ite_nil {A B : Type} {l : List A} {p : A → Bool} {g : A → B} :
    (l.flatMap fun a => if p a then [] else [g a]) = [] ↔ ∀ a ∈ l, p a = true := by
  rw [List.flatMap_eq_nil_iff]
  refine forall₂_congr ?_
  intro a _
  cases p a <;> simp

/-- **`validateLineage` finds no error exactly when every citation names a record.** -/
theorem validateLineage_iff {m : Manifest N} :
    validateLineage m = [] ↔ Lineage m.facts m.references m.summaries := by
  unfold validateLineage
  rw [List.append_eq_nil_iff, List.flatMap_eq_nil_iff, List.flatMap_eq_nil_iff]
  simp only [List.append_eq_nil_iff, flatMap_ite_nil, Option.mem_toList]
  constructor
  · rintro ⟨hf, hs⟩
    exact ⟨fun f hin => ⟨(hf f hin).1.1, (hf f hin).1.2, (hf f hin).2⟩,
      fun sm hin => ⟨(hs sm hin).1, (hs sm hin).2⟩⟩
  · rintro ⟨hf, hs⟩
    exact ⟨fun f hin => ⟨⟨(hf f hin).derivedFrom, (hf f hin).supersedes⟩, (hf f hin).mergedFrom⟩,
      fun sm hin => ⟨(hs sm hin).facts, (hs sm hin).references⟩⟩

def RefsListed (references : OrderedMap RefId Reference) : Prop :=
  ∀ r ∈ references.values, references.contains r.refId = true

theorem refsListed_of_validate {m : Manifest N} (hk : m.Keyed)
    (h : validateIndexes m (buildIndexes m) = []) : RefsListed m.references := by
  intro r hr
  have hin : r.refId ∈ (buildIndexes m).refsBySource.bucket r.source :=
    ((indexLaw_buildIndexes hk).references _ _).2 ⟨r, hr, rfl, rfl⟩
  unfold validateIndexes at h
  simp only [List.append_eq_nil_iff, List.flatMap_eq_nil_iff] at h
  obtain ⟨-, hrefs⟩ := h
  unfold SetMap.bucket at hin
  cases hget : (buildIndexes m).refsBySource.get? r.source with
  | none => rw [hget] at hin; cases hin
  | some ids =>
    rw [hget] at hin
    have hone := hrefs _ (OrderedMap.get?_eq_some.1 hget) r.refId hin
    by_contra hno
    simp [hno] at hone

theorem mem_bucket_of_entry {K V : Type} [DecidableEq K] {ix : SetMap K V} {e : K × OrderedSet V}
    (he : e ∈ ix.entries) {v : V} (hv : v ∈ e.2) : v ∈ ix.bucket e.1 := by
  have hget : ix.get? e.1 = some e.2 := OrderedMap.get?_eq_some.2 he
  simpa [SetMap.bucket, hget] using hv

/-- **Indexes with the law pass `validateIndexes`.** -/
theorem validate_lawful {m : Manifest N} {ix : ManifestIndexes}
    (hl : IndexLaw m.facts m.references m.summaries ix) (hr : RefsListed m.references) :
    validateIndexes m ix = [] := by
  have hstate (name : String) (st : FactState) (ids : List FactId)
      (hids : ∀ id, id ∈ ids ↔ ∃ f, m.facts.get? id = some f ∧ f.state = st) :
      stateSetErrors m name st ids = [] := by
    unfold stateSetErrors
    rw [List.flatMap_eq_nil_iff]
    intro id hid
    obtain ⟨f, hf, hst⟩ := (hids id).1 hid
    simp [hf, hst]
  unfold validateIndexes
  simp only [List.append_eq_nil_iff, hstate _ _ _ hl.facts.active,
    hstate _ _ _ hl.facts.conflicted, and_true]
  refine ⟨⟨⟨?_, ?_⟩, ?_⟩, ?_⟩
  · rw [List.flatMap_eq_nil_iff]
    intro e he
    rw [flatMap_ite_nil]
    intro id hid
    obtain ⟨f, hf, -⟩ := (hl.facts.type _ _).1 (mem_bucket_of_entry he hid)
    exact OrderedMap.contains_iff.2 ⟨f, hf⟩
  · rw [List.flatMap_eq_nil_iff]
    intro e he
    have hget : m.facts.get? e.1 = some e.2 := OrderedMap.get?_eq_some.2 he
    rw [if_pos ((hl.facts.type _ _).2 ⟨e.2, hget, rfl⟩)]
  · rw [List.flatMap_eq_nil_iff]
    intro e he
    have hget : m.facts.get? e.1 = some e.2 := OrderedMap.get?_eq_some.2 he
    have ha : e.2.state = .active → e.1 ∈ ix.activeFacts :=
      fun hst => (hl.facts.active _).2 ⟨e.2, hget, hst⟩
    have hc : e.2.state = .conflicted → e.1 ∈ ix.conflictedFacts :=
      fun hst => (hl.facts.conflicted _).2 ⟨e.2, hget, hst⟩
    rw [if_neg (fun hand => hand.2 (ha hand.1)), if_neg (fun hand => hand.2 (hc hand.1))]
    rfl
  · rw [List.flatMap_eq_nil_iff]
    intro e he
    rw [flatMap_ite_nil]
    intro id hid
    obtain ⟨r, hin, -, rfl⟩ := (hl.references _ _).1 (mem_bucket_of_entry he hid)
    exact hr r hin

section Stores

variable {facts : OrderedMap FactId (Fact N)} {references : OrderedMap RefId Reference}
  {summaries : OrderedMap SummaryId (Summary N)}

theorem Fact.CitesIn.set {f : Fact N} (h : f.CitesIn facts) (k : FactId) (g : Fact N) :
    f.CitesIn (facts.set k g) :=
  ⟨fun id hid => OrderedMap.contains_set k g (h.derivedFrom id hid),
    fun id hid => OrderedMap.contains_set k g (h.supersedes id hid),
    fun id hid => OrderedMap.contains_set k g (h.mergedFrom id hid)⟩

theorem Lineage.setFact (h : Lineage facts references summaries) (k : FactId) {f : Fact N}
    (hf : f.CitesIn facts) : Lineage (facts.set k f) references summaries where
  fact g hg := by
    rcases OrderedMap.mem_values_set hg with rfl | hg
    · exact hf.set k g
    · exact (h.fact g hg).set k f
  summary sm hsm :=
    ⟨fun id hid => OrderedMap.contains_set k f ((h.summary sm hsm).facts id hid),
      (h.summary sm hsm).references⟩

theorem Lineage.setSummary (h : Lineage facts references summaries) (k : SummaryId)
    {sm : Summary N} (hsm : sm.CitesIn facts references) :
    Lineage facts references (summaries.set k sm) where
  fact := h.fact
  summary s hs := by
    rcases OrderedMap.mem_values_set hs with rfl | hs
    · exact hsm
    · exact h.summary s hs

theorem Lineage.setReference (h : Lineage facts references summaries) (k : RefId) (r : Reference) :
    Lineage facts (references.set k r) summaries where
  fact := h.fact
  summary sm hsm :=
    ⟨(h.summary sm hsm).facts,
      fun id hid => OrderedMap.contains_set k r ((h.summary sm hsm).references id hid)⟩

theorem RefsListed.insert (h : RefsListed references) (r : Reference) :
    RefsListed (references.set r.refId r) := by
  intro r' hr'
  rcases OrderedMap.mem_values_set hr' with rfl | hr'
  · exact OrderedMap.contains_set_self _ _ _
  · exact OrderedMap.contains_set _ _ (h r' hr')

theorem Lineage.get (h : Lineage facts references summaries) {k : FactId} {f : Fact N}
    (hget : facts.get? k = some f) : f.CitesIn facts :=
  h.fact f (OrderedMap.mem_values.2 ⟨k, hget⟩)

end Stores

/-- The stores that `load` accepts, and those it would. -/
structure View.Sound (v : View N) : Prop where
  lineage : Lineage v.facts v.references v.summaries
  listed : RefsListed v.references
  fileLineage : ∀ m : Manifest N, v.file = some (.manifest m) →
    Lineage m.facts m.references m.summaries
  fileListed : ∀ m : Manifest N, v.file = some (.manifest m) → RefsListed m.references

def Policy.cited : Policy N where
  insert v f := f.CitesIn v.facts
  summarize v sm := sm.CitesIn v.facts v.references
  replace _ := True
  force _ := True
  retire _ := True
  save _ := True

variable [JsNumber N] {E : Env N}

/-- **An edit whose new records cite existing ones keeps the lineage.** -/
theorem sound_edit {v w : View N} (he : Edit E Policy.cited v w) (h : v.Sound) : w.Sound := by
  have hl := h.lineage
  cases he with
  | insertFact f hid hp => exact ⟨hl.setFact f.factId hp, h.listed, h.fileLineage, h.fileListed⟩
  | observe id f source now hget =>
    have hc := hl.get hget
    exact ⟨hl.setFact id ⟨hc.derivedFrom, hc.supersedes, hc.mergedFrom⟩, h.listed, h.fileLineage,
      h.fileListed⟩
  | move id f st now hget =>
    have hc := hl.get hget
    exact ⟨hl.setFact id ⟨hc.derivedFrom, hc.supersedes, hc.mergedFrom⟩, h.listed, h.fileLineage,
      h.fileListed⟩
  | force id f hget hp =>
    have hc := hl.get hget
    exact ⟨hl.setFact id ⟨hc.derivedFrom, hc.supersedes, hc.mergedFrom⟩, h.listed, h.fileLineage,
      h.fileListed⟩
  | retire id f now hget hp =>
    have hc := hl.get hget
    exact ⟨hl.setFact id ⟨hc.derivedFrom, hc.supersedes, hc.mergedFrom⟩, h.listed, h.fileLineage,
      h.fileListed⟩
  | unlist id f hget hst => exact ⟨hl, h.listed, h.fileLineage, h.fileListed⟩
  | stale sid sm hget =>
    have hc := hl.summary sm (OrderedMap.mem_values.2 ⟨sid, hget⟩)
    exact ⟨hl.setSummary sid ⟨hc.facts, hc.references⟩, h.listed, h.fileLineage, h.fileListed⟩
  | replace sid sm hget hp =>
    have hc := hl.summary sm (OrderedMap.mem_values.2 ⟨sid, hget⟩)
    exact ⟨hl.setSummary sid ⟨hc.facts, hc.references⟩, h.listed, h.fileLineage, h.fileListed⟩
  | insertSummary sm hid hp =>
    exact ⟨hl.setSummary sm.summaryId hp, h.listed, h.fileLineage, h.fileListed⟩
  | insertReference r hid =>
    exact ⟨hl.setReference r.refId r, h.listed.insert r, h.fileLineage, h.fileListed⟩
  | skipId => exact ⟨hl, h.listed, h.fileLineage, h.fileListed⟩
  | write m hf hr hs hp =>
    have hw : Lineage m.facts m.references m.summaries ∧ RefsListed m.references := by
      rw [hf, hr, hs]
      exact ⟨hl, h.listed⟩
    refine ⟨hl, h.listed, ?_, ?_⟩
    · intro m' hm'
      cases hm'
      exact hw.1
    · intro m' hm'
      cases hm'
      exact hw.2
  | load m hfile =>
    exact ⟨h.fileLineage m hfile, h.fileListed m hfile, h.fileLineage, h.fileListed⟩

/-- The call's citations name records: the `derived_from` of a fact that is stored,
and the sources of a summary. -/
def CitesExisting (E : Env N) (s : Engine N) : Op N → Prop
  | .addFact input => (s.decision E input).outcome ≠ .converge →
      ∀ id ∈ input.derivedFrom.getD [], s.working.facts.contains id = true
  | .addSummary input =>
    (∀ id ∈ input.sourceFactIds, s.working.facts.contains id = true) ∧
      ∀ id ∈ input.sourceRefIds.getD [], s.working.references.contains id = true
  | _ => True

omit [JsNumber N] in
theorem Fact.Cites.citesIn {f : Fact N} {facts : OrderedMap FactId (Fact N)}
    {derived : List FactId} {merged : Option (List FactId)} (hf : f.Cites derived merged)
    (hd : ∀ id ∈ derived, facts.contains id = true)
    (hm : ∀ id ∈ merged.getD [], facts.contains id = true) : f.CitesIn facts where
  derivedFrom := by rw [hf.derivedFrom]; exact hd
  supersedes id hid := by rw [hf.supersedes] at hid; cases hid
  mergedFrom := by rw [hf.mergedFrom]; exact hm

variable {s : Engine N}

theorem CitesExisting.allows {op : Op N} (h : CitesExisting E s op) :
    Policy.cited.Allows E s op := by
  cases op with
  | addFact input => exact fun hout f hf => hf.citesIn (h hout) (by simp)
  | addSummary input =>
    refine ⟨fun _ _ => trivial, ?_⟩
    intro v sm hfacts hrefs hsf hsr
    refine ⟨?_, ?_⟩
    · rw [hsf, hfacts]; exact h.1
    · rw [hsr, hrefs]; exact h.2
  | proposeRefinement target refinement =>
    intro t ht _
    have htarget : s.working.facts.contains target = true := OrderedMap.contains_iff.2 ⟨t, ht⟩
    refine ⟨?_, ?_⟩
    · intro _ f hf
      refine hf.citesIn ?_ (by simp)
      intro id hid
      simp only [Engine.refinementInput, Option.getD_some, List.mem_singleton] at hid
      rw [hid]
      exact htarget
    · unfold Policy.AllowsForce
      split
      · trivial
      · trivial
      · trivial
      · trivial
      · intro f _
        split <;> trivial
  | proposeConsolidation sources consolidated => exact fun hall f hf => hf.citesIn hall hall
  | _ => trivial

theorem sound_step (hE : Function.Injective E.shortId) (s : Engine N) (op : Op N)
    (h : s.view.Filed E ∧ s.view.Sound) (hop : CitesExisting E s op) :
    (step E s op).view.Filed E ∧ (step E s op).view.Sound :=
  Edits.inv (I := fun v => v.Filed E ∧ v.Sound)
    (fun _ _ he hv => ⟨filed_edit hE he hv.1, sound_edit he hv.2⟩)
    (step_edits hE h.1 hop.allows) h

/-- The manifest that a commit puts on disk; a clean manager writes nothing. -/
def Engine.written (E : Env N) (s : Engine N) : Option (Manifest N) :=
  if s.dirty then some (nextManifest E s.sys s.actor s.working s.expectedRevision).1 else none

/-- `load` accepts the file and yields what was written. -/
def LoadsBack (E : Env N) (disk : Disk N) (w : Manifest N) : Prop :=
  ∃ m ix, load E {} disk = .ok m ix ∧ m.facts = w.facts ∧ m.references = w.references ∧
    m.summaries = w.summaries ∧ m.operations = w.operations

/-- The checks that `load` makes and `commit` does not. -/
def Committable (m : Manifest N) : Prop :=
  validateLineage m = [] ∧ validateIndexes m (buildIndexes m) = []

theorem Started.committable (h : Started E s) : Committable s.working := by
  obtain ⟨io, actor, disk, sys, h⟩ := h
  unfold managerLoad loadOrCreate at h
  cases hl : load E io disk with
  | ok m ix =>
    rw [hl] at h
    cases h
    obtain ⟨-, -, -, hok⟩ := load_ok_iff.1 hl
    exact ⟨hok.lineage, hok.indexes⟩
  | failed reason detail =>
    rw [hl] at h
    cases reason with
    | notFound =>
      by_cases hw : io.writeFails = true
      · simp [hw] at h
      · simp only [hw, Bool.false_eq_true, if_false, Option.some.injEq] at h
        subst h
        exact ⟨rfl, rfl⟩
    | _ => simp at h

theorem Started.sound (h : Started E s) (hk : s.working.Keyed) : s.view.Sound := by
  have hc := h.committable
  have hl := validateLineage_iff.1 hc.1
  have hr := refsListed_of_validate hk hc.2
  refine ⟨hl, hr, ?_, ?_⟩
  · intro m hm
    have hfile : s.disk.manifestFile = some (.manifest m) := hm
    rw [h.loaded.2] at hfile
    cases hfile
    exact hl
  · intro m hm
    have hfile : s.disk.manifestFile = some (.manifest m) := hm
    rw [h.loaded.2] at hfile
    cases hfile
    exact hr

omit [JsNumber N] in
theorem committable_of_sound (hF : s.view.Filed E) (hS : s.view.Sound) :
    Committable s.working :=
  ⟨validateLineage_iff.2 hS.lineage,
    validate_lawful (indexLaw_buildIndexes ⟨hF.working.factId, hF.working.summaryId⟩) hS.listed⟩

theorem commit_writes {s' : Engine N} {io : Io} {r : ℤ} {hash : String} {w : Manifest N}
    (hc : s.commit E io = (.ok r hash, s')) (hw : s.written E = some w) :
    s'.disk = { s.disk with manifestFile := some (.manifest w) } := by
  unfold Engine.written at hw
  unfold Engine.commit at hc
  split at hw
  · rename_i hd
    cases hw
    rw [if_pos hd] at hc
    rcases commit_cases E io s.actor s.working s.expectedRevision s.disk s.sys with
      ⟨reason, detail, sys, h, -⟩ | ⟨-, h⟩
    · rw [h] at hc
      simp at hc
    · rw [h] at hc
      simp only [Prod.mk.injEq] at hc
      rw [← hc.2]
  · cases hw

def ArtifactsPresent (s : Engine N) : Prop :=
  ∀ r ∈ s.working.references.values, s.disk.artifacts.contains r.path = true

/-- **A commit loads back exactly when the working manifest passes the checks of
`load` that `commit` leaves out**, and it does after every session whose calls cite
existing records, from a manifest whose records are filed under their own ids. -/
theorem commit_lossless {s₀ : Engine N} (hs : Started E s₀) (ops : List (Op N)) {io : Io} {r : ℤ}
    {hash : String} {s' : Engine N} {w : Manifest N}
    (hc : (Machine.run (step E) s₀ ops).commit E io = (.ok r hash, s'))
    (hw : (Machine.run (step E) s₀ ops).written E = some w)
    (hart : ArtifactsPresent (Machine.run (step E) s₀ ops)) :
    (LoadsBack E s'.disk w ↔ Committable (Machine.run (step E) s₀ ops).working) ∧
    (s₀.working.Keyed → UniqueIds E s₀ → Machine.Guarded (step E) (CitesExisting E) s₀ ops →
      LoadsBack E s'.disk w) := by
  have hiff : LoadsBack E s'.disk w ↔ Committable (Machine.run (step E) s₀ ops).working := by
    generalize Machine.run (step E) s₀ ops = s at hc hw hart
    have hdisk := commit_writes hc hw
    unfold Engine.written at hw
    split at hw
    · cases hw
      have hrefs : validateRefs s'.disk
          (nextManifest E s.sys s.actor s.working s.expectedRevision).1 = [] := by
        unfold validateRefs
        rw [flatMap_ite_nil, hdisk]
        exact hart
      constructor
      · rintro ⟨m, ix, hload, -⟩
        obtain ⟨hfile, -, -, hok⟩ := load_ok_iff.1 hload
        rw [hdisk] at hfile
        cases hfile
        exact ⟨hok.lineage, hok.indexes⟩
      · rintro ⟨hlin, hix⟩
        refine ⟨_, _, load_ok_iff.2 ⟨by rw [hdisk], rfl, rfl, nextManifest_hash _ _ _ _, hlin, hrefs,
          hix⟩, rfl, rfl, rfl, rfl⟩
    · cases hw
  refine ⟨hiff, ?_⟩
  intro hk hid hg
  obtain ⟨hF, hS⟩ := Machine.run_inv (sound_step hid.injective) ⟨hs.filed hk hid, hs.sound hk⟩ hg
  exact hiff.2 (committable_of_sound hF hS)

def citedSession : List (Op ℚ) :=
  [.addFact
      { type := "city", value := [("name", .str "Rome")], confidence := 0.5, source := "user" },
    .addFact
      { type := "trip", value := [], confidence := 0.5, source := "user",
        derivedFrom := some ["FACT_"] }]

theorem citedSession_lossless :
    LoadsBack (Env.plain ℚ) ((afterSession citedSession).commit (Env.plain ℚ) {}).2.disk
      (nextManifest (Env.plain ℚ) (afterSession citedSession).sys "agent"
        (afterSession citedSession).working 0).1 := by
  obtain ⟨r, hash, hok⟩ : ∃ r hash, ((afterSession citedSession).commit (Env.plain ℚ) {}).1 =
    .ok r hash := ⟨_, _, rfl⟩
  have hc : (afterSession citedSession).commit (Env.plain ℚ) {} =
      (.ok r hash, ((afterSession citedSession).commit (Env.plain ℚ) {}).2) := by rw [← hok]
  have hart : ArtifactsPresent (afterSession citedSession) := by
    intro ref href
    have hnone : (afterSession citedSession).working.references.values = [] := rfl
    rw [hnone] at href
    cases href
  refine (commit_lossless (started_fresh _ "agent" rfl {}) citedSession hc rfl hart).2
    (keyed_fresh _ "agent" _ {}) (uniqueIds_fresh (Env.plain_injective ℚ) "agent" _ {})
    ⟨?_, ?_, trivial⟩
  · intro _ id hid
    cases hid
  · intro _
    decide +kernel

def danglingSession : List (Op ℚ) :=
  [.addFact
      { type := "city", value := [("name", .str "Rome")], confidence := 0.5, source := "user",
        derivedFrom := some ["FACT_GONE"] }]

/-- **A commit can write a manifest that no load accepts**: the `derived_from` of a
caller goes to disk unchecked. -/
theorem danglingSession_bricks :
    ¬ ∀ s₀ : Engine ℚ, Started (Env.plain ℚ) s₀ → s₀.working.Keyed → UniqueIds (Env.plain ℚ) s₀ →
      ∀ ops io r hash s' w,
        (Machine.run (step (Env.plain ℚ)) s₀ ops).commit (Env.plain ℚ) io = (.ok r hash, s') →
        (Machine.run (step (Env.plain ℚ)) s₀ ops).written (Env.plain ℚ) = some w →
        ArtifactsPresent (Machine.run (step (Env.plain ℚ)) s₀ ops) →
        LoadsBack (Env.plain ℚ) s'.disk w := by
  intro h
  obtain ⟨r, hash, hok⟩ : ∃ r hash, ((afterSession danglingSession).commit (Env.plain ℚ) {}).1 =
    .ok r hash := ⟨_, _, rfl⟩
  have hc : (afterSession danglingSession).commit (Env.plain ℚ) {} =
      (.ok r hash, ((afterSession danglingSession).commit (Env.plain ℚ) {}).2) := by rw [← hok]
  have hart : ArtifactsPresent (afterSession danglingSession) := by
    intro ref href
    have hnone : (afterSession danglingSession).working.references.values = [] := rfl
    rw [hnone] at href
    cases href
  obtain ⟨m, ix, hload, -⟩ := h _ (started_fresh _ "agent" rfl {}) (keyed_fresh _ "agent" _ {})
    (uniqueIds_fresh (Env.plain_injective ℚ) "agent" _ {}) danglingSession {} r hash _ _ hc rfl hart
  obtain ⟨hfile, -, -, hloadable⟩ := load_ok_iff.1 hload
  rw [commit_writes hc rfl] at hfile
  cases hfile
  have hdangling : validateLineage (afterSession danglingSession).working ≠ [] := by decide +kernel
  exact hdangling hloadable.lineage

end ClawHarder
