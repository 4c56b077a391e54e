import ClawHarder.Lib.Replica
import ClawHarder.Proof.Growth

/-!
# Facts that adapters were told are stored

Adapters on one manifest file are copies of a versioned store (`Lib.Replica`): a
commit is taken only at the revision that the manager loaded or wrote last. The
engine of a turn reports `committed` for every commit that it tries, and the adapter
answers a revision conflict by a reload, which replaces the working manifest.

* `call_honest`: when a turn reports `committed` only after a commit that was taken.
* `acknowledged_kept`: **no told fact is lost and `committed` is never reported in
  vain, in exactly the runs in which every commit finds the revision it expects.**
-/

namespace ClawHarder

open Relation (ReflTransGen)

variable {N : Type} {ι : Type} [DecidableEq ι]

def contents (facts : OrderedMap FactId (Fact N)) : Set (FactCore N) :=
  {c | cores facts c.factId = some c}

def Disk.facts (disk : Disk N) : OrderedMap FactId (Fact N) :=
  match disk.manifestFile with
  | some (.manifest m) => m.facts
  | _ => .empty

def Disk.revision (disk : Disk N) : ℤ :=
  match disk.manifestFile with
  | some (.manifest m) => m.revision
  | _ => 0

def Engine.copy (m : Engine N) : Replica.Copy (FactCore N) where
  base := m.expectedRevision
  items := contents m.working.facts
  dirty := m.dirty

namespace Adapters

def store (w : Adapters ι N) : Replica.Store ι (FactCore N) where
  revision := w.disk.revision
  saved := contents w.disk.facts
  copies i := (w.sessions i).map fun s => s.engine.manager.copy
  promised i := {c | ∃ f ∈ w.acknowledged i, f.core = c}

/-- The fact is filed under its id, as far as the calls leave it alone. -/
def Has (facts : OrderedMap FactId (Fact N)) (f : Fact N) : Prop :=
  ∃ g, facts.get? f.factId = some g ∧ g.core = f.core

/-- Every fact that an adapter was told is stored is on disk or in its working manifest. -/
def Kept (w : Adapters ι N) : Prop :=
  ∀ i, ∀ f ∈ w.acknowledged i,
    Has w.disk.facts f ∨ ∃ s, w.sessions i = some s ∧ Has s.engine.manager.working.facts f

/-- A turn reports `committed` only after a commit that was taken. -/
def Honest (turn : Option TurnResult) : Prop :=
  ∀ t, turn = some t → t.committed = true → ∃ revision hash, t.commitResult = some (.ok revision hash)

end Adapters

/-- The commit finds the revision that the manager expects, and no failure. -/
def Engine.Unhindered (io : Io) (m : Engine N) : Prop :=
  readRevision io m.disk = some m.expectedRevision ∧ io.writeFails = false

instance (io : Io) (m : Engine N) : Decidable (m.Unhindered io) :=
  inferInstanceAs (Decidable (_ ∧ _))

structure Saves (m m' : Engine N) : Prop where
  current : m.expectedRevision = m.disk.revision
  revision : m'.disk.revision = m.expectedRevision + 1
  expected : m'.expectedRevision = m.expectedRevision + 1
  facts : m'.disk.facts = m.working.facts
  working : m'.working.facts = m.working.facts
  dirty : m'.dirty = false
  shortIds : m'.sys.shortIds = m.sys.shortIds
  file : ∃ f, m'.disk.manifestFile = some (.manifest f)

variable [JsNumber N] {E : Env N} {m m' : Engine N}

/-- **A commit with something to write saves it if it is unhindered, and else fails.** -/
theorem commit_effect (io : Io) (hfile : ∃ f, m.disk.manifestFile = some (.manifest f)) :
    (m.dirty = false ∧ (∃ revision hash, (m.commit E io).1 = .ok revision hash) ∧
        (m.commit E io).2 = m) ∨
      (m.dirty = true ∧ ¬ m.Unhindered io ∧ (∃ reason detail, (m.commit E io).1 =
        .failed reason detail) ∧ Grows m (m.commit E io).2 none) ∨
      (m.dirty = true ∧ m.Unhindered io ∧ (∃ revision hash, (m.commit E io).1 = .ok revision hash) ∧
        Saves m (m.commit E io).2) := by
  unfold Engine.commit
  by_cases hd : m.dirty = true
  · rw [if_pos hd]
    by_cases hu : m.Unhindered io
    · right; right
      obtain ⟨hread, hwrite⟩ := hu
      unfold commit
      rw [hread]
      simp only [ne_eq, not_true_eq_false, if_false, hwrite, Bool.false_eq_true]
      refine ⟨hd, ⟨hread, hwrite⟩, ⟨_, _, rfl⟩, ?_⟩
      obtain ⟨f, hf⟩ := hfile
      refine ⟨?_, rfl, rfl, rfl, rfl, rfl, rfl, ⟨_, rfl⟩⟩
      unfold readRevision at hread
      unfold Disk.revision
      rw [hf] at hread ⊢
      cases hr : io.readFails with
      | true => simp [hr] at hread
      | false =>
        simp only [hr, Bool.false_eq_true, if_false, Option.some.injEq] at hread
        exact hread.symm
    · right; left
      rcases commit_cases E io m.actor m.working m.expectedRevision m.disk m.sys with
        ⟨reason, detail, sys, h, hids⟩ | ⟨hok, -⟩
      · rw [h]
        refine ⟨hd, hu, ⟨_, _, rfl⟩, ⟨rfl, hids.ge⟩, rfl, rfl, ?_, fun hclean => ⟨hclean, rfl⟩⟩
        intro c hc
        cases hc
      · exact absurd hok hu
  · left
    rw [if_neg hd]
    exact ⟨by simpa using hd, ⟨_, _, rfl⟩, rfl⟩

/-- The manager adds the fact that its caller is told of, and may then save. -/
structure Effect (E : Env N) (m m' : Engine N) (told : Option (FactCore N)) : Prop where
  filed : m'.view.Filed E
  change : Grows m m' told ∨ ∃ mid, Grows m mid told ∧ Saves mid m'

omit [JsNumber N] in
theorem Effect.refl (hF : m.view.Filed E) : Effect E m m none := ⟨hF, Or.inl (Grows.refl m)⟩

theorem effect_commit (hE : Function.Injective E.shortId) (hF : m.view.Filed E)
    (hfile : ∃ f, m.disk.manifestFile = some (.manifest f)) (io : Io) :
    Effect E m (m.commit E io).2 none := by
  refine ⟨filed_step hE hF (.commit io), ?_⟩
  rcases commit_effect (E := E) io hfile with ⟨-, -, h⟩ | ⟨-, -, -, h⟩ | ⟨-, -, -, h⟩
  · rw [h]
    exact Or.inl (Grows.refl m)
  · exact Or.inl h
  · exact Or.inr ⟨m, Grows.refl m, h⟩

omit [JsNumber N] in
theorem Effect.after {mid : Engine N} (hg : Grows m mid none) (h : Effect E mid m' none) :
    Effect E m m' none := by
  refine ⟨h.filed, ?_⟩
  rcases h.change with hgrows | ⟨mid', hgrows, hsaves⟩
  · exact Or.inl (hg.then hgrows)
  · exact Or.inr ⟨mid', hg.then hgrows, hsaves⟩

open Adapters

variable {c : ContextEngine N}

/-- **The end of a turn reports `committed` in vain exactly when its commit has
something to write and is hindered.** -/
theorem endTurn_honest (hfile : ∃ f, c.manager.disk.manifestFile = some (.manifest f)) (io : Io)
    (progress : TurnProgress) :
    Honest (some (c.endTurn E io progress).1) ↔
      (c.autoCommit = true → c.manager.dirty = true → c.manager.Unhindered io) := by
  unfold ContextEngine.endTurn
  by_cases hc : (c.autoCommit && (progress.factProducing || c.manager.dirty)) = true
  · rw [if_pos hc]
    have hauto : c.autoCommit = true := by
      simp only [Bool.and_eq_true] at hc
      exact hc.1
    rcases commit_effect (E := E) io hfile with ⟨hd, ⟨r, hash, hr⟩, -⟩ | ⟨hd, hu, ⟨r, d, hr⟩, -⟩ |
      ⟨-, hu, ⟨r, hash, hr⟩, -⟩
    · refine iff_of_true ?_ ?_
      · rintro t ⟨⟩ -
        exact ⟨r, hash, congrArg some hr⟩
      · intro _ hd'
        rw [hd] at hd'
        cases hd'
    · refine iff_of_false ?_ ?_
      · intro h
        obtain ⟨r', hash, hr'⟩ := h _ rfl rfl
        have hok : (c.manager.commit E io).1 = .ok r' hash := by simpa using hr'
        rw [hr] at hok
        cases hok
      · exact fun h => hu (h hauto hd)
    · refine iff_of_true ?_ (fun _ _ => hu)
      rintro t ⟨⟩ -
      exact ⟨r, hash, congrArg some hr⟩
  · rw [if_neg hc]
    refine iff_of_true ?_ ?_
    · rintro t ⟨⟩ hcommitted
      cases hcommitted
    · intro ha hd
      simp [ha, hd] at hc

theorem endTurn_sync {io : Io} {progress : TurnProgress}
    (h : Honest (some (c.endTurn E io progress).1)) :
    (c.endTurn E io progress).1.syncRequired = false := by
  revert h
  unfold ContextEngine.endTurn
  split
  · intro h
    obtain ⟨r, hash, hr⟩ := h _ rfl rfl
    have hok : (c.manager.commit E io).1 = .ok r hash := by simpa using hr
    simp only [hok]
  · exact fun _ => rfl

theorem endTurn_effect (hE : Function.Injective E.shortId) (hF : c.manager.view.Filed E)
    (hfile : ∃ f, c.manager.disk.manifestFile = some (.manifest f)) (io : Io)
    (progress : TurnProgress) :
    Effect E c.manager (c.endTurn E io progress).2.manager none := by
  unfold ContextEngine.endTurn
  split
  · exact effect_commit hE hF hfile io
  · exact Effect.refl hF

variable {s : SessionState N}

theorem continueTurn_effect (hE : Function.Injective E.shortId)
    (hF : s.engine.manager.view.Filed E)
    (hfile : ∃ f, s.engine.manager.disk.manifestFile = some (.manifest f)) (io : Io)
    (progress : TurnProgress) :
    Effect E s.engine.manager (s.continueTurn E io progress).2.engine.manager none := by
  unfold SessionState.continueTurn
  split
  · exact Effect.refl hF
  · exact endTurn_effect hE hF hfile io progress

theorem continueTurn_stage (io : Io) (progress : TurnProgress)
    (h : Honest (s.continueTurn E io progress).1) :
    (s.continueTurn E io progress).2.stage ≠ .syncing := by
  revert h
  unfold SessionState.continueTurn
  split
  · intro _ hstage
    cases hstage
  · intro h
    simp only [endTurn_sync h, Bool.false_eq_true, if_false]
    intro hstage
    cases hstage

theorem continueTurn_honest
    (hfile : ∃ f, s.engine.manager.disk.manifestFile = some (.manifest f)) (io : Io)
    (progress : TurnProgress) :
    Honest (s.continueTurn E io progress).1 ↔
      (progress.offloads = [] → s.engine.autoCommit = true → s.engine.manager.dirty = true →
        s.engine.manager.Unhindered io) := by
  unfold SessionState.continueTurn
  cases hrest : progress.offloads with
  | cons offload rest =>
    refine iff_of_true ?_ ?_
    · intro t ht
      cases ht
    · intro hnil
      cases hnil
  | nil =>
    refine (endTurn_honest hfile io progress).trans ?_
    exact ⟨fun h _ => h, fun h => h rfl⟩

/-- The failures that meet the commit of a turn, if the call makes one with something
to write. -/
def SessionState.commitsWith (s : SessionState N) : AdapterCall N → Option Io
  | .afterTurn messages prePromptMessageCount io =>
    match s.stage with
    | .idle =>
      let allTurnMessages := s.pendingMessages ++
        (messages.drop prePromptMessageCount).filterMap agentMessageToTurnMessage
      let offloads := SlidingWindow.detectOffloads s.engine.window.config allTurnMessages
        s.engine.window.nextIndex
      if allTurnMessages ≠ [] ∧ offloads.isEmpty ∧ s.engine.autoCommit ∧ s.engine.manager.dirty
      then some io else none
    | _ => none
  | .resume storeFails io =>
    match s.stage with
    | .offloading _ progress =>
      if progress.offloads.isEmpty ∧ s.engine.autoCommit ∧
        (s.engine.manager.dirty ∨ storeFails = false) then some io else none
    | _ => none
  | _ => none

omit [JsNumber N] in
theorem dirty_addReference (input : AddReferenceInput) (storeFails : Bool) (m : Engine N) :
    (m.addReference E input storeFails).dirty = true ↔ m.dirty = true ∨ storeFails = false := by
  unfold Engine.addReference
  cases storeFails
  · simp
  · simp only [Bool.true_eq_false, or_false]
    rfl

omit [JsNumber N] in
theorem Grows.unhindered {told : Option (FactCore N)} (h : Grows m m' told) (io : Io) :
    m'.Unhindered io ↔ m.Unhindered io := by
  unfold Engine.Unhindered readRevision
  rw [h.file, h.moored.expected]

theorem afterTurn_honest (hstage : s.stage = .idle)
    (hfile : ∃ f, s.engine.manager.disk.manifestFile = some (.manifest f)) (io : Io)
    (messages : List AgentMessage) (n : ℕ) :
    Honest (s.afterTurn E io messages n).1 ↔
      ∀ io', s.commitsWith (.afterTurn messages n io) = some io' →
        s.engine.manager.Unhindered io' := by
  unfold SessionState.afterTurn SessionState.commitsWith
  rw [hstage]
  simp only
  generalize s.pendingMessages ++ (messages.drop n).filterMap agentMessageToTurnMessage = all
  by_cases hall : all = []
  · subst hall
    refine iff_of_true ?_ ?_
    · intro t ht
      cases ht
    · intro io' hio
      cases hio
  · rw [if_neg hall]
    have hturn := continueTurn_honest (E := E)
      (s := { engine := (s.engine.beginTurn all false).2, pendingMessages := [], stage := .idle })
      hfile io (s.engine.beginTurn all false).1
    refine hturn.trans ?_
    have hoffloads : (s.engine.beginTurn all false).1.offloads =
        SlidingWindow.detectOffloads s.engine.window.config all s.engine.window.nextIndex := rfl
    rw [hoffloads]
    generalize SlidingWindow.detectOffloads s.engine.window.config all
      s.engine.window.nextIndex = offloads
    constructor
    · intro h io' hio
      split at hio
      · rename_i hc
        cases hio
        exact h (List.isEmpty_iff.1 hc.2.1) hc.2.2.1 hc.2.2.2
      · cases hio
    · intro h hnil hauto hdirty
      subst hnil
      refine h io ?_
      rw [if_pos]
      exact ⟨hall, rfl, hauto, hdirty⟩

theorem resume_honest (hsync : s.stage ≠ .syncing)
    (hfile : ∃ f, s.engine.manager.disk.manifestFile = some (.manifest f)) (storeFails : Bool)
    (io : Io) :
    Honest (s.resume E storeFails io).1 ↔
      ∀ io', s.commitsWith (.resume storeFails io) = some io' →
        s.engine.manager.Unhindered io' := by
  unfold SessionState.resume SessionState.commitsWith
  cases hstage : s.stage with
  | idle =>
    refine iff_of_true ?_ ?_
    · intro t ht
      cases ht
    · intro io' hio
      cases hio
  | syncing => exact absurd hstage hsync
  | offloading offload progress =>
    -- the artifact is stored first, which dirties the manager but hinders nothing
    have hgrows := grows_addReference (E := E) (s := s.engine.manager)
      (ContextEngine.offloadReference offload) storeFails
    have hturn := continueTurn_honest (E := E)
      (s := { s with engine :=
        (s.engine.storeOffload E storeFails offload progress.offloadedIds).2 })
      (by
        obtain ⟨f, hf⟩ := hfile
        exact ⟨f, hgrows.file.trans hf⟩) io
      { progress with offloadedIds :=
        (s.engine.storeOffload E storeFails offload progress.offloadedIds).1 }
    refine hturn.trans ?_
    show (progress.offloads = [] → s.engine.autoCommit = true →
      (s.engine.manager.addReference E (ContextEngine.offloadReference offload)
        storeFails).dirty = true →
      (s.engine.manager.addReference E (ContextEngine.offloadReference offload)
        storeFails).Unhindered io) ↔ _
    rw [dirty_addReference, hgrows.unhindered]
    constructor
    · intro h io' hio
      simp only at hio
      split at hio
      · rename_i hc
        cases hio
        exact h (List.isEmpty_iff.1 hc.1) hc.2.1 hc.2.2
      · cases hio
    · intro h hnil hauto hdirty
      refine h io ?_
      simp only
      rw [if_pos]
      exact ⟨List.isEmpty_iff.2 hnil, hauto, hdirty⟩

/-- **A call tells of a completed turn in vain exactly when its commit is hindered.** -/
theorem call_honest (hsync : s.stage ≠ .syncing)
    (hfile : ∃ f, s.engine.manager.disk.manifestFile = some (.manifest f)) (e : AdapterCall N) :
    Honest (s.call E e).1.turn ↔
      ∀ io, s.commitsWith e = some io → s.engine.manager.Unhindered io := by
  have hquiet : Honest none := by
    intro t ht
    cases ht
  cases e with
  | afterTurn messages n io =>
    unfold SessionState.call
    cases hstage : s.stage with
    | idle => exact afterTurn_honest hstage hfile io messages n
    | _ =>
      refine iff_of_true hquiet ?_
      unfold SessionState.commitsWith
      rw [hstage]
      intro io' hio
      cases hio
  | resume storeFails io => exact resume_honest hsync hfile storeFails io
  | proposeRefinement factId input =>
    refine iff_of_true ?_ ?_
    · unfold SessionState.call
      simp only
      split
      · exact hquiet
      · exact hquiet
    · intro io hio
      cases hio
  | _ =>
    refine iff_of_true hquiet ?_
    intro io hio
    cases hio

/-- **What a call adds to its manager is what it tells, and it may then save.** -/
theorem call_effect (hE : Function.Injective E.shortId) (hF : s.engine.manager.view.Filed E)
    (hsync : s.stage ≠ .syncing)
    (hfile : ∃ f, s.engine.manager.disk.manifestFile = some (.manifest f)) (e : AdapterCall N) :
    Effect E s.engine.manager (s.call E e).2.engine.manager
      ((s.call E e).1.stored.map Fact.core) := by
  cases e with
  | addFact input => exact ⟨filed_step hE hF (.addFact input), Or.inl (grows_addFact hF input)⟩
  | addReference input storeFails =>
    exact ⟨filed_step hE hF (.addReference input storeFails),
      Or.inl (grows_addReference input storeFails)⟩
  | addSummary input =>
    exact ⟨filed_step hE hF (.addSummary input), Or.inl (grows_addSummary input)⟩
  | recordOperation type metadata =>
    exact ⟨filed_step hE hF (.recordOperation type metadata), Or.inl (grows_recordOp type metadata)⟩
  | proposeRefinement factId input =>
    have hfiled := filed_step hE hF (.proposeRefinement factId input)
    unfold SessionState.call ContextEngine.proposeRefinement
    rcases grows_refinement hF factId input with ⟨reason, h⟩ | ⟨id, old, decision, m', h, hgrows⟩
    · simp only [h]
      exact Effect.refl hF
    · have hm : (step E s.engine.manager (.proposeRefinement factId input)) = m' := by
        show (s.engine.manager.proposeRefinement E factId input).2 = m'
        rw [h]
      rw [hm] at hfiled
      simp only [h]
      exact ⟨hfiled, Or.inl hgrows⟩
  | commit io =>
    have hm : (s.engine.commit E io).2.manager = (s.engine.manager.commit E io).2 := by
      unfold ContextEngine.commit
      split
      · rename_i h
        rw [h]
      · rename_i h
        rw [h]
    show Effect E s.engine.manager (s.engine.commit E io).2.manager none
    rw [hm]
    exact effect_commit hE hF hfile io
  | afterTurn messages n io =>
    unfold SessionState.call
    cases hstage : s.stage with
    | idle =>
      unfold SessionState.afterTurn
      simp only
      split
      · exact Effect.refl hF
      · have hturn := fun messages' => continueTurn_effect
          (s := { s with
            engine := (s.engine.beginTurn messages' false).2
            pendingMessages := [] })
          hE hF hfile io (s.engine.beginTurn messages' false).1
        exact hturn _
    | _ => exact Effect.refl hF
  | resume storeFails io =>
    show Effect E s.engine.manager (s.resume E storeFails io).2.engine.manager none
    unfold SessionState.resume
    cases hstage : s.stage with
    | idle => exact Effect.refl hF
    | syncing => exact absurd hstage hsync
    | offloading offload progress =>
      have hgrows := grows_addReference (E := E) (s := s.engine.manager)
        (ContextEngine.offloadReference offload) storeFails
      have hfile' : ∃ f, (s.engine.storeOffload E storeFails offload
          progress.offloadedIds).2.manager.disk.manifestFile = some (.manifest f) := by
        obtain ⟨f, hf⟩ := hfile
        exact ⟨f, hgrows.file.trans hf⟩
      have hturn := continueTurn_effect
        (s := { s with
          engine := (s.engine.storeOffload E storeFails offload progress.offloadedIds).2 })
        hE (filed_step hE hF (.addReference (ContextEngine.offloadReference offload) storeFails))
        hfile' io
        { progress with
          offloadedIds := (s.engine.storeOffload E storeFails offload progress.offloadedIds).1 }
      exact Effect.after hgrows hturn
  | _ => exact Effect.refl hF

theorem call_stage (hsync : s.stage ≠ .syncing) {e : AdapterCall N}
    (h : Honest (s.call E e).1.turn) : (s.call E e).2.stage ≠ .syncing := by
  cases e with
  | afterTurn messages n io =>
    revert h
    unfold SessionState.call
    cases hstage : s.stage with
    | idle =>
      unfold SessionState.afterTurn
      simp only
      split
      · intro _ hs
        rw [hstage] at hs
        cases hs
      · exact continueTurn_stage io _
    | _ => exact fun _ => hsync
  | resume storeFails io =>
    have h' : Honest (s.resume E storeFails io).1 := h
    show (s.resume E storeFails io).2.stage ≠ .syncing
    revert h'
    unfold SessionState.resume
    cases hstage : s.stage with
    | idle => exact fun _ => hsync
    | syncing => exact absurd hstage hsync
    | offloading offload progress => exact continueTurn_stage io _
  | proposeRefinement factId input =>
    unfold SessionState.call
    simp only
    split
    · exact hsync
    · exact hsync
  | _ => exact hsync

namespace Adapters

variable {w : Adapters ι N} {i : ι}

/-- Records are filed, new ids are new, and no session is about to reload. -/
structure Filed (E : Env N) (w : Adapters ι N) : Prop where
  disk : ∀ f, w.disk.manifestFile = some (.manifest f) →
    ClawHarder.Filed E w.sys.shortIds f.facts f.references f.summaries
  session : ∀ i s, w.sessions i = some s → (w.visit s).engine.manager.view.Filed E ∧
    (∃ f, w.disk.manifestFile = some (.manifest f)) ∧ s.stage ≠ .syncing

omit [DecidableEq ι] [JsNumber N] in
theorem disk_same {disk disk' : Disk N} (h : disk'.manifestFile = disk.manifestFile) :
    disk'.revision = disk.revision ∧ disk'.facts = disk.facts := by
  unfold Disk.revision Disk.facts
  rw [h]
  exact ⟨rfl, rfl⟩

omit [JsNumber N] in
theorem store_leave (w : Adapters ι N) (i : ι) (s : SessionState N) :
    (w.leave i s).store =
      { revision := s.engine.manager.disk.revision
        saved := contents s.engine.manager.disk.facts
        copies := Function.update w.store.copies i (some s.engine.manager.copy)
        promised := w.store.promised } := by
  unfold store leave
  congr 1
  funext j
  by_cases hj : j = i
  · subst hj
    simp
  · simp [Function.update_of_ne hj]

omit [JsNumber N] in
theorem store_reply (w : Adapters ι N) (i : ι) (s : SessionState N) (told : Option (Fact N)) :
    ({ w.leave i s with
        acknowledged := Function.update w.acknowledged i (w.acknowledged i ++ told.toList) } :
        Adapters ι N).store =
      { revision := s.engine.manager.disk.revision
        saved := contents s.engine.manager.disk.facts
        copies := Function.update w.store.copies i (some s.engine.manager.copy)
        promised := Function.update w.store.promised i
          (w.store.promised i ∪ {c | told.map Fact.core = some c}) } := by
  have hleave := store_leave w i s
  unfold store at hleave ⊢
  simp only [Replica.Store.mk.injEq] at hleave ⊢
  refine ⟨hleave.1, hleave.2.1, hleave.2.2.1, ?_⟩
  funext j
  by_cases hj : j = i
  · subst hj
    ext c
    simp [or_and_right, exists_or]
  · simp [Function.update_of_ne hj]

omit [JsNumber N] [DecidableEq ι] in
theorem contents_grows {told : Option (FactCore N)} (h : Grows m m' told) :
    contents m'.working.facts = contents m.working.facts ∪ {c | told = some c} := by
  unfold contents
  rw [h.facts]
  cases told with
  | none => simp
  | some d =>
    ext c
    have hnew := h.new d rfl
    simp only [Set.mem_ofPred_eq, Set.mem_union, Option.some.injEq, Function.update_apply]
    constructor
    · intro hc
      split at hc
      · exact Or.inr (Option.some.inj hc)
      · exact Or.inl hc
    · rintro (hc | rfl)
      · rw [if_neg, hc]
        intro hid
        rw [hid, hnew] at hc
        cases hc
      · rw [if_pos rfl]

omit [JsNumber N] in
theorem leave_untold (w : Adapters ι N) (i : ι) (s : SessionState N) :
    ({ w.leave i s with
      acknowledged := Function.update w.acknowledged i (w.acknowledged i ++ none.toList) } :
      Adapters ι N) = w.leave i s := by
  unfold leave
  simp

omit [JsNumber N] in
/-- **A call on a session is an edit of its copy, and perhaps a save.** -/
theorem steps_of_effect {s : SessionState N} (hs : w.sessions i = some s) (s' : SessionState N)
    (told : Option (Fact N))
    (h : Effect E (w.visit s).engine.manager s'.engine.manager (told.map Fact.core)) :
    ReflTransGen Replica.Step w.store
      ({ w.leave i s' with
        acknowledged := Function.update w.acknowledged i (w.acknowledged i ++ told.toList) } :
        Adapters ι N).store := by
  rw [store_reply]
  have hcopy : w.store.copies i = some (w.visit s).engine.manager.copy := by
    show (w.sessions i).map (fun s => s.engine.manager.copy) = _
    rw [hs]
    rfl
  have hedit : ∀ m' : Engine N, Grows (w.visit s).engine.manager m' (told.map Fact.core) →
      Replica.Step w.store { w.store with
        copies := Function.update w.store.copies i (some m'.copy)
        promised := Function.update w.store.promised i
          (w.store.promised i ∪ {c | told.map Fact.core = some c}) } := by
    intro m' hg
    refine Replica.Step.edited hcopy hg.moored.expected (contents_grows hg) ?_
    intro hd
    obtain ⟨hclean, hnone⟩ := hg.dirty hd
    refine ⟨hclean, ?_⟩
    rw [hnone]
    intro c hc
    cases hc
  rcases h.change with hg | ⟨mid, hg, hsaves⟩
  · obtain ⟨hrev, hfacts⟩ := disk_same hg.file
    rw [hrev, hfacts]
    exact ReflTransGen.single (hedit _ hg)
  · obtain ⟨hrev, -⟩ := disk_same hg.file
    have hcur : mid.copy.base = w.disk.revision := hsaves.current.trans hrev
    have hsave := Replica.Step.saved (i := i) (c := mid.copy)
      (s := { w.store with
        copies := Function.update w.store.copies i (some mid.copy)
        promised := Function.update w.store.promised i
          (w.store.promised i ∪ {c | told.map Fact.core = some c}) })
      (Function.update_self ..) hcur
    refine (ReflTransGen.single (hedit _ hg)).tail ?_
    have hsaved : s'.engine.manager.copy =
        { base := w.disk.revision + 1, items := mid.copy.items, dirty := false } := by
      unfold Engine.copy
      rw [hsaves.expected, hsaves.working, hsaves.dirty, hsaves.current, hrev]
      rfl
    rw [hsaves.revision, hsaves.facts, hsaves.current, hrev, hsaved]
    simp only [Function.update_idem] at hsave
    exact hsave

omit [JsNumber N] [DecidableEq ι] in
theorem effect_later {told : Option (FactCore N)} (h : Effect E m m' told)
    (hfile : ∃ f, m.disk.manifestFile = some (.manifest f)) :
    m.sys.shortIds ≤ m'.sys.shortIds ∧ ∃ f, m'.disk.manifestFile = some (.manifest f) := by
  obtain ⟨f, hf⟩ := hfile
  rcases h.change with hg | ⟨mid, hg, hsaves⟩
  · exact ⟨hg.moored.shortIds, f, hg.file.trans hf⟩
  · exact ⟨hsaves.shortIds ▸ hg.moored.shortIds, hsaves.file⟩

omit [JsNumber N] in
theorem Filed.leave (hw : w.Filed E) {s' : SessionState N} (hF : s'.engine.manager.view.Filed E)
    (hids : w.sys.shortIds ≤ s'.engine.manager.sys.shortIds)
    (hfile : ∃ f, s'.engine.manager.disk.manifestFile = some (.manifest f))
    (hstage : s'.stage ≠ .syncing) : (w.leave i s').Filed E := by
  refine ⟨hF.file, ?_⟩
  intro j t ht
  rcases Replica.update_eq_some.1 ht with ⟨-, h⟩ | ⟨-, ht⟩
  · cases h
    exact ⟨hF, hfile, hstage⟩
  · obtain ⟨hold, -, hwait⟩ := hw.session j t ht
    exact ⟨⟨hold.working.later hids, hF.file⟩, hfile, hwait⟩

theorem load_notFound {io : Io} {disk : Disk N} {detail : String}
    (h : load E io disk = .failed .notFound detail) : disk.manifestFile = none := by
  unfold load at h
  cases hf : disk.manifestFile with
  | none => rfl
  | some file =>
    rw [hf] at h
    simp only at h
    split at h
    · cases h
    · cases file with
      | garbled => cases h
      | other v r => cases h
      | manifest f =>
        simp only [loadManifest] at h
        split_ifs at h <;> cases h

theorem managerLoad_cases {io : Io} {actor : String} {disk : Disk N} {sys : Sys}
    (h : managerLoad E io actor disk sys = some m) :
    m.dirty = false ∧ m.expectedRevision = m.working.revision ∧
      m.disk.manifestFile = some (.manifest m.working) ∧
      ((m.disk = disk ∧ m.sys = sys) ∨
        (disk.manifestFile = none ∧ m.working = (freshManifest E sys actor actor).1 ∧
          m.sys = (freshManifest E sys actor actor).2)) := by
  unfold managerLoad loadOrCreate at h
  cases hl : load E io disk with
  | ok f ix =>
    rw [hl] at h
    cases h
    obtain ⟨hfile, -⟩ := load_ok_iff.1 hl
    exact ⟨rfl, rfl, hfile, Or.inl ⟨rfl, rfl⟩⟩
  | failed reason detail =>
    rw [hl] at h
    cases reason with
    | notFound =>
      have hnone := load_notFound hl
      by_cases hw : io.writeFails = true
      · simp [hw] at h
      · simp only [hw, Bool.false_eq_true, if_false, Option.some.injEq] at h
        subst h
        exact ⟨rfl, rfl, rfl, Or.inr ⟨hnone, rfl, rfl⟩⟩
    | _ => simp at h

/-- Every commit of a turn that has something to write is unhindered, and so is the
commit of `dispose` when the session has facts that are not on disk. -/
def Calm (w : Adapters ι N) (e : ι × AdapterCall N) : Prop :=
  ∀ s, w.sessions e.1 = some s →
    match e.2 with
    | .dispose io =>
      s.stage = .idle → ¬ contents s.engine.manager.working.facts ⊆ contents w.disk.facts →
        (w.visit s).engine.manager.Unhindered io
    | c => ∀ io, (w.visit s).commitsWith c = some io → (w.visit s).engine.manager.Unhindered io

structure Inv (E : Env N) (w : Adapters ι N) : Prop where
  filed : w.Filed E
  sound : Replica.Sound w.store

omit [JsNumber N] [DecidableEq ι] in
theorem mem_contents {facts : OrderedMap FactId (Fact N)} {f : Fact N} :
    f.core ∈ contents facts ↔ Has facts f := by
  show (facts.get? f.factId).map Fact.core = some f.core ↔ _
  exact Option.map_eq_some_iff

omit [JsNumber N] [DecidableEq ι] in
/-- **No told fact is lost between the calls.** -/
theorem Inv.kept (h : w.Inv E) : w.Kept := by
  intro i f hf
  rcases h.sound.kept i f.core ⟨f, hf, rfl⟩ with hsaved | ⟨c, hc, hin⟩
  · exact Or.inl (mem_contents.1 hsaved)
  · obtain ⟨s, hs, rfl⟩ := Option.map_eq_some_iff.1 hc
    exact Or.inr ⟨s, hs, mem_contents.1 hin⟩

theorem inv_session (hE : Function.Injective E.shortId) (h : w.Inv E) {s : SessionState N}
    (hs : w.sessions i = some s) (c : AdapterCall N)
    (hhonest : Honest ((w.visit s).call E c).1.turn) :
    Inv E { w.leave i ((w.visit s).call E c).2 with
      acknowledged := Function.update w.acknowledged i
        (w.acknowledged i ++ ((w.visit s).call E c).1.stored.toList) } := by
  obtain ⟨hF, hfile, hwait⟩ := h.filed.session i s hs
  have hstage : (w.visit s).stage ≠ .syncing := hwait
  have heffect := call_effect hE hF hstage hfile c
  obtain ⟨hids, hfile'⟩ := effect_later heffect hfile
  have hleft := h.filed.leave (i := i) heffect.filed hids hfile' (call_stage hstage hhonest)
  exact ⟨⟨hleft.disk, hleft.session⟩, h.sound.steps (steps_of_effect hs _ _ heffect)⟩

theorem inv_bootstrap (h : w.Inv E) (config : ContextEngineConfig) (io : Io) (i : ι) :
    Inv E (w.bootstrap E config io i) := by
  unfold bootstrap
  cases hs : w.sessions i with
  | some s => exact h
  | none =>
    cases hm : managerLoad E io "manifest-engine" w.disk w.sys with
    | none => exact h
    | some m =>
      obtain ⟨hclean, hbase, hfile, hfrom⟩ := managerLoad_cases hm
      -- the copy is what is saved, or nothing where there was no file
      have hopen : m.view.Filed E ∧ w.sys.shortIds ≤ m.sys.shortIds ∧
          m.disk.revision = w.disk.revision ∧ contents m.disk.facts = contents w.disk.facts := by
        rcases hfrom with ⟨hdisk, hsys⟩ | ⟨hnone, hfresh, hsys⟩
        · have hF := h.filed.disk m.working (hdisk ▸ hfile)
          rw [← hsys] at hF
          refine ⟨⟨hF, ?_⟩, hsys ▸ le_rfl, by rw [hdisk], by rw [hdisk]⟩
          intro f hf
          have hf' : m.disk.manifestFile = some (.manifest f) := hf
          rw [hfile] at hf'
          cases hf'
          exact hF
        · have hF : ClawHarder.Filed E m.sys.shortIds m.working.facts m.working.references
              m.working.summaries := by
            rw [hfresh]
            refine ⟨?_, ?_, fun _ _ => rfl, fun _ _ => rfl, fun _ _ => rfl⟩
            · intro k f hk
              cases hk
            · intro k sm hk
              cases hk
          refine ⟨⟨hF, ?_⟩, ?_, ?_, ?_⟩
          · intro f hf
            have hf' : m.disk.manifestFile = some (.manifest f) := hf
            rw [hfile] at hf'
            cases hf'
            exact hF
          · rw [hsys]
            exact le_rfl
          · unfold Disk.revision
            rw [hfile, hnone, hfresh]
            rfl
          · unfold Disk.facts
            rw [hfile, hnone, hfresh]
            rfl
      obtain ⟨hF, hids, hrev, hfacts⟩ := hopen
      refine ⟨h.filed.leave hF hids ⟨_, hfile⟩ (fun hs => by cases hs), ?_⟩
      rw [store_leave]
      have hopened := Replica.Step.opened (s := w.store) (i := i)
        (by
          show (w.sessions i).map _ = none
          rw [hs]
          rfl)
      have hcopy : m.copy =
          { base := w.store.revision, items := w.store.saved, dirty := false } := by
        have hcur : m.expectedRevision = m.disk.revision := by
          unfold Disk.revision
          rw [hfile, hbase]
        have hall : m.working.facts = m.disk.facts := by
          unfold Disk.facts
          rw [hfile]
        unfold Engine.copy
        rw [hclean, hcur, hall, hrev, hfacts]
        rfl
      have hsound := hopened.sound h.sound
      show Replica.Sound
        { revision := m.disk.revision, saved := contents m.disk.facts,
          copies := Function.update w.store.copies i (some m.copy), promised := w.store.promised }
      rw [hcopy, hrev, hfacts]
      exact hsound

omit [JsNumber N] in
theorem Inv.close (h : w.Inv E) {s : SessionState N} (hs : w.sessions i = some s)
    (hsaved : contents s.engine.manager.working.facts ⊆ contents w.disk.facts) :
    Inv E { w with sessions := Function.update w.sessions i none } := by
  have hcopy : w.store.copies i = some s.engine.manager.copy := by
    show (w.sessions i).map (fun s => s.engine.manager.copy) = _
    rw [hs]
    rfl
  have hclosed := (Replica.Step.closed (s := w.store) hcopy hsaved).sound h.sound
  refine ⟨⟨h.filed.disk, ?_⟩, ?_⟩
  · intro j t ht
    rcases Replica.update_eq_some.1 ht with ⟨-, hnone⟩ | ⟨-, ht⟩
    · cases hnone
    · exact h.filed.session j t ht
  · have hstore : ({ w with sessions := Function.update w.sessions i none } : Adapters ι N).store =
        { w.store with copies := Function.update w.store.copies i none } := by
      unfold store
      congr 1
      funext j
      by_cases hj : j = i
      · subst hj
        simp
      · simp [Function.update_of_ne hj]
    rw [hstore]
    exact hclosed

/-- The manager of a session after the commit of `dispose`. -/
def disposed (E : Env N) (io : Io) (m : Engine N) : Engine N :=
  if m.dirty then (m.commit E io).2 else m

theorem disposed_saved (io : Io) (hfile : ∃ f, m.disk.manifestFile = some (.manifest f))
    (hclean : m.dirty = false → contents m.working.facts ⊆ contents m.disk.facts) :
    (contents (disposed E io m).working.facts ⊆ contents (disposed E io m).disk.facts ↔
        (¬ contents m.working.facts ⊆ contents m.disk.facts → m.Unhindered io)) ∧
      (¬ m.Unhindered io → (disposed E io m).disk.facts = m.disk.facts) := by
  unfold disposed
  rcases commit_effect (E := E) io hfile with ⟨hd, -, -⟩ | ⟨hd, hu, -, hg⟩ | ⟨hd, hu, -, hsaves⟩
  · rw [if_neg (by simp [hd])]
    exact ⟨iff_of_true (hclean hd) (fun hno => absurd (hclean hd) hno), fun _ => rfl⟩
  · rw [if_pos hd]
    obtain ⟨-, hfacts⟩ := disk_same hg.file
    rw [hfacts, contents_grows hg]
    refine ⟨?_, fun _ => rfl⟩
    constructor
    · intro hin hno
      exact absurd (Set.subset_union_left.trans hin) hno
    · intro hgo
      refine Set.union_subset ?_ ?_
      · by_contra hno
        exact hu (hgo hno)
      · intro c hc
        cases hc
  · rw [if_pos hd, hsaves.facts, hsaves.working]
    exact ⟨iff_of_true subset_rfl (fun _ => hu), fun hno => absurd hu hno⟩

/-- **A session closes without a loss exactly when the commit of `dispose` saves what
is not on disk.** -/
theorem step_dispose (hE : Function.Injective E.shortId) (h : w.Inv E) (io : Io) :
    ((w.dispose E io i).Kept ↔ Calm w (i, .dispose io)) ∧
      (Calm w (i, .dispose io) → Inv E (w.dispose E io i)) := by
  unfold dispose Calm
  cases hs : w.sessions i with
  | none =>
    refine ⟨iff_of_true h.kept ?_, fun _ => h⟩
    intro s hs'
    cases hs'
  | some s =>
    cases hstage : s.stage with
    | offloading offload progress =>
      simp only [hstage]
      refine ⟨iff_of_true h.kept ?_, fun _ => h⟩
      rintro _ ⟨⟩ hidle
      rw [hstage] at hidle
      cases hidle
    | syncing => exact absurd hstage (h.filed.session i s hs).2.2
    | idle =>
      simp only [hstage]
      obtain ⟨hF, hfile, hwait⟩ := h.filed.session i s hs
      have hcopy : w.store.copies i = some s.engine.manager.copy := by
        show (w.sessions i).map (fun s => s.engine.manager.copy) = _
        rw [hs]
        rfl
      have hcopied := h.sound.copy i _ hcopy
      obtain ⟨hiff, hsame⟩ := disposed_saved (E := E) (m := (w.visit s).engine.manager) io hfile
        hcopied.clean
      -- the session after its commit, and then without it
      let m := disposed E io (w.visit s).engine.manager
      let s' : SessionState N := { s with engine := { s.engine with manager := m } }
      have heffect : Effect E (w.visit s).engine.manager m none := by
        show Effect E _ (disposed E io (w.visit s).engine.manager) none
        unfold disposed
        split
        · exact effect_commit hE hF hfile io
        · exact Effect.refl hF
      obtain ⟨hids, hfile'⟩ := effect_later heffect hfile
      have hleft : Inv E (w.leave i s') := by
        refine ⟨h.filed.leave heffect.filed hids hfile' hwait, ?_⟩
        have hsteps := steps_of_effect hs s' none heffect
        rw [leave_untold] at hsteps
        exact h.sound.steps hsteps
      have hworld : ({ w with
            disk := m.disk
            sys := m.sys
            sessions := Function.update w.sessions i none } : Adapters ι N) =
          { w.leave i s' with sessions := Function.update (w.leave i s').sessions i none } := by
        unfold leave
        simp only [Function.update_idem]
        rfl
      have hclosed : (∀ t, some s = some t → t.stage = .idle →
          ¬ contents t.engine.manager.working.facts ⊆ contents w.disk.facts →
          (w.visit t).engine.manager.Unhindered io) → Inv E { w with
            disk := m.disk
            sys := m.sys
            sessions := Function.update w.sessions i none } := by
        intro hcalm
        rw [hworld]
        exact hleft.close (Function.update_self ..) (hiff.2 (hcalm s rfl hstage))
      refine ⟨⟨?_, fun hcalm => (hclosed hcalm).kept⟩, hclosed⟩
      rintro hkept _ ⟨⟩ - hno
      -- what is not on disk was told, and is nowhere after a hindered commit
      by_contra hu
      obtain ⟨c, hin, hout⟩ := Set.not_subset.1 hno
      rcases hcopied.origin hin with hsaved | ⟨f, hf, rfl⟩
      · exact hout hsaved
      · rcases hkept i f hf with hdisk | ⟨t, ht, -⟩
        · refine hout ?_
          have hdisk' : Has m.disk.facts f := hdisk
          rw [hsame hu] at hdisk'
          exact mem_contents.2 hdisk'
        · simp at ht

/-- What a call on the session of `i` does to the adapters. -/
def reply (E : Env N) (w : Adapters ι N) (i : ι) (c : AdapterCall N) :
    Option TurnResult × Adapters ι N :=
  match w.sessions i with
  | none => (none, w)
  | some s =>
    (((w.visit s).call E c).1.turn,
      { w.leave i ((w.visit s).call E c).2 with
        acknowledged := Function.update w.acknowledged i
          (w.acknowledged i ++ ((w.visit s).call E c).1.stored.toList) })

theorem step_session (hE : Function.Injective E.shortId) (h : w.Inv E) (c : AdapterCall N) :
    (Honest (w.reply E i c).1 ↔ ∀ s, w.sessions i = some s → ∀ io,
        (w.visit s).commitsWith c = some io → (w.visit s).engine.manager.Unhindered io) ∧
      (Honest (w.reply E i c).1 → Inv E (w.reply E i c).2) := by
  unfold reply
  cases hs : w.sessions i with
  | none =>
    refine ⟨iff_of_true ?_ ?_, fun _ => h⟩
    · intro t ht
      cases ht
    · intro s hs'
      cases hs'
  | some s =>
    obtain ⟨-, hfile, hwait⟩ := h.filed.session i s hs
    have hhonest := call_honest (E := E) (s := w.visit s) hwait hfile c
    refine ⟨hhonest.trans ?_, fun hh => inv_session hE h hs c hh⟩
    constructor
    · rintro hcalm _ ⟨⟩
      exact hcalm
    · exact fun hcalm => hcalm s rfl

/-- **A call.** -/
theorem inv_step (hE : Function.Injective E.shortId) (h : w.Inv E) (e : ι × AdapterCall N) :
    ((Honest (w.call E e).1 ∧ (w.step E e).Kept) ↔ Calm w e) ∧
      (Calm w e → Inv E (w.step E e)) := by
  have hsession (c : AdapterCall N) (hcall : w.call E (e.1, c) = w.reply E e.1 c)
      (hcalm : Calm w (e.1, c) ↔ ∀ s, w.sessions e.1 = some s → ∀ io,
        (w.visit s).commitsWith c = some io → (w.visit s).engine.manager.Unhindered io) :
      ((Honest (w.call E (e.1, c)).1 ∧ (w.step E (e.1, c)).Kept) ↔ Calm w (e.1, c)) ∧
        (Calm w (e.1, c) → Inv E (w.step E (e.1, c))) := by
    obtain ⟨hiff, hinv⟩ := step_session (i := e.1) hE h c
    unfold step
    rw [hcall, hcalm, ← hiff]
    exact ⟨⟨fun hh => hh.1, fun hh => ⟨hh, (hinv hh).kept⟩⟩, hinv⟩
  obtain ⟨i, c⟩ := e
  cases c with
  | bootstrap config io =>
    have hinv := inv_bootstrap h config io i
    refine ⟨iff_of_true ⟨?_, hinv.kept⟩ ?_, fun _ => hinv⟩
    · intro t ht
      cases ht
    · intro s hs io' hio
      cases hio
  | dispose io =>
    obtain ⟨hiff, hinv⟩ := step_dispose (i := i) hE h io
    refine ⟨⟨fun hh => hiff.1 hh.2, fun hh => ⟨?_, hiff.2 hh⟩⟩, hinv⟩
    intro t ht
    cases ht
  | _ => exact hsession _ rfl Iff.rfl

/-- No session is open, nobody was told anything, and the ids on disk are not to come. -/
structure Unopened (E : Env N) (w : Adapters ι N) : Prop where
  sessions : ∀ i, w.sessions i = none
  acknowledged : ∀ i, w.acknowledged i = []
  disk : ∀ f, w.disk.manifestFile = some (.manifest f) →
    ClawHarder.Filed E w.sys.shortIds f.facts f.references f.summaries

omit [DecidableEq ι] [JsNumber N] in
theorem Unopened.inv (h : w.Unopened E) : w.Inv E := by
  refine ⟨⟨h.disk, ?_⟩, Replica.Sound.initial ?_ ?_⟩
  · intro i s hs
    rw [h.sessions i] at hs
    cases hs
  · intro i
    show (w.sessions i).map _ = none
    rw [h.sessions i]
    rfl
  · intro i
    show {c | ∃ f ∈ w.acknowledged i, f.core = c} = ∅
    rw [h.acknowledged i]
    simp

/-- **No told fact is lost and `committed` is never reported in vain, in exactly the
runs in which every commit that has something to save is unhindered.** -/
theorem acknowledged_kept (hE : Function.Injective E.shortId) (hw : w.Unopened E)
    (calls : List (ι × AdapterCall N)) :
    Machine.Guarded (Adapters.step E)
      (fun w e => Honest (w.call E e).1 ∧ (w.step E e).Kept) w calls ↔
    Machine.Guarded (Adapters.step E) Calm w calls := by
  have hrun : ∀ (calls : List (ι × AdapterCall N)) (w : Adapters ι N), w.Inv E →
      (Machine.Guarded (Adapters.step E)
        (fun w e => Honest (w.call E e).1 ∧ (w.step E e).Kept) w calls ↔
      Machine.Guarded (Adapters.step E) Calm w calls) := by
    intro calls
    induction calls with
    | nil => exact fun _ _ => Iff.rfl
    | cons e calls ih =>
      intro w h
      obtain ⟨hiff, hinv⟩ := inv_step hE h e
      constructor
      · rintro ⟨hgood, hrest⟩
        have hcalm := hiff.1 hgood
        exact ⟨hcalm, (ih _ (hinv hcalm)).1 hrest⟩
      · rintro ⟨hcalm, hrest⟩
        exact ⟨hiff.2 hcalm, (ih _ (hinv hcalm)).2 hrest⟩
  exact hrun calls w hw.inv

def two : Adapters Bool ℚ where
  disk := .empty ℚ
  sys := {}
  sessions _ := none
  acknowledged _ := []

theorem two_unopened : two.Unopened (Env.plain ℚ) where
  sessions _ := rfl
  acknowledged _ := rfl
  disk f h := by cases h

def hello : List AgentMessage := [{ role := "user", content := .text "hello" }]

def cityTurn (i : Bool) (name : String) : List (Bool × AdapterCall ℚ) :=
  [(i, .addFact (cityInput name 0.5)), (i, .afterTurn hello 0 {})]

def oneAfterAnother : List (Bool × AdapterCall ℚ) :=
  (false, .bootstrap {} {}) :: cityTurn false "Rome" ++
    (true, .bootstrap {} {}) :: cityTurn true "Oslo"

def atOnce : List (Bool × AdapterCall ℚ) :=
  (false, .bootstrap {} {}) :: (true, .bootstrap {} {}) ::
    (cityTurn false "Rome" ++ cityTurn true "Oslo")

/-- The call does not dispose, and its commit, if it makes one, is unhindered. -/
def commitsCalmly (w : Adapters Bool ℚ) (e : Bool × AdapterCall ℚ) : Bool :=
  match e.2 with
  | .dispose _ => false
  | c => (w.sessions e.1).all fun s =>
    ((w.visit s).commitsWith c).all fun io => decide ((w.visit s).engine.manager.Unhindered io)

theorem calm_of_check {w : Adapters Bool ℚ} {e : Bool × AdapterCall ℚ}
    (h : commitsCalmly w e = true) : Calm w e := by
  intro s hs
  have hall (c : AdapterCall ℚ) (hc : (w.sessions e.1).all (fun s =>
      ((w.visit s).commitsWith c).all fun io =>
        decide ((w.visit s).engine.manager.Unhindered io)) = true) :
      ∀ io, (w.visit s).commitsWith c = some io → (w.visit s).engine.manager.Unhindered io := by
    intro io hio
    rw [hs, Option.all_some, hio, Option.all_some] at hc
    exact of_decide_eq_true hc
  unfold commitsCalmly at h
  obtain ⟨i, c⟩ := e
  cases c with
  | dispose io => cases h
  | _ => exact hall _ h

theorem oneAfterAnother_kept : Machine.Guarded (Adapters.step (Env.plain ℚ))
    (fun w e => Honest (w.call (Env.plain ℚ) e).1 ∧ (w.step (Env.plain ℚ) e).Kept) two
    oneAfterAnother := by
  refine (acknowledged_kept (Env.plain_injective ℚ) two_unopened oneAfterAnother).2 ?_
  have hcheck : Machine.Guarded (Adapters.step (Env.plain ℚ))
      (fun w e => commitsCalmly w e = true) two oneAfterAnother := by decide +kernel
  exact hcheck.mono fun _ _ => calm_of_check

def after (calls : List (Bool × AdapterCall ℚ)) : Adapters Bool ℚ :=
  Machine.run (Adapters.step (Env.plain ℚ)) two calls

/-- The call completes an `afterTurn` that waited. -/
def EndsTurn (w : Adapters Bool ℚ) (e : Bool × AdapterCall ℚ) : Prop :=
  (∃ storeFails io, e.2 = .resume storeFails io) ∧
    ∃ s, (w.step (Env.plain ℚ) e).sessions e.1 = some s ∧ s.stage = .idle

/-- **The loser of a conflict is told that its turn committed, and its reload drops the
fact that it was told is stored.** -/
theorem conflict_drops_fact :
    (¬ ∀ calls e, Honest ((after calls).call (Env.plain ℚ) e).1) ∧
    ¬ ∀ calls e, EndsTurn (after calls) e →
      ∀ f ∈ ((after calls).step (Env.plain ℚ) e).acknowledged e.1,
        Has ((after calls).step (Env.plain ℚ) e).disk.facts f ∨
        ∃ s, ((after calls).step (Env.plain ℚ) e).sessions e.1 = some s ∧
          Has s.engine.manager.working.facts f := by
  constructor
  · intro h
    have hturn : ((after (atOnce.take 5)).call (Env.plain ℚ) (true, .afterTurn hello 0 {})).1.any
        (fun t => t.committed && !CommitResult.written t.commitResult) = true := by
      decide +kernel
    obtain ⟨t, ht, hbad⟩ := (Option.any_eq_true _ _).1 hturn
    simp only [Bool.and_eq_true] at hbad
    obtain ⟨r, hash, hr⟩ := h (atOnce.take 5) (true, .afterTurn hello 0 {}) t ht hbad.1
    rw [hr] at hbad
    cases hbad.2
  · intro h
    have hstage : (((after atOnce).step (Env.plain ℚ) (true, .resume false {})).sessions true).any
        (fun s => s.stage matches .idle) = true := by decide +kernel
    have hlost : (((after atOnce).step (Env.plain ℚ) (true, .resume false {})).acknowledged
        true).any (fun f =>
          !((after atOnce).step (Env.plain ℚ) (true, .resume false {})).disk.facts.contains f.factId
          && (((after atOnce).step (Env.plain ℚ) (true, .resume false {})).sessions true).all
            fun s => !s.engine.manager.working.facts.contains f.factId) = true := by
      decide +kernel
    have hkept := h atOnce (true, .resume false {})
    unfold EndsTurn at hkept
    generalize (after atOnce).step (Env.plain ℚ) (true, .resume false {}) = w' at *
    obtain ⟨s, hs, hidle⟩ := (Option.any_eq_true _ _).1 hstage
    obtain ⟨f, hf, hnowhere⟩ := List.any_eq_true.1 hlost
    have hidle' : s.stage = .idle := by
      cases hst : s.stage with
      | idle => rfl
      | _ =>
        rw [hst] at hidle
        cases hidle
    have hcontains {facts : OrderedMap FactId (Fact ℚ)} (hhas : Has facts f) :
        facts.contains f.factId = true := by
      obtain ⟨g, hg, -⟩ := hhas
      exact OrderedMap.contains_iff.2 ⟨g, hg⟩
    rw [hs] at hnowhere
    rcases hkept ⟨⟨_, _, rfl⟩, s, hs, hidle'⟩ f hf with hdisk | ⟨t, ht, hwork⟩
    · simp [hcontains hdisk] at hnowhere
    · rw [hs] at ht
      cases ht
      simp [hcontains hwork] at hnowhere

end Adapters

end ClawHarder
