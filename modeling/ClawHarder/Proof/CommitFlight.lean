import ClawHarder.Proof.AppendOnly
import ClawHarder.Spec.CommitRace

/-!
# A commit while its manager is called

A commit copies the log when it is built and shares the records until they are
serialized; when it returns it clears the dirty flag. So a call that comes after the
commit was built is torn: its records may still be written, its log entry is not, and
no later commit is due.

* `inflight_tick`: what each step leaves of the match between what is carried and what
  is worked on.
* `commit_faithful`: **a commit that returns is faithful exactly when it failed or no
  call since it was built changed the working manifest.**
-/

namespace ClawHarder

variable {N : Type} [JsNumber N] {E : Env N} {length : Manifest N → ℕ}

omit [JsNumber N] in
theorem Files.revision_holding (disk : Disk N) :
    (Files.holding disk.manifestFile).revision = readRevision {} disk := by
  unfold Files.revision Files.visible Files.holding readRevision
  cases disk.manifestFile with
  | none => rfl
  | some file => cases file <;> rfl

omit [JsNumber N] in
theorem Files.visible_holding (file : Option (ManifestFile N)) :
    (Files.holding file).visible = file := by
  unfold Files.visible Files.holding
  cases file <;> rfl

omit [JsNumber N] in
theorem Files.write_opened (files : Files N) (n : ℕ) (m : Manifest N) (left : Blob N) :
    (files.openTmp.2.write files.openTmp.1 n m left).tmp = some files.openTmp.1 ∧
      ((files.openTmp.2.write files.openTmp.1 n m left).inodes files.openTmp.1).file =
        .manifest m := by
  unfold Files.write Files.put Files.openTmp
  simp

/-- `n` steps of a commit on its own. -/
def InFlight.alone (E : Env N) (length : Manifest N → ℕ) : ℕ → InFlight N → InFlight N
  | 0, c => c
  | n + 1, c => InFlight.alone E length n (c.advance E length {})

section Steps

variable {s : Engine N} {files : Files N} {file next : Manifest N} {fd n : ℕ}

theorem alone_step {c c' c'' : InFlight N} (h : c.advance E length {} = c')
    (hrest : InFlight.alone E length n c' = c'') : InFlight.alone E length (n + 1) c = c'' := by
  unfold InFlight.alone
  rw [h, hrest]

theorem advance_reading : InFlight.advance E length {} ⟨s, files, .reading, none⟩ =
    ⟨s, files, .read files.revision, none⟩ := rfl

theorem advance_unread : InFlight.advance E length {} ⟨s, files, .read none, none⟩ =
    ⟨s, files, .returned (.failed .ioError "Could not read current revision"), none⟩ := rfl

theorem advance_stale {r : ℤ} (h : r ≠ s.expectedRevision) :
    InFlight.advance E length {} ⟨s, files, .read (some r), none⟩ =
      ⟨s, files, .returned (.failed .revisionConflict ("Expected revision " ++
        toString s.expectedRevision ++ ", disk has " ++ toString r ++
        ". Reload and replan.")), none⟩ := by
  unfold InFlight.advance advance
  simp only [ne_eq, h, not_false_eq_true, if_true]

theorem advance_current :
    InFlight.advance E length {} ⟨s, files, .read (some s.expectedRevision), none⟩ =
      ⟨{ s with sys := (nextManifest E s.sys s.actor s.working s.expectedRevision).2 }, files,
        .hashing (nextManifest E s.sys s.actor s.working s.expectedRevision).1, none⟩ := by
  unfold InFlight.advance advance
  simp only [ne_eq, not_true_eq_false, if_false]

theorem advance_hashing : InFlight.advance E length {} ⟨s, files, .hashing next, none⟩ =
    ⟨s, files, .makingDir next, none⟩ := rfl

theorem advance_makingDir : InFlight.advance E length {} ⟨s, files, .makingDir next, none⟩ =
    ⟨s, files, .opening (next.fill s.working), none⟩ := rfl

theorem advance_opening : InFlight.advance E length {} ⟨s, files, .opening file, none⟩ =
    ⟨s, files.openTmp.2, .writing file files.openTmp.1, none⟩ := rfl

theorem advance_writing : InFlight.advance E length {} ⟨s, files, .writing file fd, none⟩ =
    ⟨s, files.write fd (length file) file { file := .garbled, length := 0 },
      .syncing file fd, none⟩ := rfl

theorem advance_syncing : InFlight.advance E length {} ⟨s, files, .syncing file fd, none⟩ =
    ⟨s, files, .closing file fd false, none⟩ := rfl

theorem advance_closing : InFlight.advance E length {} ⟨s, files, .closing file fd false, none⟩ =
    ⟨s, files, .replacing file, none⟩ := rfl

theorem advance_replacing (h : files.tmp = some fd) :
    InFlight.advance E length {} ⟨s, files, .replacing file, none⟩ =
      ⟨s, { files with manifest := some fd, tmp := none }, .replaced file, none⟩ := by
  unfold InFlight.advance advance Files.renameTmp
  simp only [Bool.false_eq_true, if_false, h, Option.map_some]

theorem advance_replaced : InFlight.advance E length {} ⟨s, files, .replaced file, none⟩ =
    ⟨s, files, .returned (.ok file.revision file.integrityHash), none⟩ := rfl

theorem advance_returned (result : CommitResult) :
    InFlight.advance E length {} ⟨s, files, .returned result, none⟩ =
      ⟨s.settle result, files, .returned result, some result⟩ := rfl

theorem alone_settled (n : ℕ) (returned result : CommitResult) :
    InFlight.alone E length n ⟨s, files, .returned returned, some result⟩ =
      ⟨s, files, .returned returned, some result⟩ := by
  induction n with
  | zero => rfl
  | succ n ih => exact ih

theorem alone_opening (s : Engine N) (files : Files N) (file : Manifest N) :
    ∃ files' : Files N, files'.visible = some (.manifest file) ∧
      InFlight.alone E length 7 ⟨s, files, .opening file, none⟩ =
        ⟨s.settle (.ok file.revision file.integrityHash), files',
          .returned (.ok file.revision file.integrityHash),
          some (.ok file.revision file.integrityHash)⟩ := by
  obtain ⟨htmp, hfile⟩ := Files.write_opened files (length file) file { file := .garbled, length := 0 }
  refine ⟨_, ?_, alone_step advance_opening (alone_step advance_writing (alone_step advance_syncing
    (alone_step advance_closing (alone_step (advance_replacing htmp) (alone_step advance_replaced
    (alone_step (advance_returned _) (alone_settled 0 _ _)))))))⟩
  unfold Files.visible
  simp only [Option.map_some, hfile]

end Steps

/-- **The steps of a commit, one after the other, are `Engine.commit`.** -/
theorem alone_commits {s : Engine N} (hd : s.dirty = true) :
    ∃ files : Files N, files.visible = (s.commit E {}).2.disk.manifestFile ∧
      InFlight.alone E length 11 (.start s (.holding s.disk.manifestFile)) =
        ⟨{ (s.commit E {}).2 with disk := s.disk }, files, .returned (s.commit E {}).1,
          some (s.commit E {}).1⟩ := by
  have hrev := Files.revision_holding s.disk
  have hfile := Files.visible_holding s.disk.manifestFile
  generalize Files.holding s.disk.manifestFile = files at hrev hfile
  unfold InFlight.start Engine.commit commit
  rw [if_pos hd]
  cases hr : readRevision {} s.disk with
  | none =>
    rw [hr] at hrev
    have hread : InFlight.advance E length {} ⟨s, files, .reading, none⟩ = _ := advance_reading
    rw [hrev] at hread
    exact ⟨files, hfile, alone_step hread (alone_step advance_unread
      (alone_step (advance_returned _) (alone_settled 8 _ _)))⟩
  | some r =>
    rw [hr] at hrev
    have hread : InFlight.advance E length {} ⟨s, files, .reading, none⟩ = _ := advance_reading
    rw [hrev] at hread
    by_cases hne : r = s.expectedRevision
    · subst hne
      obtain ⟨files', hvisible, hrest⟩ : ∃ files' : Files N, _ ∧ InFlight.alone E length 7 _ = _ :=
        alone_opening
          { s with sys := (nextManifest E s.sys s.actor s.working s.expectedRevision).2 } files
          (nextManifest E s.sys s.actor s.working s.expectedRevision).1
      simp only [ne_eq, not_true_eq_false, if_false]
      exact ⟨files', hvisible, alone_step hread (alone_step advance_current
        (alone_step advance_hashing (alone_step advance_makingDir hrest)))⟩
    · simp only [ne_eq, hne, not_false_eq_true, if_true]
      exact ⟨files, hfile, alone_step hread (alone_step (advance_stale hne)
        (alone_step (advance_returned _) (alone_settled 8 _ _)))⟩

/-- The commit is built, so the log it writes is fixed, and it has not failed. -/
def Stage.built : Stage N → Bool
  | .reading => false
  | .read _ => false
  | .closing _ _ failed => !failed
  | .returned (.failed _ _) => false
  | _ => true

/-- A call of the API that is synchronous, or a step of the commit. -/
def FlightEvent.synchronous : FlightEvent N → Bool
  | .call op => !op.commits && !op.reloads
  | .advance _ => true

/-- No call changes the working manifest while the commit is built and on its way. -/
def Quiet (E : Env N) (c : InFlight N) : FlightEvent N → Prop
  | .call op => c.stage.built = true → (step E c.engine op).working = c.engine.working
  | .advance _ => True

/-- The commit carries the manifest: it is hashed, or to be written, or written. -/
def Carries (files : Files N) (m : Manifest N) : Stage N → Prop
  | .hashing next => next = m
  | .makingDir next => next = m
  | .opening file => file = m
  | .writing file fd => file = m ∧ files.tmp = some fd ∧ (files.inodes fd).length = 0
  | .syncing file fd => file = m ∧ files.tmp = some fd ∧ (files.inodes fd).file = .manifest m
  | .closing file fd failed => failed = false ∧ file = m ∧ files.tmp = some fd ∧
      (files.inodes fd).file = .manifest m
  | .replacing file => file = m ∧ ∃ fd, files.tmp = some fd ∧ (files.inodes fd).file = .manifest m
  | .replaced file => file = m ∧ files.visible = some (.manifest m)
  | .returned (.ok _ _) => files.visible = some (.manifest m)
  | _ => False

/-- The manifest has all of the working one, one record more, and its own hash. -/
structure Mirrors (E : Env N) (m working : Manifest N) : Prop where
  facts : m.facts = working.facts
  references : m.references = working.references
  summaries : m.summaries = working.summaries
  lastFactIndex : m.lastFactIndex = working.lastFactIndex
  operations : ∃ record : Operation N, ¬ record.Level ∧
    m.operations = working.operations ++ [record]
  hash : computeIntegrityHash E m = m.integrityHash

/-- The working log has an entry where the manifest has the record of the commit. -/
def Outrun (m working : Manifest N) : Prop :=
  ∃ common record added, m.operations = common ++ [record] ∧ ¬ record.Level ∧
    working.operations = common ++ added ∧ (∀ op ∈ added, op.Level) ∧ added ≠ []

/-- The commit in flight, with `quiet` for: no call has changed the working manifest
since it was built. -/
structure Afloat (E : Env N) (c : InFlight N) (quiet : Prop) : Prop where
  dirty : c.result = none → c.engine.dirty = true
  early : c.stage = .reading ∨ (∃ r, c.stage = .read r) → quiet
  carried : c.stage.built = true → ∃ m, Carries c.files m c.stage ∧
    (quiet → Mirrors E m c.engine.working) ∧ (¬ quiet → Outrun m c.engine.working)

theorem Mirrors.fill {m working : Manifest N} (h : Mirrors E m working) :
    m.fill working = m := by
  unfold Manifest.fill
  rw [← h.facts, ← h.references, ← h.summaries]

theorem mirrors_next (sys : Sys) (actor : String) (working : Manifest N) (r : ℤ) :
    Mirrors E (nextManifest E sys actor working r).1 working := by
  refine ⟨rfl, rfl, rfl, rfl, ⟨_, ?_, rfl⟩, rfl⟩
  intro hlevel
  have hrev : r = r + 1 := hlevel
  omega

omit [JsNumber N] in
theorem Outrun.noted {m : Manifest N} {s s' : Engine N} (h : Outrun m s.working)
    (hn : Noted s s') : Outrun m s'.working := by
  obtain ⟨common, record, added, hm, hrecord, hw, hadded, hne⟩ := h
  obtain ⟨-, -, new, hops, hlevel, -⟩ := hn
  exact ⟨common, record, added ++ new, hm, hrecord, by rw [hops, hw, List.append_assoc],
    level_append hadded hlevel, by simp [hne]⟩

theorem Mirrors.outrun {m : Manifest N} {s s' : Engine N} (h : Mirrors E m s.working)
    (hn : Noted s s') (hne : s'.working ≠ s.working) : Outrun m s'.working := by
  obtain ⟨record, hrecord, hm⟩ := h.operations
  obtain ⟨-, -, new, hops, hlevel, hquiet⟩ := hn
  exact ⟨s.working.operations, record, new, hm, hrecord, hops, hlevel,
    fun hnil => hne (hquiet hnil).1⟩

variable {c : InFlight N} {quiet : Prop}

/-- **A call during the commit.** -/
theorem afloat_call (h : Afloat E c quiet) {op : Op N}
    (hsync : (FlightEvent.call op).synchronous = true) :
    Afloat E (c.tick E length (.call op)) (quiet ∧ Quiet E c (.call op)) := by
  have hop : op.commits = false ∧ op.reloads = false := by
    simpa [FlightEvent.synchronous] using hsync
  have hn := noted_step (E := E) (s := c.engine) hop.1 hop.2
  refine ⟨fun hr => hn.2.1 (h.dirty hr), ?_, ?_⟩
  · intro hstage
    refine ⟨h.early hstage, ?_⟩
    intro hb
    have hstage' : c.stage = .reading ∨ ∃ r, c.stage = .read r := hstage
    rcases hstage' with hs | ⟨r, hs⟩ <;> (rw [hs] at hb; cases hb)
  · intro hb
    have hbuilt : c.stage.built = true := hb
    obtain ⟨m, hcarries, hmirrors, houtrun⟩ := h.carried hbuilt
    refine ⟨m, hcarries, ?_, ?_⟩
    · rintro ⟨hq, hquiet⟩
      have hsame : (step E c.engine op).working = c.engine.working := hquiet hbuilt
      show Mirrors E m (step E c.engine op).working
      rw [hsame]
      exact hmirrors hq
    · intro hloud
      by_cases hq : quiet
      · refine (hmirrors hq).outrun hn ?_
        intro hsame
        exact hloud ⟨hq, fun _ => hsame⟩
      · exact (houtrun hq).noted hn

theorem Afloat.idle (hd : c.engine.dirty = true)
    (hstage : (∃ fd file, c.stage = .closing file fd true) ∨
      ∃ reason detail, c.stage = .returned (.failed reason detail)) : Afloat E c quiet := by
  refine ⟨fun _ => hd, ?_, ?_⟩
  · rintro (hs | ⟨r, hs⟩) <;> rcases hstage with ⟨fd, file, h⟩ | ⟨reason, detail, h⟩ <;>
      (rw [h] at hs; cases hs)
  · intro hb
    rcases hstage with ⟨fd, file, h⟩ | ⟨reason, detail, h⟩ <;> (rw [h] at hb; cases hb)

theorem Afloat.carrying {m : Manifest N}
    (hd : c.engine.dirty = true) (hcarries : Carries c.files m c.stage)
    (hmirrors : quiet → Mirrors E m c.engine.working)
    (houtrun : ¬ quiet → Outrun m c.engine.working) : Afloat E c quiet := by
  refine ⟨fun _ => hd, ?_, fun _ => ⟨m, hcarries, hmirrors, houtrun⟩⟩
  rintro (hs | ⟨r, hs⟩) <;> (rw [hs] at hcarries; cases hcarries)

omit [JsNumber N] in
theorem Files.write_empty {files : Files N} {fd : ℕ} (h : (files.inodes fd).length = 0) (n : ℕ)
    (m : Manifest N) (left : Blob N) :
    ((files.write fd n m left).inodes fd).file = .manifest m := by
  unfold Files.write Files.put
  simp [h]

/-- **A step of `persistence.commit`.** -/
theorem afloat_advance {s : Engine N} {files : Files N} {stage : Stage N}
    (h : Afloat E ⟨s, files, stage, none⟩ quiet) (fate : Fate N)
    (hr : (InFlight.advance E length fate ⟨s, files, stage, none⟩).result = none) :
    Afloat E (InFlight.advance E length fate ⟨s, files, stage, none⟩) quiet := by
  have hd : s.dirty = true := h.dirty rfl
  cases stage with
  | reading =>
    refine ⟨fun _ => hd, fun _ => h.early (Or.inl rfl), ?_⟩
    intro hb
    cases hb
  | read revision =>
    have hq : quiet := h.early (Or.inr ⟨revision, rfl⟩)
    cases revision with
    | none => exact Afloat.idle hd (Or.inr ⟨_, _, rfl⟩)
    | some r =>
      unfold InFlight.advance advance
      simp only
      split
      · exact Afloat.idle hd (Or.inr ⟨_, _, rfl⟩)
      · exact Afloat.carrying hd rfl (fun _ => mirrors_next s.sys s.actor s.working r)
          (fun hloud => absurd hq hloud)
  | hashing next =>
    obtain ⟨m, hm, hmirrors, houtrun⟩ := h.carried rfl
    exact Afloat.carrying hd hm hmirrors houtrun
  | makingDir next =>
    obtain ⟨m, hm, hmirrors, houtrun⟩ := h.carried rfl
    obtain rfl : next = m := hm
    unfold InFlight.advance advance
    simp only
    split
    · exact Afloat.idle hd (Or.inr ⟨_, _, rfl⟩)
    · -- the records are read again; the log is the copy
      refine Afloat.carrying (m := next.fill s.working) hd rfl ?_ ?_
      · intro hq
        rw [(hmirrors hq).fill]
        exact hmirrors hq
      · exact fun hloud => houtrun hloud
  | opening file =>
    obtain ⟨m, hm, hmirrors, houtrun⟩ := h.carried rfl
    unfold InFlight.advance advance
    simp only
    split
    · exact Afloat.idle hd (Or.inr ⟨_, _, rfl⟩)
    · refine Afloat.carrying hd ⟨hm, rfl, ?_⟩ hmirrors houtrun
      unfold Files.openTmp
      simp
  | writing file fd =>
    obtain ⟨m, ⟨hm, htmp, hempty⟩, hmirrors, houtrun⟩ := h.carried rfl
    subst hm
    unfold InFlight.advance advance
    simp only
    split
    · exact Afloat.idle hd (Or.inl ⟨_, _, rfl⟩)
    · exact Afloat.carrying hd ⟨rfl, htmp, Files.write_empty hempty _ _ _⟩ hmirrors houtrun
  | syncing file fd =>
    obtain ⟨m, ⟨hm, htmp, hfile⟩, hmirrors, houtrun⟩ := h.carried rfl
    cases hfate : fate.fails with
    | true =>
      refine Afloat.idle hd (Or.inl ⟨fd, file, ?_⟩)
      show Stage.closing file fd fate.fails = _
      rw [hfate]
    | false => exact Afloat.carrying hd ⟨hfate, hm, htmp, hfile⟩ hmirrors houtrun
  | closing file fd failed =>
    unfold InFlight.advance advance
    simp only
    split
    · exact Afloat.idle hd (Or.inr ⟨_, _, rfl⟩)
    · rename_i hfine
      have hopen : failed = false := by
        cases failed with
        | true => exact absurd rfl hfine
        | false => rfl
      subst hopen
      obtain ⟨m, ⟨-, hm, htmp, hfile⟩, hmirrors, houtrun⟩ := h.carried rfl
      exact Afloat.carrying hd ⟨hm, fd, htmp, hfile⟩ hmirrors houtrun
  | replacing file =>
    obtain ⟨m, ⟨hm, fd, htmp, hfile⟩, hmirrors, houtrun⟩ := h.carried rfl
    unfold InFlight.advance advance Files.renameTmp
    rw [htmp]
    cases fate.fails with
    | true => exact Afloat.idle hd (Or.inr ⟨_, _, rfl⟩)
    | false =>
      refine Afloat.carrying hd ⟨hm, ?_⟩ hmirrors houtrun
      unfold Files.visible
      simpa using hfile
  | replaced file =>
    obtain ⟨m, ⟨-, hvisible⟩, hmirrors, houtrun⟩ := h.carried rfl
    exact Afloat.carrying hd hvisible hmirrors houtrun
  | returned result => cases hr

/-- **Every step keeps the commit afloat**, and quiet if it was and the step is. -/
theorem inflight_tick (h : Afloat E c quiet) {e : FlightEvent N}
    (hsync : e.synchronous = true) (hr : (c.tick E length e).result = none)
    (hc : c.result = none) : Afloat E (c.tick E length e) (quiet ∧ Quiet E c e) := by
  cases e with
  | call op => exact afloat_call h hsync
  | advance fate =>
    have hq : (quiet ∧ Quiet E c (.advance fate)) = quiet := by
      simp [Quiet]
    obtain ⟨s, files, stage, result⟩ := c
    obtain rfl : result = none := hc
    rw [hq]
    exact afloat_advance h fate hr

structure Manifest.Contains (m working : Manifest N) : Prop where
  facts : m.facts = working.facts
  references : m.references = working.references
  summaries : m.summaries = working.summaries
  lastFactIndex : m.lastFactIndex = working.lastFactIndex
  operations : working.operations <+: m.operations

/-- What a commit owes when it returns: the file that it wrote has the hash of its
content, and what the file lacks is still to be committed. -/
def Faithful (E : Env N) (c : InFlight N) : CommitResult → Prop
  | .ok _ _ => ∃ m, c.files.visible = some (.manifest m) ∧
      computeIntegrityHash E m = m.integrityHash ∧
      (m.Contains c.engine.working ∨ c.engine.dirty = true)
  | .failed _ _ => c.engine.dirty = true

omit [JsNumber N] in
theorem Outrun.escapes {m working : Manifest N} (h : Outrun m working) :
    ¬ working.operations <+: m.operations := by
  obtain ⟨common, record, added, hm, hrecord, hw, hadded, hne⟩ := h
  obtain ⟨first, rest, rfl⟩ := List.exists_cons_of_ne_nil hne
  intro hpre
  rw [hm, hw, List.prefix_append_right_inj, List.cons_prefix_cons] at hpre
  rw [← hpre.1] at hrecord
  exact hrecord (hadded first List.mem_cons_self)

variable {result : CommitResult}

/-- **When a commit returns**, it is faithful unless it wrote and was not quiet. -/
theorem faithful_returned (h : Afloat E c quiet)
    (hc : c.result = none) (hs : c.stage = .returned result) :
    Faithful E { c with engine := c.engine.settle result, result := some result } result ↔
      ((∃ r hash, result = .ok r hash) → quiet) := by
  cases result with
  | failed reason detail =>
    refine ⟨fun _ => ?_, fun _ => h.dirty hc⟩
    rintro ⟨r, hash, heq⟩
    cases heq
  | ok r hash =>
    obtain ⟨m, hcarries, hmirrors, houtrun⟩ := h.carried (by rw [hs]; rfl)
    rw [hs] at hcarries
    have hvisible : c.files.visible = some (.manifest m) := hcarries
    constructor
    · rintro ⟨m', hvisible', -, hcontains | hdirty⟩ -
      · rw [hvisible] at hvisible'
        cases hvisible'
        by_contra hloud
        exact (houtrun hloud).escapes hcontains.operations
      · cases hdirty
    · intro hquiet
      have hm := hmirrors (hquiet ⟨r, hash, rfl⟩)
      obtain ⟨record, -, hops⟩ := hm.operations
      refine ⟨m, hvisible, hm.hash, Or.inl ?_⟩
      exact ⟨hm.facts, hm.references, hm.summaries, hm.lastFactIndex,
        hops ▸ List.prefix_append _ _⟩

theorem result_tick (h : c.result = some result)
    (e : FlightEvent N) : (c.tick E length e).result = some result := by
  cases e with
  | call op => exact h
  | advance fate =>
    obtain ⟨s, files, stage, res⟩ := c
    obtain rfl : res = some result := h
    show (InFlight.advance E length fate ⟨s, files, stage, some result⟩).result = some result
    unfold InFlight.advance
    split
    · rename_i heq
      cases heq
    · rfl

theorem result_run (h : c.result = some result)
    (schedule : List (FlightEvent N)) :
    (Machine.run (InFlight.tick E length) c schedule).result = some result :=
  Machine.run_inv_all (I := fun c : InFlight N => c.result = some result)
    (fun _ e hc => result_tick hc e) h schedule

/-- **A commit that returns is faithful exactly when it failed or no call since it was
built changed the working manifest.** -/
theorem commit_faithful {s : Engine N} (hd : s.dirty = true) (files : Files N)
    {schedule : List (FlightEvent N)} (hsync : ∀ e ∈ schedule, e.synchronous = true) {fate : Fate N}
    {result : CommitResult}
    (hrun : (Machine.run (InFlight.tick E length) (.start s files) schedule).result = none)
    (hret : ((Machine.run (InFlight.tick E length) (.start s files) schedule).tick E length
      (.advance fate)).result = some result) :
    Faithful E ((Machine.run (InFlight.tick E length) (.start s files) schedule).tick E length
      (.advance fate)) result ↔
    ((∃ r hash, result = .ok r hash) →
      Machine.Guarded (InFlight.tick E length) (Quiet E) (.start s files) schedule) := by
  have hgen : ∀ (schedule : List (FlightEvent N)) (c : InFlight N) (quiet : Prop), Afloat E c quiet →
      (∀ e ∈ schedule, e.synchronous = true) →
      (Machine.run (InFlight.tick E length) c schedule).result = none →
      ((Machine.run (InFlight.tick E length) c schedule).tick E length (.advance fate)).result =
        some result →
      (Faithful E ((Machine.run (InFlight.tick E length) c schedule).tick E length
        (.advance fate)) result ↔ ((∃ r hash, result = .ok r hash) →
          quiet ∧ Machine.Guarded (InFlight.tick E length) (Quiet E) c schedule)) := by
    intro schedule
    induction schedule with
    | nil =>
      intro c quiet h _ hc hret
      obtain ⟨s, files, stage, res⟩ := c
      obtain rfl : res = none := hc
      -- only a commit that persistence is done with returns
      have hstage : stage = .returned result := by
        cases stage with
        | returned returned =>
          have heq : some returned = some result := hret
          cases heq
          rfl
        | _ => cases hret
      subst hstage
      exact (faithful_returned h rfl rfl).trans
        ⟨fun hq hok => ⟨hq hok, trivial⟩, fun hq hok => (hq hok).1⟩
    | cons e schedule ih =>
      intro c quiet h hsync hc hret
      have hnone : ∀ c : InFlight N, (Machine.run (InFlight.tick E length) c schedule).result =
          none → c.result = none := by
        intro c hc
        cases hres : c.result with
        | none => rfl
        | some res =>
          rw [result_run hres] at hc
          cases hc
      have htick : (c.tick E length e).result = none := hnone _ hc
      have hres : c.result = none := by
        cases hres : c.result with
        | none => rfl
        | some res =>
          rw [result_tick hres] at htick
          cases htick
      have hnext := inflight_tick h (hsync e List.mem_cons_self) htick hres
      rw [Machine.run_cons]
      refine (ih _ _ hnext (fun e he => hsync e (List.mem_cons_of_mem _ he)) hc hret).trans ?_
      exact ⟨fun hq hok => ⟨(hq hok).1.1, (hq hok).1.2, (hq hok).2⟩,
        fun hq hok => ⟨⟨(hq hok).1, (hq hok).2.1⟩, (hq hok).2.2⟩⟩
  have hstart : Afloat E (InFlight.start s files) True :=
    ⟨fun _ => hd, fun _ => trivial, fun hb => by cases hb⟩
  exact (hgen schedule _ True hstart hsync hrun hret).trans
    ⟨fun hq hok => (hq hok).2, fun hq hok => ⟨trivial, hq hok⟩⟩

def oneCity : Engine ℚ := afterSession [.addFact (cityInput "Rome" 0.5)]

theorem oneCity_alone : ∃ files : Files ℚ,
    files.visible = (oneCity.commit (Env.plain ℚ) {}).2.disk.manifestFile ∧
      InFlight.alone (Env.plain ℚ) (fun _ => 0) 11
          (.start oneCity (.holding oneCity.disk.manifestFile)) =
        ⟨{ (oneCity.commit (Env.plain ℚ) {}).2 with disk := oneCity.disk }, files,
          .returned (oneCity.commit (Env.plain ℚ) {}).1, some (oneCity.commit (Env.plain ℚ) {}).1⟩ :=
  alone_commits (by decide +kernel)

/-- A session of a commit of `oneCity`: calls and steps. -/
def flight (schedule : List (FlightEvent ℚ)) : InFlight ℚ :=
  Machine.run (InFlight.tick (Env.plain ℚ) fun _ => 0)
    (.start oneCity (.holding oneCity.disk.manifestFile)) schedule

def landed (schedule : List (FlightEvent ℚ)) : InFlight ℚ :=
  (flight schedule).tick (Env.plain ℚ) (fun _ => 0) (.advance {})

def quietFlight : List (FlightEvent ℚ) :=
  .call (.addFact (cityInput "Oslo" 0.5)) :: List.replicate 10 (.advance {})

theorem quietFlight_faithful : ∃ result, (landed quietFlight).result = some result ∧
    Faithful (Env.plain ℚ) (landed quietFlight) result := by
  have hsome : (landed quietFlight).result.isSome = true := by decide +kernel
  obtain ⟨result, hresult⟩ := Option.isSome_iff_exists.1 hsome
  have hdirty : oneCity.dirty = true := by decide +kernel
  have hrun : (flight quietFlight).result = none := by decide +kernel
  have hsync : ∀ e ∈ quietFlight, e.synchronous = true := by decide
  refine ⟨result, hresult, (commit_faithful hdirty (.holding oneCity.disk.manifestFile) hsync hrun
    hresult).2 fun _ => ⟨?_, ?_⟩⟩
  · intro hbuilt
    cases hbuilt
  · simp [Machine.Guarded, List.replicate, Quiet]

def tornFlight : List (FlightEvent ℚ) :=
  [.advance {}, .advance {}, .call (.addFact (cityInput "Oslo" 0.5))] ++
    List.replicate 8 (.advance {})

def seenAs (P : Manifest ℚ → Bool) : Option (ManifestFile ℚ) → Bool
  | some (.manifest m) => P m
  | _ => false

/-- **A call at an await of the commit is torn**: the file does not have the hash of its
content, and lacks the entry of a call that no later commit is due for. -/
theorem commit_tears :
    (¬ ∀ schedule : List (FlightEvent ℚ), (∀ e ∈ schedule, e.synchronous = true) →
      (flight schedule).result = none → (∃ r hash, (landed schedule).result = some (.ok r hash)) →
      ∃ m, (landed schedule).files.visible = some (.manifest m) ∧
        computeIntegrityHash (Env.plain ℚ) m = m.integrityHash) ∧
    ¬ ∀ schedule : List (FlightEvent ℚ), (∀ e ∈ schedule, e.synchronous = true) →
      (flight schedule).result = none → (∃ r hash, (landed schedule).result = some (.ok r hash)) →
      ∃ m, (landed schedule).files.visible = some (.manifest m) ∧
        (m.Contains (landed schedule).engine.working ∨ (landed schedule).engine.dirty = true) := by
  have hsync : ∀ e ∈ tornFlight, e.synchronous = true := by decide
  have hrun : (flight tornFlight).result = none := by decide +kernel
  have hok : ∃ r hash, (landed tornFlight).result = some (.ok r hash) := by
    have hread : CommitResult.written (landed tornFlight).result = true := by decide +kernel
    cases hres : (landed tornFlight).result with
    | none =>
      rw [hres] at hread
      cases hread
    | some result =>
      cases result with
      | ok r hash => exact ⟨r, hash, rfl⟩
      | failed reason detail =>
        rw [hres] at hread
        cases hread
  constructor
  · intro h
    obtain ⟨m, hvisible, hhash⟩ := h tornFlight hsync hrun hok
    have hread : seenAs (fun m => decide (computeIntegrityHash (Env.plain ℚ) m = m.integrityHash))
        (landed tornFlight).files.visible = false := by decide +kernel
    rw [hvisible] at hread
    exact absurd hhash (of_decide_eq_false hread)
  · intro h
    obtain ⟨m, hvisible, hcontains | hdirty⟩ := h tornFlight hsync hrun hok
    · have hread : seenAs (fun m => decide ((landed tornFlight).engine.working.operations.map
          (·.type) <+: m.operations.map (·.type))) (landed tornFlight).files.visible = false := by
        decide +kernel
      rw [hvisible] at hread
      have htypes := hcontains.operations.map (fun op : Operation ℚ => op.type)
      exact absurd htypes (of_decide_eq_false hread)
    · exact absurd hdirty (by decide +kernel)

end ClawHarder
