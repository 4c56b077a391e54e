import ClawHarder.Proof.Belief
import ClawHarder.Proof.Change

/-!
# The operation log across commits

A commit writes the working log with its own record at the end; the working manifest
never gets that record, so the next commit writes a log without it. Only a reload
brings it into the working log.

* `noted_step`: every call appends to the working log, and marks the manager dirty
  only with an entry.
* `log_appendOnly`: **the log on disk is append-only in exactly the sessions in which
  no commit writes twice without a reload in between.**
-/

namespace ClawHarder

variable {N : Type}

def Disk.operations (disk : Disk N) : List (Operation N) :=
  match disk.manifestFile with
  | some (.manifest m) => m.operations
  | _ => []

def CommitResult.written : Option CommitResult → Bool
  | some (.ok _ _) => true
  | _ => false

/-- An operation that leaves the revision, as all but the records of commits do. -/
def Operation.Level (op : Operation N) : Prop := op.revisionBefore = op.revisionAfter

/-- The working log grew by level operations, the manifest file is as it was, and a dirty
manager is still dirty. -/
def Logged (s s' : Engine N) : Prop :=
  s'.disk.manifestFile = s.disk.manifestFile ∧ (s.dirty = true → s'.dirty = true) ∧
    ∃ added, s'.working.operations = s.working.operations ++ added ∧ ∀ op ∈ added, op.Level

def Noted (s s' : Engine N) : Prop :=
  s'.disk.manifestFile = s.disk.manifestFile ∧ (s.dirty = true → s'.dirty = true) ∧
    ∃ added, s'.working.operations = s.working.operations ++ added ∧ (∀ op ∈ added, op.Level) ∧
      (added = [] → s'.working = s.working ∧ s'.dirty = s.dirty)

variable {E : Env N} {s s' s'' : Engine N}

theorem Logged.of_eq (hfile : s'.disk.manifestFile = s.disk.manifestFile)
    (hd : s.dirty = true → s'.dirty = true)
    (h : s'.working.operations = s.working.operations) : Logged s s' :=
  ⟨hfile, hd, [], by rw [h, List.append_nil], by simp⟩

theorem level_append {a b : List (Operation N)} (ha : ∀ op ∈ a, op.Level)
    (hb : ∀ op ∈ b, op.Level) : ∀ op ∈ a ++ b, op.Level := by
  intro op hop
  rcases List.mem_append.1 hop with h | h
  · exact ha op h
  · exact hb op h

theorem Logged.trans (h : Logged s s') (h' : Logged s' s'') : Logged s s'' := by
  obtain ⟨hfa, hda, a, ha, hla⟩ := h
  obtain ⟨hfb, hdb, b, hb, hlb⟩ := h'
  exact ⟨hfb.trans hfa, fun hd => hdb (hda hd), a ++ b, by rw [hb, ha, List.append_assoc],
    level_append hla hlb⟩

theorem Noted.logged (h : Noted s s') : Logged s s' := by
  obtain ⟨hfile, hd, a, ha, hla, -⟩ := h
  exact ⟨hfile, hd, a, ha, hla⟩

theorem Noted.of_eq (hfile : s'.disk.manifestFile = s.disk.manifestFile)
    (h : s'.working = s.working) (hd : s'.dirty = s.dirty) : Noted s s' :=
  ⟨hfile, fun hdirty => hd.trans hdirty, [], by rw [h, List.append_nil], by simp, fun _ => ⟨h, hd⟩⟩

theorem Logged.record (h : Logged s s') (type : OperationType)
    (metadata : List (String × Json N)) (b : Bool) (hb : s'.dirty = true → b = true) :
    Noted s { s'.recordOp E type metadata with dirty := b } := by
  obtain ⟨hfile, hd, a, ha, hla⟩ := h
  obtain ⟨op, hop, hlevel⟩ : ∃ op, (s'.recordOp E type metadata).working.operations =
      s'.working.operations ++ [op] ∧ op.Level := ⟨_, rfl, rfl⟩
  refine ⟨hfile, fun hdirty => hb (hd hdirty), a ++ [op], ?_, level_append hla ?_, ?_⟩
  · show (s'.recordOp E type metadata).working.operations = _
    rw [hop, ha, List.append_assoc]
  · intro o ho
    rw [List.mem_singleton.1 ho]
    exact hlevel
  · simp

theorem Noted.after (h : Noted s' s'') (hfile : s'.disk.manifestFile = s.disk.manifestFile)
    (hw : s'.working = s.working) (hd : s'.dirty = s.dirty) : Noted s s'' := by
  unfold Noted at h ⊢
  rw [hfile, hw, hd] at h
  exact h

theorem Noted.trans (h : Noted s s') (h' : Noted s' s'') : Noted s s'' := by
  obtain ⟨hfa, hda, a, ha, hla, hna⟩ := h
  obtain ⟨hfb, hdb, b, hb, hlb, hnb⟩ := h'
  refine ⟨hfb.trans hfa, fun hd => hdb (hda hd), a ++ b, by rw [hb, ha, List.append_assoc],
    level_append hla hlb, ?_⟩
  intro hnil
  obtain ⟨rfl, rfl⟩ := List.append_eq_nil_iff.1 hnil
  obtain ⟨hwa, hda'⟩ := hna rfl
  obtain ⟨hwb, hdb'⟩ := hnb rfl
  exact ⟨hwb.trans hwa, hdb'.trans hda'⟩

theorem logged_transitionFact (id : FactId) (st : FactState) (now : String) (s : Engine N) :
    Logged s (s.transitionFact id st now) := by
  unfold Engine.transitionFact
  split
  · exact Logged.of_eq rfl (fun h => h) rfl
  · exact Logged.of_eq rfl (fun _ => rfl) rfl

theorem logged_propagateStaleness (id : FactId) (s : Engine N) :
    Logged s (s.propagateStaleness E id) := by
  unfold Engine.propagateStaleness
  generalize collectStaleSummaries id s.indexes = sids
  induction sids generalizing s with
  | nil => exact Logged.of_eq rfl (fun h => h) rfl
  | cons sid sids ih =>
    refine Logged.trans ?_ (ih (s.markStale E id sid))
    unfold Engine.markStale
    split
    · exact Logged.of_eq rfl (fun h => h) rfl
    · split
      · exact Logged.of_eq rfl (fun h => h) rfl
      · have hmarked := Logged.of_eq (s := s) rfl (fun h => h) rfl
        exact (Logged.record (E := E) hmarked .summaryStaled _ _ (fun h => h)).logged

theorem logged_retire (id : FactId) (st : FactState) (now : String) (s : Engine N) :
    Logged s ((s.transitionFact id st now).propagateStaleness E id) :=
  (logged_transitionFact id st now s).trans (logged_propagateStaleness id _)

variable [JsNumber N]

theorem logged_strengthen (id : FactId) (source now : String) (s : Engine N) :
    Logged s (s.strengthen id source now) := by
  unfold Engine.strengthen
  split
  · exact Logged.of_eq rfl (fun h => h) rfl
  · exact Logged.of_eq rfl (fun h => h) rfl

theorem logged_inserted (input : AddFactInput N) (st : FactState) (s : Engine N) :
    Logged s (s.inserted E input st) ∧ (s.inserted E input st).dirty = true :=
  ⟨Logged.of_eq rfl (fun _ => rfl) rfl, rfl⟩

theorem logged_settled (input : AddFactInput N) (s : Engine N) :
    Logged s (s.settled E input) ∧
      ((s.decision E input).outcome ≠ .converge → (s.settled E input).dirty = true) := by
  -- whatever follows the insertion keeps the mark
  have hins (st : FactState) {s' : Engine N} (h : Logged (s.inserted E input st) s') :
      Logged s s' ∧ ((s.decision E input).outcome ≠ .converge → s'.dirty = true) :=
    ⟨(logged_inserted input st s).1.trans h, fun _ => h.2.1 (logged_inserted input st s).2⟩
  unfold Engine.settled
  cases hd : s.decision E input with
  | new reason =>
    rw [hd] at hins
    exact hins .active (Logged.of_eq rfl (fun h => h) rfl)
  | converge id reason =>
    refine ⟨?_, fun hout => absurd rfl hout⟩
    exact (Logged.of_eq rfl (fun h => h) rfl).trans (logged_strengthen id _ _ (s.now E).2)
  | supersede id reason =>
    rw [hd] at hins
    exact hins .active (logged_retire id .superseded _ _)
  | reject id reason =>
    rw [hd] at hins
    exact hins .superseded (logged_strengthen id _ _ _)
  | conflict id reason =>
    rw [hd] at hins
    exact hins .conflicted (logged_retire id .conflicted _ _)

theorem noted_addFact (input : AddFactInput N) : Noted s (s.addFact E input).2.2 := by
  rcases addFact_settled E input s with ⟨hadd, -⟩ | ⟨type, metadata, hadd⟩
  · rw [hadd]
    exact Noted.of_eq rfl rfl rfl
  · rw [hadd]
    exact (logged_settled input s).1.record type metadata _ (fun h => h)

theorem dirty_addFact {input : AddFactInput N}
    (hout : (s.decision E input).outcome ≠ .converge) : (s.addFact E input).2.2.dirty = true := by
  have hdirty := (logged_settled input s).2 hout
  rcases addFact_settled E input s with ⟨hadd, hsettled⟩ | ⟨type, metadata, hadd⟩
  · rw [hadd, ← hsettled]
    exact hdirty
  · rw [hadd]
    exact hdirty

omit [JsNumber N] in
theorem noted_forceRefinement (target id : FactId) : Noted s (s.forceRefinement E target id) := by
  have hrest (s' : Engine N) (h : Logged s s') : Noted s
      (Engine.recordOp E .factSuperseded
        [("new_fact_id", .str id), ("superseded_id", .str target),
          ("via", .str "propose_refinement"), ("forced", .bool true)]
        (s'.supersedeTarget E target)) := by
    unfold Engine.supersedeTarget
    split
    · exact h.record .factSuperseded _ _ (fun h => h)
    · refine Logged.record (E := E) (h.trans ?_) .factSuperseded _ _ (fun h => h)
      exact (Logged.of_eq rfl (fun h => h) rfl).trans (logged_retire target .superseded _ _)
  unfold Engine.forceRefinement
  cases s.working.facts.get? id with
  | none => exact hrest s (Logged.of_eq rfl (fun h => h) rfl)
  | some f => exact hrest _ (Logged.of_eq rfl (fun h => h) rfl)

omit [JsNumber N] in
theorem noted_sweepConflict (id : FactId) (key now : String) (s : Engine N) (fid : FactId) :
    Noted s (s.sweepConflict E id key now fid) := by
  unfold Engine.sweepConflict
  split
  · exact Noted.of_eq rfl rfl rfl
  · split
    · exact Noted.of_eq rfl rfl rfl
    · split
      · exact (logged_retire fid .superseded now s).record .factSuperseded _ _ (fun h => h)
      · exact Noted.of_eq rfl rfl rfl

omit [JsNumber N] in
theorem noted_sweep (id : FactId) (key now : String) (L : List FactId) (s : Engine N) :
    Noted s (L.foldl (Engine.sweepConflict E id key now) s) := by
  induction L generalizing s with
  | nil => exact Noted.of_eq rfl rfl rfl
  | cons fid L ih => exact (noted_sweepConflict id key now s fid).trans (ih _)

theorem noted_refinement (target : FactId) (refinement : AddFactInput N) :
    Noted s (s.proposeRefinement E target refinement).2 := by
  rcases proposeRefinement_cases (E := E) s target refinement with hsame | ⟨t, ht, hst⟩
  · rw [hsame]
    exact Noted.of_eq rfl rfl rfl
  · have hrefined : Noted s (refined E s target (Engine.refinementInput target refinement)) := by
      unfold refined
      split
      · exact (noted_addFact _).trans (noted_forceRefinement target _)
      · exact noted_addFact _
    rw [proposeRefinement_eq ht hst]
    refine hrefined.trans (Noted.after (noted_sweep _ _ _ _ _) ?_ ?_ ?_) <;> rfl

omit [JsNumber N] in
theorem logged_sources (now : String) (sources : List FactId) (s : Engine N) :
    Logged s (sources.foldl (Engine.supersedeSource E now) s) := by
  induction sources generalizing s with
  | nil => exact Logged.of_eq rfl (fun h => h) rfl
  | cons fid sources ih => exact (logged_retire fid .superseded now s).trans (ih _)

theorem noted_consolidation (sources : List FactId) (consolidated : AddFactInput N) :
    Noted s (s.proposeConsolidation E sources consolidated).2 := by
  rcases proposeConsolidation_cases E sources consolidated s with hsame | ⟨-, -, heq⟩
  · rw [hsame]
    exact Noted.of_eq rfl rfl rfl
  · rw [heq]
    refine Logged.record (E := E) (Logged.trans ?_ (logged_sources _ sources _)) .factConsolidated
      _ true (fun _ => rfl)
    exact Logged.of_eq rfl (fun h => h) rfl

omit [JsNumber N] in
theorem noted_addReference (input : AddReferenceInput) (storeFails : Bool) :
    Noted s (s.addReference E input storeFails) := by
  unfold Engine.addReference
  cases storeFails with
  | true => exact Noted.of_eq rfl rfl rfl
  | false =>
    refine Logged.record (E := E) ?_ .refAdded _ true (fun _ => rfl)
    exact Logged.of_eq rfl (fun h => h) rfl

theorem noted_addSummary (input : AddSummaryInput N) : Noted s (s.addSummary E input) := by
  unfold Engine.addSummary
  cases hr : ((s.nextShortId E).2.now E).2.replacedSummary input.type input.scope with
  | none =>
    simp only [hr]
    refine Logged.record (E := E) ?_ .summaryAdded _ true (fun _ => rfl)
    exact Logged.of_eq rfl (fun h => h) rfl
  | some old =>
    simp only [hr]
    have hold : Logged s (Engine.supersedeSummary E ("SUM_" ++ (s.nextShortId E).1) old
        ((s.nextShortId E).2.now E).2) := by
      refine (Logged.record (E := E) ?_ .summarySuperseded _ _ (fun h => h)).logged
      exact Logged.of_eq rfl (fun h => h) rfl
    refine Logged.record (E := E) (hold.trans ?_) .summaryAdded _ true (fun _ => rfl)
    exact Logged.of_eq rfl (fun h => h) rfl

/-- **Every call but a commit and a reload is noted in the working log.** -/
theorem noted_step {op : Op N} (hc : op.commits = false) (hr : op.reloads = false) :
    Noted s (step E s op) := by
  cases op with
  | addFact input => exact noted_addFact input
  | addReference input storeFails => exact noted_addReference input storeFails
  | addSummary input => exact noted_addSummary input
  | proposeRefinement target refinement => exact noted_refinement target refinement
  | proposeConsolidation sources consolidated => exact noted_consolidation sources consolidated
  | supersedeFact id reason =>
    show Noted s ((s.supersedeFact E id reason).toOption.getD s)
    unfold Engine.supersedeFact
    split
    · exact Noted.of_eq rfl rfl rfl
    · split
      · exact Noted.of_eq rfl rfl rfl
      · refine Logged.record (E := E) (Logged.trans ?_ (logged_retire id .superseded _ _))
          .factSuperseded _ _ (fun h => h)
        exact Logged.of_eq rfl (fun h => h) rfl
  | invalidateFact id reason =>
    show Noted s ((s.invalidateFact E id reason).toOption.getD s)
    unfold Engine.invalidateFact
    split
    · exact Noted.of_eq rfl rfl rfl
    · have hretire := (Logged.of_eq rfl (fun h => h) rfl : Logged s (s.now E).2).trans
        (logged_retire (E := E) id .invalidated (s.now E).1 _)
      refine Logged.record (E := E) (hretire.trans ?_) .factInvalidated _ _ (fun h => h)
      exact Logged.of_eq rfl (fun h => h) rfl
  | recordOperation type metadata =>
    exact Logged.record (E := E) (Logged.of_eq rfl (fun h => h) rfl) type metadata _ (fun h => h)
  | commit io => cases hc
  | reload io => cases hr

def Engine.writes (s : Engine N) (io : Io) : Bool :=
  s.dirty && readRevision io s.disk = some s.expectedRevision && !io.writeFails

/-- A commit writes the working log and its own record, which raises the revision; or
the disk, the log and the dirty flag stay. -/
theorem commit_log (io : Io) :
    if s.writes io then
      (s.commit E io).2.working.operations = s.working.operations ∧
      (s.commit E io).2.dirty = false ∧
      ∃ op : Operation N, ¬ op.Level ∧
        (s.commit E io).2.disk.operations = s.working.operations ++ [op]
    else Noted s (s.commit E io).2 := by
  have hwrites : s.writes io = true ↔ s.dirty = true ∧
      readRevision io s.disk = some s.expectedRevision ∧ io.writeFails = false := by
    simp [Engine.writes, and_assoc]
  split
  · rename_i hw
    obtain ⟨hd, hr, hio⟩ := hwrites.1 hw
    unfold Engine.commit commit
    rw [if_pos hd, hr]
    simp only [ne_eq, not_true_eq_false, if_false, hio, Bool.false_eq_true]
    refine ⟨trivial, trivial, _, ?_, rfl⟩
    intro hlevel
    have hrev : s.expectedRevision = s.expectedRevision + 1 := hlevel
    omega
  · rename_i hw
    unfold Engine.commit
    split
    · rename_i hd
      rcases commit_cases E io s.actor s.working s.expectedRevision s.disk s.sys with
        ⟨reason, detail, sys, h, -⟩ | ⟨⟨hr, hio⟩, -⟩
      · rw [h]
        exact Noted.of_eq rfl rfl rfl
      · exact absurd (hwrites.2 ⟨hd, hr, hio⟩) hw
    · exact Noted.of_eq rfl rfl rfl

/-- A reload fails and leaves the engine, or brings the log on disk into the working
manifest. -/
theorem reload_log (io : Io) :
    match load E io s.disk with
    | .failed _ _ => (s.reload E io).toOption.getD s = s
    | .ok _ _ =>
      ((s.reload E io).toOption.getD s).disk = s.disk ∧
      ((s.reload E io).toOption.getD s).dirty = false ∧
      ∃ op, ((s.reload E io).toOption.getD s).working.operations = s.disk.operations ++ [op] := by
  unfold Engine.reload
  cases h : load E io s.disk with
  | failed reason detail => rfl
  | ok m ix =>
    obtain ⟨hfile, -⟩ := load_ok_iff.1 h
    refine ⟨rfl, rfl, ?_⟩
    unfold Disk.operations
    rw [hfile]
    exact ⟨_, rfl⟩

/-- Has a commit written since the manager last loaded the file? -/
def unread (E : Env N) (s : Engine N) (written : Bool) : Op N → Bool
  | .commit io => written || s.writes io
  | .reload io =>
    match load E io s.disk with
    | .ok _ _ => false
    | .failed _ _ => written
  | _ => written

/-- No commit writes while what an earlier one wrote has not been loaded. -/
def Refreshes (E : Env N) : Engine N → Bool → List (Op N) → Prop
  | _, _, [] => True
  | s, written, op :: ops =>
    (written = true → ∀ io, op = .commit io → s.writes io = false) ∧
      Refreshes E (step E s op) (unread E s written op) ops

/-- The log on disk beside the working one. Until a commit writes, the working log
extends it; after that the record of the commit, on disk only, stands where the
working log has its next entry. -/
def Aligned (s : Engine N) : Bool → Prop
  | false => s.disk.operations <+: s.working.operations
  | true => ∃ common record added, s.disk.operations = common ++ [record] ∧ ¬ record.Level ∧
      s.working.operations = common ++ added ∧ (∀ op ∈ added, op.Level) ∧
      (s.dirty = true → added ≠ [])

omit [JsNumber N] in
theorem Disk.operations_congr {disk disk' : Disk N} (h : disk'.manifestFile = disk.manifestFile) :
    disk'.operations = disk.operations := by
  unfold Disk.operations
  rw [h]

omit [JsNumber N] in
theorem Aligned.noted {written : Bool} (h : Aligned s written) (hn : Noted s s') :
    Aligned s' written := by
  obtain ⟨hfile, -, new, hops, hlevel, hquiet⟩ := hn
  have hdisk := Disk.operations_congr hfile
  cases written with
  | false =>
    show s'.disk.operations <+: s'.working.operations
    rw [hdisk, hops]
    exact List.IsPrefix.trans h (List.prefix_append _ _)
  | true =>
    obtain ⟨common, record, added, hd, hrecord, hw, hadded, hne⟩ := h
    refine ⟨common, record, added ++ new, by rw [hdisk, hd], hrecord,
      by rw [hops, hw, List.append_assoc], level_append hadded hlevel, ?_⟩
    intro hdirty hnil
    obtain ⟨hold, hnew⟩ := List.append_eq_nil_iff.1 hnil
    rw [(hquiet hnew).2] at hdirty
    exact hne hdirty hold

/-- **A call keeps the log on disk unless it is a second writing commit.** -/
theorem aligned_step {written : Bool} (h : Aligned s written) (op : Op N) :
    (s.disk.operations <+: (step E s op).disk.operations ↔
      (written = true → ∀ io, op = .commit io → s.writes io = false)) ∧
    (s.disk.operations <+: (step E s op).disk.operations →
      Aligned (step E s op) (unread E s written op)) := by
  -- a noted call leaves the disk, and so what the flag says
  have hquiet : Noted s (step E s op) → s.disk.operations <+: (step E s op).disk.operations := by
    intro hn
    exact (Disk.operations_congr hn.1).symm ▸ List.prefix_rfl
  by_cases hc : op.commits = true
  · cases op with
    | commit io =>
      have hlog := commit_log (E := E) (s := s) io
      by_cases hw : s.writes io = true
      · rw [if_pos hw] at hlog
        obtain ⟨hops, hclean, record, hrecord, hdisk⟩ := hlog
        have hafter : Aligned (step E s (.commit io)) (unread E s written (.commit io)) := by
          show Aligned (s.commit E io).2 (written || s.writes io)
          rw [hw, Bool.or_true]
          refine ⟨s.working.operations, record, [], hdisk, hrecord, ?_, by simp, ?_⟩
          · rw [hops, List.append_nil]
          · intro hd
            rw [hclean] at hd
            cases hd
        refine ⟨?_, fun _ => hafter⟩
        show s.disk.operations <+: (s.commit E io).2.disk.operations ↔ _
        rw [hdisk]
        cases written with
        | false =>
          have hpre : s.disk.operations <+: s.working.operations := h
          simpa using hpre.trans (List.prefix_append _ _)
        | true =>
          -- the earlier record is where the new log has a level entry
          obtain ⟨common, old, added, hd, hold, hwork, hadded, hne⟩ := h
          have hdirty : s.dirty = true := by
            unfold Engine.writes at hw
            simp only [Bool.and_eq_true] at hw
            exact hw.1.1
          obtain ⟨first, rest, rfl⟩ := List.exists_cons_of_ne_nil (hne hdirty)
          constructor
          · intro hpre
            rw [hd, hwork, List.append_assoc, List.prefix_append_right_inj, List.cons_append,
              List.cons_prefix_cons] at hpre
            rw [hpre.1] at hold
            exact absurd (hadded first List.mem_cons_self) hold
          · intro hfalse
            rw [hfalse rfl io rfl] at hw
            cases hw
      · rw [if_neg hw] at hlog
        have hflag : unread E s written (.commit io) = written := by
          simp [unread, hw]
        refine ⟨⟨?_, fun _ => hquiet hlog⟩, fun _ => ?_⟩
        · intro _ _ io' hio
          cases hio
          simpa using hw
        · rw [hflag]
          exact h.noted hlog
    | _ => cases hc
  · have hnever : written = true → ∀ io, op = .commit io → s.writes io = false := by
      rintro - io rfl
      exact absurd rfl hc
    by_cases hr : op.reloads = true
    · cases op with
      | reload io =>
        have hlog := reload_log (E := E) (s := s) io
        cases hl : load E io s.disk with
        | failed reason detail =>
          rw [hl] at hlog
          have hsame : step E s (.reload io) = s := hlog
          have hflag : unread E s written (.reload io) = written := by
            simp [unread, hl]
          rw [hsame, hflag]
          exact ⟨⟨fun _ => hnever, fun _ => List.prefix_rfl⟩, fun _ => h⟩
        | ok m ix =>
          rw [hl] at hlog
          obtain ⟨hdisk, -, opened, hops⟩ := hlog
          have hflag : unread E s written (.reload io) = false := by
            simp [unread, hl]
          have hd : (step E s (.reload io)).disk.operations = s.disk.operations := by
            show Disk.operations ((s.reload E io).toOption.getD s).disk = _
            rw [hdisk]
          have hw : (step E s (.reload io)).working.operations =
            s.disk.operations ++ [opened] := hops
          refine ⟨⟨fun _ => hnever, fun _ => hd ▸ List.prefix_rfl⟩, fun _ => ?_⟩
          rw [hflag]
          show Disk.operations _ <+: _
          rw [hd, hw]
          exact List.prefix_append _ _
      | _ => cases hr
    · have hn : Noted s (step E s op) :=
        noted_step (by simpa using hc) (by simpa using hr)
      have hflag : unread E s written op = written := by
        cases op with
        | commit io => exact absurd rfl hc
        | reload io => exact absurd rfl hr
        | _ => rfl
      refine ⟨⟨fun _ => hnever, fun _ => hquiet hn⟩, fun _ => ?_⟩
      rw [hflag]
      exact h.noted hn

/-- **The log on disk is append-only exactly when every commit that writes has loaded
what the commit before it wrote.** -/
theorem log_appendOnly (hs : Started E s) (ops : List (Op N)) :
    Machine.Guarded (step E) (fun s op => s.disk.operations <+: (step E s op).disk.operations)
      s ops ↔ Refreshes E s false ops := by
  have hrun : ∀ (ops : List (Op N)) (s : Engine N) (written : Bool), Aligned s written →
      (Machine.Guarded (step E) (fun s op => s.disk.operations <+: (step E s op).disk.operations)
        s ops ↔ Refreshes E s written ops) := by
    intro ops
    induction ops with
    | nil => exact fun _ _ _ => Iff.rfl
    | cons op ops ih =>
      intro s written h
      obtain ⟨hiff, hnext⟩ := aligned_step (E := E) h op
      constructor
      · rintro ⟨hpre, hrest⟩
        exact ⟨hiff.1 hpre, (ih _ _ (hnext hpre)).1 hrest⟩
      · rintro ⟨hguard, hrest⟩
        have hpre := hiff.2 hguard
        exact ⟨hpre, (ih _ _ (hnext hpre)).2 hrest⟩
  refine hrun ops s false ?_
  have hops : s.disk.operations = s.working.operations := by
    unfold Disk.operations
    rw [hs.loaded.2]
  show s.disk.operations <+: s.working.operations
  exact hops ▸ List.prefix_rfl

def refreshedSession : List (Op ℚ) :=
  [.addFact (cityInput "Rome" 0.5), .commit {}, .reload {}, .addFact (cityInput "Oslo" 0.5),
    .commit {}]

theorem refreshedSession_appendOnly :
    Machine.Guarded (step (Env.plain ℚ))
      (fun s op => s.disk.operations <+: (step (Env.plain ℚ) s op).disk.operations)
      (Engine.fresh (Env.plain ℚ) "agent" (Disk.empty ℚ) {}) refreshedSession := by
  have hdisk : (Disk.empty ℚ).manifestFile = none := rfl
  refine (log_appendOnly (started_fresh (Env.plain ℚ) "agent" hdisk {}) refreshedSession).2 ?_
  refine ⟨by simp, ?_, by simp, by simp, ?_, trivial⟩
  · intro hwritten
    exact absurd hwritten (by decide +kernel)
  · intro hwritten
    exact absurd hwritten (by decide +kernel)

/-- **A second commit without a reload drops the record of the first.** -/
theorem commit_drops_record :
    ¬ ∀ ops : List (Op ℚ), Machine.Guarded (step (Env.plain ℚ))
      (fun s op => s.disk.operations <+: (step (Env.plain ℚ) s op).disk.operations)
      (Engine.fresh (Env.plain ℚ) "agent" (Disk.empty ℚ) {}) ops := by
  intro h
  obtain ⟨-, -, -, hlast, -⟩ := h [.addFact (cityInput "Rome" 0.5), .commit {},
    .addFact (cityInput "Oslo" 0.5), .commit {}]
  have htypes := List.IsPrefix.map (fun op : Operation ℚ => op.type) hlast
  exact absurd htypes (by decide +kernel)

end ClawHarder
