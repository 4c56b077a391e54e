import ClawHarder.Lib.Run
import ClawHarder.Proof.Lanes
import ClawHarder.Proof.Patches

/-!
# All or nothing

Patches are applied as a whole or not at all, and their attempt is concluded, as
long as nothing raises where nobody catches it.

* `all_or_nothing`: **the request leaves the files and the ledger whole just when**
  planning is foreseen and every temporary file that is opened is written.
-/

namespace ClawHarder.Comms

open PyText (lit)

variable {W : Workspace}

/-- Nothing that `_ensure_entry` does at this path raises. A failing `read_text` does
not, as long as it is an `OSError`. -/
def Readable (W : Workspace) (v : Volume) (p : Path) : Prop :=
  W.fault v.calls = false ∧
    (v.tree.present p = true → W.fault (v.calls + 1) = false ∧
      (v.tree.dirs p = false → W.fault (v.calls + 2) = false →
        ∀ b, v.tree.files p = some b → (PyText.decodeUtf8 b).isSome = true))

def Foreseen (W : Workspace) : Planning × Volume → Patch → Prop
  | (.planned virtual, v), patch =>
    patch.file.text ≠ [] → ∃ joined, W.resolve patch.file.text = some joined ∧
      (joined ≠ W.root → W.root <+: joined → virtual.get? joined = none → Readable W v joined)
  | _, _ => True

variable {v v' : Volume} {virtual : OrderedMap Path Entry} {patch : Patch}

theorem ensureEntry_known {p : Path} {e : Entry} (h : virtual.get? p = some e) :
    ensureEntry W virtual p v = (.entry e, v) := by
  unfold ensureEntry
  rw [h]

theorem pathExists_eq (p : Path) : v.pathExists W p =
    (if W.fault v.calls then none else some (v.tree.present p), (v.call W).2) := rfl

theorem isDir_eq (p : Path) : v.isDir W p =
    (if W.fault v.calls then none else some (v.tree.dirs p), (v.call W).2) := rfl

theorem readText_cases (p : Path) : ∃ result, v.readText W p = (result, (v.call W).2) ∧
    (result = .undecodable ↔ ¬ (W.fault v.calls = false →
      ∀ b, v.tree.files p = some b → (PyText.decodeUtf8 b).isSome = true)) := by
  unfold Volume.readText Volume.call
  dsimp only
  cases hread : W.fault v.calls with
  | true => exact ⟨.osError, rfl, by simp⟩
  | false =>
    cases hfile : v.tree.files p with
    | none => exact ⟨.osError, rfl, by simp⟩
    | some b =>
      cases hdec : PyText.decodeUtf8 b with
      | none => exact ⟨.undecodable, by simp [hdec], by simp [hdec]⟩
      | some text => exact ⟨.text text.universalNewlines, by simp [hdec], by simp [hdec]⟩

/-- **What `_ensure_entry` finds at a new path**: it only looks. -/
theorem ensureEntry_new {p : Path} (h : virtual.get? p = none) :
    ∃ found v', ensureEntry W virtual p v = (found, v') ∧ v'.tree = v.tree ∧
      v'.drawn = v.drawn ∧ (found = .raised ↔ ¬ Readable W v p) ∧
      ∀ e, found = .entry e → e.path = p := by
  unfold ensureEntry Readable
  rw [h]
  simp only
  rw [pathExists_eq]
  cases hexists : W.fault v.calls with
  | true => exact ⟨_, _, rfl, rfl, rfl, by simp, by simp⟩
  | false =>
    cases hpresent : v.tree.present p with
    | false => exact ⟨_, _, rfl, rfl, rfl, by simp, fun e he => by cases he; rfl⟩
    | true =>
      simp only [Bool.false_eq_true, if_false]
      have hcalls : (v.call W).2.calls = v.calls + 1 := rfl
      rw [isDir_eq, hcalls]
      cases hisdir : W.fault (v.calls + 1) with
      | true => exact ⟨_, _, rfl, rfl, rfl, by simp, by simp⟩
      | false =>
        have htree : (v.call W).2.tree = v.tree := rfl
        rw [htree]
        cases hdir : v.tree.dirs p with
        | true => exact ⟨_, _, rfl, rfl, rfl, by simp, by simp⟩
        | false =>
          simp only [Bool.false_eq_true, if_false]
          obtain ⟨result, hread, hresult⟩ := readText_cases (W := W) (v := ((v.call W).2.call W).2) p
          have hbad : result = .undecodable ↔ ¬ (W.fault (v.calls + 2) = false →
              ∀ b, v.tree.files p = some b → (PyText.decodeUtf8 b).isSome = true) := hresult
          rw [hread]
          cases result with
          | osError => exact ⟨_, _, rfl, rfl, rfl, by simpa using hbad, by simp⟩
          | undecodable => exact ⟨_, _, rfl, rfl, rfl, by simpa using hbad, by simp⟩
          | text => exact ⟨_, _, rfl, rfl, rfl, by simpa using hbad, fun e he => by cases he; rfl⟩

theorem resolve_eq : resolveWorkspaceTarget W patch.file.text =
    if patch.file.text = [] then some none
    else (W.resolve patch.file.text).map fun joined =>
      if joined = W.root then none
      else if W.root <+: joined then some joined else none := by
  unfold resolveWorkspaceTarget
  rw [patch.file.trim]
  dsimp only
  split
  · rfl
  · cases W.resolve patch.file.text with
    | none => rfl
    | some joined =>
      simp only [Option.map_some]
      split
      · rfl
      · split <;> rfl

theorem applyOp_path {e e' : Entry} {op : PatchOp} (h : applyOp e op = .ok e') :
    e'.path = e.path := by
  cases op with
  | createFile content =>
    simp only [applyOp] at h
    split at h
    · cases h
    · cases h
      rfl
  | deleteFile =>
    simp only [applyOp] at h
    split at h
    · cases h
    · cases h
      rfl
  | replaceRange startLine endLine content =>
    simp only [applyOp] at h
    split at h
    · cases h
    · cases hcur : e.content with
      | none =>
        rw [hcur] at h
        cases h
      | some current =>
        rw [hcur] at h
        simp only at h
        split at h
        · cases h
        · cases h
          rfl

/-- **One patch of a plan**: it only looks, raises just when it is not foreseen, and plans
for the path of its file. -/
theorem planPatch_spec (virtual : OrderedMap Path Entry) (v : Volume) (patch : Patch) :
    ∃ next v', planPatch W (.planned virtual, v) patch = (next, v') ∧ v'.tree = v.tree ∧
      v'.drawn = v.drawn ∧ (next = .raised ↔ ¬ Foreseen W (.planned virtual, v) patch) ∧
      ∀ virtual', next = .planned virtual' → ∃ p e, W.resolve patch.file.text = some p ∧
        virtual' = virtual.set p e ∧
        (e.path = p ∨ ∃ known, virtual.get? p = some known ∧ e.path = known.path) := by
  simp only [planPatch, Foreseen]
  rw [resolve_eq]
  by_cases hempty : patch.file.text = []
  · exact ⟨_, _, by simp [hempty]; rfl, rfl, rfl, by simp [hempty], by simp⟩
  rw [if_neg hempty]
  cases hresolve : W.resolve patch.file.text with
  | none => exact ⟨_, _, rfl, rfl, rfl, by simp [hempty], by simp⟩
  | some joined =>
    simp only [Option.map_some]
    by_cases hroot : joined = W.root
    · exact ⟨_, _, by simp [hroot]; rfl, rfl, rfl, by simp [hroot], by simp⟩
    by_cases hunder : W.root <+: joined
    swap
    · exact ⟨_, _, by simp [hroot, hunder]; rfl, rfl, rfl, by simp [hunder], by simp⟩
    rw [if_neg hroot, if_pos hunder]
    simp only
    -- the entry, which is known or is made now
    have hentry : ∃ found v', ensureEntry W virtual joined v = (found, v') ∧ v'.tree = v.tree ∧
        v'.drawn = v.drawn ∧
        (found = .raised ↔ ¬ (virtual.get? joined = none → Readable W v joined)) ∧
        ∀ e, found = .entry e → e.path = joined ∨ virtual.get? joined = some e := by
      cases hget : virtual.get? joined with
      | some known =>
        refine ⟨_, _, ensureEntry_known hget, rfl, rfl, by simp, ?_⟩
        intro e he
        cases he
        exact Or.inr rfl
      | none =>
        obtain ⟨found, v', heq, htree, hdrawn, hraised, hpath⟩ :=
          ensureEntry_new (W := W) (v := v) hget
        exact ⟨found, v', heq, htree, hdrawn, by simpa using hraised, fun e he => Or.inl (hpath e he)⟩
    obtain ⟨found, v', heq, htree, hdrawn, hraised, hpath⟩ := hentry
    have hforeseen : (patch.file.text ≠ [] → ∃ joined', some joined = some joined' ∧
        (joined' ≠ W.root → W.root <+: joined' → virtual.get? joined' = none →
          Readable W v joined')) ↔ (virtual.get? joined = none → Readable W v joined) := by
      constructor
      · intro h
        obtain ⟨joined', hsame, h⟩ := h hempty
        cases hsame
        exact h hroot hunder
      · intro h _
        exact ⟨joined, rfl, fun _ _ => h⟩
    rw [heq, hforeseen]
    cases found with
    | raised => exact ⟨_, _, rfl, htree, hdrawn, by simpa using hraised, by simp⟩
    | refused reason => exact ⟨_, _, rfl, htree, hdrawn, by simpa using hraised, by simp⟩
    | entry e =>
      simp only
      cases hop : applyOp e patch.op with
      | error reason => exact ⟨_, _, rfl, htree, hdrawn, by simpa using hraised, by simp⟩
      | ok e' =>
        refine ⟨_, _, rfl, htree, hdrawn, by simpa using hraised, ?_⟩
        intro virtual' hnext
        cases hnext
        refine ⟨joined, e', rfl, rfl, ?_⟩
        have hsame := applyOp_path hop
        rcases hpath e rfl with hnew | hold
        · exact Or.inl (hsame.trans hnew)
        · exact Or.inr ⟨e, hold, hsame⟩

/-- What planning does up to some patch: it touches no file, and plans for the targets
of patches, at most one for each. -/
structure PlanInv (W : Workspace) (patches : List Patch) (v₀ : Volume) (count : ℕ)
    (state : Planning × Volume) : Prop where
  tree : state.2.tree = v₀.tree
  drawn : state.2.drawn = v₀.drawn
  count : ∀ virtual, state.1 = .planned virtual → virtual.entries.length ≤ count
  targets : ∀ virtual, state.1 = .planned virtual → ∀ p e, virtual.get? p = some e →
    e.path = p ∧ ∃ patch ∈ patches, W.resolve patch.file.text = some p

variable {patches : List Patch} {v₀ : Volume} {count : ℕ} {state : Planning × Volume}

theorem planInv_step (h : PlanInv W patches v₀ count state) (hin : patch ∈ patches) :
    PlanInv W patches v₀ (count + 1) (planPatch W state patch) := by
  obtain ⟨stage, v⟩ := state
  cases stage with
  | refused reason id => exact ⟨h.tree, h.drawn, by simp [planPatch], by simp [planPatch]⟩
  | raised => exact ⟨h.tree, h.drawn, by simp [planPatch], by simp [planPatch]⟩
  | planned virtual =>
    obtain ⟨next, v', heq, htree, hdrawn, -, hnext⟩ := planPatch_spec (W := W) virtual v patch
    rw [heq]
    refine ⟨htree.trans h.tree, hdrawn.trans h.drawn, ?_, ?_⟩
    · intro virtual' hplanned
      obtain ⟨p, e, -, rfl, -⟩ := hnext virtual' hplanned
      have hle := h.count virtual rfl
      have hset := virtual.length_set_le p e
      omega
    · intro virtual' hplanned q e' hget
      obtain ⟨p, e, hresolve, rfl, hpath⟩ := hnext virtual' hplanned
      rw [OrderedMap.get?_set] at hget
      by_cases hq : q = p
      · rw [if_pos hq] at hget
        cases hget
        rw [hq]
        refine ⟨?_, patch, hin, hresolve⟩
        rcases hpath with hpath | ⟨known, hknown, hpath⟩
        · exact hpath
        · exact hpath.trans (h.targets virtual rfl p known hknown).1
      · rw [if_neg hq] at hget
        exact h.targets virtual rfl q e' hget

theorem planInv_start (patches : List Patch) (v : Volume) :
    PlanInv W patches v 0 (.planned .empty, v) := by
  refine ⟨rfl, rfl, ?_, ?_⟩
  · intro virtual hempty
    cases hempty
    exact le_refl _
  · intro virtual hempty p e hget
    cases hempty
    cases hget

/-- **Planning** as a whole. -/
theorem planInv_run {more : List Patch} (h : PlanInv W patches v₀ count state)
    (hin : ∀ patch ∈ more, patch ∈ patches) :
    PlanInv W patches v₀ (count + more.length) (more.foldl (planPatch W) state) := by
  induction more generalizing state count with
  | nil => exact h
  | cons patch rest ih =>
    have hnext := ih (planInv_step h (hin patch List.mem_cons_self))
      fun q hq => hin q (List.mem_cons_of_mem _ hq)
    rw [List.length_cons, List.foldl_cons]
    rwa [Nat.add_assoc, Nat.add_comm 1] at hnext

/-- **An exception escapes from planning** just when a step is not foreseen. -/
theorem plan_raised (hstate : state.1 ≠ .raised) :
    (patches.foldl (planPatch W) state).1 = .raised ↔
      ¬ Machine.Guarded (planPatch W) (Foreseen W) state patches := by
  induction patches generalizing state with
  | nil => exact ⟨fun h => absurd h hstate, fun h => absurd trivial h⟩
  | cons patch rest ih =>
    obtain ⟨stage, v⟩ := state
    rw [List.foldl_cons]
    cases stage with
    | raised => exact absurd rfl hstate
    | refused reason id =>
      rw [show planPatch W (.refused reason id, v) patch = (.refused reason id, v) from rfl,
        ih (by simp)]
      simp only [Machine.Guarded, Foreseen, true_and]
      rfl
    | planned virtual =>
      obtain ⟨next, v', heq, -, -, hraised, -⟩ := planPatch_spec (W := W) virtual v patch
      simp only [Machine.Guarded, heq]
      by_cases hnext : next = .raised
      · have hstays : (rest.foldl (planPatch W) (.raised, v')).1 = .raised := by
          clear ih
          induction rest with
          | nil => rfl
          | cons q rest ih => exact ih
        rw [hnext]
        exact ⟨fun _ hall => hraised.1 hnext hall.1, fun _ => hstays⟩
      · rw [ih hnext]
        have hok : Foreseen W (.planned virtual, v) patch := by
          by_contra hnot
          exact hnext (hraised.2 hnot)
        simp only [hok, true_and]

theorem collectPlan_spec {entries : List Entry} {plan : Plan} (h : collectPlan entries = some plan) :
    (∀ p ∈ plan.paths, ∃ e ∈ entries, e.path = p) ∧
      plan.writes.length + plan.deletes.length ≤ entries.length := by
  induction entries generalizing plan with
  | nil =>
    cases h
    refine ⟨?_, le_refl _⟩
    intro p hp
    cases hp
  | cons entry rest ih =>
    unfold collectPlan at h
    cases hrest : collectPlan rest with
    | none =>
      rw [hrest] at h
      cases h
    | some more =>
      obtain ⟨hpaths, hlen⟩ := ih hrest
      have hlater : ∀ p ∈ more.paths, ∃ e ∈ entry :: rest, e.path = p := by
        intro p hp
        obtain ⟨e, he, hep⟩ := hpaths p hp
        exact ⟨e, List.mem_cons_of_mem _ he, hep⟩
      have hfirst : ∃ e ∈ entry :: rest, e.path = entry.path := ⟨entry, List.mem_cons_self, rfl⟩
      rw [hrest] at h
      simp only at h
      rw [List.length_cons]
      split at h
      · obtain ⟨content, -, rfl⟩ := Option.map_eq_some_iff.1 h
        refine ⟨?_, by simp only [List.length_cons]; omega⟩
        intro p hp
        rcases List.mem_cons.1 hp with rfl | hp
        · exact hfirst
        · exact hlater p hp
      · split at h
        · cases h
          refine ⟨?_, by simp only [List.length_cons]; omega⟩
          intro p hp
          rcases List.mem_append.1 hp with hp | hp
          · exact hlater p (List.mem_append_left _ hp)
          · rcases List.mem_cons.1 hp with rfl | hp
            · exact hfirst
            · exact hlater p (List.mem_append_right _ hp)
        · cases h
          exact ⟨hlater, by omega⟩

/-- The uuids of this request are all different, and in no path that is there or that
its patches name. -/
structure FreshNames (W : Workspace) (v : Volume) (patches : List Patch) : Prop where
  distinct : W.Distinct v.drawn (v.drawn + 2 * patches.length)
  tree : ∀ p, v.tree.present p = true → ¬ W.Marked v.drawn (v.drawn + 2 * patches.length) p
  targets : ∀ patch ∈ patches, ∀ p, W.resolve patch.file.text = some p →
    ¬ W.Marked v.drawn (v.drawn + 2 * patches.length) p

/-- Planning raises nothing that nobody catches, and every temporary file that is opened
is written. -/
structure Sheltered (W : Workspace) (v : Volume) (patches : List Patch) : Prop where
  planning : Machine.Guarded (planPatch W) (Foreseen W) (.planned .empty, v) patches
  staging : ∀ virtual v' plan,
    Machine.run (planPatch W) (.planned .empty, v) patches = (.planned virtual, v') →
      collectPlan virtual.values = some plan → Written W plan.writes v'

/-- **How the application of patches ends**: with an exception, with success, or with a
failure, after which the files are as before just when all was sheltered. -/
theorem applyPatches_spec (hfresh : FreshNames W v patches) :
    ∃ outcome v', applyPatchesTo W patches v = (outcome, v') ∧
      ((outcome = .raised ∧ ¬ Sheltered W v patches) ∨
        (outcome = .applied ∧ Sheltered W v patches) ∨
        (((∃ reason id, outcome = .refused reason id) ∨ ∃ reason, outcome = .rolledBack reason) ∧
          (v'.tree.files = v.tree.files ↔ Sheltered W v patches))) := by
  have hplan := planInv_run (planInv_start (W := W) patches v) fun patch hin => hin
  have hraised : (patches.foldl (planPatch W) (.planned .empty, v)).1 = .raised ↔
      ¬ Machine.Guarded (planPatch W) (Foreseen W) (.planned .empty, v) patches :=
    plan_raised (by simp)
  unfold applyPatchesTo
  rcases hrun : patches.foldl (planPatch W) (.planned .empty, v) with ⟨stage, v₁⟩
  rw [hrun] at hplan hraised
  have hfold : ∀ virtual v', Machine.run (planPatch W) (.planned .empty, v) patches =
      (.planned virtual, v') → (Planning.planned virtual, v') = (stage, v₁) :=
    fun virtual v' h => h.symm.trans hrun
  cases stage with
  | raised =>
    refine ⟨_, _, rfl, Or.inl ⟨rfl, ?_⟩⟩
    exact fun hall => hraised.1 rfl hall.planning
  | refused reason id =>
    have hplanning := not_not.1 (mt hraised.2 (by simp))
    refine ⟨_, _, rfl, Or.inr (Or.inr ⟨Or.inl ⟨_, _, rfl⟩, ?_⟩)⟩
    refine iff_of_true (by rw [hplan.tree]) ⟨hplanning, ?_⟩
    intro virtual v' plan hends
    cases hfold virtual v' hends
  | planned virtual =>
    have hplanning := not_not.1 (mt hraised.2 (by simp))
    have hvalues : ∀ e ∈ virtual.values,
        ∃ patch ∈ patches, W.resolve patch.file.text = some e.path := by
      intro e he
      obtain ⟨p, hget⟩ := OrderedMap.mem_values.1 he
      obtain ⟨hpath, hresolve⟩ := hplan.targets virtual rfl p e hget
      rw [hpath]
      exact hresolve
    have hcount : virtual.values.length ≤ patches.length := by
      have hle := hplan.count virtual rfl
      show (virtual.entries.map Prod.snd).length ≤ _
      rw [List.length_map]
      omega
    cases hcollect : collectPlan virtual.values with
    | none =>
      simp only [hcollect]
      refine ⟨_, _, rfl, Or.inr (Or.inr ⟨Or.inl ⟨_, _, rfl⟩, ?_⟩)⟩
      refine iff_of_true (by rw [hplan.tree]) ⟨hplanning, ?_⟩
      intro virtual' v' plan hends hcollect'
      cases hfold virtual' v' hends
      rw [hcollect] at hcollect'
      cases hcollect'
    | some plan =>
      obtain ⟨hpaths, hlen⟩ := collectPlan_spec hcollect
      have htree : v₁.tree = v.tree := hplan.tree
      have hdrawn : v₁.drawn = v.drawn := hplan.drawn
      have hground : Ground W v₁.drawn (v.drawn + 2 * patches.length) v₁.tree.files plan.paths := by
        rw [htree, hdrawn]
        refine ⟨hfresh.distinct, fun p hp => hfresh.tree p (present_of_files hp), ?_⟩
        intro p hp
        obtain ⟨e, he, rfl⟩ := hpaths p hp
        obtain ⟨patch, hin, hresolve⟩ := hvalues e he
        exact hfresh.targets patch hin _ hresolve
      have hfree : ∀ p, v₁.tree.present p = true →
          ¬ W.Marked v₁.drawn (v.drawn + 2 * patches.length) p := by
        rw [htree, hdrawn]
        exact hfresh.tree
      have hroom : v₁.drawn + (plan.writes.length + plan.paths.length) ≤
          v.drawn + 2 * patches.length := by
        have hpathlen : plan.paths.length = plan.writes.length + plan.deletes.length := by
          unfold Plan.paths
          rw [List.length_append, List.length_map]
        omega
      have hsheltered : Sheltered W v patches ↔ Written W plan.writes v₁ := by
        constructor
        · exact fun hall => hall.staging virtual v₁ plan hrun hcollect
        · refine fun hwritten => ⟨hplanning, ?_⟩
          intro virtual' v' plan' hends hcollect'
          cases hfold virtual' v' hends
          rw [hcollect] at hcollect'
          cases hcollect'
          exact hwritten
      rcases hcommit : commitAtomicPatchPlan W plan v₁ with ⟨failure, v₂⟩
      obtain ⟨hsame, hdiffers⟩ := commit_undone hground hfree hroom hcommit
      rw [htree] at hsame hdiffers
      simp only [hcollect, hcommit]
      cases failure with
      | none =>
        refine ⟨_, _, rfl, Or.inr (Or.inl ⟨rfl, hsheltered.2 ?_⟩)⟩
        by_contra hnot
        exact (hdiffers hnot).1 rfl
      | some failure =>
        refine ⟨_, _, rfl, Or.inr (Or.inr ⟨Or.inr ⟨_, rfl⟩, ?_⟩)⟩
        rw [hsheltered]
        constructor
        · intro hfiles
          by_contra hnot
          exact (hdiffers hnot).2 hfiles
        · exact fun hwritten => hsame hwritten (by simp)

section Request

variable {H : Host Volume} {body : PyDict} {s : Server}

def requestedPatches (H : Host Volume) (body : PyDict) (s : Server) : Option (List Patch) :=
  match admitExecution H.reprOf .patch body s.ledger with
  | .error _ => none
  | .ok (_, _, request) => extractRequestPatches request

def reportsSuccess : Option Reply → Bool
  | some (.outcome _ result _) => result.status = .applied
  | _ => false

def Followed (attempt : OperationRecord) (later : List OperationRecord) : Prop :=
  ∃ result reconciliation rest, later = result :: reconciliation :: rest ∧
    result.operationType = .applyResult .patch ∧
    result.parentOperationId = some attempt.operationId ∧
    reconciliation.operationType = .executionReconciliation ∧
    reconciliation.reconcilesOperationId = some result.operationId

/-- **An execution request is all or nothing**: unless it reports success every file is
as before, and each attempt row that it writes is followed by the rows that conclude it. -/
structure AllOrNothing (H : Host Volume) (body : PyDict) (s : Server) (v : Volume) : Prop where
  files : reportsSuccess (handlePatchExecution H body s v).1 = false →
    (handlePatchExecution H body s v).2.2.tree.files = v.tree.files
  rows : ∀ added, (handlePatchExecution H body s v).2.1.ledger = s.ledger ++ added →
    ∀ A attempt B, added = A ++ attempt :: B →
      attempt.operationType = .applyAttempt .patch → Followed attempt B

theorem followed_conclude {k : ℕ → ℚ} {x : Execution} (hx : x.t = .patch) (details : Details)
    (status : LifecycleStatus) (more : Details) {added : List OperationRecord}
    (hadded : (x.conclude k status more (s.record k (x.attempt details)).1
      (s.record k (x.attempt details)).2).2.ledger = s.ledger ++ added) {A B : List OperationRecord}
    {attempt : OperationRecord} (hsplit : added = A ++ attempt :: B)
    (hattempt : attempt.operationType = .applyAttempt .patch) : Followed attempt B := by
  unfold Execution.conclude at hadded
  simp only [ledger_record, List.append_assoc, List.cons_append, List.nil_append] at hadded
  have hrows := List.append_cancel_left hadded
  rw [hsplit] at hrows
  -- only the first of the three rows is an attempt
  rcases A with _ | ⟨a, _ | ⟨b, _ | ⟨c, A⟩⟩⟩
  · obtain ⟨rfl, rfl⟩ := List.cons.inj hrows
    refine ⟨_, _, _, rfl, ?_, rfl, rfl, rfl⟩
    show OperationType.applyResult x.t = _
    rw [hx]
  · obtain ⟨-, hrows⟩ := List.cons.inj hrows
    obtain ⟨rfl, -⟩ := List.cons.inj hrows
    cases hattempt
  · obtain ⟨-, hrows⟩ := List.cons.inj hrows
    obtain ⟨-, hrows⟩ := List.cons.inj hrows
    obtain ⟨rfl, -⟩ := List.cons.inj hrows
    cases hattempt
  · simp at hrows

/-- **A patch execution is all or nothing just when it is sheltered**: no exception
escapes from planning, and no temporary file is opened and then not written. -/
theorem all_or_nothing (hH : H.applyPatches = applyPatchesTo W)
    (hfresh : ∀ patches, requestedPatches H body s = some patches → FreshNames W v patches) :
    AllOrNothing H body s v ↔
      ∀ patches, requestedPatches H body s = some patches → Sheltered W v patches := by
  have hfiles : AllOrNothing H body s v ↔ _ := ⟨fun h => And.intro h.files h.rows, fun h => ⟨h.1, h.2⟩⟩
  rw [hfiles]
  unfold requestedPatches at hfresh ⊢
  unfold handlePatchExecution
  cases hfound : admitExecution H.reprOf .patch body s.ledger with
  | error reply =>
    refine iff_of_true ⟨fun _ => rfl, ?_⟩ (fun patches hnone => by cases hnone)
    intro added hadded A attempt B hsplit
    have hnil : added = [] := by simpa using hadded
    rw [hnil] at hsplit
    simp at hsplit
  | ok found =>
    obtain ⟨id, actor, request⟩ := found
    rw [hfound] at hfresh
    simp only at hfresh ⊢
    cases hextract : extractRequestPatches request with
    | none =>
      refine iff_of_true ⟨fun _ => rfl, ?_⟩ (fun patches hnone => by cases hnone)
      intro added hadded A attempt B hsplit hattempt
      exact followed_conclude (by rfl) _ _ _ hadded hsplit hattempt
    | some patches =>
      obtain ⟨outcome, v', happly, hends⟩ := applyPatches_spec (hfresh patches hextract)
      have hiff : (∀ ps, some patches = some ps → Sheltered W v ps) ↔ Sheltered W v patches :=
        ⟨fun h => h patches rfl, fun h ps hps => by cases hps; exact h⟩
      rw [hiff]
      simp only [hH, happly]
      rcases hends with ⟨rfl, hnot⟩ | ⟨rfl, hall⟩ | ⟨hfailed, hsame⟩
      · -- the attempt row stays alone
        refine iff_of_false (fun h => ?_) hnot
        obtain ⟨result, reconciliation, rest, hnil, -⟩ := h.2 _ rfl [] _ [] rfl rfl
        cases hnil
      · refine iff_of_true ⟨fun hno => ?_, ?_⟩ hall
        · simp [reportsSuccess, concludePatches, Execution.conclude, PatchOutcome.failure,
            Server.record, Draft.row, Execution.result] at hno
        · intro added hadded A attempt B hsplit hattempt
          exact followed_conclude (by rfl) _ _ _ hadded hsplit hattempt
      · -- a failure is reported, and its rows are all there
        have hreply : ∀ (x : Execution) attempt s',
            reportsSuccess (some (concludePatches H.clock x patches attempt outcome s').1) =
              false := by
          intro x attempt s'
          rcases hfailed with ⟨reason, failed, rfl⟩ | ⟨reason, rfl⟩ <;>
            simp [reportsSuccess, concludePatches, Execution.conclude, PatchOutcome.failure,
              Server.record, Draft.row, Execution.result]
        rcases hfailed with ⟨reason, failed, rfl⟩ | ⟨reason, rfl⟩
        · refine ⟨fun h => hsame.1 (h.1 (hreply _ _ _)), fun hall => ⟨fun _ => hsame.2 hall, ?_⟩⟩
          intro added hadded A attempt B hsplit hattempt
          exact followed_conclude (by rfl) _ _ _ hadded hsplit hattempt
        · refine ⟨fun h => hsame.1 (h.1 (hreply _ _ _)), fun hall => ⟨fun _ => hsame.2 hall, ?_⟩⟩
          intro added hadded A attempt B hsplit hattempt
          exact followed_conclude (by rfl) _ _ _ hadded hsplit hattempt

/-- A workspace `/ws` where the calls of these numbers fail. -/
def Workspace.small (fault : ℕ → Bool) : Workspace where
  root := [lit "ws"]
  resolve file := some [lit "ws", file]
  fault
  made _ _ := true
  written _ := []
  uuid n := PyText.padded 32 n

/-- A volume with this directory, and these bytes in `a.txt`. -/
def Volume.small (file : Option Bytes) : Volume where
  tree := { files := fun p => if p = [lit "ws", lit "a.txt"] then file else none
            dirs := fun p => p = [] ∨ p = [lit "ws"] }
  calls := 0
  drawn := 0

def Host.small (W : Workspace) : Host Volume where
  reprOf _ := []
  clock n := n
  ingestInput _ w := (.ok (lit "INTENT_1"), w)
  dispatchInputIntent _ w := (.ok { ok := true, intentId := none }, w)
  pendingTool _ := none
  applyPatches := applyPatchesTo W
  registry := { known := fun _ => true, argumentErrors := fun _ _ => false
                execute := fun _ _ w => (true, w) }

def approvedServer (W : Workspace) (body : PyDict) : Server :=
  (Machine.run (serve (Host.small W)) (Site.initial (.small none))
    [.ideExecute body, .decision .patch approval]).server

def smallPatch (content : PyText) : Patch where
  patchId := .of (lit "PATCH_001")
  file := .of (lit "a.txt")
  op := .createFile content

theorem small_fresh (fault : ℕ → Bool) (file : Option Bytes) (content : PyText) :
    FreshNames (.small fault) (.small file) [smallPatch content] := by
  have hlong : ∀ n < 2, (PyText.padded 32 n).length = 32 := by decide +kernel
  have hdigits : ∀ m < 2, ∀ n < 2, PyText.padded 32 m = PyText.padded 32 n → m = n := by
    decide +kernel
  -- no component of a path here is as long as a uuid
  have hshort : ∀ p : Path, (∀ c ∈ p, c.length < 32) →
      ¬ (Workspace.small fault).Marked 0 2 p := by
    rintro p hp ⟨n, -, hn, c, hc, hend⟩
    have hle : (PyText.padded 32 n).length ≤ c.length := hend.length_le
    have hlt := hp c hc
    rw [hlong n hn] at hle
    omega
  have hpath : ∀ c ∈ [lit "ws", lit "a.txt"], c.length < 32 := by decide +kernel
  refine ⟨⟨fun n _ hn => hlong n hn, fun m n _ hm _ hn => hdigits m hm n hn⟩, ?_, ?_⟩
  · intro p hp
    apply hshort
    have hcases : p = [lit "ws", lit "a.txt"] ∨ p = [] ∨ p = [lit "ws"] := by
      unfold FileTree.present Volume.small at hp
      by_cases hfile : p = [lit "ws", lit "a.txt"]
      · exact Or.inl hfile
      · simpa [hfile] using hp
    rcases hcases with rfl | rfl | rfl
    · exact hpath
    · intro c hc
      cases hc
    · exact fun c hc => hpath c (List.mem_of_mem_head? (List.mem_singleton.1 hc ▸ rfl))
  · intro patch hpatch p hresolve
    rw [List.mem_singleton.1 hpatch] at hresolve
    apply hshort
    cases hresolve
    have hfile : (Stripped.of (lit "a.txt")).text = lit "a.txt" := by decide +kernel
    show ∀ c ∈ [lit "ws", (Stripped.of (lit "a.txt")).text], c.length < 32
    rw [hfile]
    exact hpath

def createFile (content : PyText) : PyDict :=
  [(lit "instruction", .str (lit "write it")), (lit "execute", .bool false),
    (lit "patches", .list [.dict [(lit "op", .str (lit "create_file")),
      (lit "file", .str (lit "a.txt")), (lit "content", .str content)]])]

theorem small_freshRequest {fault : ℕ → Bool} {content : PyText} (file : Option Bytes)
    (h : requestedPatches (.small (.small fault)) execution
      (approvedServer (.small fault) (createFile content)) = some [smallPatch content]) :
    ∀ patches, requestedPatches (.small (.small fault)) execution
      (approvedServer (.small fault) (createFile content)) = some patches →
        FreshNames (.small fault) (.small file) patches := by
  intro patches hpatches
  rw [h] at hpatches
  cases hpatches
  exact small_fresh _ _ _

/-- **A rename that fails at the activation is undone**: the files of the execution are
those before it. -/
theorem lateFault_undone :
    AllOrNothing (.small (.small (· = 5))) execution
      (approvedServer (.small (· = 5)) (createFile (lit "text"))) (.small none) := by
  have hrequested : requestedPatches (.small (.small (· = 5))) execution
      (approvedServer (.small (· = 5)) (createFile (lit "text"))) =
        some [smallPatch (lit "text")] := by decide +kernel
  refine (all_or_nothing rfl (small_freshRequest none hrequested)).2 ?_
  intro patches hpatches
  rw [hrequested] at hpatches
  cases hpatches
  refine ⟨⟨fun _ => ⟨_, rfl, fun _ _ _ => ⟨by decide, fun hpresent => ?_⟩⟩, trivial⟩, ?_⟩
  · have habsent : (Volume.small none).tree.present [lit "ws", (smallPatch (lit "text")).file.text] =
        false := by decide +kernel
    rw [habsent] at hpresent
    cases hpresent
  · intro virtual v' plan hrun hcollect
    have hplanned : Machine.run (planPatch (.small (· = 5))) (.planned .empty, .small none)
        [smallPatch (lit "text")] = (.planned (OrderedMap.empty.set [lit "ws", lit "a.txt"]
          ⟨[lit "ws", lit "a.txt"], false, true, some (lit "text")⟩),
          { Volume.small none with calls := 1 }) := by rfl
    rw [hplanned] at hrun
    cases hrun
    have hplan : collectPlan (OrderedMap.empty.set [lit "ws", lit "a.txt"]
        (⟨[lit "ws", lit "a.txt"], false, true, some (lit "text")⟩ : Entry)).values =
          some ⟨[([lit "ws", lit "a.txt"], lit "text")], []⟩ := by rfl
    rw [hplan] at hcollect
    cases hcollect
    apply And.intro
    · exact fun _ => ⟨by decide +kernel, by decide⟩
    · exact fun _ => trivial

/-- **A content that cannot be encoded leaves a file behind, and a file that cannot be
decoded leaves an attempt alone.** -/
theorem surrogate_leaves_file :
    (¬ ∀ (W : Workspace) (H : Host Volume) body s v, H.applyPatches = applyPatchesTo W →
      (∀ patches, requestedPatches H body s = some patches → FreshNames W v patches) →
      reportsSuccess (handlePatchExecution H body s v).1 = false →
      (handlePatchExecution H body s v).2.2.tree.files = v.tree.files) ∧
    ¬ ∀ (W : Workspace) (H : Host Volume) body s v, H.applyPatches = applyPatchesTo W →
      (∀ patches, requestedPatches H body s = some patches → FreshNames W v patches) →
      ∀ added, (handlePatchExecution H body s v).2.1.ledger = s.ledger ++ added →
        ∀ A attempt B, added = A ++ attempt :: B →
          attempt.operationType = .applyAttempt .patch → Followed attempt B := by
  refine ⟨?_, ?_⟩
  · intro h
    have hrequested : requestedPatches (.small (.small fun _ => false)) execution
        (approvedServer (.small fun _ => false) (createFile [0xD800])) =
          some [smallPatch [0xD800]] := by decide +kernel
    have hsame := h (.small fun _ => false) (.small (.small fun _ => false)) execution
      (approvedServer (.small fun _ => false) (createFile [0xD800])) (.small none) rfl
      (small_freshRequest none hrequested) (by decide +kernel)
    have hleft := congrFun hsame
      [lit "ws", lit ".a.txt.bh_tmp_00000000000000000000000000000000"]
    revert hleft
    decide +kernel
  · intro h
    have hrequested : requestedPatches (.small (.small fun _ => false)) execution
        (approvedServer (.small fun _ => false) (createFile (lit "text"))) =
          some [smallPatch (lit "text")] := by decide +kernel
    have hgrown : Grown .any (approvedServer (.small fun _ => false) (createFile (lit "text"))).ledger
        (handlePatchExecution (.small (.small fun _ => false)) execution
          (approvedServer (.small fun _ => false) (createFile (lit "text")))
          (.small (some [0xFF]))).2.1.ledger := patchExecution_grows fun _ _ _ _ => trivial
    obtain ⟨added, hadded⟩ := hgrown.extends
    have hrows := h (.small fun _ => false) (.small (.small fun _ => false)) execution
      (approvedServer (.small fun _ => false) (createFile (lit "text"))) (.small (some [0xFF])) rfl
      (small_freshRequest _ hrequested) added hadded.symm
    have htypes : added.map (·.operationType) = [.applyAttempt .patch] := by
      have hdrop := congrArg (List.drop
        (approvedServer (.small fun _ => false) (createFile (lit "text"))).ledger.length) hadded
      rw [List.drop_left] at hdrop
      rw [hdrop]
      decide +kernel
    obtain ⟨attempt, rfl, htype⟩ := List.map_eq_singleton_iff.1 htypes
    obtain ⟨result, reconciliation, rest, hnil, -⟩ := hrows [] attempt [] rfl htype
    cases hnil

end Request

end ClawHarder.Comms
