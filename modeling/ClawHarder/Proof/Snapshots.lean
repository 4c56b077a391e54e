import ClawHarder.Lib.Run
import ClawHarder.Proof.Resources
import ClawHarder.Proof.Rollback

/-!
# Snapshots come back

What `snapshot_state` stores is below a directory that no other operation changes, and
`restore_snapshot` makes the memory, the files and the manifest what they were.

* `restoreSnapshot_brings_back`: **a restore brings back the moment of the snapshot.**
-/

namespace ClawHarder.Resources

open PyText (lit)
open ClawHarder.Runtime (ResourcePath parseResourceId tmpPath)
open ClawHarder.Transactions (MemoryOperation parseCost)
open DirTree (Frame Apart)
open Effectful (Spec Keeps)

variable {h : Host} {s s' s₁ s₂ s₃ : Root}

theorem isSome_setDefault (memory : PyDict) (m : PyText × PyValue) (key : PyText) :
    (PyValue.get? key (setDefault memory m)).isSome =
      ((PyValue.get? key memory).isSome || decide (key = m.1)) := by
  unfold setDefault
  cases hm : PyValue.get? m.1 memory with
  | none =>
    rw [PyValue.get?_set]
    by_cases hk : key = m.1
    · simp [hk]
    · simp [hk]
  | some v =>
    by_cases hk : key = m.1
    · simp [hk, hm]
    · simp [hk]

theorem isSome_defaults (ds memory : PyDict) {key : PyText} (hkey : key ∈ ds.map Prod.fst) :
    (PyValue.get? key (ds.foldl setDefault memory)).isSome = true := by
  have hkeep : ∀ (ds : PyDict) (memory : PyDict), (PyValue.get? key memory).isSome = true →
      (PyValue.get? key (ds.foldl setDefault memory)).isSome = true := by
    intro ds
    induction ds with
    | nil => exact fun _ hm => hm
    | cons d ds ih =>
      intro memory hm
      exact ih _ (by rw [isSome_setDefault, hm, Bool.true_or])
  induction ds generalizing memory with
  | nil => cases hkey
  | cons d ds ih =>
    rw [List.map_cons, List.mem_cons] at hkey
    rcases hkey with rfl | hkey
    · exact hkeep ds _ (by rw [isSome_setDefault, decide_eq_true rfl, Bool.or_true])
    · exact ih _ hkey

theorem defaults_of_isSome {ds memory : PyDict}
    (hall : ∀ d ∈ ds, (PyValue.get? d.1 memory).isSome = true) :
    ds.foldl setDefault memory = memory := by
  induction ds with
  | nil => rfl
  | cons d ds ih =>
    obtain ⟨v, hv⟩ := Option.isSome_iff_exists.1 (hall d List.mem_cons_self)
    have hd : setDefault memory d = memory := by
      unfold setDefault
      rw [hv]
    rw [List.foldl_cons, hd]
    exact ih fun x hx => hall x (List.mem_cons_of_mem d hx)

theorem checkMember_ok {memory : PyDict} {m : PyText × (PyValue → Bool) × String} :
    checkMember memory m = .ok () ↔ (PyValue.get? m.1 memory).any m.2.1 = true := by
  unfold checkMember
  split
  · rename_i hok
    exact iff_of_true rfl hok
  · rename_i hno
    exact iff_of_false (fun heq => by cases heq) hno

theorem normalizeMemory_normal {full : PyDict}
    (hmembers : ∀ d ∈ emptyMemory, (PyValue.get? d.1 full).isSome = true)
    (hcheck : memberTypes.forM (checkMember full) = .ok ()) (old : PyDict) (revision : ℤ) :
    normalizeMemory h (PyValue.set (lit "metadata")
        (.dict (PyValue.set (lit "revision") (.int revision) old))
        (PyValue.set (lit "version") (.int 1) full)) =
      .ok (PyValue.set (lit "metadata")
        (.dict (PyValue.set (lit "revision") (.int revision) old))
        (PyValue.set (lit "version") (.int 1) full)) := by
  generalize hnew : PyValue.set (lit "revision") (.int revision) old = metadata
  generalize hnormal : PyValue.set (lit "metadata") (.dict metadata)
    (PyValue.set (lit "version") (.int 1) full) = normal
  have hget : ∀ key, PyValue.get? key normal =
      if key = lit "metadata" then some (.dict metadata)
      else if key = lit "version" then some (.int 1) else PyValue.get? key full := by
    intro key
    rw [← hnormal, PyValue.get?_set, PyValue.get?_set]
  have hmetadata : PyValue.get? (lit "metadata") normal = some (.dict metadata) := by
    rw [hget, if_pos rfl]
  -- every member is there
  have hdefaults : emptyMemory.foldl setDefault normal = normal := by
    refine defaults_of_isSome fun d hd => ?_
    have hfull := hmembers d hd
    rw [hget]
    split
    · rfl
    · split
      · rfl
      · exact hfull
  have hchecked : memberTypes.forM (checkMember normal) = .ok () := by
    refine Effectful.forM_eq_ok_iff.2 fun m hm => checkMember_ok.2 ?_
    have hold := checkMember_ok.1 (Effectful.forM_eq_ok_iff.1 hcheck m hm)
    rw [hget]
    by_cases hkey : m.1 = lit "metadata"
    · rw [if_pos hkey]
      have htype : ∀ m ∈ memberTypes, m.1 = lit "metadata" → m.2.1 = Py.isDict := by
        intro m hm hkey
        simp only [memberTypes, List.mem_cons, List.not_mem_nil, or_false] at hm
        rcases hm with rfl | rfl | rfl | rfl | rfl
        · exact absurd hkey (by decide)
        · exact absurd hkey (by decide)
        · exact absurd hkey (by decide)
        · exact absurd hkey (by decide)
        · rfl
      rw [htype m hm hkey]
      rfl
    · have hversion : ∀ m ∈ memberTypes, m.1 ≠ lit "version" := by
        intro m hm
        simp only [memberTypes, List.mem_cons, List.not_mem_nil, or_false] at hm
        rcases hm with rfl | rfl | rfl | rfl | rfl <;> decide
      rw [if_neg hkey, if_neg (hversion m hm)]
      exact hold
  have hchild : PyValue.child (lit "metadata") normal = metadata := by
    unfold PyValue.child
    rw [hmetadata]
  have hrevision : PyValue.get? (lit "revision") metadata = some (.int revision) := by
    rw [← hnew, PyValue.get?_set, if_pos rfl]
  have hagain : PyValue.set (lit "revision") (.int revision) metadata = metadata := by
    rw [← hnew, PyValue.set_set]
  have hne : lit "version" ≠ lit "metadata" := by decide
  have hversion : PyValue.set (lit "version") (.int 1) normal = normal := by
    apply PyValue.set_eq_self
    rw [← hnormal, PyValue.entries_set, if_neg hne, PyValue.entries_set, if_pos rfl]
  unfold normalizeMemory
  simp only [hdefaults, hchecked, hchild, hrevision, Option.getD_some, Py.int, ofPython, hversion]
  show Except.ok (PyValue.set (lit "metadata")
    (.dict (PyValue.set (lit "revision") (.int revision) metadata)) normal) = _
  rw [hagain, ← hnormal, PyValue.set_set]

/-- **A normalized memory is its own normal form.** -/
theorem normalizeMemory_idem {memory normal : PyDict} (hn : normalizeMemory h memory = .ok normal) :
    normalizeMemory h normal = .ok normal := by
  unfold normalizeMemory at hn
  obtain ⟨_, hcheck, hn⟩ := Effectful.bind_ok hn
  obtain ⟨revision, -, hn⟩ := Effectful.bind_ok hn
  have hmembers : ∀ d ∈ emptyMemory,
      (PyValue.get? d.1 (emptyMemory.foldl setDefault memory)).isSome = true :=
    fun d hd => isSome_defaults emptyMemory memory (List.mem_map_of_mem hd)
  rw [← Except.ok.inj hn]
  exact normalizeMemory_normal hmembers hcheck _ revision

theorem withResources_idem (payload : PyDict) :
    withResources (withResources payload) = withResources payload := by
  by_cases hlist : (PyValue.get? (lit "resources") payload).any isList = true
  · have hsame : withResources payload = payload := if_pos hlist
    rw [hsame, hsame]
  · have hset : withResources payload = PyValue.set (lit "resources") (.list []) payload :=
      if_neg hlist
    rw [hset]
    unfold withResources
    rw [PyValue.get?_set, if_pos rfl]
    rfl

theorem memory_reloaded {memory : PyDict} (hs : s.memory h = .ok memory)
    (hs' : s'.tree.files memoryPath = some (.json (.dict memory))) : s'.memory h = .ok memory := by
  have hnormal : normalizeMemory h memory = .ok memory := by
    unfold Root.memory at hs
    split at hs
    · split at hs
      · cases hs
      · exact normalizeMemory_idem hs
    · cases hs
    · exact normalizeMemory_idem hs
    · cases hs
  unfold Root.memory
  rw [hs']
  exact hnormal

theorem manifest_reloaded {manifest : PyDict} (hs : s.manifest = .ok manifest)
    (hs' : s'.tree.files manifestPath = some (.json (.dict manifest))) :
    s'.manifest = .ok manifest := by
  have hempty : withResources emptyManifest = emptyManifest := by
    unfold withResources
    exact if_pos (by decide)
  have hlisted : withResources manifest = manifest := by
    unfold Root.manifest at hs
    split at hs
    · exact Except.ok.inj hs ▸ hempty
    · split at hs
      · cases hs
      · exact Except.ok.inj hs ▸ hempty
    · rw [← Except.ok.inj hs, withResources_idem]
    · cases hs
  unfold Root.manifest
  rw [hs']
  exact congrArg Except.ok hlisted

section Kept

variable {id : PyText} {t : DirTree PyText Document}

/-- The directory of a snapshot is as in `t`. -/
def Kept (id : PyText) (t : DirTree PyText Document) (s : Root) : Prop :=
  Frame (snapshotDir id) t s.tree

/-- A path that does not start with `snapshots`. -/
def Outside (p : ResourcePath) : Prop := p.head? ≠ some (lit "snapshots")

variable {p : ResourcePath}

theorem Outside.not_below (hp : Outside p) (id : PyText) :
    ¬ snapshotDir id <+: p := by
  rintro ⟨r, rfl⟩
  exact hp rfl

theorem outside_files (p : ResourcePath) : Outside (filesRoot ++ p) := by
  unfold Outside
  show some (lit "files") ≠ _
  decide

theorem outside_tmp_files (p : ResourcePath) : Outside (tmpPath (filesRoot ++ p)) := by
  cases p with
  | nil =>
    unfold Outside
    decide
  | cons a p => exact outside_files (tmpPath (a :: p))

theorem outside_dropLast_files (p : ResourcePath) : Outside (filesRoot ++ p).dropLast := by
  cases p with
  | nil =>
    unfold Outside
    decide
  | cons a p => exact outside_files (a :: p).dropLast

theorem snapshotDir_ne (id : PyText) : snapshotDir id ≠ [] := List.cons_ne_nil _ _

theorem snapshotDir_apart_files (id : PyText) : Apart (snapshotDir id) filesRoot :=
  DirTree.apart_of_head (by decide) _ _

theorem kept_writeMemory (v : PyValue) : Keeps (Kept id t) (writeMemory v) :=
  frame_writeDocument (snapshotDir_ne id)
    (Outside.not_below (by unfold Outside; decide) id)
    (Outside.not_below (by unfold Outside; decide) id)

theorem kept_writeManifest (v : PyValue) : Keeps (Kept id t) (writeManifest v) :=
  frame_writeDocument (snapshotDir_ne id)
    (Outside.not_below (by unfold Outside; decide) id)
    (Outside.not_below (by unfold Outside; decide) id)

theorem kept_writeThroughTmp (p : ResourcePath) (raw : List UInt8) :
    Keeps (Kept id t) (writeThroughTmp (filesRoot ++ p) raw) :=
  frame_writeThroughTmp ((outside_dropLast_files p).not_below id)
    ((outside_tmp_files p).not_below id) ((outside_files p).not_below id)

theorem kept_unlinkPresent (hp : Outside p) :
    Keeps (Kept id t) (unlinkPresent p) := frame_unlinkPresent (hp.not_below id)

theorem kept_mkdirs (hp : ¬ snapshotDir id <+: p) :
    Keeps (Kept id t) (onTree fun t => t.mkdirs p) :=
  keeps_onTree fun _ _ hs hu => hs.trans (DirTree.frame_mkdirs hu hp)

theorem kept_rmtree (hp : Apart (snapshotDir id) p) :
    Keeps (Kept id t) (onTree fun t => t.rmtree p) :=
  keeps_onTree fun _ _ hs hu => hs.trans (DirTree.frame_rmtree hu hp)

theorem kept_copyTree {q : ResourcePath} (hq : Apart (snapshotDir id) q) :
    Keeps (Kept id t) (onTree fun t => t.copyTree p q) :=
  keeps_onTree fun _ _ hs hu => hs.trans (DirTree.frame_copyTree hu hq)

theorem kept_deductBudget (kind : BudgetKind) (cost : ℚ) :
    Keeps (Kept id t) (deductBudget kind cost) := keeps_deductBudget kind cost

theorem kept_get {α : Type} {f : Root → RootM α} (hf : ∀ r, Keeps (Kept id t) (f r)) :
    Keeps (Kept id t) (get >>= f) := by
  refine Effectful.spec_get fun r hr => (hf r).mono ?_ (fun _ _ hs => hs) fun _ _ hs => hs
  rintro _ rfl
  exact hr

theorem kept_resolve {α : Type} {path : PyText} {f : PyText × ResourcePath → RootM α}
    (hf : ∀ normalized p, Keeps (Kept id t) (f (normalized, filesRoot ++ p))) :
    Keeps (Kept id t) (resolveSandboxFilePath path >>= f) := by
  unfold resolveSandboxFilePath
  rw [bind_assoc]
  refine Effectful.keeps_bind (reads_lift _).keeps fun x => ?_
  obtain ⟨normalized, p⟩ := x
  exact hf normalized p

theorem kept_ensureMemory : Keeps (Kept id t) (ensureMemory h) := by
  unfold ensureMemory
  refine kept_get fun r => Effectful.keeps_ite (fun _ => ?_) fun _ => kept_writeMemory _
  refine Effectful.keeps_bind (reads_readJson _).keeps fun payload => ?_
  split
  · refine Effectful.keeps_bind (reads_lift _).keeps fun memory => ?_
    exact Effectful.keeps_ite (fun _ => Effectful.keeps_pure _) fun _ => kept_writeMemory _
  · exact (reads_raise _).keeps

theorem kept_readMemory : Keeps (Kept id t) (readMemory h) :=
  Effectful.keeps_bind kept_ensureMemory fun _ => reads_loadMemory.keeps

theorem kept_onMemory (cost : ℚ) (op : MemoryOperation) :
    Keeps (Kept id t) (onMemory h cost op) := by
  unfold onMemory
  refine Effectful.keeps_bind (reads_lift _).keeps fun _ => ?_
  refine Effectful.keeps_bind (reads_lift _).keeps fun cost => ?_
  refine Effectful.keeps_bind (reads_checkBudget _ _).keeps fun _ => ?_
  refine Effectful.keeps_bind reads_loadMemory.keeps fun before => ?_
  refine Effectful.keeps_bind (reads_lift _).keeps fun working => ?_
  exact Effectful.keeps_bind (kept_writeMemory _) fun _ => kept_deductBudget _ _

theorem kept_listEntry (path : PyText) (p : ResourcePath) (now : PyText) :
    Keeps (Kept id t) (listEntry h path p now) := by
  unfold listEntry
  refine Effectful.keeps_bind reads_loadManifest.keeps fun manifest => kept_get fun r => ?_
  split
  · exact (reads_raise _).keeps
  · exact Effectful.keeps_bind (reads_lift _).keeps fun _ => kept_writeManifest _

theorem kept_unlistEntry (path : PyText) : Keeps (Kept id t) (unlistEntry path) := by
  unfold unlistEntry
  refine Effectful.keeps_bind reads_loadManifest.keeps fun manifest => ?_
  exact Effectful.keeps_bind (reads_lift _).keeps fun _ => kept_writeManifest _

theorem kept_readFile (cost : ℚ) (path : PyText) : Keeps (Kept id t) (readFile h cost path) := by
  unfold readFile
  refine kept_resolve fun normalized p => ?_
  refine Effectful.keeps_bind (reads_lift _).keeps fun cost => ?_
  refine Effectful.keeps_bind (reads_checkBudget _ _).keeps fun _ => kept_get fun r => ?_
  split
  · exact Effectful.keeps_ite (fun _ => (reads_raise _).keeps) fun _ => (reads_raise _).keeps
  · split
    · exact (reads_raise _).keeps
    · exact Effectful.keeps_bind (kept_deductBudget _ _) fun _ => Effectful.keeps_pure _

theorem kept_writeFile (cost : ℚ) (now path content : PyText) :
    Keeps (Kept id t) (writeFile h cost now path content) := by
  unfold writeFile
  refine kept_resolve fun normalized p => ?_
  refine Effectful.keeps_bind (reads_lift _).keeps fun cost => ?_
  refine Effectful.keeps_bind (reads_checkBudget _ _).keeps fun _ => ?_
  refine Effectful.keeps_bind (reads_readPrevious _).keeps fun previous => ?_
  refine Effectful.keeps_bind (reads_encode _).keeps fun raw => ?_
  refine Effectful.keeps_bind (kept_writeThroughTmp p raw) fun _ => ?_
  refine Effectful.keeps_bind (kept_listEntry _ _ _) fun _ => ?_
  exact Effectful.keeps_bind (kept_deductBudget _ _) fun _ => Effectful.keeps_pure _

theorem kept_putBack (now normalized : PyText) (p : ResourcePath) (existed : Bool)
    (previous : Option PyText) :
    Keeps (Kept id t) (putBack h now normalized (filesRoot ++ p) existed previous) := by
  unfold putBack
  split
  · refine Effectful.keeps_bind (reads_encode _).keeps fun raw => ?_
    exact Effectful.keeps_bind (kept_writeThroughTmp p raw) fun _ => kept_listEntry _ _ _
  · exact Effectful.keeps_bind (kept_unlinkPresent (outside_files p)) fun _ => kept_unlistEntry _

theorem kept_rollbackWriteFile (cost : ℚ) (now path : PyText) (previous : Option PyText)
    (existed : Bool) :
    Keeps (Kept id t) (rollbackWriteFile h cost now path previous existed) := by
  unfold rollbackWriteFile
  refine kept_resolve fun normalized p => ?_
  refine Effectful.keeps_bind (reads_lift _).keeps fun cost => ?_
  refine Effectful.keeps_bind (reads_checkBudget _ _).keeps fun _ => ?_
  exact Effectful.keeps_bind (kept_putBack now normalized p existed previous) fun _ =>
    kept_deductBudget _ _

theorem kept_deleteFile (cost : ℚ) (path : PyText) :
    Keeps (Kept id t) (deleteFile h cost path) := by
  unfold deleteFile
  refine kept_resolve fun normalized p => ?_
  refine Effectful.keeps_bind (reads_lift _).keeps fun cost => ?_
  refine Effectful.keeps_bind (reads_checkBudget _ _).keeps fun _ => kept_get fun r => ?_
  refine Effectful.keeps_ite (fun _ => ?_) fun _ => Effectful.keeps_pure _
  unfold deletePresent
  refine kept_get fun r => Effectful.keeps_ite (fun _ => (reads_raise _).keeps) fun _ => ?_
  refine Effectful.keeps_bind (reads_readPrevious _).keeps fun previous => ?_
  refine Effectful.keeps_bind (keeps_onTree fun _ _ hs hu =>
    hs.trans (DirTree.frame_unlink hu ((outside_files p).not_below id))) fun _ => ?_
  refine Effectful.keeps_bind (kept_unlistEntry _) fun _ => ?_
  exact Effectful.keeps_bind (kept_deductBudget _ _) fun _ => Effectful.keeps_pure _

theorem kept_rollbackDeleteFile (cost : ℚ) (now path : PyText) (previous : Option PyText) :
    Keeps (Kept id t) (rollbackDeleteFile h cost now path previous) := by
  unfold rollbackDeleteFile
  refine kept_resolve fun normalized p => ?_
  refine Effectful.keeps_bind (reads_lift _).keeps fun cost => ?_
  refine Effectful.keeps_bind (reads_checkBudget _ _).keeps fun _ => ?_
  split
  · exact Effectful.keeps_throw _
  · refine Effectful.keeps_bind (reads_encode _).keeps fun raw => ?_
    refine Effectful.keeps_bind (kept_writeThroughTmp p raw) fun _ => ?_
    exact Effectful.keeps_bind (kept_listEntry _ _ _) fun _ => kept_deductBudget _ _

theorem snapshotDir_apart {id' : PyText} (hid : id' ≠ id) (r : ResourcePath) :
    Apart (snapshotDir id) (snapshotDir id' ++ r) :=
  Apart.cons (DirTree.apart_of_head hid.symm _ _) _

theorem kept_snapshotState (cost : ℚ) (label now : PyText) {draw : SnapshotDraw}
    (hid : draw.id ≠ id) : Keeps (Kept id t) (snapshotState h cost label now draw) := by
  have hdir : ¬ snapshotDir id <+: snapshotDir draw.id := by
    have happart := snapshotDir_apart hid []
    rw [List.append_nil] at happart
    exact happart.1
  have hbelow : ∀ r, ¬ snapshotDir id <+: snapshotDir draw.id ++ r :=
    fun r => (snapshotDir_apart hid r).1
  unfold snapshotState
  refine Effectful.keeps_bind (reads_lift _).keeps fun cost => ?_
  refine Effectful.keeps_bind (reads_checkBudget _ _).keeps fun _ => ?_
  refine Effectful.keeps_bind (kept_mkdirs hdir) fun _ => ?_
  refine Effectful.keeps_bind reads_loadMemory.keeps fun memory => ?_
  refine Effectful.keeps_bind reads_loadManifest.keeps fun manifest => ?_
  refine Effectful.keeps_bind (frame_writeText (hbelow _)) fun _ => ?_
  refine Effectful.keeps_bind (frame_writeText (hbelow _)) fun _ => ?_
  refine Effectful.keeps_bind (frame_writeText (hbelow _)) fun _ => kept_get fun r => ?_
  have hrest : Keeps (Kept id t) (do deductBudget .fileWrites cost; pure draw.id) :=
    Effectful.keeps_bind (kept_deductBudget _ _) fun _ => Effectful.keeps_pure _
  refine Effectful.keeps_ite (fun _ => ?_) fun _ => ?_
  · exact Effectful.keeps_bind (kept_copyTree (snapshotDir_apart hid _)) fun _ => hrest
  · exact hrest

theorem kept_restoreFiles (dir : ResourcePath) : Keeps (Kept id t) (restoreFiles dir) := by
  have hcopy : Keeps (Kept id t) (do
      let s ← get
      if s.tree.present (dir ++ filesRoot) then
        onTree fun t => t.copyTree (dir ++ filesRoot) filesRoot
      else onTree fun t => t.mkdirs filesRoot) := by
    refine kept_get fun r => Effectful.keeps_ite (fun _ => ?_) fun _ => ?_
    · exact kept_copyTree (snapshotDir_apart_files id)
    · exact kept_mkdirs (snapshotDir_apart_files id).1
  unfold restoreFiles
  refine kept_get fun r => Effectful.keeps_ite (fun _ => ?_) fun _ => ?_
  · exact Effectful.keeps_bind (kept_rmtree (snapshotDir_apart_files id)) fun _ => hcopy
  · exact hcopy

theorem kept_restoreManifest (dir : ResourcePath) : Keeps (Kept id t) (restoreManifest dir) := by
  unfold restoreManifest
  refine kept_get fun r => Effectful.keeps_ite (fun _ => ?_) fun _ => Effectful.keeps_pure _
  exact Effectful.keeps_bind (reads_readJson _).keeps fun _ => kept_writeManifest _

theorem kept_restoreSnapshot (cost : ℚ) (snapshotId : PyText) :
    Keeps (Kept id t) (restoreSnapshot h cost snapshotId) := by
  unfold restoreSnapshot
  refine Effectful.keeps_bind (reads_lift _).keeps fun id' => ?_
  refine Effectful.keeps_bind (reads_lift _).keeps fun cost => ?_
  refine Effectful.keeps_bind (reads_checkBudget _ _).keeps fun _ => kept_get fun r => ?_
  refine Effectful.keeps_ite (fun _ => ?_) fun _ => (reads_raise _).keeps
  refine Effectful.keeps_bind reads_loadMemory.keeps fun _ => ?_
  refine Effectful.keeps_bind (reads_readJson _).keeps fun memory => ?_
  refine Effectful.keeps_bind (kept_writeMemory _) fun _ => ?_
  refine Effectful.keeps_bind (kept_restoreFiles _) fun _ => ?_
  exact Effectful.keeps_bind (kept_restoreManifest _) fun _ => kept_deductBudget _ _

theorem kept_reset : Keeps (Kept id t) (reset h) := by
  have hrest : Keeps (Kept id t) (do unlinkPresent manifestPath; ensureMemory h) := by
    refine Effectful.keeps_bind (kept_unlinkPresent ?_) fun _ => kept_ensureMemory
    unfold Outside
    decide
  unfold reset
  refine Effectful.keeps_bind (kept_writeMemory _) fun _ => kept_get fun r => ?_
  refine Effectful.keeps_ite (fun _ => ?_) fun _ => hrest
  refine Effectful.keeps_bind (kept_rmtree (snapshotDir_apart_files id)) fun _ => ?_
  exact Effectful.keeps_bind (kept_mkdirs (snapshotDir_apart_files id).1) fun _ => hrest

theorem kept_openSandbox (budget : Option Budget) : Keeps (Kept id t) (openSandbox h budget) := by
  unfold openSandbox
  refine Effectful.keeps_bind (Effectful.keeps_modify fun _ hs => hs) fun _ => ?_
  refine Effectful.keeps_bind (kept_mkdirs ?_) fun _ => kept_ensureMemory
  exact fun hpre => snapshotDir_ne id (List.prefix_nil.1 hpre)

/-- **No operation but a snapshot of the same id changes what is below a snapshot.** -/
theorem kept_perform {call : Call} (hdraw : ∀ draw, call.draw = some draw → draw.id ≠ id) :
    Keeps (Kept id t) (call.perform h) := by
  have hdiscard : ∀ {α : Type} {m : RootM α}, Keeps (Kept id t) m →
      Keeps (Kept id t) (discard m) := fun hm =>
    Effectful.keeps_bind hm fun _ => Effectful.keeps_pure _
  cases call with
  | openSandbox budget => exact kept_openSandbox budget
  | setBudget budget => exact Effectful.keeps_modify fun _ hs => hs
  | readMemory => exact hdiscard kept_readMemory
  | memory cost op => exact kept_onMemory cost op
  | readFile cost path => exact hdiscard (kept_readFile cost path)
  | writeFile cost now path content => exact hdiscard (kept_writeFile cost now path content)
  | rollbackWriteFile cost now path previous existed =>
    exact kept_rollbackWriteFile cost now path previous existed
  | deleteFile cost path => exact hdiscard (kept_deleteFile cost path)
  | rollbackDeleteFile cost now path previous =>
    exact kept_rollbackDeleteFile cost now path previous
  | snapshotState cost label now draw =>
    exact hdiscard (kept_snapshotState cost label now (hdraw draw rfl))
  | restoreSnapshot cost snapshotId => exact kept_restoreSnapshot cost snapshotId
  | reset => exact kept_reset

end Kept

/-- A tree in which the snapshot holds a memory, a manifest and these files. -/
structure Saved (id : PyText) (memory manifest : PyDict)
    (files : ResourcePath → Option Document) (t : DirTree PyText Document) : Prop where
  memory : t.files (snapshotDir id ++ [lit "memory.json"]) = some (.json (.dict memory))
  manifest : t.files (snapshotDir id ++ [lit "manifest.json"]) = some (.json (.dict manifest))
  files : ∀ p, t.files (snapshotDir id ++ (filesRoot ++ p)) = files p

variable {id : PyText} {memory manifest : PyDict} {files : ResourcePath → Option Document}
  {t u : DirTree PyText Document}

theorem Saved.of_frame (hsaved : Saved id memory manifest files t)
    (hframe : Frame (snapshotDir id) t u) : Saved id memory manifest files u where
  memory := (hframe _ (List.prefix_append _ _)).1.trans hsaved.memory
  manifest := (hframe _ (List.prefix_append _ _)).1.trans hsaved.manifest
  files p := (hframe _ (List.prefix_append _ _)).1.trans (hsaved.files p)

theorem run_writeText {p : ResourcePath} {v : PyValue} {a : Unit}
    (hrun : (writeText p v).run s = .ok a s') (q : ResourcePath) :
    s'.tree.files q = if q = p then some (.json v) else s.tree.files q := by
  obtain ⟨t, hput, rfl⟩ := run_onTree hrun
  exact DirTree.files_put hput q

theorem inside_ne {a b : PyText} (hab : a ≠ b) (dir r : ResourcePath) :
    dir ++ a :: r ≠ dir ++ [b] := by
  intro heq
  exact hab (List.cons.inj (List.append_cancel_left heq)).1

/-- **What a snapshot holds.** -/
theorem saved_snapshotState {cost : ℚ} {label now : PyText} {draw : SnapshotDraw}
    (hfresh : s.tree.present (snapshotDir draw.id) = false)
    (hrun : (snapshotState h cost label now draw).run s = .ok id s₁) :
    id = draw.id ∧ ∃ memory manifest, s.memory h = .ok memory ∧ s.manifest = .ok manifest ∧
      Saved draw.id memory manifest (fun p => s.tree.files (filesRoot ++ p)) s₁.tree := by
  have hbelow := s.tree.files_below hfresh
  unfold snapshotState at hrun
  obtain ⟨cost', r, hr, hrun⟩ := Effectful.run_bind_ok hrun
  obtain ⟨-, rfl⟩ := run_lift hr
  obtain ⟨_, r', hr', hrun⟩ := Effectful.run_bind_ok hrun
  obtain rfl := (reads_checkBudget _ _).run_ok hr'
  obtain ⟨_, made, hmade, hrun⟩ := Effectful.run_bind_ok hrun
  obtain ⟨t, hmkdirs, rfl⟩ := run_onTree hmade
  obtain ⟨memory, r, hload, hrun⟩ := Effectful.run_bind_ok hrun
  obtain ⟨hmemory, rfl⟩ := run_loadMemory hload
  obtain ⟨manifest, r, hload', hrun⟩ := Effectful.run_bind_ok hrun
  obtain ⟨hmanifest, rfl⟩ := run_loadManifest hload'
  have hfiles : t.files = s.tree.files := DirTree.files_mkdirs hmkdirs
  have hmemory' : s.memory h = .ok memory := by
    have hpre : ¬ memoryPath <+: snapshotDir draw.id := by
      intro hpre
      exact absurd (List.cons_prefix_cons.1 hpre).1 (by decide)
    have hdir : t.dirs memoryPath = s.tree.dirs memoryPath := by
      rw [DirTree.dirs_mkdirs hmkdirs, decide_eq_false hpre, Bool.or_false]
    have hsame : ({ s with tree := t } : Root).memory h = s.memory h :=
      memory_congr (congrFun hfiles _) hdir
    exact hsame.symm.trans hmemory
  have hmanifest' : s.manifest = .ok manifest := by
    have hsame : ({ s with tree := t } : Root).manifest = s.manifest :=
      manifest_congr (congrFun hfiles _)
    exact hsame.symm.trans hmanifest
  obtain ⟨_, s₂, hmeta, hrun⟩ := Effectful.run_bind_ok hrun
  obtain ⟨_, s₃, hsaved, hrun⟩ := Effectful.run_bind_ok hrun
  obtain ⟨_, s₄, hlisted, hrun⟩ := Effectful.run_bind_ok hrun
  -- the files before they are copied
  have hwritten : ∀ q, s₄.tree.files q =
      if q = snapshotDir draw.id ++ [lit "manifest.json"] then some (.json (.dict manifest))
      else if q = snapshotDir draw.id ++ [lit "memory.json"] then some (.json (.dict memory))
      else if q = snapshotDir draw.id ++ [lit "meta.json"] then
        some (.json (.dict (snapshotMeta h draw.id label now memory)))
      else s.tree.files q := by
    intro q
    rw [run_writeText hlisted, run_writeText hsaved, run_writeText hmeta, ← hfiles]
  have hnames : ∀ a : PyText, a = lit "manifest.json" ∨ a = lit "memory.json" ∨
      a = lit "meta.json" → lit "files" ≠ a := by
    rintro a (rfl | rfl | rfl) <;> decide
  have hroot : ∀ p, s₄.tree.files (filesRoot ++ p) = s.tree.files (filesRoot ++ p) := by
    have hhead : ∀ p r, filesRoot ++ p ≠ snapshotDir draw.id ++ r := by
      intro p r heq
      exact absurd (List.cons.inj heq).1 (by decide)
    intro p
    rw [hwritten, if_neg (hhead _ _), if_neg (hhead _ _), if_neg (hhead _ _)]
  have hmemory₄ : s₄.tree.files (snapshotDir draw.id ++ [lit "memory.json"]) =
      some (.json (.dict memory)) := by
    rw [hwritten, if_neg (inside_ne (by decide) _ _), if_pos rfl]
  have hmanifest₄ : s₄.tree.files (snapshotDir draw.id ++ [lit "manifest.json"]) =
      some (.json (.dict manifest)) := by
    rw [hwritten, if_pos rfl]
  have hid : ∀ {r r₁ : Root} {a : PyText}, (do
      deductBudget .fileWrites cost'
      pure draw.id : RootM PyText).run r = .ok a r₁ → a = draw.id ∧ r₁.tree = r.tree := by
    intro r r₁ a hrun
    cases hrun
    exact ⟨rfl, rfl⟩
  obtain ⟨r, r₁, hget, hrun⟩ := Effectful.run_bind_ok hrun
  cases hget
  split at hrun
  · obtain ⟨_, s₅, hcopied, hrun⟩ := Effectful.run_bind_ok hrun
    obtain ⟨u, hcopy, rfl⟩ := run_onTree hcopied
    obtain ⟨rfl, htree⟩ := hid hrun
    have hoff : ∀ a, lit "files" ≠ a →
        ¬ snapshotDir draw.id ++ filesRoot <+: snapshotDir draw.id ++ [a] := by
      intro a ha hpre
      have hcons := (List.prefix_append_right_inj _).1 hpre
      exact ha (List.cons_prefix_cons.1 hcons).1
    refine ⟨rfl, memory, manifest, hmemory', hmanifest', ?_, ?_, fun p => ?_⟩
    · rw [htree, DirTree.files_copyTree hcopy (hoff _ (hnames _ (.inr (.inl rfl))))]
      exact hmemory₄
    · rw [htree, DirTree.files_copyTree hcopy (hoff _ (hnames _ (.inl rfl)))]
      exact hmanifest₄
    · rw [htree, ← List.append_assoc, (DirTree.below_copyTree hcopy p).1]
      exact hroot p
  · rename_i habsent
    obtain ⟨rfl, htree⟩ := hid hrun
    refine ⟨rfl, memory, manifest, hmemory', hmanifest', ?_, ?_, fun p => ?_⟩
    · rw [htree]
      exact hmemory₄
    · rw [htree]
      exact hmanifest₄
    · have hnone := s₄.tree.files_below (Bool.eq_false_iff.2 habsent) p
      rw [hroot p] at hnone
      have hne : ∀ a, lit "files" ≠ a →
          snapshotDir draw.id ++ (filesRoot ++ p) ≠ snapshotDir draw.id ++ [a] :=
        fun a ha => inside_ne ha _ p
      rw [htree, hnone, hwritten, if_neg (hne _ (hnames _ (.inl rfl))),
        if_neg (hne _ (hnames _ (.inr (.inl rfl)))),
        if_neg (hne _ (hnames _ (.inr (.inr rfl)))), hbelow]

theorem run_restoreFiles {a : Unit}
    (hfiles : ∀ p, s.tree.files (snapshotDir id ++ (filesRoot ++ p)) = files p)
    (hrun : (restoreFiles (snapshotDir id)).run s = .ok a s') :
    (∀ p, s'.tree.files (filesRoot ++ p) = files p) ∧
      ∀ q, ¬ filesRoot <+: q → s'.tree.files q = s.tree.files q := by
  have hout : ∀ r, ¬ filesRoot <+: snapshotDir id ++ r := by
    intro r hpre
    exact absurd (List.cons_prefix_cons.1 hpre).1 (by decide)
  -- the second half, in a tree with no file below `files`
  have hcopy : ∀ {r : Root}, (∀ p, r.tree.files (filesRoot ++ p) = none) →
      (∀ q, ¬ filesRoot <+: q → r.tree.files q = s.tree.files q) →
      (do
        let s ← get
        if s.tree.present (snapshotDir id ++ filesRoot) then
          onTree fun t => t.copyTree (snapshotDir id ++ filesRoot) filesRoot
        else onTree fun t => t.mkdirs filesRoot : RootM Unit).run r = .ok a s' →
      (∀ p, s'.tree.files (filesRoot ++ p) = files p) ∧
        ∀ q, ¬ filesRoot <+: q → s'.tree.files q = s.tree.files q := by
    intro r hempty hsame hrun
    have hsnap : ∀ p, r.tree.files (snapshotDir id ++ filesRoot ++ p) = files p := by
      intro p
      rw [List.append_assoc, hsame _ (hout _), hfiles]
    obtain ⟨_, _, hget, hrun⟩ := Effectful.run_bind_ok hrun
    cases hget
    split at hrun
    · obtain ⟨u, hcopied, rfl⟩ := run_onTree hrun
      refine ⟨fun p => ?_, fun q hq => ?_⟩
      · rw [← hsnap p]
        exact (DirTree.below_copyTree hcopied p).1
      · exact (DirTree.files_copyTree hcopied hq).trans (hsame q hq)
    · rename_i habsent
      obtain ⟨u, hmade, rfl⟩ := run_onTree hrun
      have hmade' : u.files = r.tree.files := DirTree.files_mkdirs hmade
      refine ⟨fun p => ?_, fun q hq => (congrFun hmade' q).trans (hsame q hq)⟩
      have hnone := r.tree.files_below (Bool.eq_false_iff.2 habsent) p
      rw [← hsnap p, hnone]
      exact (congrFun hmade' _).trans (hempty p)
  unfold restoreFiles at hrun
  obtain ⟨_, _, hget, hrun⟩ := Effectful.run_bind_ok hrun
  cases hget
  split at hrun
  · obtain ⟨_, r, hremoved, hrun⟩ := Effectful.run_bind_ok hrun
    obtain ⟨u, hrm, rfl⟩ := run_onTree hremoved
    refine hcopy (fun p => ?_) (fun q hq => ?_) hrun
    · exact (DirTree.files_rmtree hrm _).trans (if_pos (List.prefix_append _ _))
    · exact (DirTree.files_rmtree hrm q).trans (if_neg hq)
  · rename_i habsent
    exact hcopy (s.tree.files_below (Bool.eq_false_iff.2 habsent)) (fun _ _ => rfl) hrun

theorem document_kept {p q : ResourcePath} {v : PyValue} {a : Unit}
    (hrun : (writeDocument p v).run s = .ok a s') (hne : q ≠ []) (htmp : ¬ q <+: tmpPath p)
    (hp : ¬ q <+: p) (r : ResourcePath) : s'.tree.files (q ++ r) = s.tree.files (q ++ r) :=
  ((frame_writeDocument hne htmp hp).run_ok (DirTree.Frame.refl q s.tree) hrun _
    (List.prefix_append q r)).1

/-- **What a restore leaves.** -/
theorem restored_restoreSnapshot {cost : ℚ} {a : Unit}
    (hsaved : Saved id memory manifest files s.tree) (hid : PyText.strip id = id)
    (hrun : (restoreSnapshot h cost id).run s = .ok a s') :
    s'.tree.files memoryPath = some (.json (.dict memory)) ∧
      s'.tree.files manifestPath = some (.json (.dict manifest)) ∧
      ∀ p, s'.tree.files (filesRoot ++ p) = files p := by
  unfold restoreSnapshot at hrun
  obtain ⟨id', r, hr, hrun⟩ := Effectful.run_bind_ok hrun
  obtain ⟨hparse, rfl⟩ := run_lift hr
  have hid' : id' = id := by
    unfold parseResourceId at hparse
    simp only [hid] at hparse
    split at hparse
    · cases hparse
      rfl
    · cases hparse
  rw [hid'] at hrun
  obtain ⟨cost', r', hr, hrun⟩ := Effectful.run_bind_ok hrun
  obtain ⟨-, rfl⟩ := run_lift hr
  obtain ⟨_, r, hr, hrun⟩ := Effectful.run_bind_ok hrun
  obtain rfl := (reads_checkBudget _ _).run_ok hr
  obtain ⟨_, _, hget, hrun⟩ := Effectful.run_bind_ok hrun
  cases hget
  split at hrun
  · obtain ⟨_, r', hr, hrun⟩ := Effectful.run_bind_ok hrun
    obtain rfl := reads_loadMemory.run_ok hr
    obtain ⟨v, r, hread, hrun⟩ := Effectful.run_bind_ok hrun
    obtain ⟨hv, rfl⟩ := run_readJson hread
    rw [hsaved.memory] at hv
    cases hv
    obtain ⟨_, s₁, hmemory, hrun⟩ := Effectful.run_bind_ok hrun
    obtain ⟨_, s₂, hfiles, hrun⟩ := Effectful.run_bind_ok hrun
    obtain ⟨_, s₃, hmanifest, hdeduct⟩ := Effectful.run_bind_ok hrun
    cases hdeduct
    have hsaved₁ := hsaved.of_frame
      ((kept_writeMemory _).run_ok (DirTree.Frame.refl (snapshotDir id) _) hmemory)
    have hmemory₁ : s₁.tree.files memoryPath = some (.json (.dict memory)) :=
      run_writeDocument hmemory
    obtain ⟨hfiles₂, hsame₂⟩ := run_restoreFiles hsaved₁.files hfiles
    have hsaved₂ := hsaved₁.of_frame
      ((kept_restoreFiles _).run_ok (DirTree.Frame.refl (snapshotDir id) _) hfiles)
    have hmemory₂ : s₂.tree.files memoryPath = some (.json (.dict memory)) := by
      rw [hsame₂ _ (by decide), hmemory₁]
    -- the manifest of the snapshot is there
    unfold restoreManifest at hmanifest
    obtain ⟨_, _, hget, hmanifest⟩ := Effectful.run_bind_ok hmanifest
    cases hget
    have hthere : s₂.tree.present (snapshotDir id ++ [lit "manifest.json"]) = true := by
      unfold DirTree.present FileTree.present
      rw [hsaved₂.manifest]
      rfl
    rw [if_pos hthere] at hmanifest
    obtain ⟨v, r, hread, hmanifest⟩ := Effectful.run_bind_ok hmanifest
    obtain ⟨hv, rfl⟩ := run_readJson hread
    rw [hsaved₂.manifest] at hv
    cases hv
    have hmanifest₃ : s₃.tree.files manifestPath = some (.json (.dict manifest)) :=
      run_writeDocument hmanifest
    refine ⟨?_, hmanifest₃, fun p => ?_⟩
    · have hkept := document_kept hmanifest (q := memoryPath) (by decide)
        (by decide) (by decide +kernel) []
      exact hkept.trans hmemory₂
    · have hkept := document_kept hmanifest (q := filesRoot) (by decide)
        (by decide) (by decide +kernel) p
      exact hkept.trans (hfiles₂ p)
  · cases hrun

theorem strip_id (draw : SnapshotDraw) : PyText.strip draw.id = draw.id := by
  have hhex : ∀ digit : Fin 16,
      Runtime.isIdChar (PyText.codePoint (Nat.digitChar digit.val)) = true := by
    decide
  have hword : (lit "snap-").all Runtime.isIdChar = true := by decide
  have hdash : (lit "-").all Runtime.isIdChar = true := by decide
  refine PyText.strip_of_no_space fun c hc => Runtime.isSpace_of_isIdChar ?_
  unfold SnapshotDraw.id at hc
  simp only [List.mem_append] at hc
  rcases hc with ((hc | hc) | hc) | hc
  · exact List.all_eq_true.1 hword c hc
  · exact Runtime.isIdChar_intText hc
  · exact List.all_eq_true.1 hdash c hc
  · obtain ⟨digit, -, rfl⟩ := List.mem_map.1 hc
    exact hhex digit

/-- **A restore brings back the moment of the snapshot**: after any calls, if none of them
draws the same id, the memory, the manifest and every file are as they were. -/
theorem restoreSnapshot_brings_back {cost cost' : ℚ} {label now : PyText} {draw : SnapshotDraw}
    {calls : List Call} (hfresh : s.tree.present (snapshotDir draw.id) = false)
    (hsnapshot : (snapshotState h cost label now draw).run s = .ok id s₁)
    (hdistinct : ∀ call ∈ calls, ∀ other, call.draw = some other → other.id ≠ id)
    (hrestore : (restoreSnapshot h cost' id).run (Machine.run (step h) s₁ calls) = .ok () s₃) :
    ∃ memory manifest, (s.memory h = .ok memory ∧ s₃.memory h = .ok memory) ∧
      (s.manifest = .ok manifest ∧ s₃.manifest = .ok manifest) ∧
      ∀ p, s₃.tree.files (filesRoot ++ p) = s.tree.files (filesRoot ++ p) := by
  obtain ⟨rfl, memory, manifest, hmemory, hmanifest, hsaved⟩ :=
    saved_snapshotState hfresh hsnapshot
  -- each call keeps the directory of the snapshot
  have hkept : Kept draw.id s₁.tree (Machine.run (step h) s₁ calls) := by
    have hguarded : Machine.Guarded (step h)
        (fun _ call => ∀ other, call.draw = some other → other.id ≠ draw.id) s₁ calls := by
      rw [Machine.guarded_iff_prefix]
      intro bs call hpre
      exact hdistinct call (hpre.subset (by simp))
    refine Machine.run_inv (I := Kept draw.id s₁.tree) ?_ (DirTree.Frame.refl _ _) hguarded
    intro r call hr hcall
    exact (kept_perform hcall).final hr
  obtain ⟨hmemory₃, hmanifest₃, hfiles₃⟩ :=
    restored_restoreSnapshot (hsaved.of_frame hkept) (strip_id draw) hrestore
  exact ⟨memory, manifest, ⟨hmemory, memory_reloaded hmemory hmemory₃⟩,
    ⟨hmanifest, manifest_reloaded hmanifest hmanifest₃⟩, hfiles₃⟩

def sampleHost : Host where
  sha256 raw :=
    if raw = [118] then lit "4c94485e0c21ae6c41ce1dfe7b6bfaceea5ab68e40a2476f50208e526f506080"
    else lit "ffeb909a513d5d084e194c3026f8c53679b1fb5a662fb8aecf41a424ec9070a8"
  dumps _ := []
  compact _ :=
    ("\x7b\"artifacts\":[],\"context\":\x7b\x7d,\"facts\":\x7b\x7d," ++
      "\"metadata\":\x7b\"revision\":0\x7d,\"tasks\":[],\"version\":1\x7d").toUTF8.toList
  increment r := r
  same _ _ := true
  builtins := {
    float := fun _ => .error .typeError
    intOfFloat := fun _ => .error .valueError
    intOfText := fun _ => .error .valueError
    reprOf := fun _ => []
    dictOfPairs := fun _ => .error .valueError
    sameKey := fun _ _ => false
    round3 := fun v => v
    oneMinus := fun v => v
    now := [] }

def sampleRoot : Root :=
  step sampleHost (created sampleHost none) (.writeFile 1 (lit "1.5") (lit "a.txt") (lit "v"))

def sampleDraw : SnapshotDraw := ⟨1700000000000, [10, 1, 2, 3, 4, 5, 6, 15]⟩

def sampleSnapshot : RootM PyText :=
  snapshotState sampleHost 2 (lit "before") (lit "2.5") sampleDraw

def sampleCalls : List Call := [
  .memory 1 (.setFact (lit "k") (some (.int 1))),
  .deleteFile (1 / 2) (lit "a.txt"),
  .reset]

def sampleLater : Root :=
  Machine.run (step sampleHost) (Effectful.final sampleSnapshot sampleRoot) sampleCalls

theorem sample_comes_back :
    ∃ memory manifest,
      let restored := Effectful.final (restoreSnapshot sampleHost 2 sampleDraw.id) sampleLater
      (sampleRoot.memory sampleHost = .ok memory ∧ restored.memory sampleHost = .ok memory) ∧
        (sampleRoot.manifest = .ok manifest ∧ restored.manifest = .ok manifest) ∧
        ∀ p, restored.tree.files (filesRoot ++ p) = sampleRoot.tree.files (filesRoot ++ p) := by
  have hsnapshot : Effectful.result sampleSnapshot sampleRoot = some sampleDraw.id := by
    decide +kernel
  have hrestore : Effectful.result (restoreSnapshot sampleHost 2 sampleDraw.id) sampleLater =
      some () := by
    decide +kernel
  refine restoreSnapshot_brings_back (by decide +kernel) (Effectful.run_of_result hsnapshot) ?_
    (Effectful.run_of_result hrestore)
  intro call hcall other hother
  simp only [sampleCalls, List.mem_cons, List.not_mem_nil, or_false] at hcall
  rcases hcall with rfl | rfl | rfl <;> cases hother

end ClawHarder.Resources
