import ClawHarder.Spec.Resources

/-!
# The steps of the sandbox's operations

What each step of an operation on the root directory does when it returns, and what it
keeps however it ends.

* `run_onTree`, `run_lift`, `run_readJson`: a step that returns.
* `reads_*`: the steps that change nothing.
* `frame_writeDocument`, `frame_writeThroughTmp`: what a write leaves alone.
-/

namespace ClawHarder.Resources

open PyText (lit)
open ClawHarder.Runtime (SandboxFault ResourcePath tmpPath)
open DirTree (Frame Apart)
open Effectful (Keeps Reads)

variable {α : Type} {h : Host} {s s' : Root} {p d : ResourcePath} {v : PyValue}
  {t : DirTree PyText Document} {I : DirTree PyText Document → Prop}
  {change : DirTree PyText Document → Option (DirTree PyText Document)}

theorem memory_congr (hfile : s'.tree.files memoryPath = s.tree.files memoryPath)
    (hdir : s'.tree.dirs memoryPath = s.tree.dirs memoryPath) : s'.memory h = s.memory h := by
  unfold Root.memory
  rw [hfile, hdir]

theorem manifest_congr (hfile : s'.tree.files manifestPath = s.tree.files manifestPath) :
    s'.manifest = s.manifest := by
  unfold Root.manifest
  rw [hfile]

theorem run_onTree {a : Unit} (hrun : (onTree change).run s = .ok a s') :
    ∃ t, change s.tree = some t ∧ s' = { s with tree := t } := by
  obtain ⟨r, s₁, hget, hrest⟩ := Effectful.run_bind_ok hrun
  cases hget
  cases hchange : change s.tree with
  | none =>
    simp only [hchange] at hrest
    cases hrest
  | some t =>
    simp only [hchange] at hrest
    cases hrest
    exact ⟨t, rfl, rfl⟩

theorem run_onTree_of_some {u : DirTree PyText Document} (hchange : change s.tree = some u) :
    (onTree change).run s = .ok () { s with tree := u } := by
  have hget : (get : RootM Root).run s = .ok s s := rfl
  unfold onTree
  rw [Effectful.run_bind_of_ok hget, hchange]
  rfl

theorem run_onTree_of_none (hchange : change s.tree = none) :
    (onTree change).run s = .error (.fault .osError) s := by
  have hget : (get : RootM Root).run s = .ok s s := rfl
  unfold onTree
  rw [Effectful.run_bind_of_ok hget, hchange]
  rfl

theorem run_lift {x : Except Raised α} {a : α} (hrun : (lift x).run s = .ok a s') :
    x = .ok a ∧ s = s' := by
  cases x with
  | error e => cases hrun
  | ok b =>
    cases hrun
    exact ⟨rfl, rfl⟩

theorem run_loadMemory {memory : PyDict} (hrun : (loadMemory h).run s = .ok memory s') :
    s.memory h = .ok memory ∧ s = s' := by
  obtain ⟨r, s₁, hget, hrest⟩ := Effectful.run_bind_ok hrun
  cases hget
  exact run_lift hrest

theorem run_loadManifest {manifest : PyDict} (hrun : loadManifest.run s = .ok manifest s') :
    s.manifest = .ok manifest ∧ s = s' := by
  obtain ⟨r, s₁, hget, hrest⟩ := Effectful.run_bind_ok hrun
  cases hget
  exact run_lift hrest

theorem run_readJson (hrun : (readJson p).run s = .ok v s') :
    s.tree.files p = some (.json v) ∧ s = s' := by
  obtain ⟨r, s₁, hget, hrest⟩ := Effectful.run_bind_ok hrun
  cases hget
  split at hrest
  · cases hrest
  · cases hrest
  · cases hrest
    exact ⟨‹_›, rfl⟩

theorem reads_raise (f : SandboxFault) : Reads (raise f : RootM α) := Effectful.reads_throw _

theorem reads_lift (x : Except Raised α) : Reads (lift x) := by
  cases x with
  | error e => exact Effectful.reads_throw e
  | ok a => exact Effectful.reads_pure a

theorem reads_checkBudget (kind : BudgetKind) (cost : ℚ) : Reads (checkBudget kind cost) :=
  Effectful.reads_get fun _ =>
    Effectful.reads_ite (Effectful.reads_pure _) (reads_raise _)

theorem reads_readJson (p : ResourcePath) : Reads (readJson p) := by
  refine Effectful.reads_get fun r => ?_
  split
  · exact reads_raise _
  · exact Effectful.reads_throw _
  · exact Effectful.reads_pure _

theorem reads_loadMemory : Reads (loadMemory h) := Effectful.reads_get fun _ => reads_lift _

theorem reads_loadManifest : Reads loadManifest := Effectful.reads_get fun _ => reads_lift _

theorem reads_readPrevious (p : ResourcePath) : Reads (readPrevious h p) := by
  refine Effectful.reads_get fun r => ?_
  split
  · exact Effectful.reads_pure _
  · split
    · exact reads_raise _
    · exact Effectful.reads_pure _

theorem reads_encode (content : PyText) : Reads (encode content) := by
  unfold encode
  split
  · exact reads_raise _
  · exact Effectful.reads_pure _

theorem reads_resolve (path : PyText) : Reads (resolveSandboxFilePath path) :=
  Effectful.reads_bind (reads_lift _) fun _ => Effectful.reads_pure _

theorem keeps_onTree (hI : ∀ t u, I t → change t = some u → I u) :
    Keeps (fun s => I s.tree) (onTree change) := by
  refine Effectful.spec_get fun r hr => ?_
  split
  · rintro _ rfl
    exact hr
  · rename_i u hu
    rintro _ rfl
    exact hI _ _ hr hu

theorem keeps_deductBudget (kind : BudgetKind) (cost : ℚ) :
    Keeps (fun s => I s.tree) (deductBudget kind cost) :=
  Effectful.keeps_modify fun _ hs => hs

theorem frame_writeText (hp : ¬ d <+: p) : Keeps (fun s => Frame d t s.tree) (writeText p v) :=
  keeps_onTree fun _ _ hs hput => hs.trans (DirTree.frame_put hput hp)

theorem frame_writeDocument (hne : d ≠ []) (htmp : ¬ d <+: tmpPath p) (hp : ¬ d <+: p) :
    Keeps (fun s => Frame d t s.tree) (writeDocument p v) := by
  have hnil : ¬ d <+: [] := fun hpre => hne (List.prefix_nil.1 hpre)
  unfold writeDocument
  refine Effectful.keeps_bind (keeps_onTree fun _ _ hs hu =>
    hs.trans (DirTree.frame_mkdirs hu hnil)) fun _ => ?_
  refine Effectful.keeps_bind (frame_writeText htmp) fun _ => ?_
  exact keeps_onTree fun _ _ hs hu => hs.trans (DirTree.frame_rename hu htmp hp)

theorem frame_writeThroughTmp {raw : List UInt8} (hdir : ¬ d <+: p.dropLast)
    (htmp : ¬ d <+: tmpPath p) (hp : ¬ d <+: p) :
    Keeps (fun s => Frame d t s.tree) (writeThroughTmp p raw) := by
  unfold writeThroughTmp
  refine Effectful.keeps_bind (keeps_onTree fun _ _ hs hu =>
    hs.trans (DirTree.frame_mkdirs hu hdir)) fun _ => ?_
  refine Effectful.keeps_bind (keeps_onTree fun _ _ hs hu =>
    hs.trans (DirTree.frame_put hu htmp)) fun _ => ?_
  exact keeps_onTree fun _ _ hs hu => hs.trans (DirTree.frame_rename hu htmp hp)

theorem frame_unlinkPresent (hp : ¬ d <+: p) :
    Keeps (fun s => Frame d t s.tree) (unlinkPresent p) := by
  refine Effectful.spec_get fun r hr => Effectful.spec_ite (fun _ => ?_) fun _ => ?_
  · refine (keeps_onTree fun _ _ hs hu => ?_).mono (fun _ heq => heq ▸ hr) (fun _ _ hs => hs)
      (fun _ _ hs => hs)
    exact hs.trans (DirTree.frame_unlink hu hp)
  · exact Effectful.spec_pure fun _ heq => heq ▸ hr

theorem run_writeDocument {a : Unit} (hrun : (writeDocument p v).run s = .ok a s') :
    s'.tree.files p = some (.json v) := by
  obtain ⟨_, s₁, h₁, hrun⟩ := Effectful.run_bind_ok hrun
  obtain ⟨_, s₂, h₂, h₃⟩ := Effectful.run_bind_ok hrun
  obtain ⟨t₂, hput, rfl⟩ := run_onTree h₂
  obtain ⟨t₃, hrename, rfl⟩ := run_onTree h₃
  rw [DirTree.files_rename hrename, if_pos rfl, DirTree.files_put hput, if_pos rfl]

end ClawHarder.Resources
