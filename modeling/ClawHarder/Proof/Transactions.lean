import ClawHarder.Lib.Run
import ClawHarder.Proof.Rollback
import ClawHarder.Spec.Transactions

/-!
# The memory of a sandbox over whole runs

An operation on the memory is a check, a change of a copy and a commit. What it commits
keeps the ids of the tasks and of the artifacts apart, since a new id has the number of
the next revision; snapshots and the values for rollbacks keep them apart too.

* `transactions_sound`: **over every run, transactions are atomic, within the budget and
  keep the ids unique.**
-/

namespace ClawHarder.Transactions

open Effectful
open PyText (lit codePoint)
open ClawHarder.Runtime (SandboxFault SandboxM StateSandbox SandboxFiles Memory ResourcePath
  ResourceBudget SetFactResult WriteFileResult DeleteFileResult transaction parseKey
  parseResourceId parseRelativeResourcePath requireText intText hasId changeTask updatedTask
  removeLast removeFirst)

variable {α β : Type} {cost r : ℚ}

theorem codePoint_injective : Function.Injective codePoint := by
  intro c d h
  have hval : c.toNat = d.toNat := congrArg (fun p : CodePoint => p.val) h
  exact Char.toNat_inj.1 hval

theorem natText_injective {n m : ℕ} (h : lit (toString n) = lit (toString m)) : n = m := by
  have hchars : (toString n).toList = (toString m).toList :=
    codePoint_injective.list_map h
  rw [Nat.toString_eq_ofList_toDigits, Nat.toString_eq_ofList_toDigits, String.toList_ofList,
    String.toList_ofList] at hchars
  have hread := congrArg (Nat.ofDigitChars 10 · 0) hchars
  simp only [Nat.ofDigitChars_ten_toDigits] at hread
  exact hread

def idOf (entry : PyValue) : Option PyValue := entry.asDict?.bind (PyValue.get? (lit "id"))

def idsOf (entries : List PyValue) : List (Option PyValue) := entries.map idOf

def numberedId (word : PyText) (n : ℕ) : Option PyValue := some (.str (word ++ lit (toString n)))

theorem numberedId_injective (word : PyText) : Function.Injective (numberedId word) := by
  intro n m h
  unfold numberedId at h
  simp only [Option.some.injEq, PyValue.str.injEq] at h
  exact natText_injective (List.append_cancel_left h)

/-- The entries have the ids of different numbers up to the revision. -/
def Numbered (word : PyText) (entries : List PyValue) (revision : ℤ) : Prop :=
  ∃ ns : List ℕ, idsOf entries = ns.map (numberedId word) ∧ ns.Nodup ∧
    ∀ n ∈ ns, (n : ℤ) ≤ revision

section Numbered

variable {word : PyText} {entries entries' : List PyValue} {revision revision' : ℤ}

theorem numbered_nil (revision : ℤ) : Numbered word [] revision :=
  ⟨[], rfl, List.nodup_nil, fun _ h => absurd h List.not_mem_nil⟩

theorem Numbered.sublist (h : Numbered word entries revision)
    (hsub : List.Sublist (idsOf entries') (idsOf entries)) (hle : revision ≤ revision') :
    Numbered word entries' revision' := by
  obtain ⟨ns, hids, hnodup, hbound⟩ := h
  rw [hids] at hsub
  obtain ⟨ns', hns', hids'⟩ := List.sublist_map_iff.1 hsub
  refine ⟨ns', hids', hnodup.sublist hns', ?_⟩
  intro n hn
  have := hbound n (hns'.subset hn)
  omega

/-- **An entry with the number of the next revision.** -/
theorem Numbered.append (h : Numbered word entries revision) {n : ℕ}
    (hn : (n : ℤ) = revision + 1) {entry : PyValue} (hentry : idOf entry = numberedId word n) :
    Numbered word (entries ++ [entry]) (revision + 1) := by
  obtain ⟨ns, hids, hnodup, hbound⟩ := h
  refine ⟨ns ++ [n], ?_, ?_, ?_⟩
  · unfold idsOf at hids ⊢
    rw [List.map_append, hids, List.map_append, List.map_singleton, List.map_singleton, hentry]
  · refine List.nodup_append.2 ⟨hnodup, List.nodup_singleton n, ?_⟩
    intro k hk k' hk' heq
    have := hbound k hk
    rw [List.mem_singleton] at hk'
    omega
  · intro k hk
    rcases List.mem_append.1 hk with hk | hk
    · have := hbound k hk
      omega
    · rw [List.mem_singleton] at hk
      omega

theorem Numbered.nodup (h : Numbered word entries revision) : (idsOf entries).Nodup := by
  obtain ⟨ns, hids, hnodup, -⟩ := h
  rw [hids]
  exact hnodup.map (numberedId_injective word)

theorem Numbered.bounded (h : Numbered word entries revision) :
    ∀ id ∈ idsOf entries, ∃ n : ℕ, id = numberedId word n ∧ (n : ℤ) ≤ revision := by
  obtain ⟨ns, hids, -, hbound⟩ := h
  intro id hid
  rw [hids] at hid
  obtain ⟨n, hn, rfl⟩ := List.mem_map.1 hid
  exact ⟨n, rfl, hbound n hn⟩

end Numbered

structure MemoryNumbered (memory : Memory) : Prop where
  revision : 0 ≤ memory.revision
  tasks : Numbered (lit "task-") memory.tasks memory.revision
  artifacts : Numbered (lit "artifact-") memory.artifacts memory.revision

variable {id : PyText}

theorem hasId_iff {members : PyDict} :
    hasId id members = true ↔ idOf (.dict members) = some (.str id) := by
  unfold hasId idOf
  simp only [PyValue.asDict?, Option.bind_some]
  split
  · rename_i t heq
    simp [heq]
  · rename_i hne
    simp only [Bool.false_eq_true, false_iff]
    exact hne id

/-- **Changing a task leaves the ids.** -/
theorem changeTask_spec {change : PyDict → Except SandboxFault PyDict}
    (hid : ∀ task task', hasId id task = true → change task = .ok task' →
      hasId id task' = true)
    {tasks tasks' : List PyValue} {previous : PyDict}
    (h : changeTask id change tasks = .ok (previous, tasks')) :
    idsOf tasks' = idsOf tasks ∧ hasId id previous = true := by
  obtain ⟨before, task', after, rfl, rfl, -, hprevious, hc⟩ := Runtime.changeTask_split h
  refine ⟨?_, hprevious⟩
  unfold idsOf
  simp only [List.map_append, List.map_cons]
  rw [hasId_iff.1 hprevious, hasId_iff.1 (hid _ task' hprevious hc)]

theorem removeFirst_sublist {entries entries' : List PyValue}
    (h : removeFirst id entries = .ok entries') : List.Sublist entries' entries := by
  induction entries generalizing entries' with
  | nil =>
    cases h
    exact List.Sublist.refl []
  | cons entry rest ih =>
    cases entry with
    | dict members =>
      unfold removeFirst at h
      by_cases hm : hasId id members = true
      · rw [if_pos hm] at h
        cases h
        exact List.sublist_cons_self _ _
      · rw [if_neg hm] at h
        obtain ⟨rest', hr, h⟩ := bind_ok h
        cases h
        exact (ih hr).cons_cons _
    | _ => cases h

theorem removeLast_sublist {entries entries' : List PyValue}
    (h : removeLast id entries = .ok entries') : List.Sublist entries' entries := by
  unfold removeLast at h
  obtain ⟨rest, hr, h⟩ := bind_ok h
  cases h
  have hsub := (removeFirst_sublist hr).reverse
  rwa [List.reverse_reverse] at hsub

theorem keptTasks_sublist {tasks tasks' : List PyValue} (h : keptTasks tasks = .ok tasks') :
    List.Sublist tasks' tasks := by
  induction tasks generalizing tasks' with
  | nil =>
    cases h
    exact List.Sublist.refl []
  | cons entry rest ih =>
    cases entry with
    | dict task =>
      unfold keptTasks at h
      obtain ⟨rest', hr, h⟩ := bind_ok h
      cases h
      split
      · exact (ih hr).cons _
      · exact (ih hr).cons_cons _
    | _ => cases h

/-- An operation that raises and changes nothing, or is one transaction of a change. -/
def Transacts (cost : ℚ) (m : SandboxM α) (Q : Memory → α → Memory → Prop) : Prop :=
  ∀ s, (∃ raised, m.run s = .error raised s) ∨
    ∃ a working, Q s.memory a working ∧ 0 ≤ cost ∧
      s.budget.all (fun b => ResourceBudget.covers b.memoryWrites cost) = true ∧
      m.run s = .ok a (s.commit cost working)

section Rules

variable {Q : Memory → α → Memory → Prop} {Q' : Memory → β → Memory → Prop}

theorem transacts_lift {e : Except SandboxFault α} {f : α → SandboxM β}
    (h : ∀ a, e = .ok a → Transacts cost (f a) Q') :
    Transacts cost (SandboxM.lift e >>= f) Q' := by
  cases e with
  | error raised => exact fun s => .inl ⟨raised, rfl⟩
  | ok a => exact h a rfl

theorem transacts_costed {mutate : Memory → Except SandboxFault (α × Memory)}
    (h : ∀ memory a working, mutate memory = .ok (a, working) → Q memory a working) :
    Transacts cost (costed cost mutate) Q := by
  refine transacts_lift fun c hc => ?_
  unfold parseCost at hc
  split at hc
  · cases hc
  · rename_i hnonneg
    cases hc
    intro s
    change (∃ raised, transaction cost mutate s = .error raised s) ∨ ∃ a working,
      Q s.memory a working ∧ _ ∧ _ ∧ transaction cost mutate s = .ok a (s.commit cost working)
    unfold transaction
    by_cases hcovers : s.budget.all (fun b => ResourceBudget.covers b.memoryWrites cost) = true
    · -- the change is of a copy: where it raises, nothing was written
      rw [if_pos hcovers]
      cases hm : mutate s.memory with
      | error raised => exact .inl ⟨raised, rfl⟩
      | ok result =>
        exact .inr ⟨result.1, result.2, h _ _ _ hm, not_lt.1 hnonneg, hcovers, rfl⟩
    · rw [if_neg hcovers]
      exact .inl ⟨_, rfl⟩

theorem Transacts.map {m : SandboxM α} (h : Transacts cost m Q) (g : α → β)
    (hQ : ∀ memory a working, Q memory a working → Q' memory (g a) working) :
    Transacts cost (m >>= fun a => pure (g a)) Q' := by
  intro s
  rcases h s with ⟨raised, hrun⟩ | ⟨a, working, hq, hcost, hcovers, hrun⟩
  · refine .inl ⟨raised, ?_⟩
    rw [EStateM.run_bind, hrun]
  · refine .inr ⟨g a, working, hQ _ _ _ hq, hcost, hcovers, ?_⟩
    rw [run_bind_of_ok hrun]
    rfl

end Rules

def Renumbers (memory working : Memory) : Prop :=
  MemoryNumbered memory →
    Numbered (lit "task-") working.tasks (memory.revision + 1) ∧
      Numbered (lit "artifact-") working.artifacts (memory.revision + 1)

theorem renumbers_of_sublist {memory working : Memory}
    (htasks : List.Sublist (idsOf working.tasks) (idsOf memory.tasks))
    (hartifacts : List.Sublist (idsOf working.artifacts) (idsOf memory.artifacts)) :
    Renumbers memory working :=
  fun h => ⟨h.tasks.sublist htasks (by omega), h.artifacts.sublist hartifacts (by omega)⟩

theorem next_number {memory : Memory} (h : MemoryNumbered memory) :
    ∃ n : ℕ, (n : ℤ) = memory.revision + 1 ∧ intText (memory.revision + 1) = lit (toString n) := by
  have := h.revision
  obtain ⟨n, hn⟩ := Int.eq_ofNat_of_zero_le (a := memory.revision + 1) (by omega)
  exact ⟨n, hn.symm, by rw [hn]; rfl⟩

/-- What `update_task` returned has the id that its rollback asks for. -/
def Answered (update : PyText × PyDict) : Prop :=
  ∀ id, parseResourceId update.1 "task id" = .ok id → hasId id update.2 = true

/-! ### The operations -/

theorem setFact_transacts (key : PyText) (value : Option PyValue) :
    Transacts cost (setFact cost key value) fun memory _ working => Renumbers memory working := by
  refine transacts_lift fun parts _ => transacts_costed fun memory a working h => ?_
  cases value with
  | none => cases h
  | some v =>
    cases h
    exact renumbers_of_sublist (List.Sublist.refl _) (List.Sublist.refl _)

theorem rollbackSetFact_transacts (key : PyText) (previous : PyValue) (existed : Bool) :
    Transacts cost (rollbackSetFact cost key previous existed)
      fun memory _ working => Renumbers memory working := by
  refine transacts_lift fun parts _ => transacts_costed fun memory a working h => ?_
  cases h
  exact renumbers_of_sublist (List.Sublist.refl _) (List.Sublist.refl _)

theorem appendTask_transacts (description status created : PyText) :
    Transacts cost (appendTask cost description status created)
      fun memory _ working => Renumbers memory working := by
  refine transacts_lift fun _ _ => transacts_lift fun _ _ =>
    transacts_costed fun memory a working h => ?_
  cases h
  intro hm
  -- the id has the number of the revision that the commit makes
  obtain ⟨n, hn, htext⟩ := next_number hm
  refine ⟨hm.tasks.append hn ?_, hm.artifacts.sublist (List.Sublist.refl _) (by omega)⟩
  rw [htext]
  rfl

theorem updateTask_transacts (taskId : PyText) (description status : Option PyText)
    (updated : PyText) : Transacts cost (updateTask cost taskId description status updated)
      fun memory previous working => Renumbers memory working ∧ Answered (taskId, previous) := by
  refine transacts_lift fun id hid => transacts_lift fun _ _ =>
    transacts_costed fun memory a working h => ?_
  obtain ⟨⟨previous, tasks⟩, hc, h⟩ := bind_ok h
  cases h
  obtain ⟨hids, hprevious⟩ := changeTask_spec
    (fun _ _ ht hu => (Runtime.hasId_updatedTask hu).trans ht) hc
  refine ⟨renumbers_of_sublist ?_ (List.Sublist.refl _), ?_⟩
  · rw [hids]
  · intro id' hid'
    cases hid.symm.trans hid'
    exact hprevious

/-- **A rollback with the value of its call leaves the ids.** -/
theorem rollbackUpdateTask_transacts (taskId : PyText) (previous : PyDict) :
    Transacts cost (rollbackUpdateTask cost taskId previous)
      fun memory _ working => Answered (taskId, previous) → Renumbers memory working := by
  refine transacts_lift fun id hid => transacts_costed fun memory a working h hanswered => ?_
  obtain ⟨⟨task, tasks⟩, hc, h⟩ := bind_ok h
  cases h
  -- the task that is put back has the id that was asked for
  obtain ⟨hids, -⟩ := changeTask_spec
    (fun _ task' _ hp => by cases hp; exact hanswered id hid) hc
  refine renumbers_of_sublist ?_ (List.Sublist.refl _)
  rw [hids]

theorem removeTask_transacts (taskId : PyText) :
    Transacts cost (removeTask cost taskId) fun memory _ working => Renumbers memory working := by
  refine transacts_lift fun id _ => transacts_costed fun memory a working h => ?_
  obtain ⟨tasks, hr, h⟩ := bind_ok h
  cases h
  exact renumbers_of_sublist ((removeLast_sublist hr).map idOf) (List.Sublist.refl _)

theorem storeArtifact_transacts (name path : PyText) (metadata : Option PyDict)
    (created : PyText) : Transacts cost (storeArtifact cost name path metadata created)
      fun memory _ working => Renumbers memory working := by
  refine transacts_lift fun _ _ => transacts_lift fun normalized _ =>
    transacts_costed fun memory a working h => ?_
  cases metadata with
  | none => cases h
  | some d =>
    cases h
    intro hm
    obtain ⟨n, hn, htext⟩ := next_number hm
    refine ⟨hm.tasks.sublist (List.Sublist.refl _) (by omega), hm.artifacts.append hn ?_⟩
    rw [htext]
    rfl

theorem removeArtifact_transacts (artifactId : PyText) :
    Transacts cost (removeArtifact cost artifactId)
      fun memory _ working => Renumbers memory working := by
  refine transacts_lift fun id _ => transacts_costed fun memory a working h => ?_
  obtain ⟨artifacts, hr, h⟩ := bind_ok h
  cases h
  exact renumbers_of_sublist (List.Sublist.refl _) ((removeLast_sublist hr).map idOf)

theorem changeNotes_transacts (result : α) (change : List PyValue → List PyValue) :
    Transacts cost (changeNotes cost result change)
      fun memory _ working => Renumbers memory working := by
  refine transacts_costed fun memory a working h => ?_
  obtain ⟨notes, -, h⟩ := bind_ok h
  cases h
  exact renumbers_of_sublist (List.Sublist.refl _) (List.Sublist.refl _)

theorem pruneMemory_transacts (pruneDoneTasks : Bool) :
    Transacts cost (pruneMemory cost pruneDoneTasks)
      fun memory _ working => Renumbers memory working := by
  refine transacts_costed fun memory a working h => ?_
  cases pruneDoneTasks with
  | false =>
    cases h
    exact renumbers_of_sublist (List.Sublist.refl _) (List.Sublist.refl _)
  | true =>
    obtain ⟨tasks, hk, h⟩ := bind_ok h
    cases h
    exact renumbers_of_sublist ((keptTasks_sublist hk).map idOf) (List.Sublist.refl _)

def WellCalled : MemoryOperation → Prop
  | .rollbackUpdateTask taskId previous => Answered (taskId, previous)
  | _ => True

/-- **Every operation on the memory is one transaction.** -/
theorem perform_transacts (cost : ℚ) (op : MemoryOperation) : Transacts cost (op.perform cost)
    fun memory updates working => (WellCalled op → Renumbers memory working) ∧
      ∀ u ∈ updates, Answered u := by
  have hnone : ∀ u ∈ ([] : List (PyText × PyDict)), Answered u :=
    fun _ h => absurd h List.not_mem_nil
  cases op with
  | setFact key value =>
    exact (setFact_transacts key value).map _ fun _ _ _ h => ⟨fun _ => h, hnone⟩
  | rollbackSetFact key previous existed =>
    exact (rollbackSetFact_transacts key previous existed).map _ fun _ _ _ h => ⟨fun _ => h, hnone⟩
  | appendTask description status now =>
    exact (appendTask_transacts description status now).map _ fun _ _ _ h => ⟨fun _ => h, hnone⟩
  | updateTask taskId description status now =>
    refine (updateTask_transacts taskId description status now).map _ fun _ _ _ h => ?_
    refine ⟨fun _ => h.1, fun u hu => ?_⟩
    rw [List.mem_singleton.1 hu]
    exact h.2
  | rollbackUpdateTask taskId previous =>
    exact (rollbackUpdateTask_transacts taskId previous).map _ fun _ _ _ h => ⟨h, hnone⟩
  | removeTask taskId =>
    exact (removeTask_transacts taskId).map _ fun _ _ _ h => ⟨fun _ => h, hnone⟩
  | storeArtifact name path metadata now =>
    exact (storeArtifact_transacts name path metadata now).map _ fun _ _ _ h =>
      ⟨fun _ => h, hnone⟩
  | removeArtifact artifactId =>
    exact (removeArtifact_transacts artifactId).map _ fun _ _ _ h => ⟨fun _ => h, hnone⟩
  | appendContextNote note =>
    have happend : Transacts cost (appendContextNote cost note)
        fun memory _ working => Renumbers memory working :=
      transacts_lift fun _ _ => changeNotes_transacts note _
    exact happend.map _ fun _ _ _ h => ⟨fun _ => h, hnone⟩
  | removeContextNote note =>
    exact (changeNotes_transacts () _).map _ fun _ _ _ h => ⟨fun _ => h, hnone⟩
  | compressMemory maxNotes =>
    have hcompress : Transacts cost (compressMemory cost maxNotes)
        fun memory _ working => Renumbers memory working :=
      transacts_lift fun _ _ => changeNotes_transacts () _
    exact hcompress.map _ fun _ _ _ h => ⟨fun _ => h, hnone⟩
  | pruneMemory pruneDoneTasks =>
    exact (pruneMemory_transacts pruneDoneTasks).map _ fun _ _ _ h => ⟨fun _ => h, hnone⟩

structure SandboxGood (r : ℚ) (s : StateSandbox) : Prop where
  memory : MemoryNumbered s.memory
  budget : ∃ f, s.budget = some ⟨some r, some f⟩

theorem keeps_lift (e : Except SandboxFault α) : Keeps (SandboxGood r) (SandboxM.lift e) := by
  cases e with
  | ok a => exact keeps_pure a
  | error raised => exact keeps_throw raised

theorem keeps_onFiles (change : SandboxFiles → Option SandboxFiles) :
    Keeps (SandboxGood r) (Runtime.onFiles change) := by
  refine spec_get fun s hs => ?_
  split
  · rintro _ rfl
    exact hs
  · rintro _ rfl
    exact ⟨hs.memory, hs.budget⟩

theorem keeps_checkFileBudget (cost : ℚ) :
    Keeps (SandboxGood r) (Runtime.checkFileBudget cost) := by
  refine spec_get fun s hs => ?_
  split <;>
  · rintro _ rfl
    exact hs

theorem keeps_deductFileBudget (cost : ℚ) :
    Keeps (SandboxGood r) (Runtime.deductFileBudget cost) := by
  refine keeps_modify fun s hs => ⟨hs.memory, ?_⟩
  obtain ⟨f, hf⟩ := hs.budget
  simp only [hf]
  exact ⟨_, rfl⟩

theorem keeps_readPrevious (p : ResourcePath) :
    Keeps (SandboxGood r) (Runtime.readPrevious p) := by
  refine spec_get fun s hs => ?_
  split
  · rintro _ rfl
    exact hs
  · split <;>
    · rintro _ rfl
      exact hs

theorem keeps_encode (content : PyText) : Keeps (SandboxGood r) (Runtime.encode content) := by
  unfold Runtime.encode
  split
  · exact keeps_throw _
  · exact keeps_pure _

theorem keeps_writeThroughTmp (p : ResourcePath) (raw : Bytes) :
    Keeps (SandboxGood r) (Runtime.writeThroughTmp p raw) :=
  keeps_bind (keeps_onFiles _) fun _ => keeps_bind (keeps_onFiles _) fun _ => keeps_onFiles _

theorem keeps_unlinkPresent (p : ResourcePath) :
    Keeps (SandboxGood r) (Runtime.unlinkPresent p) := by
  refine spec_get fun s hs => ?_
  split
  · rintro _ rfl
    exact keeps_onFiles _ _ hs
  · rintro _ rfl
    exact hs

theorem keeps_putBack (p : ResourcePath) (existed : Bool) (previousContent : Option PyText) :
    Keeps (SandboxGood r) (Runtime.putBack p existed previousContent) := by
  unfold Runtime.putBack
  split
  · exact keeps_bind (keeps_encode _) fun raw => keeps_writeThroughTmp p raw
  · exact keeps_unlinkPresent p

theorem keeps_writeFile (path content : PyText) :
    Keeps (SandboxGood r) (writeFile cost path content) :=
  keeps_bind (keeps_lift _) fun _ => keeps_bind (keeps_lift _) fun _ =>
    keeps_bind (keeps_checkFileBudget _) fun _ => keeps_bind (keeps_readPrevious _) fun _ =>
      keeps_bind (keeps_encode _) fun _ => keeps_bind (keeps_writeThroughTmp _ _) fun _ =>
        keeps_bind (keeps_deductFileBudget _) fun _ => keeps_pure _

theorem keeps_rollbackWriteFile (path : PyText) (previousContent : Option PyText)
    (existed : Bool) :
    Keeps (SandboxGood r) (rollbackWriteFile cost path previousContent existed) :=
  keeps_bind (keeps_lift _) fun _ => keeps_bind (keeps_lift _) fun _ =>
    keeps_bind (keeps_checkFileBudget _) fun _ => keeps_bind (keeps_putBack _ _ _) fun _ =>
      keeps_deductFileBudget _

theorem keeps_deletePresent (normalized : PyText) (p : ResourcePath) :
    Keeps (SandboxGood r) (deletePresent cost normalized p) := by
  refine spec_get fun s hs => ?_
  split
  · rintro _ rfl
    exact hs
  · rintro _ rfl
    refine keeps_bind (keeps_readPrevious p) (fun _ => keeps_bind (keeps_onFiles _) fun _ =>
      keeps_bind (keeps_deductFileBudget cost) fun _ => keeps_pure _) _ hs

theorem keeps_deleteFile (path : PyText) : Keeps (SandboxGood r) (deleteFile cost path) := by
  refine keeps_bind (keeps_lift _) fun parsed => keeps_bind (keeps_lift _) fun cost' =>
    keeps_bind (keeps_checkFileBudget _) fun _ => spec_get fun s hs => ?_
  split
  · rintro _ rfl
    exact keeps_deletePresent _ _ _ hs
  · rintro _ rfl
    exact hs

theorem keeps_rollbackDeleteFile (path previousContent : PyText) :
    Keeps (SandboxGood r) (rollbackDeleteFile cost path previousContent) :=
  keeps_bind (keeps_lift _) fun _ => keeps_bind (keeps_lift _) fun _ =>
    keeps_bind (keeps_checkFileBudget _) fun _ => keeps_bind (keeps_encode _) fun _ =>
      keeps_bind (keeps_writeThroughTmp _ _) fun _ => keeps_deductFileBudget _

/-! ### In a session -/

structure Good (r : ℚ) (s : Session) : Prop where
  sandbox : SandboxGood r s.sandbox
  snapshots : ∀ id snapshot, s.snapshots id = some snapshot → MemoryNumbered snapshot.memory
  updates : ∀ u ∈ s.updates, Answered u

theorem run_inSandbox (m : SandboxM α) (s : Session) :
    (inSandbox m).run s = match m.run s.sandbox with
      | .ok a sandbox => .ok a { s with sandbox := sandbox }
      | .error raised sandbox => .error raised { s with sandbox := sandbox } := rfl

theorem keeps_inSandbox {m : SandboxM α} (h : Keeps (SandboxGood r) m) :
    Keeps (Good r) (inSandbox m) := by
  intro s hs
  have hm := h s.sandbox hs.sandbox
  rw [run_inSandbox]
  cases hrun : m.run s.sandbox <;>
  · rw [hrun] at hm
    exact ⟨hm, hs.snapshots, hs.updates⟩

theorem keeps_readFile (path : PyText) : Keeps (Good r) (readFile cost path) := by
  refine keeps_bind (keeps_inSandbox (keeps_lift _)) fun parsed =>
    keeps_bind (keeps_inSandbox (keeps_lift _)) fun cost' => spec_get fun s hs => ?_
  split
  · rintro _ rfl
    exact hs
  split
  · rintro _ rfl
    exact hs
  split
  · rintro _ rfl
    exact hs
  split
  · rintro _ rfl
    exact hs
  · rintro _ rfl
    exact ⟨hs.sandbox, hs.snapshots, hs.updates⟩

variable {s : Session}

theorem snapshots_update (hs : Good r s) (snapshotId : PyText)
    (files : Option SandboxFiles) : ∀ id snapshot,
      Function.update s.snapshots snapshotId (some ⟨s.sandbox.memory, files⟩) id = some snapshot →
        MemoryNumbered snapshot.memory := by
  intro id snapshot h
  by_cases hid : id = snapshotId
  · rw [hid, Function.update_self] at h
    cases h
    exact hs.sandbox.memory
  · rw [Function.update_of_ne hid] at h
    exact hs.snapshots id snapshot h

theorem spec_set {s' : Session} (hs' : Good r s') {m : SessionM Unit} (hm : Keeps (Good r) m) :
    Spec (fun s₁ => s₁ = s) (set s' >>= fun _ => m) (fun _ => Good r) (fun _ => Good r) :=
  fun _ _ => hm s' hs'

theorem keeps_snapshotState (snapshotId : PyText) :
    Keeps (Good r) (snapshotState cost snapshotId) := by
  refine keeps_bind (keeps_inSandbox (keeps_lift _)) fun cost' =>
    keeps_bind (keeps_inSandbox (keeps_checkFileBudget _)) fun _ => spec_get fun s hs => ?_
  have hdeduct : Keeps (Good r) (inSandbox (Runtime.deductFileBudget cost')) :=
    keeps_inSandbox (keeps_deductFileBudget cost')
  have hput : ∀ files, Good r { s with
      snapshots := Function.update s.snapshots snapshotId (some ⟨s.sandbox.memory, files⟩) } :=
    fun files => ⟨hs.sandbox, snapshots_update hs snapshotId files, hs.updates⟩
  refine spec_ite (fun _ => spec_ite (fun _ => ?_) fun _ => ?_) fun _ => ?_
  · exact spec_set (hput _) (keeps_bind (keeps_throw _) fun _ => hdeduct)
  · exact spec_set (hput _) hdeduct
  · exact spec_set (hput _) hdeduct

theorem keeps_restoreSnapshot (snapshotId : PyText) :
    Keeps (Good r) (restoreSnapshot cost snapshotId) := by
  refine keeps_bind (keeps_inSandbox (keeps_lift _)) fun id =>
    keeps_bind (keeps_inSandbox (keeps_lift _)) fun cost' =>
      keeps_bind (keeps_inSandbox (keeps_checkFileBudget _)) fun _ => spec_get fun s hs => ?_
  cases hsnapshot : s.snapshots id with
  | none =>
    rintro _ rfl
    exact hs
  | some snapshot =>
    -- the memory that comes back was the memory of a session before
    have hback : Good r { s with sandbox := { s.sandbox with
        memory := snapshot.memory
        files := snapshot.files.getD emptyFiles } } :=
      ⟨⟨hs.snapshots id snapshot hsnapshot, hs.sandbox.budget⟩, hs.snapshots, hs.updates⟩
    exact spec_set hback (keeps_inSandbox (keeps_deductFileBudget cost'))

theorem memoryNumbered_empty : MemoryNumbered emptyMemory :=
  ⟨le_refl 0, numbered_nil 0, numbered_nil 0⟩

theorem keeps_reset : Keeps (Good r) reset :=
  keeps_modify fun _ hs =>
    ⟨⟨memoryNumbered_empty, hs.sandbox.budget⟩, hs.snapshots, hs.updates⟩

theorem final_map (m : SandboxM α) (g : α → β) (s : StateSandbox) :
    final (m >>= fun a => pure (g a)) s = final m s := by
  unfold final
  rw [EStateM.run_bind]
  cases m.run s <;> rfl

theorem final_inSandbox (m : SandboxM α) (f : α → SessionM Unit)
    (hf : ∀ a s, (final (f a) s).sandbox = s.sandbox) (s : Session) :
    (final (inSandbox m >>= f) s).sandbox = final m s.sandbox := by
  unfold final
  rw [EStateM.run_bind, run_inSandbox]
  cases m.run s.sandbox with
  | ok a sandbox => exact hf a _
  | error raised sandbox => rfl

theorem deleteFile_default (path : PyText) :
    deleteFile (1 / 2) path = Runtime.deleteFile path := by
  have hcost : parseCost (1 / 2) = .ok (1 / 2) := if_neg (by decide +kernel)
  unfold deleteFile
  rw [hcost]
  rfl

theorem sandboxStep_memory {γ : Type} (m : SandboxM α) (f : α → List (PyText × PyDict))
    (g : α → γ) {op : MemoryOperation} (hop : op.perform cost = (m >>= fun a => pure (f a)))
    (s : Session) : (sandboxStep s (.memory op, cost)).sandbox =
      final (m >>= fun a => pure (g a)) s.sandbox := by
  have hstep : (sandboxStep s (.memory op, cost)).sandbox = final (op.perform cost) s.sandbox :=
    final_inSandbox _ _ (fun _ _ => rfl) s
  rw [hstep, hop, final_map, final_map]

/-- **A tool is the operation at its default cost.** -/
theorem toolOperation_step (call : Runtime.ToolCall) (s : Session) :
    (sandboxStep s (toolOperation call)).sandbox = final call.perform s.sandbox := by
  cases call with
  | setFact key value => exact sandboxStep_memory (Runtime.setFact key value) _ _ rfl s
  | appendTask description status now =>
    exact sandboxStep_memory (Runtime.appendTask description status now) _ _ rfl s
  | updateTask taskId description status now =>
    exact sandboxStep_memory (Runtime.updateTask taskId description status now) _ _ rfl s
  | storeArtifact name path metadata now =>
    exact sandboxStep_memory (Runtime.storeArtifact name path metadata now) _ _ rfl s
  | remember note => exact sandboxStep_memory (Runtime.appendContextNote note) _ _ rfl s
  | writeSandboxFile path content =>
    refine (final_inSandbox (Runtime.writeFile path content) _ (fun _ _ => rfl) s).trans ?_
    exact (final_map (Runtime.writeFile path content) _ s.sandbox).symm
  | deleteSandboxFile path =>
    refine (final_inSandbox (deleteFile (1 / 2) path) _ (fun _ _ => rfl) s).trans ?_
    rw [deleteFile_default]
    exact (final_map (Runtime.deleteFile path) _ s.sandbox).symm

def Atomic (s : Session) (op : MemoryOperation) (cost : ℚ) : Prop :=
  match ((SandboxOperation.memory op).perform cost).run s with
  | .error _ s' => s' = s
  | .ok _ s' => s'.sandbox.memory.revision = s.sandbox.memory.revision + 1 ∧
      s'.fileReads = s.fileReads ∧ 0 ≤ cost ∧
      ∃ r f, s.sandbox.budget = some ⟨some r, some f⟩ ∧ cost ≤ r ∧
        s'.sandbox.budget = some ⟨some (r - cost), some f⟩

theorem memory_cases (hs : Good r s) (op : MemoryOperation) (cost : ℚ) :
    ((∃ raised, ((SandboxOperation.memory op).perform cost).run s = .error raised s) ∧
        committedCost s (.memory op, cost) = 0) ∨
      ∃ updates working, (WellCalled op → Renumbers s.sandbox.memory working) ∧
        (∀ u ∈ updates, Answered u) ∧ 0 ≤ cost ∧ cost ≤ r ∧
        committedCost s (.memory op, cost) = cost ∧
        ((SandboxOperation.memory op).perform cost).run s = .ok () { s with
          sandbox := s.sandbox.commit cost working
          updates := s.updates ++ updates } := by
  obtain ⟨f, hf⟩ := hs.sandbox.budget
  rcases perform_transacts cost op s.sandbox with
    ⟨raised, hrun⟩ | ⟨updates, working, ⟨hids, hanswered⟩, hcost, hcovers, hrun⟩
  · refine .inl ⟨⟨raised, ?_⟩, ?_⟩
    · simp only [SandboxOperation.perform]
      rw [EStateM.run_bind, run_inSandbox, hrun]
    · simp only [committedCost, hrun]
  · refine .inr ⟨updates, working, hids, hanswered, hcost, ?_, ?_, ?_⟩
    · rw [hf] at hcovers
      exact of_decide_eq_true hcovers
    · simp only [committedCost, hrun]
    · simp only [SandboxOperation.perform]
      rw [EStateM.run_bind, run_inSandbox, hrun]
      rfl

theorem budget_commit {s : StateSandbox} {f : ℚ} (hbudget : s.budget = some ⟨some r, some f⟩)
    (hle : cost ≤ r) (working : Memory) :
    (s.commit cost working).budget = some ⟨some (r - cost), some f⟩ := by
  have hmax : max 0 (r - cost) = r - cost := max_eq_right (sub_nonneg.2 hle)
  unfold StateSandbox.commit
  simp only [hbudget, Option.map_some, Runtime.deductMemory, ResourceBudget.less, hmax]

theorem atomic_of_good (hs : Good r s) (op : MemoryOperation) (cost : ℚ) :
    Atomic s op cost := by
  obtain ⟨f, hf⟩ := hs.sandbox.budget
  unfold Atomic
  rcases memory_cases hs op cost with
    ⟨⟨raised, hrun⟩, -⟩ | ⟨updates, working, -, -, hcost, hle, -, hrun⟩
  · rw [hrun]
  · rw [hrun]
    exact ⟨rfl, rfl, hcost, r, f, hf, hle, budget_commit hf hle working⟩

/-- **A call keeps the ids apart and takes what it commits from the budget.** -/
theorem good_step (hs : Good r s) (hr : 0 ≤ r) {call : SandboxCall}
    (hp : Permitted s call) : ∃ r', Good r' (sandboxStep s call) ∧ 0 ≤ r' ∧
      r' + committedCost s call = r := by
  obtain ⟨op, cost⟩ := call
  have hother : ∀ {m : SessionM Unit}, Keeps (Good r) m → op.perform cost = m →
      committedCost s (op, cost) = 0 → ∃ r', Good r' (sandboxStep s (op, cost)) ∧ 0 ≤ r' ∧
        r' + committedCost s (op, cost) = r := by
    intro m hm hop hcost
    refine ⟨r, ?_, hr, by rw [hcost, add_zero]⟩
    unfold sandboxStep
    rw [hop]
    exact hm.final hs
  cases op with
  | memory op =>
    rcases memory_cases hs op cost with
      ⟨⟨raised, hrun⟩, hzero⟩ | ⟨updates, working, hids, hanswered, hcost, hle, hspent, hrun⟩
    · -- a call that raised leaves the session as it was
      have hstep : sandboxStep s (.memory op, cost) = s := by
        simp only [sandboxStep, final, hrun]
      rw [hstep, hzero]
      exact ⟨r, hs, hr, add_zero r⟩
    · have hstep : sandboxStep s (.memory op, cost) = _ := final_of_run hrun
      rw [hstep, hspent]
      -- a rollback gets what an earlier call returned
      have hwell : WellCalled op := by
        cases op with
        | rollbackUpdateTask taskId previous => exact hs.updates _ hp
        | _ => trivial
      obtain ⟨htasks, hartifacts⟩ := hids hwell hs.sandbox.memory
      obtain ⟨f, hf⟩ := hs.sandbox.budget
      have hrevision := hs.sandbox.memory.revision
      refine ⟨r - cost, ⟨⟨⟨?_, htasks, hartifacts⟩, f, budget_commit hf hle working⟩,
        hs.snapshots, ?_⟩, sub_nonneg.2 hle, sub_add_cancel r cost⟩
      · simp only [StateSandbox.commit]
        omega
      · intro u hu
        rcases List.mem_append.1 hu with hu | hu
        · exact hs.updates u hu
        · exact hanswered u hu
  | readFile path => exact hother (keeps_bind (keeps_readFile path) fun _ => keeps_pure _) rfl rfl
  | writeFile path content =>
    exact hother (keeps_bind (keeps_inSandbox (keeps_writeFile path content)) fun _ =>
      keeps_pure _) rfl rfl
  | rollbackWriteFile path previousContent existed =>
    exact hother (keeps_inSandbox (keeps_rollbackWriteFile path previousContent existed)) rfl rfl
  | deleteFile path =>
    exact hother (keeps_bind (keeps_inSandbox (keeps_deleteFile path)) fun _ => keeps_pure _)
      rfl rfl
  | rollbackDeleteFile path previousContent =>
    exact hother (keeps_inSandbox (keeps_rollbackDeleteFile path previousContent)) rfl rfl
  | snapshotState snapshotId => exact hother (keeps_snapshotState snapshotId) rfl rfl
  | restoreSnapshot snapshotId => exact hother (keeps_restoreSnapshot snapshotId) rfl rfl
  | reset => exact hother keeps_reset rfl rfl

theorem good_run (hs : Good r s) (hr : 0 ≤ r) {calls : List SandboxCall}
    (hp : Machine.Guarded sandboxStep Permitted s calls) :
    ∃ r', Good r' (Machine.run sandboxStep s calls) ∧ 0 ≤ r' ∧ r' + totalCost s calls = r := by
  induction calls generalizing s r with
  | nil => exact ⟨r, hs, hr, add_zero r⟩
  | cons call calls ih =>
    obtain ⟨r₁, hgood, hr₁, hspent⟩ := good_step hs hr hp.1
    obtain ⟨r₂, hgood₂, hr₂, hspent₂⟩ := ih hgood hr₁ hp.2
    refine ⟨r₂, hgood₂, hr₂, ?_⟩
    rw [totalCost, ← hspent, ← hspent₂, add_comm (committedCost s call), add_assoc]

structure Sound (b : FiniteBudget) (calls : List SandboxCall) (s : Session) : Prop where
  /-- every operation on the memory, at any cost, is atomic -/
  atomic : ∀ op cost, Atomic s op cost
  bounded : totalCost b.session calls ≤ b.memoryWrites
  tasks : (idsOf s.sandbox.memory.tasks).Nodup
  artifacts : (idsOf s.sandbox.memory.artifacts).Nodup
  taskNumbers : ∀ id ∈ idsOf s.sandbox.memory.tasks,
    ∃ n : ℕ, id = numberedId (lit "task-") n ∧ (n : ℤ) ≤ s.sandbox.memory.revision
  artifactNumbers : ∀ id ∈ idsOf s.sandbox.memory.artifacts,
    ∃ n : ℕ, id = numberedId (lit "artifact-") n ∧ (n : ℤ) ≤ s.sandbox.memory.revision

theorem good_session (b : FiniteBudget) : Good b.memoryWrites b.session where
  sandbox := ⟨memoryNumbered_empty, b.fileWrites, rfl⟩
  snapshots := fun _ _ h => by cases h
  updates := fun _ h => absurd h List.not_mem_nil

/-- **Transactions are atomic and budgeted, and keep ids unique, over every run.** -/
theorem transactions_sound (b : FiniteBudget) (calls : List SandboxCall)
    (hp : Machine.Guarded sandboxStep Permitted b.session calls) :
    Sound b calls (Machine.run sandboxStep b.session calls) := by
  obtain ⟨r, hgood, hr, hspent⟩ := good_run (good_session b) b.memoryWrites_nonneg hp
  exact {
    atomic := atomic_of_good hgood
    bounded := by rw [← hspent]; exact le_add_of_nonneg_left hr
    tasks := hgood.sandbox.memory.tasks.nodup
    artifacts := hgood.sandbox.memory.artifacts.nodup
    taskNumbers := hgood.sandbox.memory.tasks.bounded
    artifactNumbers := hgood.sandbox.memory.artifacts.bounded }

/-- The task that `append_task` appends first. -/
def firstTask : PyDict := [
  (lit "id", .str (lit "task-1")),
  (lit "description", .str (lit "plan")),
  (lit "status", .str (lit "open")),
  (lit "created_at", .float (lit "1.0"))]

/-- A task is appended, kept in a snapshot, done and reopened; then the snapshot is
restored and another is appended. -/
def reopened : List SandboxCall := [
  (.memory (.appendTask (lit "plan") (lit "open") (lit "1.0")), 1),
  (.snapshotState (lit "snap-1"), 2),
  (.memory (.updateTask (lit "task-1") none (some (lit "done")) (lit "2.0")), 1),
  (.memory (.rollbackUpdateTask (lit "task-1") firstTask), 0),
  (.restoreSnapshot (lit "snap-1"), 2),
  (.memory (.appendTask (lit "build") (lit "open") (lit "3.0")), 1)]

/-- The budget of the mode `guided`. -/
def guidedBudget : FiniteBudget := ⟨20, 10, 10, by decide, by decide, by decide⟩

theorem reopened_permitted :
    Machine.Guarded sandboxStep Permitted guidedBudget.session reopened := by
  refine ⟨trivial, trivial, trivial, ?_, trivial, trivial, trivial⟩
  have hupdates : (Machine.run sandboxStep guidedBudget.session (reopened.take 3)).updates =
      [(lit "task-1", firstTask)] := by with_unfolding_all rfl
  change (lit "task-1", firstTask) ∈
    (Machine.run sandboxStep guidedBudget.session (reopened.take 3)).updates
  rw [hupdates]
  exact List.mem_singleton_self _

theorem reopened_sound :
    idsOf (Machine.run sandboxStep guidedBudget.session reopened).sandbox.memory.tasks =
        [numberedId (lit "task-") 1, numberedId (lit "task-") 2] ∧
      Sound guidedBudget reopened (Machine.run sandboxStep guidedBudget.session reopened) :=
  ⟨by with_unfolding_all rfl, transactions_sound guidedBudget reopened reopened_permitted⟩

end ClawHarder.Transactions
