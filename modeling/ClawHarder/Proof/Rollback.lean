import ClawHarder.Spec.Sandbox

/-!
# What a rollback gives back

A tool that was accepted is followed by the rollback that is registered with it. Two
things can be left behind: `set_fact` makes the containers on the way to a key, which
its rollback keeps, and a file at the name of a temporary file goes with the write. A
task and an artifact are found again by an id that must pass the check on ids.

* `rollback_restores_iff`: **a rollback restores the sandbox exactly when the tool can be
  taken back.**
-/

namespace ClawHarder.Runtime

open Effectful
open PyText (lit codePoint)

variable {α β : Type} {s s' : StateSandbox}

theorem lift_ok {e : Except SandboxFault α} {a : α} (h : (SandboxM.lift e).run s = .ok a s') :
    e = .ok a ∧ s' = s := by
  cases e with
  | ok b =>
    cases h
    exact ⟨rfl, rfl⟩
  | error raised => cases h

theorem run_lift {e : Except SandboxFault α} {a : α} (h : e = .ok a) :
    (SandboxM.lift e).run s = .ok a s := by
  rw [h]
  rfl

theorem transaction_ok {cost : ℚ} {mutate : Memory → Except SandboxFault (α × Memory)} {a : α}
    (h : (transaction cost mutate).run s = .ok a s') :
    ∃ working, mutate s.memory = .ok (a, working) ∧ s' = s.commit cost working := by
  change transaction cost mutate s = .ok a s' at h
  unfold transaction at h
  split at h
  · split at h
    · cases h
    · rename_i heq
      cases h
      exact ⟨_, heq, rfl⟩
  · cases h

theorem covers_less (remaining : Option ℚ) (cost : ℚ) :
    ResourceBudget.covers (ResourceBudget.less remaining cost) 0 = true := by
  cases remaining with
  | none => rfl
  | some r =>
    have : (0 : ℚ) ≤ max 0 (r - cost) := le_max_left 0 _
    exact decide_eq_true this

theorem affordable_commit (s : StateSandbox) (cost : ℚ) (working : Memory) :
    (s.commit cost working).budget.all (fun b => ResourceBudget.covers b.memoryWrites 0) = true := by
  unfold StateSandbox.commit
  cases s.budget with
  | none => rfl
  | some b => exact covers_less b.memoryWrites cost

theorem run_transaction {mutate : Memory → Except SandboxFault (α × Memory)} {a : α} {cost : ℚ}
    {working working' : Memory} (h : mutate (s.commit cost working).memory = .ok (a, working')) :
    (transaction 0 mutate).run (s.commit cost working) =
      .ok a ((s.commit cost working).commit 0 working') := by
  change transaction 0 mutate (s.commit cost working) = _
  unfold transaction
  rw [if_pos (affordable_commit s cost working), h]

theorem setFact_ok {key : PyText} {value : PyValue} {r : SetFactResult}
    (h : (setFact key value).run s = .ok r s') :
    ∃ parts, parseKey key = .ok parts ∧
      r.key = key ∧
      r.previous = (PyValue.get? parts.name (PyValue.innermost parts.containers
        s.memory.facts)).getD .none ∧
      r.existed = (PyValue.get? parts.name (PyValue.innermost parts.containers
        s.memory.facts)).isSome ∧
      s' = s.commit 1 { s.memory with
        facts := PyValue.inside (PyValue.set parts.name value) parts.containers
          s.memory.facts } := by
  obtain ⟨parts, s₁, hlift, hrest⟩ := run_bind_ok h
  obtain ⟨hparse, rfl⟩ := lift_ok hlift
  obtain ⟨working, hmutate, hs'⟩ := transaction_ok hrest
  cases hmutate
  exact ⟨parts, hparse, rfl, rfl, rfl, hs'⟩

theorem unset_alike (name : PyText) (value : PyValue) (d : PyDict) :
    PyValue.Alike
      ((if (PyValue.get? name d).isSome then PyValue.set name ((PyValue.get? name d).getD .none)
        else PyValue.pop name) (PyValue.set name value d)) d := by
  apply PyValue.alike_of_get?
  intro k
  cases hd : PyValue.get? name d with
  | none =>
    show PyValue.get? k (PyValue.pop name (PyValue.set name value d)) = _
    rw [PyValue.get?_pop, PyValue.get?_set]
    by_cases hk : k = name
    · rw [if_pos hk, hk, hd]
    · rw [if_neg hk, if_neg hk]
  | some previous =>
    show PyValue.get? k (PyValue.set name previous (PyValue.set name value d)) = _
    rw [PyValue.get?_set, PyValue.get?_set]
    by_cases hk : k = name
    · rw [if_pos hk, hk, hd]
    · rw [if_neg hk, if_neg hk]

/-- **The rollback of `set_fact` restores the facts exactly when every container on the
way to the key is there.** -/
theorem rollbackSetFact_restores {key : PyText} {value : PyValue} {r : SetFactResult}
    (h : (setFact key value).run s = .ok r s') :
    ∃ parts working, parseKey key = .ok parts ∧
      (rollbackSetFact r.key r.previous r.existed).run s' = .ok () (s'.commit 0 working) ∧
      working.tasks = s.memory.tasks ∧ working.artifacts = s.memory.artifacts ∧
      working.context = s.memory.context ∧ s'.files = s.files ∧
      (PyValue.Alike working.facts s.memory.facts ↔
        PyValue.read parts.containers s.memory.facts = .dict) := by
  obtain ⟨parts, hparse, hkey, hprev, hex, rfl⟩ := setFact_ok h
  rw [hkey, hprev, hex]
  let target := PyValue.innermost parts.containers s.memory.facts
  let restore := if (PyValue.get? parts.name target).isSome
    then PyValue.set parts.name ((PyValue.get? parts.name target).getD .none)
    else PyValue.pop parts.name
  refine ⟨parts, { s.memory with
    revision := s.memory.revision + 1
    facts := PyValue.inside (restore ∘ PyValue.set parts.name value) parts.containers
      s.memory.facts }, hparse, ?_, rfl, rfl, rfl, rfl, ?_⟩
  · unfold rollbackSetFact
    rw [run_bind_of_ok (run_lift hparse)]
    apply run_transaction
    rw [← PyValue.inside_inside]
    rfl
  · constructor
    · intro halike
      rw [← halike parts.containers]
      exact PyValue.read_inside _ _ _
    · intro hread
      exact PyValue.inside_alike hread (unset_alike parts.name value target)

variable {id : PyText}

theorem hasId_set {key : PyText} (hkey : lit "id" ≠ key) (v : PyValue) (d : PyDict) :
    hasId id (PyValue.set key v d) = hasId id d := by
  unfold hasId
  rw [PyValue.get?_set, if_neg hkey]

theorem hasId_updatedTask {description status : Option PyText} {updated : PyText}
    {task task' : PyDict} (h : updatedTask description status updated task = .ok task') :
    hasId id task' = hasId id task := by
  have hfield : ∀ {name message : String} {text : Option PyText} {d d' : PyDict},
      lit "id" ≠ lit name → updateField name text message d = .ok d' →
        hasId id d' = hasId id d := by
    intro name message text d d' hname hd
    cases text with
    | none =>
      cases hd
      rfl
    | some t =>
      unfold updateField requireText at hd
      simp only at hd
      split at hd
      · cases hd
      · cases hd
        exact hasId_set hname _ _
  obtain ⟨t₁, h₁, h⟩ := bind_ok h
  obtain ⟨t₂, h₂, h⟩ := bind_ok h
  cases h
  rw [hasId_set (by decide), hfield (by decide) h₂, hfield (by decide) h₁]

section ChangeTask

variable {id : PyText} {change : PyDict → Except SandboxFault PyDict}

/-- **A change that is made is made to the first task with the id.** -/
theorem changeTask_split {tasks tasks' : List PyValue} {previous : PyDict}
    (h : changeTask id change tasks = .ok (previous, tasks')) :
    ∃ (before : List PyDict) (task' : PyDict) (after : List PyValue),
      tasks = before.map .dict ++ .dict previous :: after ∧
      tasks' = before.map .dict ++ .dict task' :: after ∧
      (∀ task ∈ before, hasId id task = false) ∧ hasId id previous = true ∧
      change previous = .ok task' := by
  induction tasks generalizing tasks' with
  | nil => cases h
  | cons entry rest ih =>
    cases entry with
    | dict task =>
      unfold changeTask at h
      by_cases ht : hasId id task = true
      · rw [if_pos ht] at h
        obtain ⟨task', hc, h⟩ := bind_ok h
        cases h
        exact ⟨[], task', rest, rfl, rfl, fun _ hmem => absurd hmem List.not_mem_nil, ht, hc⟩
      · rw [if_neg ht] at h
        obtain ⟨⟨prev, rest'⟩, hr, h⟩ := bind_ok h
        cases h
        obtain ⟨before, task', after, rfl, rfl, hbefore, hid, hc⟩ := ih hr
        refine ⟨task :: before, task', after, rfl, rfl, ?_, hid, hc⟩
        exact List.forall_mem_cons.2 ⟨Bool.eq_false_iff.2 ht, hbefore⟩
    | _ => cases h

theorem changeTask_found {before : List PyDict} {task task' : PyDict}
    (hbefore : ∀ task ∈ before, hasId id task = false) (hid : hasId id task = true)
    (hc : change task = .ok task') (after : List PyValue) :
    changeTask id change (before.map .dict ++ .dict task :: after) =
      .ok (task, before.map .dict ++ .dict task' :: after) := by
  induction before with
  | nil =>
    rw [List.map_nil, List.nil_append]
    unfold changeTask
    rw [if_pos hid, hc]
    rfl
  | cons first before ih =>
    obtain ⟨hfirst, hbefore⟩ := List.forall_mem_cons.1 hbefore
    rw [List.map_cons, List.cons_append]
    unfold changeTask
    rw [hfirst, if_neg Bool.false_ne_true, ih hbefore]
    rfl

/-- **Changing the first task with an id, and changing it back.** -/
theorem changeTask_back
    (hid : ∀ task task', change task = .ok task' → hasId id task' = hasId id task)
    {tasks tasks' : List PyValue} {previous : PyDict}
    (h : changeTask id change tasks = .ok (previous, tasks')) :
    ∃ changed, changeTask id (fun _ => .ok previous) tasks' = .ok (changed, tasks) := by
  obtain ⟨before, task', after, rfl, rfl, hbefore, hprevious, hc⟩ := changeTask_split h
  refine ⟨task', ?_⟩
  apply changeTask_found hbefore ((hid _ _ hc).trans hprevious)
  rfl

end ChangeTask

theorem removeLast_append {entry : PyDict} (h : hasId id entry = true)
    (entries : List PyValue) : removeLast id (entries ++ [.dict entry]) = .ok entries := by
  unfold removeLast
  rw [List.reverse_append, List.reverse_singleton, List.singleton_append]
  unfold removeFirst
  rw [if_pos h]
  show Except.ok entries.reverse.reverse = _
  rw [List.reverse_reverse]

def isIdChar (c : CodePoint) : Bool :=
  isAsciiAlnum c || c.val = 95 || c.val = 46 || c.val = 45

theorem isSpace_of_isIdChar {c : CodePoint} (h : isIdChar c = true) : PyText.isSpace c = false := by
  unfold isIdChar isAsciiAlnum at h
  unfold PyText.isSpace
  simp only [Bool.or_eq_true, Bool.and_eq_true, decide_eq_true_eq] at h
  simp only [Bool.or_eq_false_iff, Bool.and_eq_false_iff, decide_eq_false_iff_not]
  omega

theorem isIdChar_digit {c : Char} (h : c.isDigit = true) : isIdChar (codePoint c) = true := by
  have hrange : 48 ≤ c.toNat ∧ c.toNat ≤ 57 := by
    simp only [Char.isDigit, Bool.and_eq_true, decide_eq_true_eq] at h
    exact h
  unfold isIdChar isAsciiAlnum codePoint
  simp only [Bool.or_eq_true, Bool.and_eq_true, decide_eq_true_eq]
  omega

theorem isIdChar_intText {n : ℤ} {c : CodePoint} (h : c ∈ intText n) : isIdChar c = true := by
  have hnat : ∀ m : ℕ, ∀ d ∈ (toString m).toList, isIdChar (codePoint d) = true := by
    intro m d hd
    rw [Nat.toString_eq_ofList_toDigits, String.toList_ofList] at hd
    exact isIdChar_digit (Nat.isDigit_of_mem_toDigits (by decide) (by decide) hd)
  obtain ⟨d, hd, rfl⟩ := List.mem_map.1 h
  cases n with
  | ofNat m => exact hnat m d hd
  | negSucc m =>
    have hneg : toString (Int.negSucc m) = "-" ++ toString (m + 1) := rfl
    rw [hneg, String.toList_append] at hd
    rcases List.mem_append.1 hd with hd | hd
    · rw [List.mem_singleton.1 hd]
      decide
    · exact hnat (m + 1) d hd

theorem parseResourceId_numbered {c : CodePoint} {word : PyText} (hc : isAsciiAlnum c = true)
    (hword : word.all isIdChar = true) (n : ℤ) (label : String) :
    parseResourceId (c :: word ++ intText n) label =
      if (c :: word ++ intText n).length ≤ 64 then .ok (c :: word ++ intText n)
      else .error (.valueError
        (label ++ " must be 1-64 characters of letters, numbers, dot, dash, or underscore")) := by
  have hrest : ∀ d ∈ word ++ intText n, isIdChar d = true := by
    intro d hd
    rcases List.mem_append.1 hd with hd | hd
    · exact List.all_eq_true.1 hword d hd
    · exact isIdChar_intText hd
  have hhead : isIdChar c = true := by
    unfold isIdChar
    rw [hc]
    rfl
  have hstrip : PyText.strip (c :: word ++ intText n) = c :: word ++ intText n := by
    apply PyText.strip_of_no_space
    intro d hd
    rcases List.mem_cons.1 hd with rfl | hd
    · exact isSpace_of_isIdChar hhead
    · exact isSpace_of_isIdChar (hrest d hd)
  have hid : isSandboxId (c :: word ++ intText n) = decide ((c :: word ++ intText n).length ≤ 64) := by
    show (isAsciiAlnum c && decide ((word ++ intText n).length ≤ 63) &&
      (word ++ intText n).all isIdChar) = _
    rw [hc, List.all_eq_true.2 hrest, Bool.true_and, Bool.and_true, decide_eq_decide,
      List.cons_append, List.length_cons]
    omega
  unfold parseResourceId
  simp only [hstrip, hid, decide_eq_true_eq]

theorem taskId_check (n : ℤ) :
    parseResourceId (lit "task-" ++ intText n) "task id" =
      if (lit "task-" ++ intText n).length ≤ 64 then .ok (lit "task-" ++ intText n)
      else .error (.valueError
        ("task id" ++ " must be 1-64 characters of letters, numbers, dot, dash, or underscore")) := by
  have hword : lit "task-" = codePoint 't' :: lit "ask-" := by decide
  rw [hword]
  exact parseResourceId_numbered (by decide) (by decide) n "task id"

theorem artifactId_check (n : ℤ) :
    parseResourceId (lit "artifact-" ++ intText n) "artifact id" =
      if (lit "artifact-" ++ intText n).length ≤ 64 then .ok (lit "artifact-" ++ intText n)
      else .error (.valueError
        ("artifact id" ++
          " must be 1-64 characters of letters, numbers, dot, dash, or underscore")) := by
  have hword : lit "artifact-" = codePoint 'a' :: lit "rtifact-" := by decide
  rw [hword]
  exact parseResourceId_numbered (by decide) (by decide) n "artifact id"

structure Restored (s s' : StateSandbox) : Prop where
  facts : PyValue.Alike s'.memory.facts s.memory.facts
  tasks : s'.memory.tasks = s.memory.tasks
  artifacts : s'.memory.artifacts = s.memory.artifacts
  notes : s'.memory.notes = s.memory.notes
  files : ∀ p, s'.files.files p = s.files.files p

/-- Can the call be taken back? The containers of the key are there, the id of the new
entry is no longer than an id may be, and nothing is at the temporary file. -/
def ToolCall.Reversible (s : StateSandbox) : ToolCall → Prop
  | .setFact key _ => ∀ parts, parseKey key = .ok parts →
      PyValue.read parts.containers s.memory.facts = .dict
  | .appendTask .. => (lit "task-" ++ intText (s.memory.revision + 1)).length ≤ 64
  | .updateTask .. => True
  | .storeArtifact .. => (lit "artifact-" ++ intText (s.memory.revision + 1)).length ≤ 64
  | .remember _ => True
  | .writeSandboxFile path _ => ∀ normalized p,
      parseRelativeResourcePath path = .ok (normalized, p) → s.files.present (tmpPath p) = false
  | .deleteSandboxFile path => ∀ normalized p,
      parseRelativeResourcePath path = .ok (normalized, p) → s.files.present p = true →
        s.files.present (tmpPath p) = false

theorem setFact_restores {key : PyText} {value : PyValue} {r : SetFactResult}
    (h : (setFact key value).run s = .ok r s') :
    Restored s (final (rollbackSetFact r.key r.previous r.existed) s') ↔
      ToolCall.Reversible s (.setFact key value) := by
  obtain ⟨parts, working, hparse, hrun, htasks, hartifacts, hcontext, hfiles, hfacts⟩ :=
    rollbackSetFact_restores h
  rw [final_of_run hrun]
  have hnotes : working.notes = s.memory.notes := by
    unfold Memory.notes
    rw [hcontext]
  constructor
  · intro hrestored parts' hparse'
    rw [hparse] at hparse'
    cases hparse'
    exact hfacts.1 hrestored.facts
  · intro hrev
    exact ⟨hfacts.2 (hrev parts hparse), htasks, hartifacts, hnotes,
      fun p => congrFun (congrArg (fun t => t.files) hfiles) p⟩

theorem appendTask_ok {description status created : PyText} {task : PyDict}
    (h : (appendTask description status created).run s = .ok task s') :
    entryId task = some (lit "task-" ++ intText (s.memory.revision + 1)) ∧
      s' = s.commit 1 { s.memory with tasks := s.memory.tasks ++ [.dict task] } := by
  obtain ⟨_, s₁, hdesc, h₁⟩ := run_bind_ok h
  obtain ⟨_, s₂, hstat, h₂⟩ := run_bind_ok h₁
  obtain ⟨working, hmutate, hs'⟩ := transaction_ok h₂
  obtain ⟨-, rfl⟩ := lift_ok hdesc
  obtain ⟨-, rfl⟩ := lift_ok hstat
  cases hmutate
  exact ⟨rfl, hs'⟩

variable {path : PyText}

theorem storeArtifact_ok {name created : PyText} {metadata artifact : PyDict}
    (h : (storeArtifact name path metadata created).run s = .ok artifact s') :
    entryId artifact = some (lit "artifact-" ++ intText (s.memory.revision + 1)) ∧
      s' = s.commit 1 { s.memory with
        artifacts := s.memory.artifacts ++ [.dict artifact] } := by
  obtain ⟨_, s₁, hname, h₁⟩ := run_bind_ok h
  obtain ⟨⟨normalized, p⟩, s₂, hpath, h₂⟩ := run_bind_ok h₁
  obtain ⟨working, hmutate, hs'⟩ := transaction_ok h₂
  obtain ⟨-, rfl⟩ := lift_ok hname
  obtain ⟨-, rfl⟩ := lift_ok hpath
  cases hmutate
  exact ⟨rfl, hs'⟩

theorem hasId_of_entryId {entry : PyDict} (h : entryId entry = some id) :
    hasId id entry = true := by
  unfold entryId at h
  unfold hasId
  split at h
  · split at h
    · cases h
    · cases h
      exact decide_eq_true rfl
  · cases h

theorem append_ne_self {entries : List PyValue} {entry : PyValue} :
    entries ++ [entry] ≠ entries := by
  intro h
  have := congrArg List.length h
  rw [List.length_append, List.length_singleton] at this
  omega

theorem removeTask_run {task : PyDict} (hcheck : parseResourceId id "task id" = .ok id)
    (hid : hasId id task = true) (s : StateSandbox) :
    (removeTask id).run (s.commit 1 { s.memory with tasks := s.memory.tasks ++ [.dict task] }) =
      .ok () ((s.commit 1 { s.memory with tasks := s.memory.tasks ++ [.dict task] }).commit 0
        { s.memory with revision := s.memory.revision + 1 }) := by
  unfold removeTask
  rw [run_bind_of_ok (run_lift hcheck)]
  apply run_transaction
  show (removeLast id (s.memory.tasks ++ [.dict task]) >>= _) = _
  rw [removeLast_append hid]
  rfl

theorem removeArtifact_run {artifact : PyDict}
    (hcheck : parseResourceId id "artifact id" = .ok id) (hid : hasId id artifact = true)
    (s : StateSandbox) :
    (removeArtifact id).run
        (s.commit 1 { s.memory with artifacts := s.memory.artifacts ++ [.dict artifact] }) =
      .ok () ((s.commit 1 { s.memory with
          artifacts := s.memory.artifacts ++ [.dict artifact] }).commit 0
        { s.memory with revision := s.memory.revision + 1 }) := by
  unfold removeArtifact
  rw [run_bind_of_ok (run_lift hcheck)]
  apply run_transaction
  show (removeLast id (s.memory.artifacts ++ [.dict artifact]) >>= _) = _
  rw [removeLast_append hid]
  rfl

theorem appendTask_restores {description status now : PyText} {task : PyDict}
    (h : (appendTask description status now).run s = .ok task s') :
    Restored s (final (ToolCall.rollback (.appendTask description status now) (.task task)) s') ↔
      ToolCall.Reversible s (.appendTask description status now) := by
  obtain ⟨hentry, rfl⟩ := appendTask_ok h
  have hroll : ToolCall.rollback (.appendTask description status now) (.task task) =
      removeTask (lit "task-" ++ intText (s.memory.revision + 1)) := by
    unfold ToolCall.rollback
    simp only [hentry]
  have hcheck := taskId_check (s.memory.revision + 1)
  rw [hroll]
  by_cases hlen : (lit "task-" ++ intText (s.memory.revision + 1)).length ≤ 64
  · rw [if_pos hlen] at hcheck
    rw [final_of_run (removeTask_run hcheck (hasId_of_entryId hentry) s)]
    exact ⟨fun _ => hlen, fun _ => ⟨fun _ => rfl, rfl, rfl, rfl, fun _ => rfl⟩⟩
  · rw [if_neg hlen] at hcheck
    unfold removeTask
    rw [hcheck]
    exact ⟨fun hrestored => absurd hrestored.tasks append_ne_self, fun hrev => absurd hrev hlen⟩

theorem storeArtifact_restores {name now : PyText} {metadata artifact : PyDict}
    (h : (storeArtifact name path metadata now).run s = .ok artifact s') :
    Restored s (final (ToolCall.rollback (.storeArtifact name path metadata now)
        (.artifact artifact)) s') ↔
      ToolCall.Reversible s (.storeArtifact name path metadata now) := by
  obtain ⟨hentry, rfl⟩ := storeArtifact_ok h
  have hroll : ToolCall.rollback (.storeArtifact name path metadata now) (.artifact artifact) =
      removeArtifact (lit "artifact-" ++ intText (s.memory.revision + 1)) := by
    unfold ToolCall.rollback
    simp only [hentry]
  have hcheck := artifactId_check (s.memory.revision + 1)
  rw [hroll]
  by_cases hlen : (lit "artifact-" ++ intText (s.memory.revision + 1)).length ≤ 64
  · rw [if_pos hlen] at hcheck
    rw [final_of_run (removeArtifact_run hcheck (hasId_of_entryId hentry) s)]
    exact ⟨fun _ => hlen, fun _ => ⟨fun _ => rfl, rfl, rfl, rfl, fun _ => rfl⟩⟩
  · rw [if_neg hlen] at hcheck
    unfold removeArtifact
    rw [hcheck]
    exact ⟨fun hrestored => absurd hrestored.artifacts append_ne_self,
      fun hrev => absurd hrev hlen⟩

/-- **An update of a task is taken back exactly.** -/
theorem updateTask_restores {taskId now : PyText} {description status : Option PyText}
    {previous : PyDict} (h : (updateTask taskId description status now).run s = .ok previous s') :
    Restored s (final (ToolCall.rollback (.updateTask taskId description status now)
      (.previousTask previous)) s') := by
  obtain ⟨id, s₁, hid, h₁⟩ := run_bind_ok h
  obtain ⟨_, s₂, hgiven, h₂⟩ := run_bind_ok h₁
  obtain ⟨working, hmutate, rfl⟩ := transaction_ok h₂
  obtain ⟨hparse, rfl⟩ := lift_ok hid
  obtain ⟨-, rfl⟩ := lift_ok hgiven
  obtain ⟨⟨_, tasks⟩, hchange, hmutate⟩ := bind_ok hmutate
  cases hmutate
  obtain ⟨changed, hback⟩ := changeTask_back (fun _ _ => hasId_updatedTask) hchange
  have hne : taskId ≠ [] := by
    rintro rfl
    cases hparse
  have hrun : (rollbackUpdateTask taskId previous).run (s₂.commit 1 { s₂.memory with
        tasks := tasks }) =
      .ok () ((s₂.commit 1 { s₂.memory with tasks := tasks }).commit 0
        { s₂.memory with revision := s₂.memory.revision + 1 }) := by
    unfold rollbackUpdateTask
    rw [run_bind_of_ok (run_lift hparse)]
    apply run_transaction
    show (changeTask id (fun _ => .ok previous) tasks >>= _) = _
    rw [hback]
    rfl
  have hroll : ToolCall.rollback (.updateTask taskId description status now)
      (.previousTask previous) = rollbackUpdateTask taskId previous := if_neg hne
  rw [hroll, final_of_run hrun]
  exact ⟨fun _ => rfl, rfl, rfl, rfl, fun _ => rfl⟩

theorem removeContextNote_run {note : PyText} {notes : List PyValue} {working : Memory}
    (hread : contextNotes working.context = .ok (notes ++ [PyValue.str note])) :
    (removeContextNote note).run (s.commit 1 working) =
      .ok () ((s.commit 1 working).commit 0 { (s.commit 1 working).memory with
        context := PyValue.set (lit "notes") (.list notes) working.context }) := by
  have hkept : ((notes ++ [PyValue.str note]).reverse.eraseP (isNote note)).reverse = notes := by
    rw [List.reverse_append, List.reverse_singleton, List.singleton_append,
      List.eraseP_cons_of_pos (show isNote note (PyValue.str note) = true from decide_eq_true rfl),
      List.reverse_reverse]
  unfold removeContextNote
  apply run_transaction
  show (contextNotes working.context >>= _) = _
  rw [hread]
  show Except.ok ((), _) = _
  rw [hkept]
  rfl

theorem notes_of_contextNotes {memory : Memory} {notes : List PyValue}
    (h : contextNotes memory.context = .ok notes) : memory.notes = notes := by
  unfold contextNotes at h
  unfold Memory.notes
  split at h
  · rename_i hget
    cases h
    rw [hget]
  · rename_i hget
    cases h
    rw [hget]
  · cases h

theorem contextNotes_set (notes : List PyValue) (context : PyDict) :
    contextNotes (PyValue.set (lit "notes") (.list notes) context) = .ok notes := by
  unfold contextNotes
  rw [PyValue.get?_set, if_pos rfl]

/-- **A note is taken back exactly.** -/
theorem remember_restores {note stored : PyText}
    (h : (appendContextNote note).run s = .ok stored s') :
    Restored s (final (ToolCall.rollback (.remember note) (.note stored)) s') := by
  obtain ⟨_, s₁, hrequire, h₁⟩ := run_bind_ok h
  obtain ⟨working, hmutate, rfl⟩ := transaction_ok h₁
  obtain ⟨htext, rfl⟩ := lift_ok hrequire
  obtain ⟨notes, hnotes, hmutate⟩ := bind_ok hmutate
  cases hmutate
  have hne : note ≠ [] := by
    rintro rfl
    cases htext
  have hroll : ToolCall.rollback (.remember note) (.note note) = removeContextNote note := by
    show rollbackRemember note note = _
    unfold rollbackRemember
    rw [if_neg hne]
    exact if_neg hne
  rw [hroll, final_of_run (removeContextNote_run (contextNotes_set _ _))]
  refine ⟨fun _ => rfl, rfl, rfl, ?_, fun _ => rfl⟩
  exact (notes_of_contextNotes (contextNotes_set notes _)).trans
    (notes_of_contextNotes hnotes).symm

theorem onFiles_run (change : SandboxFiles → Option SandboxFiles) (s : StateSandbox) :
    (onFiles change).run s =
      (change s.files).elim (.error .osError s) fun files => .ok () { s with files } := by
  unfold onFiles
  rw [EStateM.run_bind, EStateM.run_get]
  cases h : change s.files <;> simp only [h] <;> rfl

theorem onFiles_ok {change : SandboxFiles → Option SandboxFiles} {u : Unit}
    (h : (onFiles change).run s = .ok u s') :
    ∃ t, change s.files = some t ∧ s' = { s with files := t } := by
  rw [onFiles_run] at h
  cases hc : change s.files with
  | none =>
    rw [hc] at h
    cases h
  | some t =>
    rw [hc] at h
    cases h
    exact ⟨t, rfl, rfl⟩

theorem run_onFiles {change : SandboxFiles → Option SandboxFiles} {t : SandboxFiles}
    (h : change s.files = some t) : (onFiles change).run s = .ok () { s with files := t } := by
  rw [onFiles_run, h]
  rfl

variable {p : ResourcePath}

theorem tmpPath_ne (hp : p ≠ []) : tmpPath p ≠ p := by
  induction p with
  | nil => exact absurd rfl hp
  | cons dir rest ih =>
    cases rest with
    | nil =>
      intro h
      have hname : dir ++ lit ".tmp" = dir := List.head_eq_of_cons_eq h
      have := congrArg List.length hname
      rw [List.length_append] at this
      have hlen : (lit ".tmp").length = 4 := by decide
      omega
    | cons dir' rest =>
      intro h
      exact ih (List.cons_ne_nil _ _) (List.tail_eq_of_cons_eq h)

theorem parents_tmpPath (p : ResourcePath) : parents (tmpPath p) = parents p := by
  induction p with
  | nil => rfl
  | cons dir rest ih =>
    cases rest with
    | nil => rfl
    | cons dir' rest =>
      show [] :: (parents (tmpPath (dir' :: rest))).map (dir :: ·) = _
      rw [ih]
      rfl

structure Wrote (p : ResourcePath) (raw : Bytes) (t t' : SandboxFiles) : Prop where
  files : ∀ x, t'.files x = if x = p then some raw else if x = tmpPath p then none else t.files x
  file_free : t'.dirs p = false
  tmp_free : t'.dirs (tmpPath p) = false
  tmp_before : t.dirs (tmpPath p) = false

theorem mkdirParents_some {t t' : SandboxFiles}
    (h : t.mkdirParents p = some t') :
    t'.files = t.files ∧ t'.dirs = fun q => t.dirs q || (parents p).contains q := by
  unfold SandboxFiles.mkdirParents at h
  split at h
  · cases h
    exact ⟨rfl, rfl⟩
  · cases h

variable {raw : Bytes}

theorem writeBytes_some {t t' : SandboxFiles}
    (h : t.writeBytes p raw = some t') : t.dirs p = false ∧ t'.toFileTree = t.write p raw := by
  unfold SandboxFiles.writeBytes at h
  split at h
  · rename_i hfree
    cases h
    exact ⟨hfree.1, rfl⟩
  · cases h

theorem replace_some {t t' : SandboxFiles} {tmp : ResourcePath}
    (h : t.replace tmp p = some t') : t.dirs p = false ∧ t'.toFileTree = t.move tmp p := by
  unfold SandboxFiles.replace at h
  split at h
  · rename_i hfree
    cases h
    exact ⟨hfree.2.1, rfl⟩
  · cases h

theorem wrote_move {t t₁ t₂ t' : SandboxFiles} (hp : p ≠ [])
    (hmkdir : t.mkdirParents p = some t₁) (hwrite : t₁.writeBytes (tmpPath p) raw = some t₂)
    (hreplace : t₂.replace (tmpPath p) p = some t') : Wrote p raw t t' := by
  obtain ⟨hfiles₁, hdirs₁⟩ := mkdirParents_some hmkdir
  obtain ⟨htmp, htree₂⟩ := writeBytes_some hwrite
  obtain ⟨hfree, htree⟩ := replace_some hreplace
  have hdirs₂ : t₂.dirs = t₁.dirs := by
    rw [htree₂]
    rfl
  have hdirs : t'.dirs = t₁.dirs := by
    rw [htree]
    exact hdirs₂
  refine ⟨fun x => ?_, ?_, ?_, ?_⟩
  · rw [htree, FileTree.files_move, htree₂, FileTree.files_write, FileTree.files_write, hfiles₁,
      if_pos rfl]
    by_cases hx : x = tmpPath p
    · rw [hx, if_neg (tmpPath_ne hp), if_neg (tmpPath_ne hp), if_pos rfl, if_pos rfl]
    · rw [if_neg hx, if_neg hx, if_neg hx]
  · rw [hdirs, ← hdirs₂]
    exact hfree
  · rw [hdirs]
    exact htmp
  · rw [hdirs₁] at htmp
    exact (Bool.or_eq_false_iff.1 htmp).1

/-- **A write that was accepted, by its files.** -/
theorem writeThroughTmp_ok {u : Unit} (hp : p ≠ [])
    (h : (writeThroughTmp p raw).run s = .ok u s') :
    ∃ t, Wrote p raw s.files t ∧ s' = { s with files := t } := by
  obtain ⟨_, s₁, hmkdir, h₁⟩ := run_bind_ok h
  obtain ⟨_, s₂, hwrite, hreplace⟩ := run_bind_ok h₁
  obtain ⟨t₁, ht₁, rfl⟩ := onFiles_ok hmkdir
  obtain ⟨t₂, ht₂, rfl⟩ := onFiles_ok hwrite
  obtain ⟨t₃, ht₃, rfl⟩ := onFiles_ok hreplace
  exact ⟨t₃, wrote_move hp ht₁ ht₂ ht₃, rfl⟩

/-- **Where the directories are there and nothing but files is in the way, a write goes
through.** -/
theorem writeThroughTmp_run (hp : p ≠ [])
    (habove : ∀ q ∈ parents p, s.files.dirs q = true) (hfree : s.files.dirs p = false)
    (htmp : s.files.dirs (tmpPath p) = false) (raw : Bytes) :
    ∃ t, Wrote p raw s.files t ∧
      (writeThroughTmp p raw).run s = .ok () { s with files := t } := by
  have hsame : ∀ q, (s.files.dirs q || (parents p).contains q) = s.files.dirs q := by
    intro q
    by_cases hq : q ∈ parents p
    · rw [habove q hq, Bool.true_or]
    · rw [Bool.eq_false_iff.2 fun h => hq (List.contains_iff_mem.1 h), Bool.or_false]
  have hmkdir : ∀ q ∈ parents p, s.files.files q = none := fun q hq =>
    s.files.no_file q (habove q hq)
  obtain ⟨t₁, ht₁⟩ : ∃ t₁, s.files.mkdirParents p = some t₁ := by
    unfold SandboxFiles.mkdirParents
    rw [dif_pos hmkdir]
    exact ⟨_, rfl⟩
  have hdirs₁ : t₁.dirs = s.files.dirs :=
    (mkdirParents_some ht₁).2.trans (funext hsame)
  obtain ⟨t₂, ht₂⟩ : ∃ t₂, t₁.writeBytes (tmpPath p) raw = some t₂ := by
    have hok : t₁.dirs (tmpPath p) = false ∧ ∀ q ∈ parents (tmpPath p), t₁.dirs q = true := by
      rw [parents_tmpPath, hdirs₁]
      exact ⟨htmp, habove⟩
    unfold SandboxFiles.writeBytes
    rw [dif_pos hok]
    exact ⟨_, rfl⟩
  have htree₂ := (writeBytes_some ht₂).2
  obtain ⟨t₃, ht₃⟩ : ∃ t₃, t₂.replace (tmpPath p) p = some t₃ := by
    have hok : (t₂.files (tmpPath p)).isSome = true ∧ t₂.dirs p = false ∧
        ∀ q ∈ parents p, t₂.dirs q = true := by
      have hdirs₂ : t₂.dirs = t₁.dirs := by
        rw [htree₂]
        rfl
      rw [hdirs₂, hdirs₁]
      refine ⟨?_, hfree, habove⟩
      rw [htree₂, FileTree.files_write, if_pos rfl]
      rfl
    unfold SandboxFiles.replace
    rw [dif_pos hok]
    exact ⟨_, rfl⟩
  refine ⟨t₃, wrote_move hp ht₁ ht₂ ht₃, ?_⟩
  unfold writeThroughTmp
  rw [run_bind_of_ok (run_onFiles ht₁), run_bind_of_ok (run_onFiles ht₂)]
  exact run_onFiles ht₃

theorem checkFileBudget_ok {cost : ℚ} {u : Unit} (h : (checkFileBudget cost).run s = .ok u s') :
    s' = s := by
  change (if s.budget.all (fun b => ResourceBudget.covers b.fileWrites cost) then pure ()
    else throw SandboxFault.budgetExhausted : SandboxM Unit) s = _ at h
  split at h
  · cases h
    rfl
  · cases h

def Affords (s : StateSandbox) : Prop :=
  s.budget.all (fun b => ResourceBudget.covers b.fileWrites 0) = true

theorem run_checkFileBudget (h : Affords s) : (checkFileBudget 0).run s = .ok () s := by
  change (if s.budget.all (fun b => ResourceBudget.covers b.fileWrites 0) then pure ()
    else throw SandboxFault.budgetExhausted : SandboxM Unit) s = _
  unfold Affords at h
  rw [if_pos h]
  rfl

def StateSandbox.paid (s : StateSandbox) (cost : ℚ) : StateSandbox :=
  { s with budget := s.budget.map (deductFile cost) }

theorem affords_paid (s : StateSandbox) (cost : ℚ) : Affords (s.paid cost) := by
  unfold Affords StateSandbox.paid
  cases s.budget with
  | none => rfl
  | some b => exact covers_less b.fileWrites cost

theorem parse_normalized {normalized : PyText}
    (h : parseRelativeResourcePath path = .ok (normalized, p)) :
    parseRelativeResourcePath normalized = .ok (normalized, p) ∧ p ≠ [] ∧ normalized ≠ [] := by
  let swap (c : CodePoint) : CodePoint := if c = codePoint '\\' then codePoint '/' else c
  have hspace : ∀ c, PyText.isSpace (swap c) = PyText.isSpace c := by
    intro c
    by_cases hc : c = codePoint '\\'
    · rw [show swap c = codePoint '/' from if_pos hc, hc]
      decide
    · rw [show swap c = c from if_neg hc]
  have htwice : ∀ c, swap (swap c) = swap c := by
    intro c
    by_cases hc : c = codePoint '\\'
    · rw [show swap c = codePoint '/' from if_pos hc]
      decide
    · rw [show swap c = c from if_neg hc]
      exact if_neg hc
  have hstrip : (PyText.strip ((PyText.strip path).map swap)).map swap =
      (PyText.strip path).map swap := by
    rw [PyText.strip_map hspace, PyText.strip_strip, List.map_map]
    exact List.map_congr_left fun c _ => htwice c
  have hagain : parseRelativeResourcePath ((PyText.strip path).map swap) =
      parseRelativeResourcePath path := by
    unfold parseRelativeResourcePath
    simp only
    rw [hstrip]
  have hparts := h
  unfold parseRelativeResourcePath at hparts
  simp only at hparts
  split at hparts
  · cases hparts
  · rename_i hempty
    split at hparts
    · cases hparts
    · cases hparts
      exact ⟨hagain.trans h, List.splitOn_ne_nil _ _, hempty⟩

theorem readPrevious_ok {c : Option PyText}
    (h : (readPrevious p).run s = .ok c s') :
    s' = s ∧ ((s.files.files p = none ∧ c = none) ∨
      ∃ raw text, s.files.files p = some raw ∧ PyText.decodeUtf8 raw = some text ∧
        c = some text) := by
  unfold readPrevious at h
  rw [EStateM.run_bind, EStateM.run_get] at h
  cases hp : s.files.files p with
  | none =>
    simp only [hp] at h
    cases h
    exact ⟨rfl, .inl ⟨rfl, rfl⟩⟩
  | some raw =>
    simp only [hp] at h
    cases hd : PyText.decodeUtf8 raw with
    | none =>
      simp only [hd] at h
      cases h
    | some text =>
      simp only [hd] at h
      cases h
      exact ⟨rfl, .inr ⟨raw, text, rfl, hd, rfl⟩⟩

theorem encode_ok {content : PyText} (h : (encode content).run s = .ok raw s') :
    s' = s := by
  unfold encode at h
  split at h
  · cases h
  · cases h
    rfl

theorem run_encode {content : PyText} (h : PyText.encodeUtf8 content = some raw) :
    (encode content).run s = .ok raw s := by
  unfold encode
  rw [h]
  rfl

theorem writeFile_ok {content : PyText} {r : WriteFileResult}
    (h : (writeFile path content).run s = .ok r s') :
    ∃ p raw t, parseRelativeResourcePath path = .ok (r.path, p) ∧
      r.existed = r.previousContent.isSome ∧
      ((s.files.files p = none ∧ r.previousContent = none) ∨
        ∃ old text, s.files.files p = some old ∧ PyText.decodeUtf8 old = some text ∧
          r.previousContent = some text) ∧
      Wrote p raw s.files t ∧ s' = ({ s with files := t } : StateSandbox).paid 1 := by
  obtain ⟨⟨normalized, p⟩, s₁, hpath, h₁⟩ := run_bind_ok h
  obtain ⟨_, s₂, hcheck, h₂⟩ := run_bind_ok h₁
  obtain ⟨previous, s₃, hread, h₃⟩ := run_bind_ok h₂
  obtain ⟨raw, s₄, hencode, h₄⟩ := run_bind_ok h₃
  obtain ⟨_, s₅, hwrite, h₅⟩ := run_bind_ok h₄
  obtain ⟨hparse, rfl⟩ := lift_ok hpath
  obtain rfl := checkFileBudget_ok hcheck
  obtain ⟨rfl, hprevious⟩ := readPrevious_ok hread
  obtain rfl := encode_ok hencode
  obtain ⟨-, hp, -⟩ := parse_normalized hparse
  obtain ⟨t, hwrote, rfl⟩ := writeThroughTmp_ok hp hwrite
  cases h₅
  exact ⟨p, raw, t, hparse, rfl, hprevious, hwrote, rfl⟩

theorem restored_iff_tmp (hmemory : s'.memory.facts = s.memory.facts ∧
      s'.memory.tasks = s.memory.tasks ∧ s'.memory.artifacts = s.memory.artifacts ∧
      s'.memory.context = s.memory.context)
    (hfiles : ∀ x, s'.files.files x = if x = tmpPath p then none else s.files.files x)
    (hdirs : s.files.dirs (tmpPath p) = false) :
    Restored s s' ↔ s.files.present (tmpPath p) = false := by
  obtain ⟨hfacts, htasks, hartifacts, hcontext⟩ := hmemory
  have hpresent : s.files.present (tmpPath p) = false ↔ s.files.files (tmpPath p) = none := by
    unfold FileTree.present
    rw [hdirs, Bool.or_false, Option.isSome_eq_false_iff, Option.isNone_iff_eq_none]
  have hnotes : s'.memory.notes = s.memory.notes := by
    unfold Memory.notes
    rw [hcontext]
  rw [hpresent]
  constructor
  · intro hrestored
    have := hrestored.files (tmpPath p)
    rw [hfiles, if_pos rfl] at this
    exact this.symm
  · intro htmp
    refine ⟨fun path => by rw [hfacts], htasks, hartifacts, hnotes, fun x => ?_⟩
    rw [hfiles]
    by_cases hx : x = tmpPath p
    · rw [if_pos hx, hx, htmp]
    · rw [if_neg hx]

theorem forall_parsed {normalized : PyText} {P : ResourcePath → Prop}
    (h : parseRelativeResourcePath path = .ok (normalized, p)) :
    (∀ n q, parseRelativeResourcePath path = .ok (n, q) → P q) ↔ P p := by
  constructor
  · intro hall
    exact hall normalized p h
  · intro hp n q hq
    rw [h] at hq
    cases hq
    exact hp

/-- **A write is taken back exactly when nothing was at its temporary file.** -/
theorem writeFile_restores {content : PyText} {r : WriteFileResult}
    (h : (writeFile path content).run s = .ok r s') :
    Restored s (final (rollbackWriteFile r.path r.previousContent r.existed) s') ↔
      ToolCall.Reversible s (.writeSandboxFile path content) := by
  obtain ⟨p, raw, t, hparse, hexisted, hprevious, hwrote, rfl⟩ := writeFile_ok h
  obtain ⟨hagain, hp, -⟩ := parse_normalized hparse
  have hfile : t.files p = some raw := by
    rw [hwrote.files, if_pos rfl]
  obtain ⟨t', hback, hfiles⟩ : ∃ t' : SandboxFiles,
      (putBack p r.existed r.previousContent).run
          (({ s with files := t } : StateSandbox).paid 1) =
        .ok () { ({ s with files := t } : StateSandbox).paid 1 with files := t' } ∧
      ∀ x, t'.files x = if x = tmpPath p then none else s.files.files x := by
    rw [hexisted]
    rcases hprevious with ⟨hnone, hprev⟩ | ⟨old, text, hold, hdecode, hprev⟩
    · rw [hprev]
      have hpresent : t.present p = true := by
        unfold FileTree.present
        rw [hfile]
        rfl
      obtain ⟨t', ht', hclean⟩ : ∃ t', t.unlink p = some t' ∧ t'.toFileTree = t.clean p := by
        unfold SandboxFiles.unlink
        rw [dif_pos hwrote.file_free]
        exact ⟨_, rfl, rfl⟩
      refine ⟨t', ?_, fun x => ?_⟩
      · show (if t.present p = true then onFiles fun t => t.unlink p
          else pure () : SandboxM Unit).run _ = _
        rw [if_pos hpresent]
        exact run_onFiles ht'
      · rw [hclean, FileTree.files_clean hwrote.file_free, hwrote.files]
        by_cases hx : x = p
        · rw [if_pos hx, hx, if_neg (tmpPath_ne hp).symm, hnone]
        · rw [if_neg hx, if_neg hx]
    · rw [hprev]
      have habove : ∀ q ∈ parents p, t.dirs q = true :=
        t.dirs_above p (by rw [hfile]; rfl)
      obtain ⟨t', hwrote', hrun⟩ := writeThroughTmp_run
        (s := ({ s with files := t } : StateSandbox).paid 1) hp habove hwrote.file_free
        hwrote.tmp_free old
      refine ⟨t', ?_, fun x => ?_⟩
      · show (encode text >>= fun raw => writeThroughTmp p raw).run _ = _
        rw [run_bind_of_ok (run_encode (PyText.encodeUtf8_decodeUtf8 hdecode))]
        exact hrun
      · rw [hwrote'.files]
        show (if x = p then some old else if x = tmpPath p then none else t.files x) = _
        rw [hwrote.files]
        by_cases hx : x = p
        · rw [if_pos hx, hx, if_neg (tmpPath_ne hp).symm, hold]
        · rw [if_neg hx, if_neg hx]
          split <;> rfl
  have hrun : (rollbackWriteFile r.path r.previousContent r.existed).run
      (({ s with files := t } : StateSandbox).paid 1) =
      .ok () (({ ({ s with files := t } : StateSandbox).paid 1 with files := t' } :
        StateSandbox).paid 0) := by
    unfold rollbackWriteFile
    rw [run_bind_of_ok (run_lift hagain)]
    simp only
    rw [run_bind_of_ok (run_checkFileBudget (affords_paid _ _)), run_bind_of_ok hback]
    rfl
  rw [final_of_run hrun]
  refine Iff.trans (restored_iff_tmp ?_ hfiles hwrote.tmp_before) ?_
  · exact ⟨rfl, rfl, rfl, rfl⟩
  exact (forall_parsed (P := fun q => s.files.present (tmpPath q) = false) hparse).symm

theorem deleteFile_ok {r : DeleteFileResult}
    (h : (deleteFile path).run s = .ok r s') :
    ∃ p, parseRelativeResourcePath path = .ok (r.path, p) ∧
      ((s.files.present p = false ∧ r.previousContent = none ∧ s' = s) ∨
        ∃ old text t, s.files.files p = some old ∧ PyText.decodeUtf8 old = some text ∧
          r.previousContent = some text ∧ s.files.unlink p = some t ∧
          s' = ({ s with files := t } : StateSandbox).paid (1 / 2)) := by
  obtain ⟨⟨normalized, p⟩, s₁, hpath, h₁⟩ := run_bind_ok h
  obtain ⟨_, s₂, hcheck, h₂⟩ := run_bind_ok h₁
  obtain ⟨hparse, rfl⟩ := lift_ok hpath
  obtain rfl := checkFileBudget_ok hcheck
  change (if s₂.files.present p then deletePresent normalized p
    else pure ⟨normalized, false, none⟩ : SandboxM DeleteFileResult).run s₂ = _ at h₂
  by_cases hpresent : s₂.files.present p = true
  · rw [if_pos hpresent] at h₂
    change (if s₂.files.dirs p then throw (.valueError "sandbox path is not a file")
      else do
        let previousContent ← readPrevious p
        onFiles fun t => t.unlink p
        deductFileBudget (1 / 2)
        pure ⟨normalized, true, previousContent⟩ : SandboxM DeleteFileResult).run s₂ = _ at h₂
    by_cases hdir : s₂.files.dirs p = true
    · rw [if_pos hdir] at h₂
      cases h₂
    · rw [if_neg hdir] at h₂
      obtain ⟨previous, s₃, hread, h₃⟩ := run_bind_ok h₂
      obtain ⟨_, s₄, hunlink, h₄⟩ := run_bind_ok h₃
      obtain ⟨rfl, hprevious⟩ := readPrevious_ok hread
      obtain ⟨t, ht, rfl⟩ := onFiles_ok hunlink
      cases h₄
      rcases hprevious with ⟨hnone, -⟩ | ⟨old, text, hold, hdecode, hprev⟩
      · unfold FileTree.present at hpresent
        rw [hnone, Bool.eq_false_iff.2 hdir] at hpresent
        cases hpresent
      · exact ⟨p, hparse, .inr ⟨old, text, t, hold, hdecode, hprev, ht, rfl⟩⟩
  · rw [if_neg hpresent] at h₂
    cases h₂
    exact ⟨p, hparse, .inl ⟨Bool.eq_false_iff.2 hpresent, rfl, rfl⟩⟩

theorem writeThroughTmp_refused (htmp : s.files.dirs (tmpPath p) = true)
    (raw : Bytes) :
    ∃ e t, (writeThroughTmp p raw).run s = .error e { s with files := t } ∧
      t.files = s.files.files := by
  have hrefuse : ∀ t : SandboxFiles, t.dirs (tmpPath p) = true →
      t.writeBytes (tmpPath p) raw = none := by
    intro t ht
    unfold SandboxFiles.writeBytes
    rw [dif_neg]
    rintro ⟨hfree, -⟩
    rw [ht] at hfree
    cases hfree
  cases hmkdir : s.files.mkdirParents p with
  | none =>
    refine ⟨.osError, s.files, ?_, rfl⟩
    unfold writeThroughTmp
    rw [EStateM.run_bind]
    have : (onFiles fun t => t.mkdirParents p).run s = .error .osError s := by
      rw [onFiles_run, hmkdir]
      rfl
    rw [this]
  | some t =>
    obtain ⟨hfiles, hdirs⟩ := mkdirParents_some hmkdir
    have htmp' : t.dirs (tmpPath p) = true := by
      rw [hdirs]
      exact Bool.or_eq_true_iff.2 (.inl htmp)
    refine ⟨.osError, t, ?_, hfiles⟩
    unfold writeThroughTmp
    rw [run_bind_of_ok (run_onFiles hmkdir), EStateM.run_bind]
    have : (onFiles fun t => t.writeBytes (tmpPath p) raw).run { s with files := t } =
        .error .osError { s with files := t } := by
      rw [onFiles_run, hrefuse t htmp']
      rfl
    rw [this]

/-- **A deletion is taken back exactly when there was no file, or nothing at its temporary
file.** -/
theorem deleteFile_restores {r : DeleteFileResult}
    (h : (deleteFile path).run s = .ok r s') :
    Restored s (final (ToolCall.rollback (.deleteSandboxFile path) (.deleted r)) s') ↔
      ToolCall.Reversible s (.deleteSandboxFile path) := by
  obtain ⟨p, hparse, hdeleted⟩ := deleteFile_ok h
  obtain ⟨hagain, hp, hne⟩ := parse_normalized hparse
  refine Iff.trans ?_ (forall_parsed (P := fun q => s.files.present q = true →
    s.files.present (tmpPath q) = false) hparse).symm
  rcases hdeleted with ⟨habsent, hprev, rfl⟩ | ⟨old, text, t, hold, hdecode, hprev, hunlink, rfl⟩
  · have hroll : ToolCall.rollback (.deleteSandboxFile path) (.deleted r) = pure () := by
      unfold ToolCall.rollback
      simp only [hprev]
    rw [hroll, habsent]
    exact ⟨fun _ h => absurd h Bool.false_ne_true,
      fun _ => ⟨fun _ => rfl, rfl, rfl, rfl, fun _ => rfl⟩⟩
  · have hpresent : s.files.present p = true := by
      unfold FileTree.present
      rw [hold]
      rfl
    have hroll : ToolCall.rollback (.deleteSandboxFile path) (.deleted r) =
        rollbackDeleteFile r.path text := by
      unfold ToolCall.rollback
      simp only [hprev]
      exact if_neg hne
    have hunfold : (rollbackDeleteFile r.path text).run
          (({ s with files := t } : StateSandbox).paid (1 / 2)) =
        (writeThroughTmp p old >>= fun _ => deductFileBudget 0).run
          (({ s with files := t } : StateSandbox).paid (1 / 2)) := by
      unfold rollbackDeleteFile
      rw [run_bind_of_ok (run_lift hagain)]
      simp only
      rw [run_bind_of_ok (run_checkFileBudget (affords_paid _ _)),
        run_bind_of_ok (run_encode (PyText.encodeUtf8_decodeUtf8 hdecode))]
    obtain ⟨hfree, hclean⟩ : s.files.dirs p = false ∧ t.toFileTree = s.files.clean p := by
      unfold SandboxFiles.unlink at hunlink
      split at hunlink
      · rename_i hfree
        cases hunlink
        exact ⟨hfree, rfl⟩
      · cases hunlink
    have hdirs : t.dirs = s.files.dirs := by
      rw [hclean]
      exact FileTree.dirs_clean _ p
    have hfiles : ∀ x, t.files x = if x = p then none else s.files.files x := by
      intro x
      rw [hclean]
      exact FileTree.files_clean hfree x
    rw [hroll]
    cases htmp : s.files.dirs (tmpPath p) with
    | true =>
      obtain ⟨e, t', herror, hsame⟩ := writeThroughTmp_refused
        (s := ({ s with files := t } : StateSandbox).paid (1 / 2)) (p := p)
        (by rw [← htmp]; exact congrFun hdirs _) old
      have hfinal : final (rollbackDeleteFile r.path text)
          (({ s with files := t } : StateSandbox).paid (1 / 2)) =
          { ({ s with files := t } : StateSandbox).paid (1 / 2) with files := t' } := by
        unfold final
        rw [hunfold, EStateM.run_bind, herror]
      rw [hfinal]
      constructor
      · intro hrestored
        have hfile : t'.files p = s.files.files p := hrestored.files p
        have hgone : t'.files p = none := by
          rw [hsame]
          exact (hfiles p).trans (if_pos rfl)
        rw [hgone, hold] at hfile
        cases hfile
      · intro hrev
        have := hrev hpresent
        unfold FileTree.present at this
        rw [htmp, Bool.or_true] at this
        cases this
    | false =>
      obtain ⟨t', hwrote, hrun⟩ := writeThroughTmp_run
        (s := ({ s with files := t } : StateSandbox).paid (1 / 2)) hp
        (fun q hq => (congrFun hdirs q).trans (s.files.dirs_above p (by rw [hold]; rfl) q hq))
        ((congrFun hdirs p).trans hfree) ((congrFun hdirs _).trans htmp) old
      have hfinal := final_of_run (hunfold.trans ((run_bind_of_ok hrun).trans rfl))
      rw [hfinal]
      refine Iff.trans (restored_iff_tmp ?_ (fun x => ?_) htmp) ⟨fun h _ => h, fun h => h hpresent⟩
      · exact ⟨rfl, rfl, rfl, rfl⟩
      show t'.files x = _
      rw [hwrote.files]
      show (if x = p then some old else if x = tmpPath p then none else t.files x) = _
      rw [hfiles]
      by_cases hx : x = p
      · rw [if_pos hx, hx, if_neg (tmpPath_ne hp).symm, hold]
      · rw [if_neg hx, if_neg hx]

theorem perform_ok {m : SandboxM α} {wrap : α → ToolResult} {r : ToolResult}
    (h : (do return wrap (← m)).run s = .ok r s') : ∃ a, m.run s = .ok a s' ∧ r = wrap a := by
  obtain ⟨a, s₁, hm, h₁⟩ := run_bind_ok h
  cases h₁
  exact ⟨a, hm, rfl⟩

/-- **A rollback restores the facts, tasks, artifacts, notes and files exactly when the
call can be taken back.** -/
theorem rollback_restores_iff (call : ToolCall) {r : ToolResult}
    (h : call.perform.run s = .ok r s') :
    Restored s (final (call.rollback r) s') ↔ call.Reversible s := by
  cases call with
  | setFact key value =>
    obtain ⟨a, ha, rfl⟩ := perform_ok h
    exact setFact_restores ha
  | appendTask description status now =>
    obtain ⟨a, ha, rfl⟩ := perform_ok h
    exact appendTask_restores ha
  | updateTask taskId description status now =>
    obtain ⟨a, ha, rfl⟩ := perform_ok h
    exact ⟨fun _ => trivial, fun _ => updateTask_restores ha⟩
  | storeArtifact name path metadata now =>
    obtain ⟨a, ha, rfl⟩ := perform_ok h
    exact storeArtifact_restores ha
  | remember note =>
    obtain ⟨a, ha, rfl⟩ := perform_ok h
    exact ⟨fun _ => trivial, fun _ => remember_restores ha⟩
  | writeSandboxFile path content =>
    obtain ⟨a, ha, rfl⟩ := perform_ok h
    exact writeFile_restores ha
  | deleteSandboxFile path =>
    obtain ⟨a, ha, rfl⟩ := perform_ok h
    exact deleteFile_restores ha

theorem nothing_above (x : ResourcePath) (h : (none : Option Bytes).isSome = true) :
    ∀ q ∈ parents x, decide (q = []) = true := absurd h Bool.false_ne_true

theorem nothing_there (x : ResourcePath) (_ : decide (x = []) = true) : (none : Option Bytes) = none :=
  rfl

def sandboxWith (facts : PyDict) : StateSandbox where
  memory := ⟨[], facts, [], [], 0⟩
  files := {
    files := fun _ => none
    dirs := fun p => p = []
    dirs_above := nothing_above
    no_file := nothing_there }
  budget := none

theorem parse_nested : parseKey (lit "a.b") = .ok ⟨[lit "a"], lit "b"⟩ := by rfl

theorem overwritten_fact_back :
    ∃ r s', (ToolCall.setFact (lit "a.b") (.int 2)).perform.run
        (sandboxWith [(lit "a", .dict [(lit "b", .int 1)])]) = .ok r s' ∧
      Restored (sandboxWith [(lit "a", .dict [(lit "b", .int 1)])])
        (final ((ToolCall.setFact (lit "a.b") (.int 2)).rollback r) s') := by
  refine ⟨_, _, rfl, (rollback_restores_iff _ rfl).2 ?_⟩
  intro parts hparse
  rw [parse_nested] at hparse
  cases hparse
  rfl

theorem container_left_behind :
    ∃ r s', (ToolCall.setFact (lit "a.b") (.int 1)).perform.run (sandboxWith []) = .ok r s' ∧
      ¬ Restored (sandboxWith [])
        (final ((ToolCall.setFact (lit "a.b") (.int 1)).rollback r) s') := by
  refine ⟨_, _, rfl, fun hrestored => ?_⟩
  have hread := hrestored.facts [lit "a"]
  cases hread

end ClawHarder.Runtime
