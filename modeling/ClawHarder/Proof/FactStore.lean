import ClawHarder.Spec.FactStore
import ClawHarder.Proof.FileStore

/-!
# Reading facts after writing them

* `setFact_reads_back`: **a fact is read back where the memory is kept, other facts are read as
  before, and a call that raises changes none.**
-/

namespace ClawHarder.FactStore

open PyText (lit)
open ClawHarder.Runtime (SandboxFault FactKey SetFactResult parseKey ResourcePath tmpPath)
open ClawHarder.Resources
open PyValue (get? set child inside innermost)
open Effectful (Spec Reads)

/-- **A path reads what was assigned to it.** -/
theorem walk_inside (containers : List PyText) (name : PyText) (v : PyValue) (d : PyDict) :
    walk (containers ++ [name]) (.dict (inside (set name v) containers d)) = some v := by
  induction containers generalizing d with
  | nil =>
    rw [List.nil_append, inside, walk, PyValue.get?_set, if_pos rfl]
    rfl
  | cons k ks ih =>
    rw [List.cons_append, inside, walk, PyValue.get?_set, if_pos rfl]
    exact ih (child k d)

theorem walk_of_no_dict {path : List PyText} (hpath : path ≠ []) {v : PyValue}
    (hv : ∀ members, v ≠ .dict members) : walk path v = none := by
  cases path with
  | nil => exact absurd rfl hpath
  | cons k ks =>
    cases v with
    | dict members => exact absurd rfl (hv members)
    | _ => rfl

theorem walk_child {path : List PyText} (hpath : path ≠ []) (k : PyText) (d : PyDict) :
    walk (k :: path) (.dict d) = walk path (.dict (child k d)) := by
  have hempty : walk path (.dict []) = none := by
    cases path with
    | nil => exact absurd rfl hpath
    | cons j js => rfl
  rw [walk]
  unfold child
  cases hget : get? k d with
  | none => exact hempty.symm
  | some v =>
    rw [Option.bind_some]
    cases v with
    | dict members => rfl
    | _ => exact (walk_of_no_dict hpath fun members h => by cases h).trans hempty.symm

/-- **A path beside the one that is assigned to reads what it read before.** -/
theorem walk_apart {containers path : List PyText} {name : PyText}
    (hbelow : ¬containers ++ [name] <+: path) (habove : ¬path <+: containers ++ [name])
    (v : PyValue) (d : PyDict) :
    walk path (.dict (inside (set name v) containers d)) = walk path (.dict d) := by
  induction containers generalizing path d with
  | nil =>
    cases path with
    | nil => exact absurd List.nil_prefix habove
    | cons j js =>
      have hne : j ≠ name := by
        rintro rfl
        exact hbelow (List.cons_prefix_cons.2 ⟨rfl, List.nil_prefix⟩)
      rw [inside, walk, walk, PyValue.get?_set, if_neg hne]
  | cons k ks ih =>
    cases path with
    | nil => exact absurd List.nil_prefix habove
    | cons j js =>
      by_cases hj : j = k
      · subst hj
        have hbelow' : ¬ks ++ [name] <+: js := fun h =>
          hbelow (List.cons_prefix_cons.2 ⟨rfl, h⟩)
        have habove' : ¬js <+: ks ++ [name] := fun h =>
          habove (List.cons_prefix_cons.2 ⟨rfl, h⟩)
        have hjs : js ≠ [] := by
          rintro rfl
          exact habove' List.nil_prefix
        rw [inside, walk_child hjs, PyValue.child_set, walk_child hjs]
        exact ih hbelow' habove' (child j d)
      · rw [inside, walk, walk, PyValue.get?_set, if_neg hj]

variable {h : Host} {b : StateSandbox} {s s' : Root}

theorem child_congr {k : PyText} {d e : PyDict} (h : get? k d = get? k e) :
    child k d = child k e := by
  unfold child
  rw [h]

theorem child_set_of_ne {k key : PyText} (hk : k ≠ key) (v : PyValue) (d : PyDict) :
    child k (set key v d) = child k d :=
  child_congr (by rw [PyValue.get?_set, if_neg hk])

theorem child_facts_defaults (memory : PyDict) :
    child (lit "facts") (emptyMemory.foldl setDefault memory) = child (lit "facts") memory := by
  have hone : ∀ d ∈ emptyMemory, ∀ memory : PyDict,
      child (lit "facts") (setDefault memory d) = child (lit "facts") memory := by
    intro d hd memory
    unfold setDefault
    cases hget : get? d.1 memory with
    | some v => rfl
    | none =>
      by_cases hfacts : lit "facts" = d.1
      · have hempty : ∀ d ∈ emptyMemory, lit "facts" = d.1 → d.2 = .dict [] := by
          intro d hd hkey
          simp only [emptyMemory, List.mem_cons, List.not_mem_nil, or_false] at hd
          rcases hd with rfl | rfl | rfl | rfl | rfl | rfl
          · exact absurd hkey (by decide)
          · rfl
          · exact absurd hkey (by decide)
          · exact absurd hkey (by decide)
          · exact absurd hkey (by decide)
          · exact absurd hkey (by decide)
        rw [hempty d hd hfacts, hfacts, PyValue.child_set]
        unfold child
        rw [hget]
      · exact child_set_of_ne hfacts d.2 memory
  have hall : ∀ ds : PyDict, (∀ d ∈ ds, d ∈ emptyMemory) → ∀ memory : PyDict,
      child (lit "facts") (ds.foldl setDefault memory) = child (lit "facts") memory := by
    intro ds
    induction ds with
    | nil => exact fun _ _ => rfl
    | cons d ds ih =>
      intro hds memory
      rw [List.foldl_cons, ih (fun x hx => hds x (List.mem_cons_of_mem d hx)),
        hone d (hds d List.mem_cons_self)]
  exact hall emptyMemory (fun _ hd => hd) memory

variable {memory : PyDict}

theorem normalize_eq {normal : PyDict} (hn : normalizeMemory h memory = .ok normal) :
    memberTypes.forM (checkMember (emptyMemory.foldl setDefault memory)) = .ok () ∧
      ∃ revision, normal = revise revision
        (set (lit "version") (.int 1) (emptyMemory.foldl setDefault memory)) := by
  unfold normalizeMemory at hn
  obtain ⟨_, hcheck, hn⟩ := Effectful.bind_ok hn
  obtain ⟨revision, -, hn⟩ := Effectful.bind_ok hn
  refine ⟨hcheck, revision, ?_⟩
  have hchild := child_set_of_ne (show lit "metadata" ≠ lit "version" by decide) (.int 1)
    (emptyMemory.foldl setDefault memory)
  unfold revise
  rw [hchild]
  exact (Except.ok.inj hn).symm

theorem child_facts_revise (revision : ℤ) (memory : PyDict) :
    child (lit "facts") (revise revision memory) = child (lit "facts") memory :=
  child_set_of_ne (by decide) _ memory

/-- **What is loaded has the facts of the file.** -/
theorem child_facts_normalize {normal : PyDict}
    (hn : normalizeMemory h memory = .ok normal) :
    child (lit "facts") normal = child (lit "facts") memory := by
  obtain ⟨-, revision, rfl⟩ := normalize_eq hn
  rw [child_facts_revise, child_set_of_ne (by decide), child_facts_defaults]

theorem revise_revise (m n : ℤ) (memory : PyDict) :
    revise n (revise m memory) = revise n memory := by
  unfold revise
  rw [PyValue.child_set, PyValue.set_set, PyValue.set_set]

def Writable (t : DirTree PyText Document) : Prop :=
  t.files [] = none ∧ t.dirs (tmpPath memoryPath) = false ∧ t.dirs memoryPath = false

def Blank (s s' : Root) : Prop :=
  s' = s ∨ ∃ t, s.tree.mkdirs [] = some t ∧ s' = { s with tree := t }

theorem dirTree_ext {t u : DirTree PyText Document} (hfiles : t.files = u.files)
    (hdirs : t.dirs = u.dirs) : t = u := by
  obtain ⟨⟨files, dirs⟩, _, _⟩ := t
  obtain ⟨⟨files', dirs'⟩, _, _⟩ := u
  cases hfiles
  cases hdirs
  rfl

theorem mkdirs_again {t u : DirTree PyText Document} (h : t.mkdirs [] = some u) :
    u.mkdirs [] = some u := by
  have htop : u.dirs [] = true := by
    rw [DirTree.dirs_mkdirs h, decide_eq_true List.nil_prefix, Bool.or_true]
  obtain ⟨w, hw⟩ := DirTree.exists_mkdirs (t := u) (p := []) fun q hq => by
    rw [List.prefix_nil.1 hq]
    exact u.no_file [] htop
  have hsame : w = u := by
    refine dirTree_ext (DirTree.files_mkdirs hw) (funext fun q => ?_)
    rw [DirTree.dirs_mkdirs hw]
    by_cases hq : q = []
    · rw [hq, htop, Bool.true_or]
    · rw [decide_eq_false fun hpre => hq (List.prefix_nil.1 hpre), Bool.or_false]
  rw [hw, hsame]

theorem run_writeDocument_mkdirs {t : DirTree PyText Document} (ht : s.tree.mkdirs [] = some t)
    (p : ResourcePath) (v : PyValue) :
    (writeDocument p v).run { s with tree := t } = (writeDocument p v).run s := by
  have hfirst : (onTree fun t => t.mkdirs []).run s = .ok () { s with tree := t } :=
    run_onTree_of_some ht
  have hagain : (onTree fun t => t.mkdirs []).run { s with tree := t } =
      .ok () { s with tree := t } := run_onTree_of_some (mkdirs_again ht)
  unfold writeDocument
  rw [Effectful.run_bind_of_ok hfirst, Effectful.run_bind_of_ok hagain]

/-- **A write goes through, or the files are as they were.** -/
theorem writeMemory_cases (hdir : s.tree.dirs memoryPath = false) (v : PyValue) :
    (Writable s.tree ∧ ∃ t, (Resources.writeMemory v).run s = .ok () { s with tree := t } ∧
      t.files memoryPath = some (.json v) ∧ Writable t) ∨
    (¬Writable s.tree ∧ ∃ e s', (Resources.writeMemory v).run s = .error e s' ∧ Blank s s') := by
  unfold Resources.writeMemory
  by_cases hroot : s.tree.files [] = none
  · obtain ⟨t, ht⟩ := DirTree.exists_mkdirs (t := s.tree) (p := []) fun q hq => by
      rw [List.prefix_nil.1 hq]
      exact hroot
    have htop : t.dirs [] = true := by
      rw [DirTree.dirs_mkdirs ht, decide_eq_true List.nil_prefix, Bool.or_true]
    have hdirs : ∀ q ≠ [], t.dirs q = s.tree.dirs q := by
      intro q hq
      rw [DirTree.dirs_mkdirs ht, decide_eq_false fun hpre => hq (List.prefix_nil.1 hpre),
        Bool.or_false]
    have hmemory : t.dirs memoryPath = false := (hdirs _ (by decide)).trans hdir
    cases htmp : s.tree.dirs (tmpPath memoryPath) with
    | false =>
      have htmp' : t.dirs (tmpPath memoryPath) = false := (hdirs _ (by decide)).trans htmp
      obtain ⟨u, hrun, hudirs, hufiles⟩ := FileStore.run_writeTop (x := { s with tree := t }) htop
        hmemory htmp' v
      rw [run_writeDocument_mkdirs ht] at hrun
      refine .inl ⟨⟨hroot, htmp, hdir⟩, u, hrun, ?_, ?_, ?_, ?_⟩
      · exact (hufiles memoryPath).trans (if_pos rfl)
      · exact u.no_file [] (by rw [hudirs]; exact htop)
      · rw [hudirs]
        exact htmp'
      · rw [hudirs]
        exact hmemory
    | true =>
      have htmp' : t.dirs (tmpPath memoryPath) = true := (hdirs _ (by decide)).trans htmp
      have hput : t.put (tmpPath memoryPath) (.json v) = none := DirTree.put_of_dir htmp'
      refine .inr ⟨fun hw => ?_, .fault .osError, { s with tree := t }, ?_, .inr ⟨t, ht, rfl⟩⟩
      · rw [hw.2.1] at htmp
        cases htmp
      · unfold writeDocument writeText
        rw [Effectful.run_bind_of_ok (run_onTree_of_some (s := s) ht)]
        exact Effectful.run_bind_of_error (run_onTree_of_none (s := { s with tree := t }) hput)
  · have hno : s.tree.mkdirs [] = none := by
      unfold DirTree.mkdirs
      exact dif_neg fun hall => hroot (hall [] (by simp))
    refine .inr ⟨fun hw => hroot hw.1, .fault .osError, s, ?_, .inl rfl⟩
    unfold writeDocument
    exact Effectful.run_bind_of_error (run_onTree_of_none (s := s) hno)

def outcome {α : Type} (m : RootM α) (s : Root) : Except Raised α :=
  match m.run s with
  | .ok a _ => .ok a
  | .error e _ => .error e

theorem outcome_of_ok {α : Type} {m : RootM α} {a : α} (h : m.run s = .ok a s') :
    outcome m s = .ok a := by
  unfold outcome
  rw [h]

theorem outcome_bind {α β : Type} (m : RootM α) (f : α → RootM β) {g : α → β}
    (hf : ∀ a s, (f a).run s = .ok (g a) s) : outcome (m >>= f) s = (outcome m s).map g := by
  unfold outcome
  rw [EStateM.run_bind]
  cases m.run s with
  | ok a s₁ =>
    simp only [hf]
    rfl
  | error e s₁ => rfl

theorem run_loadMemory_of_ok (hm : s.memory h = .ok memory) :
    (Resources.loadMemory h).run s = .ok memory s := by
  have hget : (get : RootM Root).run s = .ok s s := rfl
  unfold Resources.loadMemory
  rw [Effectful.run_bind_of_ok hget, hm]
  rfl

theorem normalMemory (hm : s.memory h = .ok memory) :
    normalizeMemory h memory = .ok memory ∧ s.tree.dirs memoryPath = false := by
  unfold Root.memory at hm
  have hfile : ∀ d, s.tree.files memoryPath = some d → s.tree.dirs memoryPath = false := by
    intro d hd
    by_contra hdir
    have hno := s.tree.no_file memoryPath (by simpa using hdir)
    rw [hno] at hd
    cases hd
  split at hm
  · split at hm
    · cases hm
    · rename_i hdir
      exact ⟨normalizeMemory_idem hm, by simpa using hdir⟩
  · cases hm
  · rename_i hfiles
    exact ⟨normalizeMemory_idem hm, hfile _ hfiles⟩
  · cases hm

/-- **A memory that loads and can be written is read.** -/
theorem run_readMemory (hw : Writable s.tree) (hm : s.memory h = .ok memory) :
    ∃ s', (Resources.readMemory h).run s = .ok memory s' := by
  obtain ⟨hnormal, hdir⟩ := normalMemory hm
  have hload : ∀ s₁ : Root, (ensureMemory h).run s = .ok () s₁ → s₁.memory h = .ok memory →
      ∃ s', (Resources.readMemory h).run s = .ok memory s' := by
    intro s₁ hensure hloads
    unfold Resources.readMemory
    rw [Effectful.run_bind_of_ok hensure]
    exact ⟨s₁, run_loadMemory_of_ok hloads⟩
  have hwrite : ∀ v, ∃ t, (Resources.writeMemory v).run s = .ok () { s with tree := t } ∧
      t.files memoryPath = some (.json v) := by
    intro v
    rcases writeMemory_cases hdir v with ⟨-, t, hrun, hfiles, -⟩ | ⟨hno, -⟩
    · exact ⟨t, hrun, hfiles⟩
    · exact absurd hw hno
  have hget : (get : RootM Root).run s = .ok s s := rfl
  cases hfiles : s.tree.files memoryPath with
  | none =>
    have hpresent : s.tree.present memoryPath = false := by
      unfold DirTree.present FileTree.present
      rw [hfiles, hdir]
      rfl
    obtain ⟨t, hrun, ht⟩ := hwrite (.dict emptyMemory)
    refine hload { s with tree := t } ?_ ?_
    · unfold ensureMemory
      rw [Effectful.run_bind_of_ok hget, hpresent]
      exact hrun
    · unfold Root.memory at hm ⊢
      rw [hfiles, if_neg (by rw [hdir]; exact Bool.false_ne_true)] at hm
      rw [ht]
      exact hm
  | some d =>
    have hpresent : s.tree.present memoryPath = true := by
      unfold DirTree.present FileTree.present
      rw [hfiles]
      rfl
    have hm' := hm
    unfold Root.memory at hm'
    rw [hfiles] at hm'
    cases d with
    | bytes raw => cases hm'
    | json v =>
      cases v with
      | dict payload =>
        have hread : (readJson memoryPath).run s = .ok (.dict payload) s := by
          unfold readJson
          rw [Effectful.run_bind_of_ok hget, hfiles]
          rfl
        have hnormalized : (lift (normalizeMemory h payload)).run s = .ok memory s := by
          rw [show normalizeMemory h payload = .ok memory from hm']
          rfl
        have hensure : (ensureMemory h).run s =
            (if h.same (.dict memory) (.dict payload) then pure ()
              else Resources.writeMemory (.dict memory) : RootM Unit).run s := by
          unfold ensureMemory
          rw [Effectful.run_bind_of_ok hget, hpresent]
          rw [if_pos rfl, Effectful.run_bind_of_ok hread]
          exact Effectful.run_bind_of_ok hnormalized
        cases hsame : h.same (.dict memory) (.dict payload) with
        | true =>
          rw [hsame] at hensure
          exact hload _ hensure hm
        | false =>
          obtain ⟨t, hrun, ht⟩ := hwrite (.dict memory)
          rw [hsame] at hensure
          refine hload { s with tree := t } (hensure.trans hrun) ?_
          unfold Root.memory
          rw [ht]
          exact hnormal
      | _ => cases hm'

/-- What `readJson` returns where a file is, or is not. -/
def jsonOf (r : Root) : Option Document → EStateM.Result Raised Root PyValue
  | none => .error (.fault .osError) r
  | some (.bytes _) => .error (.python .valueError) r
  | some (.json v) => .ok v r

/-- **Where at most the root directory was made, the memory is read as before.** -/
theorem readMemory_blank {t : DirTree PyText Document} (ht : s.tree.mkdirs [] = some t) :
    outcome (Resources.readMemory h) { s with tree := t } = outcome (Resources.readMemory h) s := by
  have hfiles : t.files = s.tree.files := DirTree.files_mkdirs ht
  have hdir : t.dirs memoryPath = s.tree.dirs memoryPath := by
    rw [DirTree.dirs_mkdirs ht, decide_eq_false (by decide), Bool.or_false]
  have hmemory : Root.memory h { s with tree := t } = s.memory h :=
    memory_congr (by rw [hfiles]) hdir
  have hpresent : t.present memoryPath = s.tree.present memoryPath := by
    unfold DirTree.present FileTree.present
    rw [hfiles, hdir]
  -- the check returns in both, raises in both, or writes the same
  have hensure : (ensureMemory h).run { s with tree := t } = (ensureMemory h).run s ∨
      (∃ e, (ensureMemory h).run { s with tree := t } = .error e { s with tree := t } ∧
        (ensureMemory h).run s = .error e s) ∨
      ((ensureMemory h).run { s with tree := t } = .ok () { s with tree := t } ∧
        (ensureMemory h).run s = .ok () s) := by
    have hget : ∀ r : Root, (get : RootM Root).run r = .ok r r := fun _ => rfl
    unfold ensureMemory
    rw [Effectful.run_bind_of_ok (hget _), Effectful.run_bind_of_ok (hget _), hpresent]
    cases s.tree.present memoryPath with
    | false => exact .inl (run_writeDocument_mkdirs ht memoryPath _)
    | true =>
      simp only [if_true]
      have hread : ∀ r : Root, (readJson memoryPath).run r = jsonOf r (r.tree.files memoryPath) := by
        intro r
        unfold readJson
        rw [Effectful.run_bind_of_ok (hget r)]
        cases r.tree.files memoryPath with
        | none => rfl
        | some d => cases d <;> rfl
      have hone := hread { s with tree := t }
      have htwo := hread s
      simp only [hfiles] at hone
      cases hfile : s.tree.files memoryPath with
      | none =>
        rw [hfile] at hone htwo
        exact .inr (.inl ⟨_, Effectful.run_bind_of_error hone, Effectful.run_bind_of_error htwo⟩)
      | some d =>
        rw [hfile] at hone htwo
        cases d with
        | bytes raw =>
          exact .inr (.inl ⟨_, Effectful.run_bind_of_error hone, Effectful.run_bind_of_error htwo⟩)
        | json v =>
          rw [Effectful.run_bind_of_ok hone, Effectful.run_bind_of_ok htwo]
          cases v with
          | dict members =>
            cases hnormal : normalizeMemory h members with
            | error e =>
              simp only [hnormal]
              exact .inr (.inl ⟨e, rfl, rfl⟩)
            | ok memory =>
              have hlift : ∀ r : Root, (lift (.ok memory) : RootM PyDict).run r =
                  .ok memory r := fun _ => rfl
              simp only [hnormal]
              rw [Effectful.run_bind_of_ok (hlift _), Effectful.run_bind_of_ok (hlift _)]
              cases h.same (.dict memory) (.dict members) with
              | true => exact .inr (.inr ⟨rfl, rfl⟩)
              | false => exact .inl (run_writeDocument_mkdirs ht memoryPath _)
          | _ => exact .inr (.inl ⟨_, rfl, rfl⟩)
  unfold Resources.readMemory outcome
  rw [EStateM.run_bind, EStateM.run_bind]
  rcases hensure with hsame | ⟨e, hone, htwo⟩ | ⟨hone, htwo⟩
  · rw [hsame]
  · rw [hone, htwo]
  · rw [hone, htwo]
    have hload : ∀ r : Root, outcome (Resources.loadMemory h) r = r.memory h := by
      intro r
      have hget : (get : RootM Root).run r = .ok r r := rfl
      unfold Resources.loadMemory outcome
      rw [Effectful.run_bind_of_ok hget]
      cases r.memory h with
      | error e => rfl
      | ok memory => rfl
    exact (hload _).trans (hmemory.trans (hload s).symm)

theorem spec_transaction {α : Type} (cost : Option ℚ)
    (mutate : PyDict → Except SandboxFault (α × PyDict)) (s : Root) :
    Spec (fun r => r = s) (transaction b cost mutate)
      (fun a s' => ∃ before working normal s₁, (loadMemory b).run s = .ok before s ∧
        mutate before = .ok (a, working) ∧ normalizeMemory b.host working = .ok normal ∧
        (writeMemory b (.dict (revise (revisionOf before + 1) normal))).run s = .ok () s₁ ∧
        s'.tree = s₁.tree)
      (fun _ s' => s' = s ∨ ∃ before memory e, (loadMemory b).run s = .ok before s ∧
        (writeMemory b memory).run s = .error e s') := by
  have hload : Reads (loadMemory b) := by
    unfold loadMemory
    split
    · exact Effectful.reads_get fun r => reads_lift _
    · exact Effectful.reads_pure _
  unfold transaction
  refine Effectful.spec_reads_bind (reads_lift _) (fun _ => .inl rfl) fun cost _ => ?_
  refine Effectful.spec_reads_bind (reads_checkBudget _ _) (fun _ => .inl rfl) fun _ _ => ?_
  refine Effectful.spec_reads_bind hload (fun _ => .inl rfl) fun before hbefore => ?_
  refine Effectful.spec_reads_bind (reads_lift _) (fun _ => .inl rfl) fun r hmutate => ?_
  obtain ⟨a, working⟩ := r
  refine Effectful.spec_reads_bind (reads_lift _) (fun _ => .inl rfl) fun normal hnormal => ?_
  have hmutate' : mutate before = .ok (a, working) := by
    have hok := (run_lift hmutate).1
    cases hx : mutate before with
    | error e =>
      rw [hx] at hok
      cases hok
    | ok r =>
      rw [hx] at hok
      cases hok
      rfl
  have hnormal' := (run_lift hnormal).1
  intro r hr
  subst hr
  cases hwrite : (writeMemory b (.dict (revise (revisionOf before + 1) normal))).run r with
  | error e s' =>
    rw [Effectful.run_bind_of_error hwrite]
    exact .inr ⟨before, _, e, hbefore, hwrite⟩
  | ok u s₁ =>
    rw [Effectful.run_bind_of_ok hwrite]
    exact ⟨before, working, normal, s₁, hbefore, hmutate', hnormal', hwrite, rfl⟩

/-- What `get_fact` makes of a memory. -/
def answer (key : PyText) (parsed : FactKey) (memory : PyDict) : GetFactResult :=
  match walk (parts parsed) (.dict (child (lit "facts") memory)) with
  | some target => ⟨key, target, true⟩
  | none => ⟨key, .none, false⟩

theorem outcome_getFact {key : PyText} {parsed : FactKey} (hkey : parseKey key = .ok parsed)
    (s : Root) :
    outcome (getFact b key) s = (outcome (readMemory b) s).map (answer key parsed) := by
  have hparse : (lift (ofFault (parseKey key))).run s = .ok parsed s := by
    rw [hkey]
    rfl
  have hrun : (getFact b key).run s = (readMemory b >>= fun memory =>
      match walk (parts parsed) (.dict (child (lit "facts") memory)) with
      | some target => pure ⟨key, target, true⟩
      | none => pure ⟨key, .none, false⟩).run s := Effectful.run_bind_of_ok hparse
  have hbind : outcome (getFact b key) s = outcome (readMemory b >>= fun memory =>
      match walk (parts parsed) (.dict (child (lit "facts") memory)) with
      | some target => pure ⟨key, target, true⟩
      | none => pure ⟨key, .none, false⟩) s := by
    unfold outcome
    rw [hrun]
  rw [hbind]
  refine outcome_bind _ _ fun memory s => ?_
  unfold answer
  cases walk (parts parsed) (.dict (child (lit "facts") memory)) with
  | none => rfl
  | some target => rfl

theorem outcome_getFact_of_error {key : PyText} {f : SandboxFault} (hkey : parseKey key = .error f)
    (s : Root) : outcome (getFact b key) s = .error (.fault f) := by
  unfold getFact
  rw [hkey]
  rfl

theorem outcome_getFact_congr (h : outcome (readMemory b) s' = outcome (readMemory b) s)
    (key : PyText) : outcome (getFact b key) s' = outcome (getFact b key) s := by
  cases hkey : parseKey key with
  | error f => rw [outcome_getFact_of_error hkey, outcome_getFact_of_error hkey]
  | ok parsed => rw [outcome_getFact hkey, outcome_getFact hkey, h]

theorem outcome_readMemory_off (hoff : b.useMemoryJson = false) (s : Root) :
    outcome (readMemory b) s = .ok emptyMemory := by
  unfold readMemory
  rw [hoff]
  rfl

/-- **What is written is loaded.** -/
theorem normalize_revised {working normal : PyDict}
    (hn : normalizeMemory h working = .ok normal) (n : ℤ) :
    normalizeMemory h (revise n normal) = .ok (revise n normal) := by
  obtain ⟨hcheck, revision, rfl⟩ := normalize_eq hn
  rw [revise_revise]
  exact normalizeMemory_normal
    (fun d hd => isSome_defaults emptyMemory working (List.mem_map_of_mem hd)) hcheck _ n

theorem read_transaction {α : Type} {cost : Option ℚ}
    {mutate : PyDict → Except SandboxFault (α × PyDict)} {a : α}
    (hon : b.useMemoryJson = true) (hrun : (transaction b cost mutate).run s = .ok a s') :
    ∃ before working after, outcome (readMemory b) s = .ok before ∧
      mutate before = .ok (a, working) ∧ outcome (readMemory b) s' = .ok after ∧
      child (lit "facts") after = child (lit "facts") working := by
  have hspec := spec_transaction (b := b) cost mutate s s rfl
  rw [hrun] at hspec
  obtain ⟨before, working, normal, s₁, hload, hmutate, hnormal, hwrite, htree⟩ := hspec
  unfold loadMemory at hload
  unfold writeMemory at hwrite
  unfold readMemory
  rw [hon] at hload hwrite ⊢
  simp only [if_true] at hload hwrite ⊢
  obtain ⟨hmemory, -⟩ := run_loadMemory hload
  obtain ⟨-, hdir⟩ := normalMemory hmemory
  rcases writeMemory_cases hdir (.dict (revise (revisionOf before + 1) normal)) with
    ⟨hwritable, t, hdone, hfile, hstill⟩ | ⟨-, e, s₂, hraised, -⟩
  · rw [hwrite] at hdone
    cases hdone
    obtain ⟨s₂, hread⟩ := run_readMemory hwritable hmemory
    have hafter : s'.memory b.host = .ok (revise (revisionOf before + 1) normal) := by
      unfold Root.memory
      rw [htree, hfile]
      exact normalize_revised hnormal _
    have hstill' : Writable s'.tree := by
      rw [htree]
      exact hstill
    obtain ⟨s₃, hagain⟩ := run_readMemory hstill' hafter
    refine ⟨before, working, _, outcome_of_ok hread, hmutate, outcome_of_ok hagain, ?_⟩
    rw [child_facts_revise, child_facts_normalize hnormal]
  · rw [hwrite] at hraised
    cases hraised

/-- **A call that raises changes nothing that is read.** -/
theorem read_of_raised {α : Type} {cost : Option ℚ}
    {mutate : PyDict → Except SandboxFault (α × PyDict)} {e : Raised}
    (hrun : (transaction b cost mutate).run s = .error e s') :
    outcome (readMemory b) s' = outcome (readMemory b) s := by
  have hspec := spec_transaction (b := b) cost mutate s s rfl
  rw [hrun] at hspec
  rcases hspec with rfl | ⟨before, memory, e', hload, hwrite⟩
  · rfl
  cases hjson : b.useMemoryJson with
  | false => rw [outcome_readMemory_off hjson, outcome_readMemory_off hjson]
  | true =>
    unfold loadMemory at hload
    unfold writeMemory at hwrite
    unfold readMemory
    rw [hjson] at hload hwrite ⊢
    simp only [if_true] at hload hwrite ⊢
    obtain ⟨-, hdir⟩ := normalMemory (run_loadMemory hload).1
    rcases writeMemory_cases hdir memory with ⟨-, t, hdone, -⟩ | ⟨-, e₂, s₂, hraised, hblank⟩
    · rw [hwrite] at hdone
      cases hdone
    · rw [hwrite] at hraised
      cases hraised
      rcases hblank with rfl | ⟨t, ht, rfl⟩
      · rfl
      · exact readMemory_blank ht

theorem assignFact_eq {key : PyText} {parsed : FactKey} {v : PyValue} {working : PyDict}
    {r : SetFactResult} (h : assignFact key parsed (some v) memory = .ok (r, working)) :
    child (lit "facts") working =
      inside (set parsed.name v) parsed.containers (child (lit "facts") memory) := by
  cases h
  exact PyValue.child_set ..

/-- **A fact is read back where the memory is kept, facts beside it are read as before, and a
call that raises changes no fact.** -/
theorem setFact_reads_back (b : StateSandbox) (s : Root) {key other : PyText}
    {parsed parsed' : FactKey} (hkey : parseKey key = .ok parsed)
    (hother : parseKey other = .ok parsed') (hbelow : ¬parts parsed <+: parts parsed')
    (habove : ¬parts parsed' <+: parts parsed) (v : PyValue) (cost : Option ℚ) :
    match (setFact b key (some v) cost).run s with
    | .ok _ s' =>
      (b.useMemoryJson = true → outcome (getFact b key) s' = .ok ⟨key, v, true⟩) ∧
        outcome (getFact b other) s' = outcome (getFact b other) s
    | .error _ s' => ∀ any, outcome (getFact b any) s' = outcome (getFact b any) s := by
  have hparse : (lift (ofFault (parseKey key))).run s = .ok parsed s := by
    rw [hkey]
    rfl
  have hset : (setFact b key (some v) cost).run s =
      (transaction b cost (assignFact key parsed (some v))).run s := by
    unfold setFact
    rw [Effectful.run_bind_of_ok hparse]
  rw [hset]
  cases hrun : (transaction b cost (assignFact key parsed (some v))).run s with
  | error e s' => exact outcome_getFact_congr (read_of_raised hrun)
  | ok r s' =>
    cases hjson : b.useMemoryJson with
    | false =>
      refine ⟨fun hon => (Bool.false_ne_true hon).elim, outcome_getFact_congr ?_ other⟩
      rw [outcome_readMemory_off hjson, outcome_readMemory_off hjson]
    | true =>
      obtain ⟨before, working, after, hbefore, hassign, hafter, hfacts⟩ :=
        read_transaction hjson hrun
      have hworking := assignFact_eq hassign
      refine ⟨fun _ => ?_, ?_⟩
      · have hanswer : answer key parsed after = ⟨key, v, true⟩ := by
          unfold answer parts
          rw [hfacts, hworking, walk_inside]
        rw [outcome_getFact hkey, hafter, ← hanswer]
        rfl
      · have hanswer : answer other parsed' after = answer other parsed' before := by
          unfold answer
          rw [hfacts, hworking, walk_apart hbelow habove]
        rw [outcome_getFact hother, outcome_getFact hother, hafter, hbefore]
        exact congrArg Except.ok hanswer

def theme : PyText := lit "ui. theme"

def font : PyText := lit "ui.font"

theorem parse_theme : parseKey theme = .ok ⟨[lit "ui"], lit "theme"⟩ := rfl

theorem parse_font : parseKey font = .ok ⟨[lit "ui"], lit "font"⟩ := rfl

theorem theme_read_back :
    match (setFact ⟨sampleHost, true⟩ theme (some (.str (lit "dark"))) (some 1)).run
        (created sampleHost none) with
    | .ok _ s' =>
      (true = true → outcome (getFact ⟨sampleHost, true⟩ theme) s' =
          .ok ⟨theme, .str (lit "dark"), true⟩) ∧
        outcome (getFact ⟨sampleHost, true⟩ font) s' =
          outcome (getFact ⟨sampleHost, true⟩ font) (created sampleHost none)
    | .error _ s' => ∀ any, outcome (getFact ⟨sampleHost, true⟩ any) s' =
        outcome (getFact ⟨sampleHost, true⟩ any) (created sampleHost none) :=
  setFact_reads_back ⟨sampleHost, true⟩ (created sampleHost none) parse_theme parse_font
    (by decide) (by decide) (.str (lit "dark")) (some 1)

theorem off_forgets :
    (∃ r s', (setFact ⟨sampleHost, false⟩ theme (some (.str (lit "dark"))) (some 1)).run
        (created sampleHost none) = .ok r s') ∧
      ∀ s', outcome (getFact ⟨sampleHost, false⟩ theme) s' ≠
        .ok ⟨theme, .str (lit "dark"), true⟩ := by
  refine ⟨⟨_, _, rfl⟩, fun s' hread => ?_⟩
  rw [outcome_getFact parse_theme, outcome_readMemory_off rfl] at hread
  have hfound := congrArg GetFactResult.found (Except.ok.inj hread)
  exact absurd hfound (by decide)

end ClawHarder.FactStore
