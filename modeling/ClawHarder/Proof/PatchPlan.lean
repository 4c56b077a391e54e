import ClawHarder.Proof.AllOrNothing

/-!
# A patch plan is the patches one after another

A workspace that nobody else writes to and where no call fails is a map from paths to
texts, with some paths taken by directories. A patch changes one path of the map. Planning
keeps the paths that it has touched in an overlay: what is there now beside what was there
before, which is all that the writes and deletes of the plan depend on.

* `plan_is_sequential`: **planning succeeds just when the patches can be applied one after
  another, and then its writes and deletes lead to the same map**; else it fails as the
  first patch that cannot be applied does.
-/

namespace ClawHarder.Comms

open PyText (lit)

variable {W : Workspace} {v : Volume}

abbrev Texts := Path → Option PyText

def Volume.texts (v : Volume) : Texts := fun p =>
  (v.tree.files p).bind fun bytes => (PyText.decodeUtf8 bytes).map PyText.universalNewlines

structure Calm (W : Workspace) (v : Volume) : Prop where
  faultless : ∀ n, W.fault n = false
  decodable : ∀ p bytes, v.tree.files p = some bytes → (PyText.decodeUtf8 bytes).isSome = true

def applyTo (current : Option PyText) : PatchOp → Except PatchFailure (Option PyText)
  | .createFile content =>
    match current with
    | some _ => .error .fileAlreadyExists
    | none => .ok (some content)
  | .deleteFile =>
    match current with
    | some _ => .ok none
    | none => .error .fileNotFound
  | .replaceRange startLine endLine content =>
    match current with
    | none => .error .fileNotFound
    | some text =>
      match applyReplaceRangeContent text startLine endLine content with
      | none => .error .rangeConflict
      | some updated => .ok (some updated)

inductive Applied where
  | texts (m : Texts)
  | refused (reason : PatchFailure) (patchId : Option Stripped)
  | raised

def applyPatch (W : Workspace) (dirs : Path → Bool) (state : Applied) (patch : Patch) : Applied :=
  match state with
  | .texts m =>
    match resolveWorkspaceTarget W patch.file.text with
    | none => .raised
    | some none => .refused .invalidPatch patch.givenId
    | some (some target) =>
      if dirs target then .refused .invalidPatch patch.givenId
      else
        match applyTo (m target) patch.op with
        | .error reason => .refused reason patch.givenId
        | .ok content => .texts (Function.update m target content)
  | stopped => stopped

def writeText (m : Texts) (write : Path × PyText) : Texts :=
  Function.update m write.1 (some write.2)

def deleteText (m : Texts) (p : Path) : Texts := Function.update m p none

def Plan.perform (plan : Plan) (m : Texts) : Texts :=
  plan.writes.foldl writeText (plan.deletes.foldl deleteText m)

/-- The entry of a path, by what was there before and what is there now. -/
def entryOf (p : Path) (before now : Option PyText) : Entry :=
  { path := p, originalExists := before.isSome, present := now.isSome, content := now }

/-- **An operation on an entry is the operation on what is there now.** -/
theorem applyOp_entryOf (p : Path) (before now : Option PyText) (op : PatchOp) :
    applyOp (entryOf p before now) op = (applyTo now op).map (entryOf p before) := by
  cases op with
  | createFile content => cases now <;> rfl
  | deleteFile => cases now <;> rfl
  | replaceRange startLine endLine content =>
    cases now with
    | none => rfl
    | some text =>
      simp only [applyOp, applyTo, entryOf]
      cases applyReplaceRangeContent text startLine endLine content <;> rfl

variable {p : Path}

theorem ensureEntry_calm (h : Calm W v) {virtual : OrderedMap Path Entry}
    (hget : virtual.get? p = none) : ∃ v', ensureEntry W virtual p v =
      (if v.tree.dirs p then .refused .invalidPatch
        else .entry (entryOf p (v.texts p) (v.texts p)), v') ∧ v'.tree = v.tree := by
  unfold ensureEntry Volume.pathExists Volume.isDir Volume.readText Volume.call
  simp only [hget, h.faultless, Bool.false_eq_true, if_false]
  cases hdir : v.tree.dirs p with
  | true =>
    have hpresent : v.tree.present p = true := by
      unfold FileTree.present
      rw [hdir, Bool.or_true]
    simp only [hpresent, hdir, if_true]
    exact ⟨_, rfl, rfl⟩
  | false =>
    cases hfile : v.tree.files p with
    | none =>
      have hpresent : v.tree.present p = false := by
        unfold FileTree.present
        rw [hfile, hdir]
        rfl
      have htext : v.texts p = none := by
        unfold Volume.texts
        rw [hfile]
        rfl
      rw [hpresent, htext]
      exact ⟨_, rfl, rfl⟩
    | some bytes =>
      have hpresent : v.tree.present p = true := present_of_files (by rw [hfile]; rfl)
      obtain ⟨text, htext⟩ := Option.isSome_iff_exists.1 (h.decodable p bytes hfile)
      have hread : v.texts p = some (PyText.universalNewlines text) := by
        unfold Volume.texts
        rw [hfile, Option.bind_some, htext]
        rfl
      simp only [hpresent, hdir, hfile, htext, hread, Bool.false_eq_true, if_false]
      exact ⟨_, rfl, rfl⟩

/-- The overlay of the map that patches have led to: what it has no entry for is as it was,
and where it has one no directory is. -/
structure Overlays (v₀ : Volume) (virtual : OrderedMap Path Entry) (m : Texts) : Prop where
  untouched : ∀ p, virtual.get? p = none → m p = v₀.texts p
  touched : ∀ p e, virtual.get? p = some e → e = entryOf p (v₀.texts p) (m p)
  clear : ∀ p e, virtual.get? p = some e → v₀.tree.dirs p = false

def Agrees (v₀ : Volume) : Planning × Volume → Applied → Prop
  | (.planned virtual, v), .texts m => Overlays v₀ virtual m ∧ v.tree = v₀.tree
  | (.refused reason patchId, _), .refused reason' patchId' => reason = reason' ∧ patchId = patchId'
  | (.raised, _), .raised => True
  | _, _ => False

theorem overlays_empty (v : Volume) : Overlays v .empty v.texts where
  untouched _ _ := rfl
  touched p e h := by cases h
  clear p e h := by cases h

theorem Overlays.set {v₀ : Volume} {virtual : OrderedMap Path Entry} {m : Texts}
    (h : Overlays v₀ virtual m) (hp : v₀.tree.dirs p = false)
    (content : Option PyText) :
    Overlays v₀ (virtual.set p (entryOf p (v₀.texts p) content)) (Function.update m p content) where
  untouched q hq := by
    rw [OrderedMap.get?_set] at hq
    by_cases hqp : q = p
    · rw [if_pos hqp] at hq
      cases hq
    · rw [if_neg hqp] at hq
      rw [Function.update_of_ne hqp]
      exact h.untouched q hq
  touched q e hq := by
    rw [OrderedMap.get?_set] at hq
    by_cases hqp : q = p
    · rw [if_pos hqp] at hq
      rw [hqp, Function.update_self]
      exact (Option.some.inj hq).symm
    · rw [if_neg hqp] at hq
      rw [Function.update_of_ne hqp]
      exact h.touched q e hq
  clear q e hq := by
    rw [OrderedMap.get?_set] at hq
    by_cases hqp : q = p
    · rw [hqp]
      exact hp
    · rw [if_neg hqp] at hq
      exact h.clear q e hq

theorem ensureEntry_overlay {v₀ : Volume} {virtual : OrderedMap Path Entry} {m : Texts}
    (hcalm : Calm W v₀) (h : Overlays v₀ virtual m) (htree : v.tree = v₀.tree) (p : Path) :
    ∃ v', ensureEntry W virtual p v =
      (if v₀.tree.dirs p then .refused .invalidPatch
        else .entry (entryOf p (v₀.texts p) (m p)), v') ∧ v'.tree = v₀.tree := by
  cases hget : virtual.get? p with
  | some e =>
    rw [ensureEntry_known hget, h.clear p e hget, ← h.touched p e hget]
    exact ⟨v, rfl, htree⟩
  | none =>
    have hv : Calm W v := ⟨hcalm.faultless, htree ▸ hcalm.decodable⟩
    have htexts : v.texts = v₀.texts := by
      unfold Volume.texts
      rw [htree]
    obtain ⟨v', hfound, hsame⟩ := ensureEntry_calm hv hget
    rw [hfound, h.untouched p hget, htexts, htree]
    exact ⟨v', rfl, hsame.trans htree⟩

variable {v₀ : Volume} {virtual : OrderedMap Path Entry} {m : Texts}

/-- **One patch, on the overlay and on the map.** -/
theorem agrees_planPatch (hcalm : Calm W v₀) {planning : Planning × Volume} {applied : Applied}
    (h : Agrees v₀ planning applied) (patch : Patch) :
    Agrees v₀ (planPatch W planning patch) (applyPatch W v₀.tree.dirs applied patch) := by
  obtain ⟨planning, v⟩ := planning
  cases planning with
  | raised =>
    cases applied with
    | raised => trivial
    | texts => exact h.elim
    | refused => exact h.elim
  | refused reason patchId =>
    cases applied with
    | refused => exact h
    | texts => exact h.elim
    | raised => exact h.elim
  | planned virtual =>
    cases applied with
    | refused => exact h.elim
    | raised => exact h.elim
    | texts m =>
      obtain ⟨hover, htree⟩ := h
      unfold planPatch applyPatch
      cases hresolve : resolveWorkspaceTarget W patch.file.text with
      | none => trivial
      | some found =>
        cases found with
        | none => exact ⟨rfl, rfl⟩
        | some target =>
          obtain ⟨v', hentry, htree'⟩ := ensureEntry_overlay hcalm hover htree target
          simp only [hentry]
          cases hdir : v₀.tree.dirs target with
          | true => exact ⟨rfl, rfl⟩
          | false =>
            simp only [Bool.false_eq_true, if_false, applyOp_entryOf]
            cases hop : applyTo (m target) patch.op with
            | error reason => exact ⟨rfl, rfl⟩
            | ok content => exact ⟨hover.set hdir content, htree'⟩

theorem agrees_run (hcalm : Calm W v₀) {planning : Planning × Volume} {applied : Applied}
    (h : Agrees v₀ planning applied) (patches : List Patch) :
    Agrees v₀ (patches.foldl (planPatch W) planning)
      (patches.foldl (applyPatch W v₀.tree.dirs) applied) := by
  induction patches generalizing planning applied with
  | nil => exact h
  | cons patch patches ih => exact ih (agrees_planPatch hcalm h patch)

def writesOf (entries : List Entry) : List (Path × PyText) :=
  entries.filterMap fun e => e.content.map fun content => (e.path, content)

def deletesOf (entries : List Entry) : List Path :=
  (entries.filter fun e => !e.present && e.originalExists).map Entry.path

theorem collectPlan_eq {entries : List Entry}
    (h : ∀ e ∈ entries, e.present = e.content.isSome) :
    collectPlan entries = some ⟨writesOf entries, deletesOf entries⟩ := by
  induction entries with
  | nil => rfl
  | cons e rest ih =>
    have hrest := ih fun e' he' => h e' (List.mem_cons_of_mem e he')
    have he := h e List.mem_cons_self
    unfold collectPlan
    rw [hrest]
    cases hcontent : e.content with
    | none =>
      have habsent : e.present = false := by rw [he, hcontent]; rfl
      simp only [habsent, writesOf, deletesOf, List.filterMap_cons, hcontent, Option.map_none,
        List.filter_cons, Bool.not_false, Bool.true_and, Bool.false_eq_true, if_false]
      split <;> rfl
    | some content =>
      have hpresent : e.present = true := by rw [he, hcontent]; rfl
      simp only [hpresent, writesOf, deletesOf, List.filterMap_cons, hcontent, Option.map_some,
        List.filter_cons, Bool.not_true, Bool.false_and, Bool.false_eq_true, if_false, if_true]

theorem foldl_delete_apply (ps : List Path) (m : Texts) (p : Path) :
    ps.foldl deleteText m p = if p ∈ ps then none else m p := by
  induction ps generalizing m with
  | nil => simp
  | cons q ps ih =>
    rw [List.foldl_cons, ih, deleteText, Function.update_apply]
    by_cases hq : p = q
    · simp [hq]
    · simp [hq]

theorem foldl_write_of_not_mem {writes : List (Path × PyText)}
    (hp : p ∉ writes.map Prod.fst) (m : Texts) :
    writes.foldl writeText m p = m p := by
  induction writes generalizing m with
  | nil => rfl
  | cons write writes ih =>
    rw [List.map_cons, List.mem_cons, not_or] at hp
    rw [List.foldl_cons, ih hp.2, writeText, Function.update_of_ne hp.1]

theorem foldl_write_of_mem {writes : List (Path × PyText)} (hnodup : (writes.map Prod.fst).Nodup) {content : PyText} (hp : (p, content) ∈ writes) (m : Texts) :
    writes.foldl writeText m p = some content := by
  induction writes generalizing m with
  | nil => cases hp
  | cons write writes ih =>
    rw [List.map_cons, List.nodup_cons] at hnodup
    rw [List.foldl_cons]
    rcases List.mem_cons.1 hp with rfl | hp
    · rw [foldl_write_of_not_mem hnodup.1, writeText, Function.update_self]
    · exact ih hnodup.2 hp _

theorem mem_writesOf {entries : List Entry} {content : PyText} :
    (p, content) ∈ writesOf entries ↔ ∃ e ∈ entries, e.path = p ∧ e.content = some content := by
  unfold writesOf
  simp only [List.mem_filterMap, Option.map_eq_some_iff, Prod.mk.injEq]
  constructor
  · rintro ⟨e, he, text, htext, hpath, rfl⟩
    exact ⟨e, he, hpath, htext⟩
  · rintro ⟨e, he, hpath, htext⟩
    exact ⟨e, he, content, htext, hpath, rfl⟩

theorem writesOf_paths (entries : List Entry) :
    ((writesOf entries).map Prod.fst).Sublist (entries.map Entry.path) := by
  induction entries with
  | nil => exact List.Sublist.slnil
  | cons e rest ih =>
    unfold writesOf at ih ⊢
    cases hcontent : e.content with
    | none =>
      simp only [List.filterMap_cons, hcontent, Option.map_none, List.map_cons]
      exact ih.cons e.path
    | some content =>
      simp only [List.filterMap_cons, hcontent, Option.map_some, List.map_cons]
      exact ih.cons_cons e.path

/-- **The writes and deletes of an overlay make the map.** -/
theorem Overlays.perform (h : Overlays v₀ virtual m) :
    Plan.perform ⟨writesOf virtual.values, deletesOf virtual.values⟩ v₀.texts = m := by
  have hpaths : virtual.values.map Entry.path = virtual.keys := by
    unfold OrderedMap.values OrderedMap.keys
    rw [List.map_map]
    refine List.map_congr_left fun entry hentry => ?_
    rw [Function.comp_apply, h.touched entry.1 entry.2 (OrderedMap.get?_eq_some.2 hentry)]
    rfl
  have hnodup : ((writesOf virtual.values).map Prod.fst).Nodup := by
    refine List.Nodup.sublist (writesOf_paths _) ?_
    rw [hpaths]
    exact virtual.nodup
  -- the entry of a path is the only one with that path
  have hentry : ∀ e ∈ virtual.values, virtual.get? e.path = some e := by
    intro e he
    obtain ⟨k, hk⟩ := OrderedMap.mem_values.1 he
    have hpath : e.path = k := by
      rw [h.touched k e hk]
      rfl
    rw [hpath]
    exact hk
  funext p
  unfold Plan.perform
  cases hget : virtual.get? p with
  | none =>
    have hnone : ∀ e ∈ virtual.values, e.path ≠ p := by
      rintro e he rfl
      rw [hentry e he] at hget
      cases hget
    have hwrite : p ∉ (writesOf virtual.values).map Prod.fst := by
      intro hmem
      obtain ⟨e, he, hpath⟩ := List.mem_map.1 ((writesOf_paths _).subset hmem)
      exact hnone e he hpath
    have hdelete : p ∉ deletesOf virtual.values := by
      intro hmem
      obtain ⟨e, he, hpath⟩ := List.mem_map.1 hmem
      exact hnone e (List.mem_filter.1 he).1 hpath
    rw [foldl_write_of_not_mem hwrite, foldl_delete_apply, if_neg hdelete]
    exact (h.untouched p hget).symm
  | some e =>
    have he := h.touched p e hget
    have hmem : e ∈ virtual.values := OrderedMap.mem_values.2 ⟨p, hget⟩
    cases hnow : m p with
    | some content =>
      have hwrite : (p, content) ∈ writesOf virtual.values := by
        refine mem_writesOf.2 ⟨e, hmem, ?_, ?_⟩
        · rw [he]
          rfl
        · rw [he, hnow]
          rfl
      exact foldl_write_of_mem hnodup hwrite _
    | none =>
      have hwrite : p ∉ (writesOf virtual.values).map Prod.fst := by
        intro hin
        obtain ⟨⟨q, content⟩, hwritten, rfl⟩ := List.mem_map.1 hin
        obtain ⟨e', he', hpath, hcontent⟩ := mem_writesOf.1 hwritten
        have hsame := hentry e' he'
        rw [hpath] at hsame
        have hboth : some e = some e' := hget.symm.trans hsame
        obtain rfl := Option.some.inj hboth
        rw [he, hnow] at hcontent
        cases hcontent
      rw [foldl_write_of_not_mem hwrite, foldl_delete_apply]
      by_cases hbefore : v₀.texts p = none
      · rw [hbefore, ite_self]
      · refine if_pos (List.mem_map.2 ⟨e, List.mem_filter.2 ⟨hmem, ?_⟩, ?_⟩)
        · rw [he, hnow]
          simpa [entryOf] using Option.isSome_iff_ne_none.2 hbefore
        · rw [he]
          rfl

/-- **Planning succeeds just when the patches can be applied one after another, and then its
writes and deletes lead to the same map**; else it fails with the reason and the id of the
first patch that cannot be applied. -/
theorem plan_is_sequential (patches : List Patch) (hcalm : Calm W v) :
    match patches.foldl (applyPatch W v.tree.dirs) (.texts v.texts) with
    | .texts m => ∃ plan, (buildAtomicPatchPlan W patches v).1 = .plan plan ∧
        plan.perform v.texts = m
    | .refused reason patchId =>
      (buildAtomicPatchPlan W patches v).1 = .refused reason patchId
    | .raised => (buildAtomicPatchPlan W patches v).1 = .raised := by
  have hagrees := agrees_run hcalm
    (show Agrees v (.planned .empty, v) (.texts v.texts) from ⟨overlays_empty v, rfl⟩) patches
  unfold buildAtomicPatchPlan
  generalize patches.foldl (applyPatch W v.tree.dirs) (.texts v.texts) = applied at hagrees ⊢
  generalize patches.foldl (planPatch W) (.planned .empty, v) = planning at hagrees ⊢
  obtain ⟨planning, v'⟩ := planning
  cases applied with
  | raised =>
    cases planning with
    | raised => rfl
    | refused => exact hagrees.elim
    | planned => exact hagrees.elim
  | refused reason patchId =>
    cases planning with
    | refused reason' patchId' =>
      obtain ⟨rfl, rfl⟩ := hagrees
      rfl
    | raised => exact hagrees.elim
    | planned => exact hagrees.elim
  | texts m =>
    cases planning with
    | raised => exact hagrees.elim
    | refused => exact hagrees.elim
    | planned virtual =>
      have hcontents : ∀ e ∈ virtual.values, e.present = e.content.isSome := by
        intro e he
        obtain ⟨p, hp⟩ := OrderedMap.mem_values.1 he
        rw [hagrees.1.touched p e hp]
        rfl
      refine ⟨⟨writesOf virtual.values, deletesOf virtual.values⟩, ?_, hagrees.1.perform⟩
      simp only [collectPlan_eq hcontents]

/-- Where the file has the line `x`: it is replaced and then deleted. -/
def replaceAndDelete : List Patch :=
  [{ smallPatch [] with op := .replaceRange 1 1 (lit "y") }, { smallPatch [] with op := .deleteFile }]

theorem small_calm : Calm (.small fun _ => false) (.small (some [0x78])) where
  faultless _ := rfl
  decodable p bytes h := by
    have hbytes : (if p = [lit "ws", lit "a.txt"] then some [0x78] else none) =
      some bytes := h
    split at hbytes
    · cases hbytes
      decide +kernel
    · cases hbytes

theorem small_sequential :
    ∃ m plan, replaceAndDelete.foldl
        (applyPatch (.small fun _ => false) (Volume.small (some [0x78])).tree.dirs)
        (.texts (Volume.small (some [0x78])).texts) = .texts m ∧
      (buildAtomicPatchPlan (.small fun _ => false) replaceAndDelete (.small (some [0x78]))).1 =
        .plan plan ∧
      plan.perform (Volume.small (some [0x78])).texts = m ∧
        m [lit "ws", lit "a.txt"] = none := by
  have hplan := plan_is_sequential replaceAndDelete small_calm
  have hlast : (match replaceAndDelete.foldl
        (applyPatch (.small fun _ => false) (Volume.small (some [0x78])).tree.dirs)
        (.texts (Volume.small (some [0x78])).texts) with
      | .texts m => (m [lit "ws", lit "a.txt"]).isNone
      | _ => false) = true := by
    decide +kernel
  cases happlied : replaceAndDelete.foldl
      (applyPatch (.small fun _ => false) (Volume.small (some [0x78])).tree.dirs)
      (.texts (Volume.small (some [0x78])).texts) with
  | texts m =>
    rw [happlied] at hplan hlast
    obtain ⟨plan, hbuilt, hperform⟩ := hplan
    exact ⟨m, plan, rfl, hbuilt, hperform, Option.isNone_iff_eq_none.1 hlast⟩
  | refused reason patchId =>
    rw [happlied] at hlast
    cases hlast
  | raised =>
    rw [happlied] at hlast
    cases hlast

end ClawHarder.Comms
