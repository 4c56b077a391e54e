import ClawHarder.Spec.FileStore
import ClawHarder.Proof.Snapshots

/-!
# The file store refines a finite map

A write goes through a sibling of its path, which may be another file. Where it is none,
the sandbox stays the map of what was last written, and the manifest its catalog.

* `store_refines`: **a run of clear calls refines the map.**
-/

namespace ClawHarder.FileStore

open PyText (lit codePoint)
open ClawHarder.Runtime (ResourcePath parseRelativeResourcePath tmpPath)
open ClawHarder.Transactions (parseCost)
open ClawHarder.Resources
open Effectful (Spec Reads)

variable {h : Host}

section Entries

variable {files : ResourcePath → Option Document} {entries : List PyValue} {p : ResourcePath}
  {path : PyText}

def IsEntry (v : PyValue) : Prop := ∃ members, v = .dict members

theorem hasPath_eq {v : PyValue} (hv : IsEntry v) (path : PyText) :
    hasPath path v = .ok (decide (entryPath v = some path)) := by
  obtain ⟨members, rfl⟩ := hv
  cases hget : PyValue.get? (lit "path") members with
  | none =>
    have hpath : entryPath (.dict members) = none := by simp only [entryPath, hget]
    rw [hpath]
    simp only [hasPath, hget, reduceCtorEq, decide_false]
  | some w =>
    cases w with
    | str t =>
      have hpath : entryPath (.dict members) = some t := by simp only [entryPath, hget]
      rw [hpath]
      simp only [hasPath, hget, Option.some.injEq]
    | _ =>
      have hpath : entryPath (.dict members) = none := by simp only [entryPath, hget]
      rw [hpath]
      simp only [hasPath, hget, reduceCtorEq, decide_false]

theorem existingEntry_eq (hall : ∀ v ∈ entries, IsEntry v) (path : PyText) :
    existingEntry path entries =
      .ok ((entries.find? fun v => entryPath v = some path).bind PyValue.asDict?) := by
  induction entries with
  | nil => rfl
  | cons v rest ih =>
    obtain ⟨hv, hrest⟩ := List.forall_mem_cons.1 hall
    unfold existingEntry
    rw [hasPath_eq hv, List.find?_cons]
    show (if decide (entryPath v = some path) = true then pure (PyValue.asDict? v)
      else existingEntry path rest) = _
    by_cases hpath : entryPath v = some path
    · rw [if_pos (decide_eq_true hpath)]
      simp only [hpath, decide_true, Option.bind_some]
      rfl
    · rw [if_neg (by simp [hpath]), ih hrest]
      simp only [hpath, decide_false]

theorem withoutEntry_eq (hall : ∀ v ∈ entries, IsEntry v) (path : PyText) :
    withoutEntry path entries = .ok (entries.filter fun v => entryPath v ≠ some path) := by
  induction entries with
  | nil => rfl
  | cons v rest ih =>
    obtain ⟨hv, hrest⟩ := List.forall_mem_cons.1 hall
    unfold withoutEntry
    rw [hasPath_eq hv, ih hrest, List.filter_cons]
    show Except.ok (if decide (entryPath v = some path) = true then _ else _) = _
    by_cases hpath : entryPath v = some path
    · rw [if_pos (decide_eq_true hpath), if_neg (by simp [hpath])]
    · rw [if_neg (by simp [hpath]), if_pos (by simp [hpath])]

theorem replaceEntry_eq (hall : ∀ v ∈ entries, IsEntry v) (path : PyText) (updated : PyValue) :
    replaceEntry path updated entries =
      .ok (entries.map fun v => if entryPath v = some path then updated else v) := by
  induction entries with
  | nil => rfl
  | cons v rest ih =>
    obtain ⟨hv, hrest⟩ := List.forall_mem_cons.1 hall
    unfold replaceEntry
    rw [hasPath_eq hv, ih hrest, List.map_cons]
    show Except.ok ((if decide (entryPath v = some path) = true then updated else v) :: _) = _
    by_cases hpath : entryPath v = some path
    · rw [if_pos (decide_eq_true hpath), if_pos hpath]
    · rw [if_neg (by simp [hpath]), if_neg hpath]

theorem entryPath_describes {file : Document} {v : PyValue} (hv : Describes h p file v) :
    entryPath v = some (joined p) := by
  obtain ⟨members, rfl, hpath, -⟩ := hv
  unfold entryPath
  simp only [hpath]

theorem Listed.isEntry (hl : Listed h files entries) : ∀ v ∈ entries, IsEntry v := by
  intro v hv
  obtain ⟨p, file, -, members, rfl, -⟩ := hl.sound v hv
  exact ⟨members, rfl⟩

theorem describes_new (p : ResourcePath) (raw : List UInt8) (now : PyText) :
    Describes h p (.bytes raw) (.dict (newEntry h (joined p) raw now)) := by
  have hget : ∀ key : String, key ∈ ["path", "hash", "size_bytes", "version"] →
      PyValue.get? (lit key) (newEntry h (joined p) raw now) =
        ((newEntry h (joined p) raw now).find? fun m => m.1 = lit key).map Prod.snd := by
    intro key hkey
    simp only [List.mem_cons, List.not_mem_nil, or_false] at hkey
    rcases hkey with rfl | rfl | rfl | rfl <;> rfl
  refine ⟨_, rfl, ?_, ?_, ?_, 1, ?_⟩
  all_goals
    rw [hget _ (by decide)]
    rfl

theorem describes_updated {members : PyDict} {old : Document} (raw : List UInt8) (now : PyText)
    (hold : Describes h p old (.dict members)) :
    ∃ updated, updatedEntry h raw now members = .ok updated ∧
      Describes h p (.bytes raw) (.dict updated) := by
  obtain ⟨_, heq, hpath, -, -, version, hversion⟩ := hold
  cases heq
  have hnext : nextVersion h members = .ok (.int (version + 1)) := by
    unfold nextVersion
    rw [hversion]
    rfl
  refine ⟨_, by unfold updatedEntry; rw [hnext]; rfl, _, rfl, ?_, ?_, ?_, version + 1, ?_⟩
  · rw [PyValue.get?_set, if_neg (by decide), PyValue.get?_set,
      if_neg (by decide), PyValue.get?_set, if_neg (by decide +kernel),
      PyValue.get?_set, if_neg (by decide), hpath]
  · rw [PyValue.get?_set, if_neg (by decide), PyValue.get?_set,
      if_neg (by decide), PyValue.get?_set, if_neg (by decide +kernel),
      PyValue.get?_set, if_pos rfl]
    rfl
  · rw [PyValue.get?_set, if_neg (by decide), PyValue.get?_set,
      if_neg (by decide), PyValue.get?_set, if_pos rfl]
    rfl
  · rw [PyValue.get?_set, if_neg (by decide), PyValue.get?_set, if_pos rfl]

def Names (files : ResourcePath → Option Document) (p : ResourcePath) : Prop :=
  ∀ q file, files q = some file → joined q = joined p → q = p

theorem Names.some (hn : Names files p) (q : ResourcePath) (file : Document)
    (hq : files q = some file) (heq : some (joined q) = some (joined p)) : q = p :=
  hn q file hq (Option.some.inj heq)

def named (p : ResourcePath) : Option PyText := some (joined p)

/-- **A write updates the catalog.** -/
theorem listed_write (hl : Listed h files entries) (hn : Names files p) (raw : List UInt8)
    (now : PyText) :
    ∃ entries', listed h (joined p) raw now entries = .ok entries' ∧
      Listed h (Function.update files p (some (.bytes raw))) entries' := by
  have hkey : ∀ p file v, Describes h p file v → entryPath v = some (joined p) :=
    fun _ _ _ => entryPath_describes
  unfold listed
  rw [existingEntry_eq hl.isEntry]
  cases hfind : entries.find? fun v => entryPath v = some (joined p) with
  | none =>
    have hfree : ∀ v ∈ entries, entryPath v ≠ some (joined p) := by
      intro v hv heq
      exact List.find?_eq_none.1 hfind v hv (decide_eq_true heq)
    exact ⟨_, rfl, hl.add named hkey (describes_new p raw now) hfree⟩
  | some v =>
    have hv : v ∈ entries := List.mem_of_find?_eq_some hfind
    have hfound := List.find?_some hfind
    have hpath : entryPath v = some (joined p) := of_decide_eq_true hfound
    obtain ⟨old, -, hold⟩ := hl.point_of_key named hkey hn.some hv hpath
    obtain ⟨members, rfl⟩ := hl.isEntry v hv
    obtain ⟨updated, hupdated, hnew⟩ := describes_updated raw now hold
    refine ⟨_, ?_, hl.replace named hkey hn.some hnew ⟨_, hv, hpath⟩⟩
    show (do
      let updated ← updatedEntry h raw now members
      replaceEntry (joined p) (.dict updated) entries) = _
    rw [hupdated]
    exact replaceEntry_eq hl.isEntry _ _

/-- **A delete takes the entry out.** -/
theorem listed_delete (hl : Listed h files entries) (hn : Names files p) :
    ∃ entries', withoutEntry (joined p) entries = .ok entries' ∧
      Listed h (Function.update files p none) entries' :=
  ⟨_, withoutEntry_eq hl.isEntry _, hl.remove named
    (fun _ _ _ => entryPath_describes) hn.some⟩

end Entries

section Good

variable {s : Session} {x x' : Root} {view : ResourcePath → Option PyText}
  {files : ResourcePath → Option Document} {p q : ResourcePath} {text : PyText}
  {raw : List UInt8} {now : PyText}

def Holds (file : Option Document) : Option PyText → Prop
  | none => file = none
  | some t => ∃ raw, PyText.encodeUtf8 t = some raw ∧ file = some (.bytes raw)

/-- A sandbox whose files hold a view, and in which nothing is in the manifest's way. -/
structure Stored (view : ResourcePath → Option PyText) (x : Root) : Prop where
  top : x.tree.dirs [] = true
  manifest : x.tree.dirs manifestPath = false
  temporary : x.tree.dirs (tmpPath manifestPath) = false
  holds : ∀ p, Holds (below x p) (view p)
  /-- the path of a file is the parse of its text -/
  splits : ∀ p, (below x p).isSome = true → (joined p).splitOn (codePoint '/') = p

def Lists (h : Host) (files : ResourcePath → Option Document) (x : Root) : Prop :=
  ∃ manifest entries, x.manifest = .ok manifest ∧
    PyValue.get? (lit "resources") manifest = some (.list entries) ∧ Listed h files entries

structure Good (h : Host) (s : Session) : Prop where
  stored : Stored s.view s.root
  lists : Lists h (below s.root) s.root

theorem Stored.names (hs : Stored view x) (hfiles : ∀ q, (files q).isSome = true →
    (below x q).isSome = true ∨ q = p) (hp : (joined p).splitOn (codePoint '/') = p) :
    Names files p := by
  intro q file hq heq
  rcases hfiles q (by rw [hq]; rfl) with hsome | hsame
  · rw [← hs.splits q hsome, heq, hp]
  · exact hsame

theorem holds_content {file : Option Document} {o : Option PyText} (hf : Holds file o) :
    (file.bind fun file => PyText.decodeUtf8 (file.raw h)) = o := by
  cases o with
  | none =>
    have hnone : file = none := hf
    rw [hnone]
    rfl
  | some t =>
    obtain ⟨raw, hraw, rfl⟩ := hf
    exact PyText.decodeUtf8_encodeUtf8 hraw

theorem dropLast_tmpPath (p : ResourcePath) : (tmpPath p).dropLast = p.dropLast := by
  induction p with
  | nil => rfl
  | cons a p ih =>
    cases p with
    | nil => rfl
    | cons b p =>
      have hne : tmpPath (b :: p) ≠ [] := by
        cases p with
        | nil => exact List.cons_ne_nil _ _
        | cons c p => exact List.cons_ne_nil _ _
      show (a :: tmpPath (b :: p)).dropLast = _
      rw [List.dropLast_cons_of_ne_nil hne, ih, List.dropLast_cons_of_ne_nil (List.cons_ne_nil _ _)]

theorem length_tmpPath (p : ResourcePath) : (tmpPath p).length = p.length := by
  induction p with
  | nil => rfl
  | cons a p ih =>
    cases p with
    | nil => rfl
    | cons b p => exact congrArg (· + 1) ih

theorem not_above (hp : p ≠ []) (hlen : q.length = p.length) : ¬ q <+: p.dropLast := by
  intro hpre
  have hle := hpre.length_le
  have hpos : 0 < p.length := List.length_pos_iff.2 hp
  rw [List.length_dropLast] at hle
  omega

/-! ### The manifest -/

theorem run_writeTop (htop : x.tree.dirs [] = true) {name : PyText}
    (hdir : x.tree.dirs [name] = false) (htmp : x.tree.dirs (tmpPath [name]) = false)
    (v : PyValue) :
    ∃ u, (writeDocument [name] v).run x = .ok () { x with tree := u } ∧ u.dirs = x.tree.dirs ∧
      ∀ q, u.files q = if q = [name] then some (.json v)
        else if q = tmpPath [name] then none else x.tree.files q := by
  have hroot : x.tree.files [] = none := x.tree.no_file [] htop
  obtain ⟨t, ht⟩ := DirTree.exists_mkdirs (t := x.tree) (p := []) fun q hq => by
    rw [List.prefix_nil.1 hq]
    exact hroot
  have htdirs : t.dirs = x.tree.dirs := by
    funext q
    rw [DirTree.dirs_mkdirs ht]
    by_cases hq : q = []
    · simp [hq, htop]
    · rw [decide_eq_false (fun hpre => hq (List.prefix_nil.1 hpre)), Bool.or_false]
  obtain ⟨u, hu⟩ := DirTree.exists_put (t := t) (p := tmpPath [name]) (.json v)
    (by rw [htdirs, htmp]) (by rw [htdirs]; exact htop)
  have hudirs : u.dirs = x.tree.dirs := (DirTree.dirs_put hu).trans htdirs
  have hstaged : u.files (tmpPath [name]) = some (.json v) := by
    rw [DirTree.files_put hu, if_pos rfl]
  obtain ⟨w, hw⟩ := DirTree.exists_rename (t := u) (p := tmpPath [name]) (q := [name])
    (by rw [hstaged]; rfl) (by rw [hudirs, hdir]) (by rw [hudirs]; exact htop)
  refine ⟨w, ?_, (DirTree.dirs_rename hw).trans hudirs, fun q => ?_⟩
  · unfold writeDocument writeText
    rw [Effectful.run_bind_of_ok (run_onTree_of_some ht)]
    rw [Effectful.run_bind_of_ok (run_onTree_of_some hu)]
    exact run_onTree_of_some hw
  · rw [DirTree.files_rename hw, hstaged]
    split
    · rfl
    · split
      · rfl
      · rename_i htmp
        rw [DirTree.files_put hu, if_neg htmp, DirTree.files_mkdirs ht]

theorem run_writeEntries (hs : Stored view x) (manifest : PyDict) {entries : List PyValue}
    (hl : Listed h (below x) entries) :
    ∃ x', (writeManifest (.dict (PyValue.set (lit "resources") (.list entries) manifest))).run x =
        .ok () x' ∧ Good h ⟨x', view⟩ := by
  obtain ⟨u, hrun, hdirs, hfiles⟩ := run_writeTop hs.top hs.manifest hs.temporary
    (.dict (PyValue.set (lit "resources") (.list entries) manifest))
  have hbelow : below { x with tree := u } = below x := by
    funext p
    have hfile : filesRoot ++ p ≠ manifestPath := by
      intro heq
      exact absurd (List.cons.inj heq).1 (by decide)
    have htmp : filesRoot ++ p ≠ tmpPath manifestPath := by
      intro heq
      exact absurd (List.cons.inj heq).1 (by decide)
    exact (hfiles _).trans ((if_neg hfile).trans (if_neg htmp))
  have hget : PyValue.get? (lit "resources")
      (PyValue.set (lit "resources") (.list entries) manifest) = some (.list entries) := by
    rw [PyValue.get?_set, if_pos rfl]
  have hmanifest : Root.manifest { x with tree := u } =
      .ok (PyValue.set (lit "resources") (.list entries) manifest) := by
    unfold Root.manifest
    have hfile : u.files manifestPath = some (.json (.dict
        (PyValue.set (lit "resources") (.list entries) manifest))) :=
      (hfiles manifestPath).trans (if_pos rfl)
    simp only [hfile]
    unfold withResources
    rw [if_pos (by rw [hget]; rfl)]
  refine ⟨_, hrun, ⟨?_, ?_, ?_, fun p => ?_, fun p hp => ?_⟩, ?_⟩
  · exact (congrFun hdirs _).trans hs.top
  · exact (congrFun hdirs _).trans hs.manifest
  · exact (congrFun hdirs _).trans hs.temporary
  · show Holds (below { x with tree := u } p) (view p)
    rw [hbelow]
    exact hs.holds p
  · refine hs.splits p ?_
    rw [← hbelow]
    exact hp
  · refine ⟨_, entries, hmanifest, hget, ?_⟩
    rw [hbelow]
    exact hl

theorem listAt_of_get {manifest : PyDict} {entries : List PyValue}
    (hget : PyValue.get? (lit "resources") manifest = some (.list entries)) :
    listAt (lit "resources") manifest = entries := by
  unfold listAt
  rw [hget]

theorem run_loadManifest_of_ok {manifest : PyDict} (hm : x.manifest = .ok manifest) :
    Resources.loadManifest.run x = .ok manifest x := by
  have hget : (get : RootM Root).run x = .ok x x := rfl
  unfold Resources.loadManifest
  rw [Effectful.run_bind_of_ok hget, hm]
  rfl

theorem run_lift_ok {α : Type} {a : α} : (lift (.ok a)).run x = .ok a x := rfl

/-- **A file that is there is listed.** -/
theorem run_listEntry (hs : Stored view x) (hl : Lists h files x) (hn : Names files p)
    (hbelow : below x = Function.update files p (some (.bytes raw))) (now : PyText) :
    ∃ x', (listEntry h (joined p) (filesRoot ++ p) now).run x = .ok () x' ∧ Good h ⟨x', view⟩ := by
  obtain ⟨manifest, entries, hm, hget, hentries⟩ := hl
  obtain ⟨entries', hlisted, hentries'⟩ := listed_write hentries hn raw now
  rw [← hbelow] at hentries'
  obtain ⟨x', hwrite, hgood⟩ := run_writeEntries hs manifest hentries'
  refine ⟨x', ?_, hgood⟩
  have hfile : x.tree.files (filesRoot ++ p) = some (.bytes raw) := by
    have hat := congrFun hbelow p
    rwa [Function.update_self] at hat
  have hread : (get : RootM Root).run x = .ok x x := rfl
  unfold listEntry
  rw [Effectful.run_bind_of_ok (run_loadManifest_of_ok hm), Effectful.run_bind_of_ok hread]
  simp only [hfile, listAt_of_get hget, Document.raw, hlisted]
  rw [Effectful.run_bind_of_ok run_lift_ok]
  exact hwrite

/-- **A file that is gone is not.** -/
theorem run_unlistEntry (hs : Stored view x) (hl : Lists h files x) (hn : Names files p)
    (hbelow : below x = Function.update files p none) :
    ∃ x', (unlistEntry (joined p)).run x = .ok () x' ∧ Good h ⟨x', view⟩ := by
  obtain ⟨manifest, entries, hm, hget, hentries⟩ := hl
  obtain ⟨entries', hlisted, hentries'⟩ := listed_delete hentries hn
  rw [← hbelow] at hentries'
  obtain ⟨x', hwrite, hgood⟩ := run_writeEntries hs manifest hentries'
  refine ⟨x', ?_, hgood⟩
  unfold unlistEntry
  rw [Effectful.run_bind_of_ok (run_loadManifest_of_ok hm)]
  simp only [listAt_of_get hget, hlisted]
  rw [Effectful.run_bind_of_ok run_lift_ok]
  exact hwrite

/-! ### Updates -/

theorem Good.of_budget (hg : Good h ⟨x, view⟩) (budget : Option Budget) :
    Good h ⟨{ x with budget := budget }, view⟩ :=
  ⟨⟨hg.stored.top, hg.stored.manifest, hg.stored.temporary, hg.stored.holds, hg.stored.splits⟩,
    hg.lists⟩

theorem Stored.update (hs : Stored view x) {dirs : ResourcePath → Bool}
    (hdirs : x'.tree.dirs = dirs) (htop : dirs [] = true) (hmanifest : dirs manifestPath = false)
    (htemporary : dirs (tmpPath manifestPath) = false) {file : Option Document}
    (hbelow : below x' = Function.update (below x) p file) {o : Option PyText}
    (hfile : Holds file o) (hsplit : (joined p).splitOn (codePoint '/') = p) :
    Stored (Function.update view p o) x' where
  top := by rw [hdirs, htop]
  manifest := by rw [hdirs, hmanifest]
  temporary := by rw [hdirs, htemporary]
  holds q := by
    rw [hbelow]
    by_cases hq : q = p
    · rw [hq, Function.update_self, Function.update_self]
      exact hfile
    · rw [Function.update_of_ne hq, Function.update_of_ne hq]
      exact hs.holds q
  splits q hq := by
    by_cases hqp : q = p
    · rw [hqp, hsplit]
    · rw [hbelow, Function.update_of_ne hqp] at hq
      exact hs.splits q hq

theorem not_above_files {name : PyText} (hname : name ≠ lit "files") (p : ResourcePath) :
    ¬ [name] <+: (filesRoot ++ p).dropLast := by
  intro hpre
  have hfull := hpre.trans (List.dropLast_prefix _)
  exact hname (List.cons_prefix_cons.1 hfull).1

variable {t : DirTree PyText Document}

theorem dirs_above_files {name : PyText}
    (hmk : x.tree.mkdirs (filesRoot ++ p).dropLast = some t) (hname : name ≠ lit "files") :
    t.dirs [name] = x.tree.dirs [name] := by
  rw [DirTree.dirs_mkdirs hmk, decide_eq_false (not_above_files hname p), Bool.or_false]

theorem Good.of_mkdirs (hg : Good h ⟨x, view⟩)
    (hmk : x.tree.mkdirs (filesRoot ++ p).dropLast = some t) :
    Good h ⟨{ x with tree := t }, view⟩ := by
  have hfiles : t.files = x.tree.files := DirTree.files_mkdirs hmk
  have hbelow : below { x with tree := t } = below x :=
    funext fun q => congrFun hfiles (filesRoot ++ q)
  refine ⟨⟨?_, ?_, ?_, fun q => ?_, fun q hq => ?_⟩, ?_⟩
  · show t.dirs [] = true
    rw [DirTree.dirs_mkdirs hmk, hg.stored.top, Bool.true_or]
  · exact (dirs_above_files hmk (by decide)).trans hg.stored.manifest
  · exact (dirs_above_files hmk (by decide)).trans hg.stored.temporary
  · show Holds (below { x with tree := t } q) (view q)
    rw [hbelow]
    exact hg.stored.holds q
  · refine hg.stored.splits q ?_
    show (below x q).isSome = true
    rw [← hbelow]
    exact hq
  · obtain ⟨manifest, entries, hm, hget, hl⟩ := hg.lists
    refine ⟨manifest, entries, ?_, hget, ?_⟩
    · rw [← hm]
      exact manifest_congr (congrFun hfiles manifestPath)
    · show Listed h (below { x with tree := t }) entries
      rw [hbelow]
      exact hl

theorem run_writeThroughTmp
    (hmk : x.tree.mkdirs (filesRoot ++ p).dropLast = some t)
    (hfree : x.tree.files (tmpPath (filesRoot ++ p)) = none)
    (htmp : x.tree.dirs (tmpPath (filesRoot ++ p)) = false)
    (hdir : x.tree.dirs (filesRoot ++ p) = false) (raw : List UInt8) :
    ∃ x', (writeThroughTmp (filesRoot ++ p) raw).run x = .ok () x' ∧ x'.tree.dirs = t.dirs ∧
      x'.manifest = x.manifest ∧
      below x' = Function.update (below x) p (some (.bytes raw)) := by
  have hne : filesRoot ++ p ≠ [] := List.cons_ne_nil _ _
  have hnew : ∀ q, q.length = (filesRoot ++ p).length → t.dirs q = x.tree.dirs q := by
    intro q hq
    rw [DirTree.dirs_mkdirs hmk, decide_eq_false (not_above hne hq), Bool.or_false]
  have hparent : t.dirs (filesRoot ++ p).dropLast = true := by
    rw [DirTree.dirs_mkdirs hmk, decide_eq_true (List.prefix_refl _), Bool.or_true]
  have htmp' : t.dirs (tmpPath (filesRoot ++ p)) = false :=
    (hnew _ (length_tmpPath _)).trans htmp
  obtain ⟨u, hu⟩ := DirTree.exists_put (t := t) (p := tmpPath (filesRoot ++ p))
    (Document.bytes raw) htmp' (by rw [dropLast_tmpPath]; exact hparent)
  have hudirs : u.dirs = t.dirs := DirTree.dirs_put hu
  have hstaged : u.files (tmpPath (filesRoot ++ p)) = some (.bytes raw) := by
    rw [DirTree.files_put hu, if_pos rfl]
  obtain ⟨w, hw⟩ := DirTree.exists_rename (t := u) (p := tmpPath (filesRoot ++ p))
    (q := filesRoot ++ p) (by rw [hstaged]; rfl)
    (by rw [hudirs, hnew _ rfl]; exact hdir) (by rw [hudirs]; exact hparent)
  have hfiles : ∀ q, w.files q = if q = filesRoot ++ p then some (.bytes raw)
      else x.tree.files q := by
    intro q
    rw [DirTree.files_rename hw, hstaged]
    split
    · rfl
    · split
      · rename_i heq
        rw [heq, hfree]
      · rename_i hq
        rw [DirTree.files_put hu, if_neg hq, DirTree.files_mkdirs hmk]
  refine ⟨{ x with tree := w }, ?_, (DirTree.dirs_rename hw).trans hudirs, ?_, funext fun q => ?_⟩
  · unfold writeThroughTmp
    rw [Effectful.run_bind_of_ok (run_onTree_of_some hmk)]
    rw [Effectful.run_bind_of_ok (run_onTree_of_some hu)]
    exact run_onTree_of_some hw
  · refine manifest_congr ((hfiles manifestPath).trans (if_neg ?_))
    intro heq
    exact absurd (List.cons.inj heq).1 (by decide)
  · show w.files (filesRoot ++ q) = _
    rw [hfiles]
    by_cases hq : q = p
    · rw [hq, if_pos rfl, Function.update_self]
    · rw [if_neg fun heq => hq (List.append_cancel_left heq), Function.update_of_ne hq]
      rfl

theorem run_unlink {file : Document} (hfile : below x p = some file) :
    ∃ x', (onTree fun t => t.unlink (filesRoot ++ p)).run x = .ok () x' ∧
      x'.tree.dirs = x.tree.dirs ∧ x'.manifest = x.manifest ∧
      below x' = Function.update (below x) p none := by
  obtain ⟨u, hu⟩ := DirTree.exists_unlink (t := x.tree) (p := filesRoot ++ p)
    (by rw [show x.tree.files (filesRoot ++ p) = some file from hfile]; rfl)
  refine ⟨{ x with tree := u }, run_onTree_of_some hu, DirTree.dirs_unlink hu, ?_,
    funext fun q => ?_⟩
  · refine manifest_congr ((DirTree.files_unlink hu manifestPath).trans (if_neg ?_))
    intro heq
    exact absurd (List.cons.inj heq).1 (by decide)
  · show u.files (filesRoot ++ q) = _
    rw [DirTree.files_unlink hu]
    by_cases hq : q = p
    · rw [hq, if_pos rfl, Function.update_self]
    · rw [if_neg fun heq => hq (List.append_cancel_left heq), Function.update_of_ne hq]
      rfl

/-! ### Operations -/

variable {α : Type} {k : RootM α}

def Closes (k : RootM α) : Prop := ∀ x, ∃ a budget, k.run x = .ok a { x with budget := budget }

/-- **What the operations that write come to.** -/
theorem spec_store (hg : Good h s) (hsplit : (joined p).splitOn (codePoint '/') = p)
    (hraw : PyText.encodeUtf8 text = some raw)
    (hclear : (s.root.tree.mkdirs (filesRoot ++ p).dropLast).isSome = true →
      s.root.tree.dirs (tmpPath (filesRoot ++ p)) = true ∨
        (s.root.tree.files (tmpPath (filesRoot ++ p)) = none ∧
          s.root.tree.dirs (filesRoot ++ p) = false))
    (now : PyText) (hk : Closes k) :
    Spec (fun x => x = s.root) (do
        writeThroughTmp (filesRoot ++ p) raw
        listEntry h (joined p) (filesRoot ++ p) now
        k)
      (fun _ x => Good h ⟨x, Function.update s.view p (some text)⟩)
      (fun _ x => Good h ⟨x, s.view⟩) := by
  intro x hx
  rw [hx]
  cases hmk : s.root.tree.mkdirs (filesRoot ++ p).dropLast with
  | none =>
    have hrun : (writeThroughTmp (filesRoot ++ p) raw).run s.root =
        .error (.fault .osError) s.root :=
      Effectful.run_bind_of_error (run_onTree_of_none hmk)
    rw [Effectful.run_bind_of_error hrun]
    exact hg
  | some t =>
    have hgood' := Good.of_mkdirs hg hmk
    cases htmp : s.root.tree.dirs (tmpPath (filesRoot ++ p)) with
    | true =>
      -- the directory in the way: nothing is written
      have hput : t.put (tmpPath (filesRoot ++ p)) (.bytes raw) = none := by
        refine DirTree.put_of_dir ?_
        rw [DirTree.dirs_mkdirs hmk, htmp, Bool.true_or]
      have hrun : (writeThroughTmp (filesRoot ++ p) raw).run s.root =
          .error (.fault .osError) { s.root with tree := t } := by
        unfold writeThroughTmp
        rw [Effectful.run_bind_of_ok (run_onTree_of_some hmk)]
        exact Effectful.run_bind_of_error (run_onTree_of_none hput)
      rw [Effectful.run_bind_of_error hrun]
      exact hgood'
    | false =>
      obtain ⟨hfree, hdir⟩ := (hclear (by rw [hmk]; rfl)).resolve_left (by rw [htmp]; simp)
      obtain ⟨x₁, hrun, hdirs, hmanifest, hbelow⟩ :=
        run_writeThroughTmp hmk hfree htmp hdir raw
      have hstored := hg.stored.update hdirs hgood'.stored.top hgood'.stored.manifest
        hgood'.stored.temporary hbelow (o := some text) ⟨raw, hraw, rfl⟩ hsplit
      have hlists : Lists h (below s.root) x₁ := by
        obtain ⟨manifest, entries, hm, hrest⟩ := hg.lists
        exact ⟨manifest, entries, hmanifest.trans hm, hrest⟩
      have hnames : Names (below s.root) p := hg.stored.names (fun _ hq => Or.inl hq) hsplit
      obtain ⟨x₂, hlist, hgood⟩ := run_listEntry hstored hlists hnames hbelow now
      obtain ⟨a, budget, hclose⟩ := hk x₂
      rw [Effectful.run_bind_of_ok hrun, Effectful.run_bind_of_ok hlist, hclose]
      exact hgood.of_budget budget

theorem spec_unlist (hg : Good h s) (hsplit : (joined p).splitOn (codePoint '/') = p)
    (hdirs : x.tree.dirs = s.root.tree.dirs) (hmanifest : x.manifest = s.root.manifest)
    (hbelow : below x = Function.update (below s.root) p none) (hk : Closes k) :
    Spec (fun y => y = x) (do
        unlistEntry (joined p)
        k)
      (fun _ x => Good h ⟨x, Function.update s.view p none⟩)
      (fun _ x => Good h ⟨x, s.view⟩) := by
  intro y hy
  rw [hy]
  have hstored := hg.stored.update hdirs hg.stored.top hg.stored.manifest hg.stored.temporary
    hbelow (o := none) rfl hsplit
  have hlists : Lists h (below s.root) x := by
    obtain ⟨manifest, entries, hm, hrest⟩ := hg.lists
    exact ⟨manifest, entries, hmanifest.trans hm, hrest⟩
  have hnames : Names (below s.root) p := hg.stored.names (fun _ hq => Or.inl hq) hsplit
  obtain ⟨x₂, hunlist, hgood⟩ := run_unlistEntry hstored hlists hnames hbelow
  obtain ⟨a, budget, hclose⟩ := hk x₂
  rw [Effectful.run_bind_of_ok hunlist, hclose]
  exact hgood.of_budget budget

theorem spec_unstore (hg : Good h s) (hsplit : (joined p).splitOn (codePoint '/') = p)
    {file : Document} (hfile : below s.root p = some file) (hk : Closes k) :
    Spec (fun x => x = s.root) (do
        onTree fun t => t.unlink (filesRoot ++ p)
        unlistEntry (joined p)
        k)
      (fun _ x => Good h ⟨x, Function.update s.view p none⟩)
      (fun _ x => Good h ⟨x, s.view⟩) := by
  intro x hx
  rw [hx]
  obtain ⟨x₁, hunlink, hdirs, hmanifest, hbelow⟩ := run_unlink hfile
  rw [Effectful.run_bind_of_ok hunlink]
  exact spec_unlist hg hsplit hdirs hmanifest hbelow hk x₁ rfl

/-! ### Calls -/

theorem parse_segments {path normalized : PyText}
    (hparse : parseRelativeResourcePath path = .ok (normalized, p)) :
    normalized = joined p ∧ (joined p).splitOn (codePoint '/') = p ∧ segments path = p := by
  have hsegments : segments path = p := by
    unfold segments
    rw [hparse]
  unfold parseRelativeResourcePath at hparse
  simp only at hparse
  split at hparse
  · cases hparse
  · split at hparse
    · cases hparse
    · cases hparse
      have hjoin : ∀ t : PyText, joined (t.splitOn (codePoint '/')) = t :=
        fun _ => List.intercalate_splitOn (codePoint '/')
      refine ⟨(hjoin _).symm, ?_, hsegments⟩
      rw [hjoin]

theorem run_resolve {path normalized : PyText} {P : ResourcePath}
    (hrun : (resolveSandboxFilePath path).run x = .ok (normalized, P) x') :
    ∃ p, parseRelativeResourcePath path = .ok (normalized, p) ∧ P = filesRoot ++ p := by
  obtain ⟨⟨n, p⟩, x₁, hlift, hpure⟩ := Effectful.run_bind_ok hrun
  obtain ⟨hparse, -⟩ := run_lift hlift
  cases hpure
  unfold ofFault at hparse
  split at hparse
  · rename_i heq
    cases hparse
    exact ⟨_, heq, rfl⟩
  · cases hparse

variable {cost : ℚ}

theorem run_parseCost {cost' : ℚ}
    (hrun : (lift (ofFault (parseCost cost))).run x = .ok cost' x') : 0 ≤ cost ∧ cost' = cost := by
  obtain ⟨hparse, -⟩ := run_lift hrun
  unfold parseCost at hparse
  split at hparse
  · cases hparse
  · rename_i hcost
    cases hparse
    exact ⟨not_lt.1 hcost, rfl⟩

theorem run_checkBudget {kind : BudgetKind} {a : Unit}
    (hrun : (checkBudget kind cost).run x = .ok a x') : Covers x kind cost := by
  obtain ⟨_, _, hget, hrest⟩ := Effectful.run_bind_ok hrun
  cases hget
  split at hrest
  · rename_i hcovers
    exact hcovers
  · cases hrest

theorem run_encode {content : PyText} (hrun : (encode content).run x = .ok raw x') :
    PyText.encodeUtf8 content = some raw := by
  unfold encode at hrun
  split at hrun
  · cases hrun
  · rename_i heq
    cases hrun
    exact heq

variable {Q : α → Root → Prop}

theorem spec_resolve {path : PyText} {f : PyText × ResourcePath → RootM α}
    (hg : Good h s)
    (hf : ∀ p, parseRelativeResourcePath path = .ok (joined p, p) → segments path = p →
      (joined p).splitOn (codePoint '/') = p →
      Spec (fun x => x = s.root) (f (joined p, filesRoot ++ p)) Q
        (fun _ x => Good h ⟨x, s.view⟩)) :
    Spec (fun x => x = s.root) (resolveSandboxFilePath path >>= f) Q
      (fun _ x => Good h ⟨x, s.view⟩) := by
  refine Effectful.spec_reads_bind (reads_resolve path) (fun _ => hg) fun r hresolve => ?_
  obtain ⟨normalized, P⟩ := r
  obtain ⟨p, hparse, rfl⟩ := run_resolve hresolve
  obtain ⟨hnormal, hsplit, hsegments⟩ := parse_segments hparse
  rw [hnormal] at hparse ⊢
  exact hf p hparse hsegments hsplit

theorem spec_cost {f : ℚ → RootM α} (hg : Good h s)
    (hf : 0 ≤ cost → Spec (fun x => x = s.root) (f cost) Q (fun _ x => Good h ⟨x, s.view⟩)) :
    Spec (fun x => x = s.root) (lift (ofFault (parseCost cost)) >>= f) Q
      (fun _ x => Good h ⟨x, s.view⟩) := by
  refine Effectful.spec_reads_bind (reads_lift _) (fun _ => hg) fun cost' hcost => ?_
  obtain ⟨hnonneg, rfl⟩ := run_parseCost hcost
  exact hf hnonneg

theorem spec_budget {kind : BudgetKind} {f : Unit → RootM α}
    (hg : Good h s)
    (hf : Covers s.root kind cost →
      Spec (fun x => x = s.root) (f ()) Q (fun _ x => Good h ⟨x, s.view⟩)) :
    Spec (fun x => x = s.root) (checkBudget kind cost >>= f) Q
      (fun _ x => Good h ⟨x, s.view⟩) := by
  refine Effectful.spec_reads_bind (reads_checkBudget _ _) (fun _ => hg) fun _ hbudget => ?_
  exact hf (run_checkBudget hbudget)

theorem closes_deduct {β : Type} (kind : BudgetKind) (cost : ℚ) (b : β) :
    Closes (do
      deductBudget kind cost
      pure b) := fun _ => ⟨b, _, rfl⟩

theorem clear_checked {call : StoreCall} (hc : Clear s call) {normalized : PyText}
    (hparse : parseRelativeResourcePath call.path = .ok (normalized, p))
    (hsegments : segments call.path = p) (hcost : 0 ≤ call.cost)
    (hcovers : Covers s.root .fileWrites call.cost) (hcontent : call.content = some text)
    (hraw : PyText.encodeUtf8 text = some raw)
    (hmk : (s.root.tree.mkdirs (filesRoot ++ p).dropLast).isSome = true) :
    s.root.tree.dirs (tmpPath (filesRoot ++ p)) = true ∨
      (s.root.tree.files (tmpPath (filesRoot ++ p)) = none ∧
        s.root.tree.dirs (filesRoot ++ p) = false) := by
  have hstages : Stages s.root call := by
    refine ⟨⟨normalized, ?_⟩, hcost, hcovers, ?_, ?_⟩
    · rw [hsegments]
      exact hparse
    · rw [hcontent, Option.bind_some, hraw]
      rfl
    · rw [hsegments]
      exact hmk
  have hclear := hc hstages
  rwa [hsegments] at hclear

theorem spec_writeFile {now path content : PyText} (hg : Good h s)
    (hc : Clear s (.writeFile cost now path content)) :
    Spec (fun x => x = s.root) (Resources.writeFile h cost now path content)
      (fun _ x => Good h ⟨x, Function.update s.view (segments path) (some content)⟩)
      (fun _ x => Good h ⟨x, s.view⟩) := by
  unfold Resources.writeFile
  refine spec_resolve hg fun p hparse hsegments hsplit => ?_
  refine spec_cost hg fun hcost => spec_budget hg fun hcovers => ?_
  refine Effectful.spec_reads_bind (reads_readPrevious _) (fun _ => hg) fun previous _ => ?_
  refine Effectful.spec_reads_bind (reads_encode _) (fun _ => hg) fun raw hencode => ?_
  have hraw := run_encode hencode
  have hclear := clear_checked hc hparse hsegments hcost hcovers rfl hraw
  rw [hsegments]
  exact spec_store hg hsplit hraw hclear now (closes_deduct _ _ _)

theorem spec_rollbackDeleteFile {now path : PyText} {previous : Option PyText}
    (hg : Good h s) (hc : Clear s (.rollbackDeleteFile cost now path previous)) :
    Spec (fun x => x = s.root) (Resources.rollbackDeleteFile h cost now path previous)
      (fun _ x => Good h ⟨x, Function.update s.view (segments path) previous⟩)
      (fun _ x => Good h ⟨x, s.view⟩) := by
  unfold Resources.rollbackDeleteFile
  refine spec_resolve hg fun p hparse hsegments hsplit => ?_
  refine spec_cost hg fun hcost => spec_budget hg fun hcovers => ?_
  cases previous with
  | none => exact Effectful.spec_throw fun x hx => hx ▸ hg
  | some text =>
    refine Effectful.spec_reads_bind (reads_encode _) (fun _ => hg) fun raw hencode => ?_
    have hraw := run_encode hencode
    have hclear := clear_checked hc hparse hsegments hcost hcovers rfl hraw
    rw [hsegments]
    exact spec_store hg hsplit hraw hclear now fun _ => ⟨_, _, rfl⟩

theorem spec_rollbackWriteFile {now path : PyText} {previous : Option PyText}
    {existed : Bool} (hg : Good h s)
    (hc : Clear s (.rollbackWriteFile cost now path previous existed)) :
    Spec (fun x => x = s.root) (Resources.rollbackWriteFile h cost now path previous existed)
      (fun _ x => Good h ⟨x,
        Function.update s.view (segments path) (if existed then previous else none)⟩)
      (fun _ x => Good h ⟨x, s.view⟩) := by
  unfold Resources.rollbackWriteFile
  refine spec_resolve hg fun p hparse hsegments hsplit => ?_
  refine spec_cost hg fun hcost => spec_budget hg fun hcovers => ?_
  rw [hsegments]
  -- a file to put back
  have hput : ∀ text, (if existed then previous else none) = some text →
      Spec (fun x => x = s.root) (do
          let raw ← encode text
          writeThroughTmp (filesRoot ++ p) raw
          listEntry h (joined p) (filesRoot ++ p) now
          deductBudget .fileWrites cost)
        (fun _ x => Good h ⟨x, Function.update s.view p (some text)⟩)
        (fun _ x => Good h ⟨x, s.view⟩) := by
    intro text htext
    refine Effectful.spec_reads_bind (reads_encode _) (fun _ => hg) fun raw hencode => ?_
    have hraw := run_encode hencode
    have hclear := clear_checked hc hparse hsegments hcost hcovers htext hraw
    exact spec_store hg hsplit hraw hclear now fun _ => ⟨_, _, rfl⟩
  -- a file to remove, if it is there
  have hremove : Spec (fun x => x = s.root) (do
        unlinkPresent (filesRoot ++ p)
        unlistEntry (joined p)
        deductBudget .fileWrites cost)
      (fun _ x => Good h ⟨x, Function.update s.view p none⟩)
      (fun _ x => Good h ⟨x, s.view⟩) := by
    intro x hx
    rw [hx]
    have hread : (get : RootM Root).run s.root = .ok s.root s.root := rfl
    cases hpresent : s.root.tree.present (filesRoot ++ p) with
    | false =>
      have hskip : (unlinkPresent (filesRoot ++ p)).run s.root = .ok () s.root := by
        unfold unlinkPresent
        rw [Effectful.run_bind_of_ok hread, hpresent]
        rfl
      have hnone : below s.root p = none := by
        have habove := s.root.tree.files_below hpresent []
        rwa [List.append_nil] at habove
      have hsame : below s.root = Function.update (below s.root) p none := by
        rw [← hnone, Function.update_eq_self]
      rw [Effectful.run_bind_of_ok hskip]
      exact spec_unlist hg hsplit rfl rfl hsame (fun _ => ⟨_, _, rfl⟩) s.root rfl
    | true =>
      cases hfile : below s.root p with
      | none =>
        have hunlink : (onTree fun t => t.unlink (filesRoot ++ p)).run s.root =
            .error (.fault .osError) s.root :=
          run_onTree_of_none (DirTree.unlink_of_none hfile)
        have hfail : (unlinkPresent (filesRoot ++ p)).run s.root =
            .error (.fault .osError) s.root := by
          unfold unlinkPresent
          rw [Effectful.run_bind_of_ok hread, hpresent]
          exact hunlink
        rw [Effectful.run_bind_of_error hfail]
        exact hg
      | some file =>
        have hunlink : (unlinkPresent (filesRoot ++ p)).run s.root =
            (onTree fun t => t.unlink (filesRoot ++ p)).run s.root := by
          unfold unlinkPresent
          rw [Effectful.run_bind_of_ok hread, hpresent]
          rfl
        rw [EStateM.run_bind, hunlink, ← EStateM.run_bind]
        exact spec_unstore hg hsplit hfile (fun _ => ⟨_, _, rfl⟩) s.root rfl
  unfold putBack
  cases existed with
  | false =>
    simp only [bind_assoc]
    exact hremove
  | true =>
    cases previous with
    | none =>
      simp only [bind_assoc]
      exact hremove
    | some text =>
      simp only [bind_assoc]
      exact hput text rfl

theorem spec_deleteFile {path : PyText} (hg : Good h s) :
    Spec (fun x => x = s.root) (Resources.deleteFile h cost path)
      (fun _ x => Good h ⟨x, Function.update s.view (segments path) none⟩)
      (fun _ x => Good h ⟨x, s.view⟩) := by
  unfold Resources.deleteFile
  refine spec_resolve hg fun p hparse hsegments hsplit => ?_
  refine spec_cost hg fun hcost => spec_budget hg fun hcovers => ?_
  rw [hsegments]
  refine Effectful.spec_get fun r hr => ?_
  rw [hr]
  refine Effectful.spec_ite (fun hpresent => ?_) fun hpresent => ?_
  · unfold deletePresent
    refine Effectful.spec_get fun r hr => ?_
    rw [hr]
    refine Effectful.spec_ite (fun _ => Effectful.spec_throw fun x hx => hx ▸ hg) fun hdir => ?_
    refine Effectful.spec_reads_bind (reads_readPrevious _) (fun _ => hg) fun previous _ => ?_
    cases hfile : below s.root p with
    | none =>
      unfold DirTree.present FileTree.present at hpresent
      rw [show s.root.tree.files (filesRoot ++ p) = none from hfile] at hpresent
      exact absurd hpresent hdir
    | some file => exact spec_unstore hg hsplit hfile (closes_deduct _ _ _)
  · have hnone : below s.root p = none := by
      have habove := s.root.tree.files_below (Bool.eq_false_iff.2 hpresent) []
      rwa [List.append_nil] at habove
    have hview : s.view p = none := by
      have hholds := hg.stored.holds p
      rw [hnone] at hholds
      cases hp : s.view p with
      | none => rfl
      | some t =>
        rw [hp] at hholds
        obtain ⟨raw, -, hraw⟩ := hholds
        cases hraw
    have hsame : Function.update s.view p none = s.view := by
      rw [← hview, Function.update_eq_self]
    refine Effectful.spec_pure fun x hx => ?_
    rw [hx]
    show Good h ⟨s.root, Function.update s.view p none⟩
    rw [hsame]
    exact hg

/-- **A clear call keeps the invariant.** -/
theorem good_step {call : StoreCall} (hg : Good h s) (hc : Clear s call) :
    Good h (step h s call) := by
  have hspec : Spec (fun x => x = s.root) (call.perform h)
      (fun _ x => Good h ⟨x, Function.update s.view (segments call.path) call.content⟩)
      (fun _ x => Good h ⟨x, s.view⟩) := by
    cases call with
    | writeFile cost now path content =>
      exact Effectful.spec_bind (spec_writeFile hg hc) fun _ => Effectful.spec_pure fun _ hx => hx
    | rollbackWriteFile cost now path previous existed => exact spec_rollbackWriteFile hg hc
    | deleteFile cost path =>
      exact Effectful.spec_bind (spec_deleteFile hg) fun _ => Effectful.spec_pure fun _ hx => hx
    | rollbackDeleteFile cost now path previous => exact spec_rollbackDeleteFile hg hc
  have hrun := hspec s.root rfl
  unfold step
  split
  · rename_i heq
    rw [heq] at hrun
    exact hrun
  · rename_i heq
    rw [heq] at hrun
    exact hrun

end Good

section Refinement

variable {s : Session} {x : Root} {budget : Option Budget} {calls : List StoreCall}

theorem view_nil (hg : Good h s) : s.view [] = none := by
  have hholds := hg.stored.holds []
  cases hv : s.view [] with
  | none => rfl
  | some t =>
    rw [hv] at hholds
    obtain ⟨raw, -, hraw⟩ := hholds
    have hsplit := hg.stored.splits [] (by rw [hraw]; rfl)
    exact absurd hsplit (by decide)

theorem result_readFile {cost : ℚ} (hcost : 0 ≤ cost) (hcovers : Covers x .fileReads cost)
    (path : PyText) :
    (Effectful.result (readFile h cost path) x).map ReadFileResult.content =
      match parseRelativeResourcePath path with
      | .ok (_, p) => content h x p
      | .error _ => none := by
  have hread : (get : RootM Root).run x = .ok x x := rfl
  cases hparse : parseRelativeResourcePath path with
  | error e =>
    have hresolve : (resolveSandboxFilePath path).run x = .error (.fault e) x := by
      unfold resolveSandboxFilePath
      rw [hparse]
      rfl
    unfold Effectful.result readFile
    rw [Effectful.run_bind_of_error hresolve]
    rfl
  | ok r =>
    obtain ⟨normalized, p⟩ := r
    have hresolve : (resolveSandboxFilePath path).run x = .ok (normalized, filesRoot ++ p) x := by
      unfold resolveSandboxFilePath
      rw [hparse]
      rfl
    have hparseCost : (lift (ofFault (parseCost cost))).run x = .ok cost x := by
      unfold parseCost
      rw [if_neg (not_lt.2 hcost)]
      rfl
    have hcheck : (checkBudget .fileReads cost).run x = .ok () x := by
      unfold checkBudget
      rw [Effectful.run_bind_of_ok hread]
      unfold Covers at hcovers
      rw [if_pos hcovers]
      rfl
    unfold Effectful.result readFile
    rw [Effectful.run_bind_of_ok hresolve]
    simp only
    rw [Effectful.run_bind_of_ok hparseCost, Effectful.run_bind_of_ok hcheck,
      Effectful.run_bind_of_ok hread]
    unfold content below
    cases x.tree.files (filesRoot ++ p) with
    | none =>
      simp only [Option.bind_none]
      cases x.tree.dirs (filesRoot ++ p) with
      | true => rfl
      | false => rfl
    | some file =>
      simp only [Option.bind_some]
      cases PyText.decodeUtf8 (file.raw h) with
      | none => rfl
      | some t => rfl

theorem refined_of_good (hg : Good h s) : Refined h s where
  content p := holds_content (hg.stored.holds p)
  reads cost path hcost hcovers := by
    rw [result_readFile hcost hcovers]
    unfold segments
    cases parseRelativeResourcePath path with
    | error e => exact (view_nil hg).symm
    | ok r => exact holds_content (hg.stored.holds r.2)
  manifest := by
    obtain ⟨manifest, entries, hm, hget, hl⟩ := hg.lists
    refine ⟨manifest, hm, ?_⟩
    rw [listAt_of_get hget]
    exact hl

theorem good_fresh (h : Host) (budget : Option Budget) : Good h (fresh h budget) := by
  obtain ⟨t, ht⟩ := DirTree.exists_mkdirs (t := blank.tree) (p := []) fun _ _ => rfl
  have hdirs : ∀ q, t.dirs q = decide (q <+: []) := fun q => DirTree.dirs_mkdirs ht q
  have hfiles : t.files = fun _ => none := DirTree.files_mkdirs ht
  have hdir : ∀ name : PyText, t.dirs [name] = false := by
    intro name
    rw [hdirs]
    exact decide_eq_false fun hpre => List.cons_ne_nil _ _ (List.prefix_nil.1 hpre)
  have htop : t.dirs [] = true := by
    rw [hdirs]
    exact decide_eq_true (List.prefix_refl [])
  -- the memory is written
  obtain ⟨u, hrun, hudirs, hufiles⟩ := run_writeTop (x := ⟨t, budget⟩) htop
    (hdir (lit "memory.json")) (hdir (lit "memory.json" ++ lit ".tmp")) (.dict emptyMemory)
  have hcreated : created h budget = ⟨u, budget⟩ := by
    have hpresent : t.present memoryPath = false := by
      unfold DirTree.present FileTree.present
      rw [hfiles]
      exact hdir _
    have hensure : (ensureMemory h).run ⟨t, budget⟩ = .ok () ⟨u, budget⟩ := by
      have hread : (get : RootM Root).run ⟨t, budget⟩ = .ok ⟨t, budget⟩ ⟨t, budget⟩ := rfl
      unfold ensureMemory
      rw [Effectful.run_bind_of_ok hread, hpresent]
      exact hrun
    have hbudget : (modify fun s : Root => { s with budget := budget } : RootM Unit).run blank =
        .ok () ⟨blank.tree, budget⟩ := rfl
    have hmkdirs : (onTree fun t => t.mkdirs []).run ⟨blank.tree, budget⟩ = .ok () ⟨t, budget⟩ :=
      run_onTree_of_some ht
    refine Effectful.final_of_run (a := ()) ?_
    unfold openSandbox
    rw [Effectful.run_bind_of_ok hbudget, Effectful.run_bind_of_ok hmkdirs]
    exact hensure
  have hnone : ∀ q, q ≠ memoryPath → u.files q = none := by
    intro q hq
    refine (hufiles q).trans ((if_neg hq).trans ?_)
    split
    · rfl
    · exact congrFun hfiles q
  have hbelow : below ⟨u, budget⟩ = fun _ => none := by
    funext p
    refine hnone _ fun heq => ?_
    exact absurd (List.cons.inj heq).1 (by decide)
  unfold fresh
  rw [hcreated]
  refine ⟨⟨?_, ?_, ?_, fun p => ?_, fun p hp => ?_⟩, emptyManifest, [], ?_, ?_, ?_⟩
  · exact (congrFun hudirs []).trans htop
  · exact (congrFun hudirs _).trans (hdir _)
  · exact (congrFun hudirs _).trans (hdir _)
  · exact congrFun hbelow p
  · rw [hbelow] at hp
    cases hp
  · unfold Root.manifest
    have hfile : u.files manifestPath = none := hnone _ (by decide)
    simp only [hfile]
  · rfl
  · show Listed h (below ⟨u, budget⟩) []
    rw [hbelow]
    exact Catalog.nil

theorem good_run (hclear : Machine.Guarded (step h) Clear (fresh h budget) calls) :
    Machine.Always (step h) (Good h) (fresh h budget) calls :=
  Machine.always_of_guarded (fun _ _ => good_step) (good_fresh h budget) hclear

/-- **A run of clear calls refines the map of what was last written**: every state is refined,
and a call changes no content but that of its own path. -/
theorem store_refines (h : Host) (budget : Option Budget) {calls : List StoreCall}
    (hclear : Machine.Guarded (step h) Clear (fresh h budget) calls) :
    Machine.Always (step h) (Refined h) (fresh h budget) calls ∧
      ∀ before call, before ++ [call] <+: calls → ∀ p, p ≠ segments call.path →
        content h (Machine.run (step h) (fresh h budget) (before ++ [call])).root p =
          content h (Machine.run (step h) (fresh h budget) before).root p := by
  have hgood := good_run hclear
  refine ⟨fun before hpre => refined_of_good (hgood before hpre), ?_⟩
  intro before call hpre p hp
  have hbefore := refined_of_good (hgood before ((List.prefix_append before [call]).trans hpre))
  have hafter := refined_of_good (hgood _ hpre)
  rw [hbefore.content, hafter.content, Machine.run_concat]
  unfold step
  split
  · exact Function.update_of_ne hp ..
  · rfl

def sampleStore : List StoreCall := [
  .writeFile 1 (lit "1.5") (lit "a") (lit "v"),
  .writeFile 1 (lit "2.5") (lit "d/b") (lit "v"),
  .deleteFile (1 / 2) (lit "a"),
  .rollbackDeleteFile 0 (lit "3.5") (lit "a") (some (lit "v")),
  .rollbackWriteFile 0 (lit "4.5") (lit "d/b") none false]

theorem sampleStore_refines :
    Machine.Always (step sampleHost) (Refined sampleHost) (fresh sampleHost none) sampleStore ∧
      ∀ before call, before ++ [call] <+: sampleStore → ∀ p, p ≠ segments call.path →
        content sampleHost
            (Machine.run (step sampleHost) (fresh sampleHost none) (before ++ [call])).root p =
          content sampleHost
            (Machine.run (step sampleHost) (fresh sampleHost none) before).root p := by
  refine store_refines sampleHost none ⟨fun _ => .inr ?_, fun _ => .inr ?_, fun _ => .inr ?_,
    fun _ => .inr ?_, fun _ => .inr ?_, trivial⟩
  all_goals decide +kernel

/-- The write to `a` takes the file `a.tmp` away. -/
def siblingCalls : List StoreCall := [
  .writeFile 1 (lit "1.5") (lit "a.tmp") (lit "v"),
  .writeFile 1 (lit "2.5") (lit "a") (lit "v")]

theorem sibling_lost :
    ¬ Machine.Always (step sampleHost) (Refined sampleHost) (fresh sampleHost none)
      siblingCalls := by
  intro halways
  have hrefined := halways siblingCalls (List.prefix_refl _)
  have hcontent := hrefined.content [lit "a.tmp"]
  revert hcontent
  decide +kernel

end Refinement

end ClawHarder.FileStore
