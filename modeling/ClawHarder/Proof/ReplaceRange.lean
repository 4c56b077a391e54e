import ClawHarder.Lib.PyLines
import ClawHarder.Proof.PatchPlan

/-!
# What a replaced range leaves of the other lines

A file is read in universal newlines and written as the text is. `replace_range_iff`: **after a
replacement that is applied, the lines before and behind the range are unchanged lines of the
file exactly when** none of them has a carriage return and the new content ends its last line in
front of the next one. (A lone carriage return at its end can also restore the one of an empty
line behind it.)

* `lines_updated`: the lines of the updated text.
* `frame_iff`: the theorem for texts.
* `applied_single`: the bytes of the file after a request with one replacement.
-/

namespace ClawHarder.Comms

open PyText (lit NoReturn EndsLine splitKeepends universalNewlines)

variable {text content updated : PyText} {startLine endLine : ℤ}

theorem range_of_applied
    (h : applyReplaceRangeContent text startLine endLine content = some updated) :
    1 ≤ startLine ∧ startLine ≤ endLine ∧ endLine ≤ (splitKeepends text).length ∧
      updated = ((splitKeepends text).take (startLine - 1).toNat).flatten ++ content ++
        ((splitKeepends text).drop endLine.toNat).flatten := by
  unfold applyReplaceRangeContent at h
  simp only at h
  split_ifs at h with hstart hcount
  refine ⟨by omega, by omega, by omega, ?_⟩
  rw [← Option.some.inj h, List.flatten_append, List.flatten_append,
    PyText.flatten_splitKeepends]

/-- **The lines of the updated text**: those before the range, and the lines of the content with
what is behind it. -/
theorem lines_updated
    (h : applyReplaceRangeContent (universalNewlines text) startLine endLine content =
      some updated) :
    splitKeepends updated =
      ((splitKeepends text).take (startLine - 1).toNat).map universalNewlines ++
        splitKeepends (content ++
          (((splitKeepends text).drop endLine.toNat).map universalNewlines).flatten) := by
  obtain ⟨hstart, hend, hcount, rfl⟩ := range_of_applied h
  have hlines := PyText.splitKeepends_universalNewlines text
  obtain ⟨htake, -, hends⟩ :=
    PyText.splitKeepends_take (universalNewlines text) (startLine - 1).toNat
  have hbefore := hends (by omega)
  -- the lines before the range end in front of anything, having no carriage return
  have hany : ∀ u, EndsLine ((splitKeepends (universalNewlines text)).take
      (startLine - 1).toNat).flatten u := by
    intro u
    obtain hnil | ⟨c, hc, hbreak, -⟩ := hbefore
    · exact .inl hnil
    · refine .inr ⟨c, hc, hbreak, fun hreturn => ?_⟩
      have hmem : c ∈ (splitKeepends (universalNewlines text)).flatten := by
        rw [← List.take_append_drop (startLine - 1).toNat (splitKeepends (universalNewlines text)),
          List.flatten_append]
        exact List.mem_append_left _ (List.mem_of_getLast? hc)
      rw [PyText.flatten_splitKeepends] at hmem
      exact (PyText.mem_universalNewlines hmem).1 hreturn.1
  rw [List.append_assoc, PyText.splitKeepends_append (hany _), htake, hlines, ← List.map_take,
    ← List.map_drop]

/-- The lines before and behind the range stay: none has a carriage return, and the content ends
its last line in front of the next one, or restores the carriage return of an empty one. -/
def Harmless (lines : List PyText) (before behind : ℕ) (content : PyText) : Prop :=
  (∀ l ∈ lines.take before, NoReturn l) ∧
    match lines.drop behind with
    | [] => True
    | next :: rest => (∀ l ∈ rest, NoReturn l) ∧
        ((NoReturn next ∧ EndsLine content next) ∨
          (next = [13, 10] ∧ (splitKeepends content).getLast? = some [13]))

theorem ends_iff {front lines lines' : List PyText} (hlength : lines.length = lines'.length) :
    (∃ middle, front ++ lines = middle ++ lines') ↔ lines = lines' := by
  constructor
  · rintro ⟨middle, h⟩
    exact (List.append_inj' h hlength).2
  · rintro rfl
    exact ⟨front, rfl⟩

theorem getLast?_of_lines {t : PyText} {c : CodePoint}
    (h : (splitKeepends t).getLast? = some [c]) : t.getLast? = some c := by
  obtain ⟨front, hfront⟩ := List.getLast?_eq_some_iff.1 h
  rw [← PyText.flatten_splitKeepends t, hfront, List.flatten_append,
    List.getLast?_append_of_ne_nil _ (by simp)]
  rfl

/-- **The lines outside the range are unchanged exactly when they are harmless.** -/
theorem frame_iff
    (h : applyReplaceRangeContent (universalNewlines text) startLine endLine content =
      some updated) :
    (∃ middle, splitKeepends updated = (splitKeepends text).take (startLine - 1).toNat ++ middle ++
        (splitKeepends text).drop endLine.toNat) ↔
      Harmless (splitKeepends text) (startLine - 1).toNat endLine.toNat content := by
  have hbehind : splitKeepends (((splitKeepends text).drop endLine.toNat).map
      universalNewlines).flatten = ((splitKeepends text).drop endLine.toNat).map
        universalNewlines := by
    have hdrop := (PyText.splitKeepends_take (universalNewlines text) endLine.toNat).2.1
    rwa [PyText.splitKeepends_universalNewlines, ← List.map_drop] at hdrop
  have hlines : ∀ l ∈ (splitKeepends text).drop endLine.toNat, l ∈ splitKeepends text :=
    fun l hl => List.mem_of_mem_drop hl
  rw [lines_updated h]
  unfold Harmless
  generalize (splitKeepends text).take (startLine - 1).toNat = before
  generalize (splitKeepends text).drop endLine.toNat = behind at hbehind hlines
  have hsplit : (∃ middle, before.map universalNewlines ++
        splitKeepends (content ++ (behind.map universalNewlines).flatten) =
          before ++ middle ++ behind) ↔
      (∀ l ∈ before, NoReturn l) ∧ ∃ middle,
        splitKeepends (content ++ (behind.map universalNewlines).flatten) = middle ++ behind := by
    rw [← PyText.map_universalNewlines]
    constructor
    · rintro ⟨middle, heq⟩
      rw [List.append_assoc] at heq
      obtain ⟨hbefore, hrest⟩ := List.append_inj heq (by simp)
      exact ⟨hbefore, middle, hrest⟩
    · rintro ⟨hbefore, middle, hrest⟩
      exact ⟨middle, by rw [hbefore, hrest, List.append_assoc]⟩
  rw [hsplit]
  refine and_congr_right fun _ => ?_
  cases behind with
  | nil => simp
  | cons next rest =>
    have hnext := hlines next (List.mem_cons_self ..)
    obtain ⟨-, -, -, -, hne, -⟩ := PyText.mem_splitKeepends hnext
    have hfirst := PyText.universalNewlines_ne_nil hne
    have hends : EndsLine content ((next :: rest).map universalNewlines).flatten ↔
        EndsLine content (universalNewlines next) := by
      rw [List.map_cons, List.flatten_cons]
      exact PyText.endsLine_front hfirst _
    by_cases hjoin : EndsLine content ((next :: rest).map universalNewlines).flatten
    · -- the content ends its last line
      rw [PyText.splitKeepends_append hjoin, hbehind, ends_iff (by simp),
        PyText.map_universalNewlines, List.forall_mem_cons]
      rw [hends] at hjoin
      constructor
      · rintro ⟨hno, hrest⟩
        rw [PyText.universalNewlines_eq_self.2 hno] at hjoin
        exact ⟨hrest, .inl ⟨hno, hjoin⟩⟩
      · rintro ⟨hrest, ⟨hno, -⟩ | ⟨rfl, hlast⟩⟩
        · exact ⟨hno, hrest⟩
        · have hreturn := getLast?_of_lines hlast
          obtain rfl | ⟨c, hc, -, hnot⟩ := hjoin
          · cases hreturn
          · rw [hreturn] at hc
            cases hc
            exact absurd ⟨rfl, 10, [], rfl, rfl⟩ hnot
    · -- its last line goes on in the next one
      obtain ⟨front, last, hcontent, hlast, hmore⟩ := PyText.splitKeepends_joined hjoin
      have hreturn : (splitKeepends content).getLast? = some [13] ↔ last = [13] := by
        rw [hcontent, List.getLast?_append_of_ne_nil _ (by simp), List.getLast?_singleton,
          Option.some.injEq]
      rw [hmore _ _ hbehind, ends_iff (by simp), List.cons_eq_cons,
        PyText.restored_iff hnext hlast, PyText.map_universalNewlines, hreturn]
      rw [hends] at hjoin
      constructor
      · rintro ⟨hrestored, hrest⟩
        exact ⟨hrest, .inr hrestored⟩
      · rintro ⟨hrest, ⟨hno, hends'⟩ | hrestored⟩
        · rw [PyText.universalNewlines_eq_self.2 hno] at hjoin
          exact absurd hends' hjoin
        · exact ⟨hrestored, hrest⟩

variable {W : Workspace} {v v' : Volume} {target : Path}

def besides (W : Workspace) (target : Path) (tag : String) (n : ℕ) : Path :=
  target.dropLast ++ [lit "." ++ target.getLast?.getD [] ++ lit tag ++ W.uuid n]

theorem besides_ne (tag : String) (n : ℕ) : besides W target tag n ≠ target := by
  intro heq
  have hlast := congrArg List.getLast? heq
  unfold besides at hlast
  rw [List.getLast?_concat] at hlast
  have hlength := congrArg List.length (congrArg (Option.getD · []) hlast)
  simp only [Option.getD_some, List.length_append] at hlength
  have hdot : (lit ".").length = 1 := rfl
  omega

theorem tags_apart {name tag tag' u u' : PyText} (hlength : tag.length = tag'.length)
    (hne : tag ≠ tag') : name ++ tag ++ u ≠ name ++ tag' ++ u' := by
  intro heq
  rw [List.append_assoc, List.append_assoc] at heq
  have htags := List.append_cancel_left heq
  exact hne (List.append_inj htags hlength).1

theorem temp_ne_backup (m n : ℕ) :
    besides W target ".bh_tmp_" m ≠ besides W target ".bh_bak_" n := by
  have htags : lit ".bh_tmp_" ≠ lit ".bh_bak_" := by decide
  have hlength : (lit ".bh_tmp_").length = (lit ".bh_bak_").length := by decide
  generalize hx : lit ".bh_tmp_" = x at htags hlength
  generalize hy : lit ".bh_bak_" = y at htags hlength
  unfold besides
  rw [hx, hy]
  intro heq
  have hlast := List.append_cancel_left heq
  exact tags_apart hlength htags (List.singleton_inj.1 hlast)

theorem readText_text {p : Path} {t : PyText} (h : (v.readText W p).1 = .text t) :
    ∃ bytes text, v.tree.files p = some bytes ∧ PyText.decodeUtf8 bytes = some text ∧
      t = universalNewlines text := by
  unfold Volume.readText Volume.call at h
  dsimp only at h
  split at h
  · cases h
  · split at h
    · cases h
    next bytes hbytes =>
      split at h
      · cases h
      next text htext =>
        cases h
        exact ⟨bytes, text, hbytes, htext, rfl⟩

theorem writeText_none {p : Path} (h : v.writeText W p content = (none, v')) :
    ∃ bytes, PyText.encodeUtf8 content = some bytes ∧ v'.tree = v.tree.write p bytes := by
  unfold Volume.writeText Volume.call at h
  dsimp only at h
  split at h
  · cases h
  · split at h
    · cases h
    next bytes hbytes =>
      split at h
      · cases h
      · cases h
        exact ⟨bytes, hbytes, rfl⟩

theorem ensureEntry_entry {p : Path} {e : Entry} (h : ensureEntry W .empty p v = (.entry e, v')) :
    v'.tree = v.tree ∧ e.path = p ∧ (e.present = true → e.originalExists = true ∧
      ∃ bytes text, v.tree.files p = some bytes ∧ PyText.decodeUtf8 bytes = some text ∧
        e.content = some (universalNewlines text)) := by
  have hnew : (OrderedMap.empty : OrderedMap Path Entry).get? p = none := rfl
  have hfound : (v.pathExists W p).2.tree = v.tree := rfl
  unfold ensureEntry at h
  rw [hnew] at h
  simp only at h
  split at h
  · cases h
  next v₁ hexists =>
    rw [hexists] at hfound
    cases h
    exact ⟨hfound, rfl, fun hpresent => by cases hpresent⟩
  next v₁ hexists =>
    rw [hexists] at hfound
    have hdir : (v₁.isDir W p).2.tree = v₁.tree := rfl
    split at h
    · cases h
    · cases h
    next v₂ hisdir =>
      rw [hisdir] at hdir
      have hreads : (v₂.readText W p).2.tree = v₂.tree := by
        obtain ⟨_, hread, -⟩ := readText_cases (W := W) (v := v₂) p
        rw [hread]
        rfl
      split at h
      · cases h
      · cases h
      next t v₃ hread =>
        rw [hread] at hreads
        cases h
        obtain ⟨bytes, text, hbytes, htext, rfl⟩ := readText_text (congrArg Prod.fst hread)
        have hsame : v₂.tree = v.tree := hdir.trans hfound
        rw [hsame] at hbytes
        exact ⟨hreads.trans hsame, rfl, fun _ => ⟨rfl, bytes, text, hbytes, htext, rfl⟩⟩

theorem plan_single {patch : Patch} (hop : patch.op = .replaceRange startLine endLine content)
    {virtual : OrderedMap Path Entry}
    (h : planPatch W (.planned .empty, v) patch = (.planned virtual, v')) :
    ∃ target bytes text updated,
      resolveWorkspaceTarget W patch.file.text = some (some target) ∧
      v.tree.files target = some bytes ∧ PyText.decodeUtf8 bytes = some text ∧
      applyReplaceRangeContent (universalNewlines text) startLine endLine content =
        some updated ∧
      collectPlan virtual.values = some ⟨[(target, updated)], []⟩ ∧ v'.tree = v.tree := by
  unfold planPatch at h
  simp only [hop] at h
  split at h
  · cases h
  · cases h
  next target htarget =>
    split at h
    · cases h
    · cases h
    next entry v₁ hensure =>
      obtain ⟨htree, hpath, hpresent⟩ := ensureEntry_entry hensure
      unfold applyOp at h
      simp only at h
      split at h
      · cases h
      next entry' happly =>
        cases h
        split_ifs at happly with habsent
        obtain ⟨-, bytes, text, hbytes, htext, hcontent⟩ := hpresent (by simpa using habsent)
        rw [hcontent] at happly
        simp only at happly
        split at happly
        · cases happly
        next updated hupdated =>
          cases happly
          refine ⟨target, bytes, text, updated, htarget, hbytes, htext, hupdated, ?_, htree⟩
          have hvalues : ((OrderedMap.empty : OrderedMap Path Entry).set target
              { entry with content := some updated }).values =
                [{ entry with content := some updated }] := rfl
          have hthere : entry.present = true := by simpa using habsent
          rw [hvalues]
          simp [collectPlan, hthere, hpath]

section Commit

variable {temps backups : List (Path × Path)} {activated : List Path}

theorem stage_single (h : stageWrites W [(target, updated)] [] v = (none, temps, v')) :
    ∃ n bytes, temps = [(besides W target ".bh_tmp_" n, target)] ∧
      PyText.encodeUtf8 updated = some bytes ∧
      v'.tree.files = Function.update v.tree.files (besides W target ".bh_tmp_" n) (some bytes) := by
  unfold stageWrites at h
  obtain ⟨hfiles, -, -⟩ := mkdir_spec (W := W) (v := v) target.dropLast
  split at h
  · cases h
  next v₁ hmade =>
    rw [hmade] at hfiles
    have hdraw : v₁.drawName W target ".bh_tmp_" =
      (besides W target ".bh_tmp_" v₁.drawn, { v₁ with drawn := v₁.drawn + 1 }) := rfl
    rw [hdraw] at h
    simp only at h
    split at h
    · cases h
    next v₂ hwritten =>
      obtain ⟨bytes, hbytes, htree⟩ := writeText_none hwritten
      cases h
      refine ⟨v₁.drawn, bytes, rfl, hbytes, ?_⟩
      rw [htree, ← hfiles]
      rfl

theorem backUp_single (h : backUpAll W [target] [] v = (none, backups, v')) :
    (backups = [] ∧ v'.tree.files = v.tree.files) ∨
      ∃ n, backups = [(besides W target ".bh_bak_" n, target)] ∧
        v'.tree.files = Function.update (Function.update v.tree.files target none)
          (besides W target ".bh_bak_" n) (v.tree.files target) := by
  unfold backUpAll at h
  have hfound : (v.pathExists W target).2.tree = v.tree := rfl
  split at h
  · cases h
  next v₁ hexists =>
    rw [hexists] at hfound
    cases h
    exact .inl ⟨rfl, congrArg FileTree.files hfound⟩
  next v₁ hexists =>
    rw [hexists] at hfound
    have hdir : (v₁.isDir W target).2.tree = v₁.tree := rfl
    split at h
    · cases h
    · cases h
    next v₂ hisdir =>
      rw [hisdir] at hdir
      have hdraw : v₂.drawName W target ".bh_bak_" =
        (besides W target ".bh_bak_" v₂.drawn, { v₂ with drawn := v₂.drawn + 1 }) := rfl
      rw [hdraw] at h
      simp only at h
      split at h
      · cases h
      next v₃ hrename =>
        cases h
        obtain ⟨_, hno, -⟩ | ⟨-, -, v₄, hmove, htree, -⟩ := rename_cases (W := W)
          (v := { v₂ with drawn := v₂.drawn + 1 }) target (besides W target ".bh_bak_" v₂.drawn)
        · rw [hno] at hrename
          cases hrename
        · rw [hmove] at hrename
          cases hrename
          refine .inr ⟨v₂.drawn, rfl, ?_⟩
          rw [htree, ← hfound, ← hdir]
          rfl

theorem activate_single {tmp : Path}
    (h : activateAll W [(tmp, target)] [] v = (none, activated, v')) :
    v'.tree.files = Function.update (Function.update v.tree.files tmp none) target
      (v.tree.files tmp) := by
  unfold activateAll at h
  split at h
  · cases h
  next v₁ hrename =>
    cases h
    obtain ⟨_, hno, -⟩ | ⟨-, -, v₂, hmove, htree, -⟩ := rename_cases (W := W) (v := v) tmp target
    · rw [hno] at hrename
      cases hrename
    · rw [hmove] at hrename
      cases hrename
      rw [htree]
      rfl

end Commit

/-- **The file after a request with one replacement** has the bytes of the updated text. -/
theorem applied_single {patch : Patch}
    (hop : patch.op = .replaceRange startLine endLine content)
    (h : applyPatchesTo W [patch] v = (.applied, v')) :
    ∃ target bytes bytes' text updated,
      resolveWorkspaceTarget W patch.file.text = some (some target) ∧
      v.tree.files target = some bytes ∧ v'.tree.files target = some bytes' ∧
      PyText.decodeUtf8 bytes = some text ∧ PyText.decodeUtf8 bytes' = some updated ∧
      applyReplaceRangeContent (universalNewlines text) startLine endLine content =
        some updated := by
  unfold applyPatchesTo at h
  rw [List.foldl_cons, List.foldl_nil] at h
  split at h
  · cases h
  · cases h
  next virtual v₁ hplan =>
    obtain ⟨target, bytes, text, updated, htarget, hbytes, htext, hupdated, hcollect, htree⟩ :=
      plan_single hop hplan
    rw [hcollect] at h
    simp only at h
    split at h
    next v₂ hcommit =>
      cases h
      unfold commitAtomicPatchPlan at hcommit
      split at hcommit
      · cases hcommit
      next temps v₃ hstage =>
        obtain ⟨m, bytes', rfl, hencode, hstaged⟩ := stage_single hstage
        simp only [List.map_cons, List.map_nil, List.append_nil] at hcommit
        split at hcommit
        · cases hcommit
        next backups v₄ hbackup =>
          split at hcommit
          · cases hcommit
          next activated v₅ hactivate =>
            cases hcommit
            have hfiles := activate_single hactivate
            have htemp : v₃.tree.files (besides W target ".bh_tmp_" m) = some bytes' := by
              rw [hstaged, Function.update_self]
            -- neither the backup nor the clean-up touches what was staged
            obtain ⟨hkept, hclean⟩ : v₄.tree.files (besides W target ".bh_tmp_" m) = some bytes' ∧
                target ∉ backups.map Prod.fst := by
              obtain ⟨rfl, hsame⟩ | ⟨n, rfl, hmoved⟩ := backUp_single hbackup
              · exact ⟨by rw [hsame, htemp], List.not_mem_nil⟩
              · refine ⟨?_, fun hmem => ?_⟩
                · rw [hmoved, Function.update_of_ne (temp_ne_backup m n),
                    Function.update_of_ne (besides_ne ".bh_tmp_" m), htemp]
                · exact besides_ne ".bh_bak_" n (List.mem_singleton.1 hmem).symm
            have hwritten : v₅.tree.files target = some bytes' := by
              rw [hfiles, Function.update_self, hkept]
            refine ⟨target, bytes, bytes', text, updated, htarget, hbytes, ?_, htext,
              PyText.decodeUtf8_encodeUtf8 hencode, hupdated⟩
            rw [← hwritten]
            have htemps : target ∉ [besides W target ".bh_tmp_" m] := fun hmem =>
              besides_ne ".bh_tmp_" m (List.mem_singleton.1 hmem).symm
            exact (FileTree.files_cleanAll_of_not_mem htemps).trans
              (FileTree.files_cleanAll_of_not_mem hclean)
    · cases h

def fileLines (bytes : Bytes) : Option (List Bytes) := do
  (splitKeepends (← PyText.decodeUtf8 bytes)).mapM PyText.encodeUtf8

/-- The lines before and behind a range are lines of the file also afterwards, in their places
and with their bytes. -/
def KeepsOutside (startLine endLine : ℤ) (bytes bytes' : Bytes) : Prop :=
  ∃ lines lines' middle, fileLines bytes = some lines ∧ fileLines bytes' = some lines' ∧
    lines' = lines.take (startLine - 1).toNat ++ middle ++ lines.drop endLine.toNat

theorem fileLines_eq {bytes : Bytes} (h : PyText.decodeUtf8 bytes = some text) :
    fileLines bytes = some ((splitKeepends text).map fun l => (PyText.encodeUtf8 l).getD []) ∧
      ∀ l ∈ splitKeepends text, (PyText.encodeUtf8 l).isSome = true := by
  have hencode : (PyText.encodeUtf8 text).isSome = true := by
    rw [PyText.encodeUtf8_decodeUtf8 h]
    rfl
  have hlines : ∀ l ∈ splitKeepends text, (PyText.encodeUtf8 l).isSome = true := by
    intro l hl
    rw [PyText.encodable_iff] at hencode ⊢
    intro c hc
    refine hencode c ?_
    rw [← PyText.flatten_splitKeepends text]
    exact List.mem_flatten.2 ⟨l, hl, hc⟩
  refine ⟨?_, hlines⟩
  unfold fileLines
  rw [h, Option.bind_eq_bind, Option.bind_some]
  generalize splitKeepends text = lines at hlines
  induction lines with
  | nil => rfl
  | cons l lines ih =>
    obtain ⟨more, hmore⟩ := Option.isSome_iff_exists.1 (hlines l (List.mem_cons_self ..))
    rw [List.mapM_cons, hmore, ih fun l hl => hlines l (List.mem_cons_of_mem _ hl)]
    simp [hmore]

theorem map_encode_inj {lines lines' : List PyText}
    (hlines : ∀ l ∈ lines, (PyText.encodeUtf8 l).isSome = true)
    (hlines' : ∀ l ∈ lines', (PyText.encodeUtf8 l).isSome = true)
    (h : (lines.map fun l => (PyText.encodeUtf8 l).getD []) =
      lines'.map fun l => (PyText.encodeUtf8 l).getD []) : lines = lines' := by
  induction lines generalizing lines' with
  | nil => exact (List.map_eq_nil_iff.1 h.symm).symm
  | cons l lines ih =>
    cases lines' with
    | nil => cases h
    | cons l' lines' =>
      obtain ⟨hfirst, hrest⟩ := List.cons.inj h
      have hl := hlines l (List.mem_cons_self ..)
      have hl' := hlines' l' (List.mem_cons_self ..)
      have hsame : PyText.encodeUtf8 l = PyText.encodeUtf8 l' := by
        obtain ⟨x, hx⟩ := Option.isSome_iff_exists.1 hl
        obtain ⟨y, hy⟩ := Option.isSome_iff_exists.1 hl'
        simp only [hx, hy, Option.getD_some] at hfirst
        rw [hx, hy, hfirst]
      rw [PyText.encodeUtf8_inj hl hsame, ih (fun m hm => hlines m (List.mem_cons_of_mem _ hm))
        (fun m hm => hlines' m (List.mem_cons_of_mem _ hm)) hrest]

theorem keepsOutside_iff {bytes bytes' : Bytes} (h : PyText.decodeUtf8 bytes = some text)
    (h' : PyText.decodeUtf8 bytes' = some updated) :
    KeepsOutside startLine endLine bytes bytes' ↔
      ∃ middle, splitKeepends updated = (splitKeepends text).take (startLine - 1).toNat ++ middle ++
        (splitKeepends text).drop endLine.toNat := by
  obtain ⟨hlines, hencode⟩ := fileLines_eq h
  obtain ⟨hlines', hencode'⟩ := fileLines_eq h'
  unfold KeepsOutside
  rw [hlines, hlines']
  constructor
  · rintro ⟨lines, lines', middle, hl, hl', heq⟩
    cases hl
    cases hl'
    rw [← List.map_take, ← List.map_drop] at heq
    obtain ⟨front, hbehind, hsplit, hfront, hdrop⟩ := List.map_eq_append_iff.1 heq
    obtain ⟨htake, hmiddle, rfl, hbefore, -⟩ := List.map_eq_append_iff.1 hfront
    have hmem : ∀ l ∈ htake ++ hmiddle ++ hbehind, (PyText.encodeUtf8 l).isSome = true :=
      fun l hl => hencode' l (hsplit ▸ hl)
    have hsame := map_encode_inj
      (fun l hl => hmem l (List.mem_append_left _ (List.mem_append_left _ hl)))
      (fun l hl => hencode l (List.mem_of_mem_take hl)) hbefore
    have hsame' := map_encode_inj (fun l hl => hmem l (List.mem_append_right _ hl))
      (fun l hl => hencode l (List.mem_of_mem_drop hl)) hdrop
    exact ⟨hmiddle, by rw [hsplit, hsame, hsame']⟩
  · rintro ⟨middle, heq⟩
    refine ⟨_, _, middle.map fun l => (PyText.encodeUtf8 l).getD [], rfl, rfl, ?_⟩
    rw [heq, List.map_append, List.map_append, List.map_take, List.map_drop]

/-- **After a replacement that is applied, the lines before and behind the range are unchanged
lines of the file exactly when they are harmless.** -/
theorem replace_range_iff {patch : Patch}
    (hop : patch.op = .replaceRange startLine endLine content)
    (h : applyPatchesTo W [patch] v = (.applied, v')) :
    ∃ target bytes bytes' text,
      resolveWorkspaceTarget W patch.file.text = some (some target) ∧
      v.tree.files target = some bytes ∧ v'.tree.files target = some bytes' ∧
      PyText.decodeUtf8 bytes = some text ∧
      (KeepsOutside startLine endLine bytes bytes' ↔
        Harmless (splitKeepends text) (startLine - 1).toNat endLine.toNat content) := by
  obtain ⟨target, bytes, bytes', text, updated, htarget, hbytes, hbytes', htext, hupdated, hrange⟩ :=
    applied_single hop h
  refine ⟨target, bytes, bytes', text, htarget, hbytes, hbytes', htext, ?_⟩
  rw [keepsOutside_iff htext hupdated, frame_iff hrange]

/-- The first line of `a.txt` is replaced by the line `c`. -/
def replaceFirst : Patch :=
  { smallPatch [] with op := .replaceRange 1 1 (lit "c\n") }

def replacedIn (bytes : Bytes) : PatchOutcome × Volume :=
  applyPatchesTo (.small fun _ => false) [replaceFirst] (.small (some bytes))

theorem feeds_kept :
    ∃ target bytes bytes' text,
      resolveWorkspaceTarget (.small fun _ => false) replaceFirst.file.text = some (some target) ∧
      (Volume.small (some [0x61, 0x0A, 0x62, 0x0A])).tree.files target = some bytes ∧
      (replacedIn [0x61, 0x0A, 0x62, 0x0A]).2.tree.files target = some bytes' ∧
      PyText.decodeUtf8 bytes = some text ∧
      (KeepsOutside 1 1 bytes bytes' ↔
        Harmless (splitKeepends text) ((1 : ℤ) - 1).toNat (1 : ℤ).toNat (lit "c\n")) := by
  have happlied : (replacedIn [0x61, 0x0A, 0x62, 0x0A]).1 = .applied := by rfl
  have hop : replaceFirst.op = .replaceRange 1 1 (lit "c\n") := rfl
  exact replace_range_iff hop (Prod.ext happlied rfl)

theorem return_lost :
    (replacedIn [0x61, 0x0D, 0x0A, 0x62, 0x0D, 0x0A]).1 = .applied ∧
      ∃ bytes', (replacedIn [0x61, 0x0D, 0x0A, 0x62, 0x0D, 0x0A]).2.tree.files
          [lit "ws", lit "a.txt"] = some bytes' ∧
        ¬KeepsOutside 1 1 [0x61, 0x0D, 0x0A, 0x62, 0x0D, 0x0A] bytes' := by
  refine ⟨by rfl, [0x63, 0x0A, 0x62, 0x0A], by rfl, ?_⟩
  rintro ⟨lines, lines', middle, hlines, hlines', heq⟩
  have hbefore : fileLines [0x61, 0x0D, 0x0A, 0x62, 0x0D, 0x0A] =
      some [[0x61, 0x0D, 0x0A], [0x62, 0x0D, 0x0A]] := by rfl
  have hafter : fileLines [0x63, 0x0A, 0x62, 0x0A] = some [[0x63, 0x0A], [0x62, 0x0A]] := by rfl
  rw [hbefore] at hlines
  rw [hafter] at hlines'
  cases hlines
  cases hlines'
  have hlast := congrArg List.getLast? heq
  rw [List.getLast?_append_of_ne_nil _ (by decide)] at hlast
  exact absurd hlast (by decide)

end ClawHarder.Comms
