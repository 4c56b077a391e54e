import ClawHarder.Spec.Patches

/-!
# The undo of a patch commit

What `_commit_atomic_patch_plan` leaves when it fails. Its temporary files and its
backups have names with a uuid in them, and as long as these are drawn once and
occur nowhere else, every step before the failure can be undone.

* `stage_spec`, `backUp_spec`, `activate_spec`: the three loops, stopped anywhere.
* `commit_undone`: **a failed commit leaves the files as they were just when** no
  temporary file was opened and then not written.
-/

namespace ClawHarder.Comms

open PyText (lit)

variable {W : Workspace} {lo hi : ℕ}

def Workspace.EndsIn (W : Workspace) (n : ℕ) (p : Path) : Prop := ∃ c ∈ p, W.uuid n <:+ c

def Workspace.Marked (W : Workspace) (lo hi : ℕ) (p : Path) : Prop :=
  ∃ n, lo ≤ n ∧ n < hi ∧ W.EndsIn n p

variable {p : Path}

theorem Workspace.Marked.of_later {k : ℕ} (hk : lo ≤ k) (h : W.Marked k hi p) :
    W.Marked lo hi p := by
  obtain ⟨n, hn, hlt, hend⟩ := h
  exact ⟨n, by omega, hlt, hend⟩

theorem Workspace.Marked.of_parent {q : Path} (hq : q <+: p) (h : W.Marked lo hi q) :
    W.Marked lo hi p := by
  obtain ⟨n, hn, hlt, c, hc, hend⟩ := h
  exact ⟨n, hn, hlt, c, hq.subset hc, hend⟩

/-- `uuid4().hex` has 32 digits, and these draws are all different. -/
structure Workspace.Distinct (W : Workspace) (lo hi : ℕ) : Prop where
  hex : ∀ n, lo ≤ n → n < hi → (W.uuid n).length = 32
  apart : ∀ m n, lo ≤ m → m < hi → lo ≤ n → n < hi → W.uuid m = W.uuid n → m = n

variable {v v' : Volume}

theorem endsIn_draw (target : Path) (tag : String) :
    W.EndsIn v.drawn (v.drawName W target tag).1 := by
  refine ⟨_, List.mem_append_right _ (List.mem_singleton_self _), ?_⟩
  exact List.suffix_append _ _

theorem unmarked_draw (hW : W.Distinct lo hi) (hlo : lo ≤ v.drawn) (hhi : v.drawn < hi)
    {target : Path} (htarget : ¬ W.Marked lo hi target) (tag : String) :
    ¬ W.Marked (v.drawn + 1) hi (v.drawName W target tag).1 := by
  rintro ⟨n, hn, hlt, c, hc, hend⟩
  rcases List.mem_append.1 hc with hc | hc
  · exact htarget ⟨n, by omega, hlt, c, List.dropLast_subset target hc, hend⟩
  · rw [List.mem_singleton.1 hc] at hend
    have hlen : (W.uuid n).length = (W.uuid v.drawn).length := by
      rw [hW.hex n (by omega) hlt, hW.hex v.drawn hlo hhi]
    have hsame : W.uuid n = W.uuid v.drawn :=
      (List.suffix_of_suffix_length_le hend (List.suffix_append _ _) hlen.le).eq_of_length hlen
    have heq := hW.apart n v.drawn (by omega) hlt hlo hhi hsame
    omega

structure Ground (W : Workspace) (lo hi : ℕ) (before : Path → Option Bytes)
    (targets : List Path) : Prop where
  distinct : W.Distinct lo hi
  before : ∀ p, (before p).isSome = true → ¬ W.Marked lo hi p
  targets : ∀ p ∈ targets, ¬ W.Marked lo hi p

structure Held (W : Workspace) (lo hi : ℕ) (before : Path → Option Bytes) (temps : List Path)
    (backups : List (Path × Path)) (v : Volume) : Prop where
  undo : FileTree.Undoable before temps backups v.tree
  /-- the next draws are new -/
  free : ∀ p, v.tree.present p = true ∨ p ∈ temps ∨ p ∈ backups.map Prod.fst →
    ¬ W.Marked v.drawn hi p
  named : ∀ p, p ∈ temps ∨ p ∈ backups.map Prod.fst → W.Marked lo hi p
  start : lo ≤ v.drawn

variable {before : Path → Option Bytes} {targets temps : List Path} {backups : List (Path × Path)}

theorem present_of_files {t : FileTree Path Bytes} (h : (t.files p).isSome = true) :
    t.present p = true := by
  unfold FileTree.present
  rw [h]
  rfl

theorem Held.quiet (h : Held W lo hi before temps backups v) (htree : v'.tree = v.tree)
    (hdrawn : v'.drawn = v.drawn) : Held W lo hi before temps backups v' where
  undo := htree ▸ h.undo
  free := by
    rw [htree, hdrawn]
    exact h.free
  named := h.named
  start := hdrawn ▸ h.start

theorem Held.target_apart (h : Held W lo hi before temps backups v)
    (hG : Ground W lo hi before targets) (hp : p ∈ targets) :
    p ∉ temps ∧ p ∉ backups.map Prod.fst :=
  ⟨fun hin => hG.targets p hp (h.named p (Or.inl hin)),
    fun hin => hG.targets p hp (h.named p (Or.inr hin))⟩

/-- **A drawn name is new**: nothing is there, and nothing was. -/
theorem Held.drawn_new (h : Held W lo hi before temps backups v)
    (hG : Ground W lo hi before targets) (hroom : v.drawn < hi) {b : Path}
    (hb : W.EndsIn v.drawn b) :
    v.tree.present b = false ∧ before b = none ∧ b ∉ temps ∧ b ∉ backups.map Prod.fst := by
  have hmark : W.Marked v.drawn hi b := ⟨v.drawn, le_refl _, hroom, hb⟩
  refine ⟨?_, ?_, ?_, ?_⟩
  · by_contra hpresent
    exact h.free b (Or.inl (by simpa using hpresent)) hmark
  · by_contra hsome
    exact hG.before b (Option.isSome_iff_ne_none.2 hsome) (hmark.of_later h.start)
  · exact fun hin => h.free b (Or.inr (Or.inl hin)) hmark
  · exact fun hin => h.free b (Or.inr (Or.inr hin)) hmark

theorem Held.draw (h : Held W lo hi before temps backups v) (htree : v'.tree = v.tree)
    (hdrawn : v'.drawn = v.drawn + 1) : Held W lo hi before temps backups v' where
  undo := htree ▸ h.undo
  free p hp := by
    rw [htree] at hp
    rw [hdrawn]
    exact fun hmark => h.free p hp (hmark.of_later (Nat.le_succ _))
  named := h.named
  start := by
    have := h.start
    omega

theorem mkdir_spec (dir : Path) :
    (v.mkdir W dir).2.tree.files = v.tree.files ∧ (v.mkdir W dir).2.drawn = v.drawn ∧
      ∀ q, (v.mkdir W dir).2.tree.dirs q = v.tree.dirs q ∨ q <+: dir := by
  have hadd : ∀ made : Path → Bool, (∀ q, made q = true → q <+: dir) → ∀ q,
      (v.addDirs made).tree.dirs q = v.tree.dirs q ∨ q <+: dir := by
    intro made hmade q
    by_cases hq : made q = true
    · exact Or.inr (hmade q hq)
    · left
      simp [Volume.addDirs, hq]
  unfold Volume.mkdir Volume.call
  dsimp only
  split
  · refine ⟨rfl, rfl, ?_⟩
    exact hadd _ fun q hq => by
      rw [Bool.and_eq_true, decide_eq_true_iff] at hq
      exact hq.1
  · split
    · exact ⟨rfl, rfl, fun q => Or.inl rfl⟩
    · exact ⟨rfl, rfl, hadd _ fun q hq => by simpa using hq⟩

theorem writeText_cases (hp : v.tree.dirs p = false) (content : PyText) :
    (W.fault v.calls = true ∧ ∃ v', v.writeText W p content = (some .osError, v') ∧
      v'.tree = v.tree ∧ v'.drawn = v.drawn) ∨
    (W.fault v.calls = false ∧
      ¬ ((PyText.encodeUtf8 content).isSome = true ∧ W.fault (v.calls + 1) = false) ∧
      ∃ raised b v', v.writeText W p content = (some raised, v') ∧
        v'.tree = v.tree.write p b ∧ v'.drawn = v.drawn) ∨
    (W.fault v.calls = false ∧
      ((PyText.encodeUtf8 content).isSome = true ∧ W.fault (v.calls + 1) = false) ∧
      ∃ b v', v.writeText W p content = (none, v') ∧
        v'.tree = v.tree.write p b ∧ v'.drawn = v.drawn) := by
  unfold Volume.writeText Volume.call
  dsimp only
  rw [hp, Bool.or_false]
  cases hopen : W.fault v.calls with
  | true => exact Or.inl ⟨rfl, _, rfl, rfl, rfl⟩
  | false =>
    right
    cases hbytes : PyText.encodeUtf8 content with
    | none => exact Or.inl ⟨rfl, by simp, _, _, _, rfl, rfl, rfl⟩
    | some bytes =>
      cases hwrite : W.fault (v.calls + 1) with
      | true =>
        refine Or.inl ⟨rfl, by simp, .osError, W.written (v.calls + 1),
          ⟨v.tree.write p (W.written (v.calls + 1)), v.calls + 2, v.drawn⟩, ?_, rfl, rfl⟩
        simp
      | false =>
        refine Or.inr ⟨rfl, by simp, bytes, ⟨v.tree.write p bytes, v.calls + 2, v.drawn⟩, ?_, rfl,
          rfl⟩
        simp

def Written (W : Workspace) : List (Path × PyText) → Volume → Prop
  | [], _ => True
  | (target, content) :: rest, v =>
    match v.mkdir W target.dropLast with
    | (false, _) => True
    | (true, v) =>
      let (tmp, v) := v.drawName W target ".bh_tmp_"
      (W.fault v.calls = false →
        (PyText.encodeUtf8 content).isSome = true ∧ W.fault (v.calls + 1) = false) ∧
      ((v.writeText W tmp content).1.isNone = true → Written W rest (v.writeText W tmp content).2)

theorem Held.mkdir (h : Held W lo hi before temps [] v) (hG : Ground W lo hi before targets)
    {target : Path} (htarget : target ∈ targets) :
    Held W lo hi before temps [] (v.mkdir W target.dropLast).2 := by
  obtain ⟨hfiles, hdrawn, hdirs⟩ := mkdir_spec (W := W) (v := v) target.dropLast
  have hunmarked : ∀ q, q <+: target.dropLast → ¬ W.Marked lo hi q := by
    intro q hq hmark
    exact hG.targets target htarget (hmark.of_parent (hq.trans (List.dropLast_prefix target)))
  refine ⟨h.undo.of_files hfiles ?_, ?_, h.named, hdrawn ▸ h.start⟩
  · intro p hp
    rcases hp with hp | hp
    · rcases hdirs p with hsame | hq
      · exact hsame
      · exact absurd (h.named p (Or.inl hp)) (hunmarked p hq)
    · cases hp
  · intro p hp
    rw [hdrawn]
    rcases hp with hp | hp
    · unfold FileTree.present at hp
      rw [hfiles] at hp
      rcases hdirs p with hsame | hq
      · rw [hsame] at hp
        exact h.free p (Or.inl hp)
      · exact fun hmark => hunmarked p hq (hmark.of_later h.start)
    · exact h.free p (Or.inr hp)

theorem Held.write (h : Held W lo hi before temps [] v) (hp : before p = none)
    (hd : v.tree.dirs p = false) (hlater : ¬ W.Marked v.drawn hi p) (hmark : W.Marked lo hi p)
    {b : Bytes} (htree : v'.tree = v.tree.write p b) (hdrawn : v'.drawn = v.drawn) :
    Held W lo hi before (temps ++ [p]) [] v' := by
  refine ⟨htree ▸ FileTree.undoable_stage h.undo hp hd b, ?_, ?_, hdrawn ▸ h.start⟩
  · intro q hq
    rw [hdrawn]
    by_cases hqp : q = p
    · exact hqp ▸ hlater
    · refine h.free q ?_
      rcases hq with hq | hq | hq
      · left
        rwa [htree, FileTree.present_write hqp] at hq
      · right; left
        rcases List.mem_append.1 hq with hq | hq
        · exact hq
        · exact absurd (List.mem_singleton.1 hq) hqp
      · cases hq
  · intro q hq
    rcases hq with hq | hq
    · rcases List.mem_append.1 hq with hq | hq
      · exact h.named q (Or.inl hq)
      · exact List.mem_singleton.1 hq ▸ hmark
    · cases hq

/-- A file that is left behind: it was not there, and no clean-up knows it. -/
def LeftBehind (before : Path → Option Bytes) (temps : List Path) (v : Volume) : Prop :=
  ∃ p, before p = none ∧ p ∉ temps ∧ (v.tree.files p).isSome = true

variable {raised : Option Raised}

/-- **The staging loop**, however it ends: what it has staged can be undone, unless a
temporary file was opened and not written, which is then left behind. -/
theorem stage_spec (hG : Ground W lo hi before targets) {writes : List (Path × PyText)}
    {staged staged' : List (Path × Path)}
    (h : Held W lo hi before (staged.map Prod.fst) [] v) (hin : ∀ w ∈ writes, w.1 ∈ targets)
    (hroom : v.drawn + writes.length ≤ hi)
    (hrun : stageWrites W writes staged v = (raised, staged', v')) :
    (Written W writes v → Held W lo hi before (staged'.map Prod.fst) [] v' ∧
      (raised = none → v'.drawn ≤ v.drawn + writes.length ∧
        staged'.map Prod.snd = staged.map Prod.snd ++ writes.map Prod.fst)) ∧
    (¬ Written W writes v → raised ≠ none ∧ LeftBehind before (staged'.map Prod.fst) v') := by
  induction writes generalizing staged v with
  | nil =>
    cases hrun
    exact ⟨fun _ => ⟨h, fun _ => ⟨by simp, by simp⟩⟩, fun hnot => absurd trivial hnot⟩
  | cons w rest ih =>
    obtain ⟨target, content⟩ := w
    have htarget : target ∈ targets := hin _ List.mem_cons_self
    have hrest : ∀ w ∈ rest, w.1 ∈ targets := fun w hw => hin w (List.mem_cons_of_mem _ hw)
    have hmkdir := h.mkdir hG htarget
    have hdrawn := (mkdir_spec (W := W) (v := v) target.dropLast).2.1
    rw [List.length_cons] at hroom ⊢
    rcases hmk : v.mkdir W target.dropLast with ⟨made, v₁⟩
    rw [hmk] at hmkdir hdrawn
    simp only at hmkdir hdrawn
    cases made with
    | false =>
      simp only [stageWrites, Written, hmk] at hrun ⊢
      cases hrun
      exact ⟨fun _ => ⟨hmkdir, fun hnone => by cases hnone⟩, fun hnot => absurd trivial hnot⟩
    | true =>
      -- the temporary file, at a name that is new
      have hend := endsIn_draw (W := W) (v := v₁) target ".bh_tmp_"
      have hlater := unmarked_draw hG.distinct hmkdir.start (by omega) (hG.targets target htarget)
        ".bh_tmp_"
      rcases hdr : v₁.drawName W target ".bh_tmp_" with ⟨tmp, v₂⟩
      have htree₂ : v₂.tree = v₁.tree := by cases hdr; rfl
      have hdrawn₂ : v₂.drawn = v₁.drawn + 1 := by cases hdr; rfl
      rw [hdr] at hend hlater
      obtain ⟨hgone, hbefore, htemps, -⟩ := hmkdir.drawn_new hG (by omega) hend
      have hheld := hmkdir.draw htree₂ hdrawn₂
      have hdir : v₂.tree.dirs tmp = false := by
        rw [htree₂]
        exact (Bool.or_eq_false_iff.1 hgone).2
      simp only [stageWrites, Written, hmk, hdr] at hrun ⊢
      rcases writeText_cases (W := W) hdir content with
        ⟨hopen, v₃, hw, htree, hd⟩ | ⟨hopen, hbad, r, b, v₃, hw, htree, hd⟩ |
        ⟨hopen, hgood, b, v₃, hw, htree, hd⟩
      · -- it could not be opened
        rw [hw] at hrun ⊢
        cases hrun
        refine ⟨fun _ => ⟨hheld.quiet htree hd, fun hnone => by cases hnone⟩, fun hnot => ?_⟩
        refine absurd ⟨fun hclosed => ?_, fun hnone => by cases hnone⟩ hnot
        rw [hopen] at hclosed
        cases hclosed
      · -- it was opened and not written
        rw [hw] at hrun ⊢
        cases hrun
        refine ⟨fun hwritten => absurd (hwritten.1 hopen) hbad, fun _ => ⟨by simp, tmp, hbefore,
          htemps, ?_⟩⟩
        rw [htree]
        show (Function.update v₂.tree.files tmp (some b) tmp).isSome = true
        rw [Function.update_self]
        rfl
      · rw [hw] at hrun ⊢
        have hnext : Held W lo hi before ((staged ++ [(tmp, target)]).map Prod.fst) [] v₃ := by
          rw [List.map_append]
          exact hheld.write hbefore hdir (hdrawn₂ ▸ hlater) ⟨v₁.drawn, hmkdir.start, by omega, hend⟩
            htree hd
        obtain ⟨hok, hbad⟩ := ih hnext hrest (by omega) hrun
        refine ⟨fun hwritten => ?_, fun hnot => hbad fun hall => hnot ⟨fun _ => hgood, fun _ => hall⟩⟩
        obtain ⟨hheld', hdone⟩ := hok (hwritten.2 rfl)
        refine ⟨hheld', fun hnone => ?_⟩
        obtain ⟨hle, hmap⟩ := hdone hnone
        refine ⟨by omega, ?_⟩
        rw [hmap]
        simp

theorem rename_cases (p q : Path) :
    (∃ v', v.rename W p q = (false, v') ∧ v'.tree = v.tree ∧ v'.drawn = v.drawn) ∨
    ((v.tree.files p).isSome = true ∧ v.tree.dirs q = false ∧
      ∃ v', v.rename W p q = (true, v') ∧ v'.tree = v.tree.move p q ∧ v'.drawn = v.drawn) := by
  unfold Volume.rename Volume.call
  dsimp only
  split
  · exact Or.inl ⟨_, rfl, rfl, rfl⟩
  · split
    · rename_i hmove
      rw [Bool.and_eq_true, Bool.not_eq_true'] at hmove
      exact Or.inr ⟨hmove.1, hmove.2, _, rfl, rfl, rfl⟩
    · exact Or.inl ⟨_, rfl, rfl, rfl⟩

theorem pathExists_spec (p : Path) :
    (v.pathExists W p).2.tree = v.tree ∧ (v.pathExists W p).2.drawn = v.drawn ∧
      ∀ found, (v.pathExists W p).1 = some found → v.tree.present p = found := by
  refine ⟨rfl, rfl, ?_⟩
  intro found hfound
  unfold Volume.pathExists Volume.call at hfound
  dsimp only at hfound
  split at hfound
  · cases hfound
  · exact Option.some.inj hfound

theorem isDir_spec (p : Path) :
    (v.isDir W p).2.tree = v.tree ∧ (v.isDir W p).2.drawn = v.drawn ∧
      ∀ found, (v.isDir W p).1 = some found → v.tree.dirs p = found := by
  refine ⟨rfl, rfl, ?_⟩
  intro found hfound
  unfold Volume.isDir Volume.call at hfound
  dsimp only at hfound
  split at hfound
  · cases hfound
  · exact Option.some.inj hfound

theorem Held.backUp (h : Held W lo hi before temps backups v) (hG : Ground W lo hi before targets)
    {b : Path} (hp : p ∈ targets) (hfile : (v.tree.files p).isSome = true)
    (hdir : v.tree.dirs p = false) (hb : v.tree.present b = false) (hbefore : before b = none)
    (hbtemps : b ∉ temps) (hlater : ¬ W.Marked v.drawn hi b) (hmark : W.Marked lo hi b)
    (htree : v'.tree = v.tree.move p b) (hdrawn : v'.drawn = v.drawn) :
    Held W lo hi before temps (backups ++ [(b, p)]) v' := by
  obtain ⟨hptemps, hpfst⟩ := h.target_apart hG hp
  have hfree : v.tree.files b = none := by
    have hnone := (Bool.or_eq_false_iff.1 hb).1
    simpa using hnone
  refine ⟨htree ▸ FileTree.undoable_backUp h.undo hfile hdir hptemps hpfst hbefore hfree hbtemps,
    ?_, ?_, hdrawn ▸ h.start⟩
  · intro q hq
    rw [hdrawn]
    by_cases hqb : q = b
    · exact hqb ▸ hlater
    · refine h.free q ?_
      rcases hq with hq | hq | hq
      · rw [htree] at hq
        exact Or.inl (FileTree.present_of_move hq hqb)
      · exact Or.inr (Or.inl hq)
      · rw [List.map_append] at hq
        rcases List.mem_append.1 hq with hq | hq
        · exact Or.inr (Or.inr hq)
        · exact absurd (List.mem_singleton.1 hq) hqb
  · intro q hq
    rcases hq with hq | hq
    · exact h.named q (Or.inl hq)
    · rw [List.map_append] at hq
      rcases List.mem_append.1 hq with hq | hq
      · exact h.named q (Or.inr hq)
      · exact List.mem_singleton.1 hq ▸ hmark

/-- The place of a target is empty, and will be so after the undo if it was so before. -/
def Vacated (before : Path → Option Bytes) (backups : List (Path × Path)) (p : Path) : Prop :=
  p ∈ backups.map Prod.snd ∨ before p = none

def backsUp (W : Workspace) : List Path → Volume → Bool
  | [], _ => false
  | target :: rest, v =>
    match v.pathExists W target with
    | (none, _) => false
    | (some false, v) => backsUp W rest v
    | (some true, v) => (v.isDir W target).1 = some false

def Volume.backupName (W : Workspace) (v : Volume) (target : Path) : Path :=
  (v.drawName W target ".bh_bak_").1

/-- **One round of the backup loop**: it raises before it draws a name or after, there is
nothing to back up, or the target is moved. -/
inductive BackUpRound (W : Workspace) (target : Path) (rest : List Path)
    (backups : List (Path × Path)) (v v' : Volume) : Prop
  | refused (raised : Raised)
      (run : backUpAll W (target :: rest) backups v = (some raised, backups, v'))
      (begins : backsUp W (target :: rest) v = false)
      (tree : v'.tree = v.tree) (drawn : v'.drawn = v.drawn)
  | absent (run : backUpAll W (target :: rest) backups v = backUpAll W rest backups v')
      (begins : backsUp W (target :: rest) v = backsUp W rest v')
      (gone : v.tree.present target = false)
      (tree : v'.tree = v.tree) (drawn : v'.drawn = v.drawn)
  | stuck (run : backUpAll W (target :: rest) backups v = (some .osError, backups, v'))
      (begins : backsUp W (target :: rest) v = true)
      (tree : v'.tree = v.tree) (drawn : v'.drawn = v.drawn + 1)
  | moved (run : backUpAll W (target :: rest) backups v =
        backUpAll W rest (backups ++ [(v.backupName W target, target)]) v')
      (begins : backsUp W (target :: rest) v = true)
      (file : (v.tree.files target).isSome = true) (noDir : v.tree.dirs target = false)
      (tree : v'.tree = v.tree.move target (v.backupName W target))
      (drawn : v'.drawn = v.drawn + 1)

theorem backUp_round (target : Path) (rest : List Path) (backups : List (Path × Path))
    (v : Volume) : ∃ v', BackUpRound W target rest backups v v' := by
  obtain ⟨htree₁, hdrawn₁, hexists⟩ := pathExists_spec (W := W) (v := v) target
  rcases hpe : v.pathExists W target with ⟨found, v₁⟩
  rw [hpe] at htree₁ hdrawn₁ hexists
  rcases found with _ | _ | _
  · exact ⟨v₁, .refused .osError (by simp only [backUpAll, hpe]) (by simp only [backsUp, hpe])
      htree₁ hdrawn₁⟩
  · exact ⟨v₁, .absent (by simp only [backUpAll, hpe]) (by simp only [backsUp, hpe])
      (hexists false rfl) htree₁ hdrawn₁⟩
  obtain ⟨htree₂, hdrawn₂, hisdir⟩ := isDir_spec (W := W) (v := v₁) target
  rcases hid : v₁.isDir W target with ⟨dir, v₂⟩
  rw [hid] at htree₂ hdrawn₂ hisdir
  simp only at htree₁ hdrawn₁ htree₂ hdrawn₂ hisdir
  have htree : v₂.tree = v.tree := htree₂.trans htree₁
  have hdrawn : v₂.drawn = v.drawn := hdrawn₂.trans hdrawn₁
  have hbegins : backsUp W (target :: rest) v = decide (dir = some false) := by
    simp only [backsUp, hpe, hid]
  rcases dir with _ | _ | _
  · exact ⟨v₂, .refused .osError (by simp only [backUpAll, hpe, hid]) hbegins htree hdrawn⟩
  · have hname : (v₂.drawName W target ".bh_bak_").1 = v.backupName W target := by
      unfold Volume.backupName Volume.drawName
      rw [hdrawn]
    rcases hdr : v₂.drawName W target ".bh_bak_" with ⟨backup, v₃⟩
    have htree₃ : v₃.tree = v.tree := by
      cases hdr
      exact htree
    have hdrawn₃ : v₃.drawn = v.drawn + 1 := by
      cases hdr
      exact congrArg (· + 1) hdrawn
    rw [hdr] at hname
    subst hname
    rcases rename_cases (W := W) (v := v₃) target (v.backupName W target) with
      ⟨v₄, hre, htree₄, hdrawn₄⟩ | ⟨hfile, -, v₄, hre, htree₄, hdrawn₄⟩
    · exact ⟨v₄, .stuck (by simp only [backUpAll, hpe, hid, hdr, hre]) hbegins
        (htree₄.trans htree₃) (hdrawn₄.trans hdrawn₃)⟩
    · rw [htree₃] at hfile htree₄
      exact ⟨v₄, .moved (by simp only [backUpAll, hpe, hid, hdr, hre]) hbegins hfile
        (htree₁ ▸ hisdir false rfl) htree₄ (hdrawn₄.trans hdrawn₃)⟩
  · exact ⟨v₂, .refused .valueError (by simp only [backUpAll, hpe, hid]) hbegins htree hdrawn⟩

/-- **The backup loop**, however it ends, and what it has done when it gets to the end. -/
theorem backUp_spec (hG : Ground W lo hi before targets) {paths : List Path}
    {backups' : List (Path × Path)}
    (h : Held W lo hi before temps backups v) (hin : ∀ p ∈ paths, p ∈ targets)
    (hroom : v.drawn + paths.length ≤ hi)
    (hrun : backUpAll W paths backups v = (raised, backups', v')) :
    Held W lo hi before temps backups' v' ∧ backups ⊆ backups' ∧
      (raised = none → ∀ p ∈ paths, Vacated before backups' p) := by
  induction paths generalizing backups v with
  | nil =>
    cases hrun
    exact ⟨h, fun e he => he, fun _ p hp => by cases hp⟩
  | cons target rest ih =>
    have htarget : target ∈ targets := hin _ List.mem_cons_self
    have hrest : ∀ p ∈ rest, p ∈ targets := fun p hp => hin p (List.mem_cons_of_mem _ hp)
    obtain ⟨htemps, hfst⟩ := h.target_apart hG htarget
    rw [List.length_cons] at hroom
    obtain ⟨v₁, hround⟩ := backUp_round (W := W) target rest backups v
    cases hround with
    | refused raised run begins tree drawn =>
      rw [run] at hrun
      cases hrun
      exact ⟨h.quiet tree drawn, fun e he => he, fun hnone => by cases hnone⟩
    | stuck run begins tree drawn =>
      rw [run] at hrun
      cases hrun
      exact ⟨h.draw tree drawn, fun e he => he, fun hnone => by cases hnone⟩
    | absent run begins gone tree drawn =>
      -- nothing to back up: it was empty before, or a backup has been made
      have hvacated : Vacated before backups target := by
        by_cases hsnd : target ∈ backups.map Prod.snd
        · exact Or.inl hsnd
        · right
          have hnone := (Bool.or_eq_false_iff.1 gone).1
          rw [← h.undo.same target htemps hfst hsnd]
          simpa using hnone
      rw [run] at hrun
      obtain ⟨hheld, hsub, hdone⟩ := ih (h.quiet tree drawn) hrest (by omega) hrun
      refine ⟨hheld, hsub, fun hnone p hp => ?_⟩
      rcases List.mem_cons.1 hp with rfl | hp
      · exact hvacated.imp_left fun hsnd => List.map_subset _ hsub hsnd
      · exact hdone hnone p hp
    | moved run begins file noDir tree drawn =>
      have hend : W.EndsIn v.drawn (v.backupName W target) := endsIn_draw target ".bh_bak_"
      have hlater : ¬ W.Marked (v.drawn + 1) hi (v.backupName W target) :=
        unmarked_draw hG.distinct h.start (by omega) (hG.targets target htarget) ".bh_bak_"
      obtain ⟨hgone, hbefore, hbtemps, -⟩ := h.drawn_new hG (by omega) hend
      -- the name is drawn, then the target is moved there
      have hnamed : Held W lo hi before temps backups { v with drawn := v.drawn + 1 } :=
        h.draw rfl rfl
      have hmoved : Held W lo hi before temps (backups ++ [(v.backupName W target, target)]) v₁ :=
        hnamed.backUp hG htarget file noDir hgone hbefore hbtemps hlater
          ⟨v.drawn, h.start, by omega, hend⟩ tree drawn
      rw [run] at hrun
      obtain ⟨hheld, hsub, hdone⟩ := ih hmoved hrest (by omega) hrun
      refine ⟨hheld, fun e he => hsub (List.mem_append_left _ he), fun hnone p hp => ?_⟩
      rcases List.mem_cons.1 hp with rfl | hp
      · have hmem : (v.backupName W p, p) ∈ backups' :=
          hsub (List.mem_append_right _ (List.mem_singleton_self _))
        exact Or.inl (List.mem_map.2 ⟨_, hmem, rfl⟩)
      · exact hdone hnone p hp

/-- The targets in place, and what the undo needs once they are removed. -/
structure Activated (before : Path → Option Bytes) (temps : List Path)
    (backups : List (Path × Path)) (activated : List Path) (v : Volume) : Prop where
  undo : FileTree.Undoable before temps backups (activated.foldl FileTree.clean v.tree)
  files : ∀ p ∈ activated, v.tree.dirs p = false

/-- **The activation loop**, however it ends. -/
theorem activate_spec {pairs : List (Path × Path)} {activated activated' : List Path} (h : Activated before temps backups activated v)
    (hpairs : ∀ e ∈ pairs, e.1 ∈ temps ∧ Vacated before backups e.2 ∧ e.2 ∉ backups.map Prod.fst)
    (hrun : activateAll W pairs activated v = (raised, activated', v')) :
    Activated before temps backups activated' v' := by
  induction pairs generalizing activated v with
  | nil =>
    cases hrun
    exact h
  | cons e rest ih =>
    obtain ⟨tmp, target⟩ := e
    obtain ⟨htmp, hvacated, hfst⟩ := hpairs _ List.mem_cons_self
    simp only [activateAll] at hrun
    rcases rename_cases (W := W) (v := v) tmp target with
      ⟨v₁, hre, htree, -⟩ | ⟨-, hdir, v₁, hre, htree, -⟩
    · rw [hre] at hrun
      cases hrun
      exact ⟨htree ▸ h.undo, htree ▸ h.files⟩
    · rw [hre] at hrun
      refine ih ⟨?_, ?_⟩ (fun e he => hpairs e (List.mem_cons_of_mem _ he)) hrun
      · rw [htree]
        exact FileTree.undoable_activate h.undo h.files htmp hdir hvacated hfst
      · intro p hp
        rw [htree, FileTree.dirs_move]
        rcases List.mem_append.1 hp with hp | hp
        · exact h.files p hp
        · exact List.mem_singleton.1 hp ▸ hdir

/-- **The undo gives back every file**, and the clean-up after it changes nothing. -/
theorem files_rollBack {staged : List (Path × Path)} {activated : List Path}
    (h : Activated before (staged.map Prod.fst) backups activated v) :
    (rollBack staged backups activated v).tree.files = before := by
  have hundo := FileTree.undo_restores h.undo
  rw [← FileTree.cleanAll_reverse h.files] at hundo
  have hstaged := h.undo.staged
  unfold rollBack
  dsimp only
  generalize htree : backups.reverse.foldl FileTree.restore
    (activated.reverse.foldl FileTree.clean v.tree) = tree at hundo
  have hdirs : ∀ p ∈ staged.map Prod.fst,
      ((staged.map Prod.fst).foldl FileTree.clean tree).dirs p = false := by
    intro p hp
    have hdir := (hstaged p hp).2.1
    rw [FileTree.dirs_cleanAll] at hdir
    rw [FileTree.dirs_cleanAll, ← htree, FileTree.dirs_restoreAll, FileTree.dirs_cleanAll]
    exact hdir
  funext q
  rw [FileTree.files_cleanAll hdirs, hundo]
  split
  · rename_i hq
    exact (hstaged q hq).1.symm
  · rfl

theorem files_leftBehind {staged : List (Path × Path)}
    (h : LeftBehind before (staged.map Prod.fst) v) :
    (rollBack staged [] [] v).tree.files ≠ before := by
  obtain ⟨p, hbefore, htemps, hsome⟩ := h
  intro heq
  have hfile : (rollBack staged [] [] v).tree.files p = v.tree.files p := by
    unfold rollBack
    dsimp only [List.reverse_nil, List.foldl_nil]
    rw [FileTree.files_cleanAll_of_not_mem htemps, FileTree.files_cleanAll_of_not_mem htemps]
  rw [← hfile, heq, hbefore] at hsome
  cases hsome

def Plan.paths (plan : Plan) : List Path := plan.writes.map Prod.fst ++ plan.deletes

/-- **A commit that fails leaves the files as they were just when** every temporary file
that it opened was written; otherwise it does fail. -/
theorem commit_undone {plan : Plan} {failure : Option PatchFailure}
    (hG : Ground W v.drawn hi v.tree.files plan.paths)
    (hfree : ∀ p, v.tree.present p = true → ¬ W.Marked v.drawn hi p)
    (hroom : v.drawn + (plan.writes.length + plan.paths.length) ≤ hi)
    (hrun : commitAtomicPatchPlan W plan v = (failure, v')) :
    (Written W plan.writes v → failure ≠ none → v'.tree.files = v.tree.files) ∧
    (¬ Written W plan.writes v → failure ≠ none ∧ v'.tree.files ≠ v.tree.files) := by
  have hstart : Held W v.drawn hi v.tree.files (([] : List (Path × Path)).map Prod.fst) [] v := by
    refine ⟨FileTree.undoable_nil _, ?_, ?_, le_refl _⟩
    · intro p hp
      rcases hp with hp | hp | hp
      · exact hfree p hp
      · cases hp
      · cases hp
    · intro p hp
      rcases hp with hp | hp <;> cases hp
  have hwrites : ∀ w ∈ plan.writes, w.1 ∈ plan.paths := fun w hw =>
    List.mem_append_left _ (List.mem_map_of_mem hw)
  unfold commitAtomicPatchPlan at hrun
  rcases hst : stageWrites W plan.writes [] v with ⟨raised, staged, v₁⟩
  obtain ⟨hok, hbad⟩ := stage_spec hG hstart hwrites (by omega) hst
  rw [hst] at hrun
  refine ⟨fun hwritten => ?_, fun hnot => ?_⟩
  · obtain ⟨hheld, hstaged⟩ := hok hwritten
    cases raised with
    | some raised =>
      cases hrun
      exact fun _ => files_rollBack ⟨hheld.undo, fun p hp => by cases hp⟩
    | none =>
      obtain ⟨hdrawn, hmap⟩ := hstaged rfl
      rw [List.map_nil, List.nil_append] at hmap
      simp only at hrun
      have hpaths : staged.map Prod.snd ++ plan.deletes = plan.paths := by
        rw [hmap]
        rfl
      rw [hpaths] at hrun
      rcases hba : backUpAll W plan.paths [] v₁ with ⟨raised, backups, v₂⟩
      obtain ⟨hheld₂, -, hvacated⟩ := backUp_spec hG hheld (fun p hp => hp) (by omega) hba
      rw [hba] at hrun
      cases raised with
      | some raised =>
        cases hrun
        exact fun _ => files_rollBack ⟨hheld₂.undo, fun p hp => by cases hp⟩
      | none =>
        simp only at hrun
        have hpairs : ∀ e ∈ staged, e.1 ∈ staged.map Prod.fst ∧
            Vacated v.tree.files backups e.2 ∧ e.2 ∉ backups.map Prod.fst := by
          intro e he
          have htarget : e.2 ∈ plan.paths := hpaths ▸
            List.mem_append_left _ (List.mem_map_of_mem he)
          exact ⟨List.mem_map_of_mem he, hvacated rfl e.2 htarget,
            (hheld₂.target_apart hG htarget).2⟩
        rcases hac : activateAll W staged [] v₂ with ⟨raised, activated, v₃⟩
        have hnone : Activated v.tree.files (staged.map Prod.fst) backups [] v₂ :=
          ⟨hheld₂.undo, fun p hp => by cases hp⟩
        have hactivated := activate_spec hnone hpairs hac
        rw [hac] at hrun
        cases raised with
        | some raised =>
          cases hrun
          exact fun _ => files_rollBack hactivated
        | none =>
          cases hrun
          exact fun hne => absurd rfl hne
  · obtain ⟨hraised, hleft⟩ := hbad hnot
    cases raised with
    | none => exact absurd rfl hraised
    | some raised =>
      cases hrun
      exact ⟨by simp, files_leftBehind hleft⟩

end ClawHarder.Comms
