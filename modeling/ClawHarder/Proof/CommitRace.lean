import Mathlib.Data.Fintype.Basic
import ClawHarder.Proof.CommitFlight

/-!
# Optimistic locking

Any number of persistence instances commit on one path, and the steps of their commits
interleave. The revision is checked when it is read and not again; all instances write
one temporary file.

* `locked_tick`: what every step keeps, if a commit opens the temporary file only while
  the revision that it checked is on disk and no other commit holds the file.
* `optimistic_lock`: **in runs with such steps at most one of the commits that expect a
  revision succeeds, and the visible revision only rises.**
-/

namespace ClawHarder

variable {N : Type} [JsNumber N] {E : Env N} {L : Manifest N → ℕ}

/-- The two names are of different files, and a new file is neither. -/
structure Files.Apart (files : Files N) : Prop where
  manifest : ∀ i, files.manifest = some i → i < files.fresh
  tmp : ∀ i, files.tmp = some i → i < files.fresh
  apart : ∀ i, files.manifest = some i → files.tmp ≠ some i

def Rises (files files' : Files N) : Prop :=
  files'.visible = files.visible ∨
    ∃ old new, files.revision = some old ∧ files'.revision = some new ∧ old < new

variable {files : Files N}

omit [JsNumber N] in
theorem Files.revision_congr {files' : Files N} (h : files'.visible = files.visible) :
    files'.revision = files.revision := by
  unfold Files.revision
  rw [h]

omit [JsNumber N] in
theorem Rises.revision {files' : Files N} (h : Rises files files') {v : ℤ}
    (hv : files.revision = some v) : ∃ w, files'.revision = some w ∧ v ≤ w := by
  rcases h with hsame | ⟨old, new, hold, hnew, hlt⟩
  · exact ⟨v, (Files.revision_congr hsame).trans hv, le_rfl⟩
  · rw [hv] at hold
    cases hold
    exact ⟨new, hnew, hlt.le⟩

omit [JsNumber N] in
theorem Files.visible_put {fd : ℕ} (h : files.manifest ≠ some fd)
    (blob : Blob N) : (files.put fd blob).visible = files.visible := by
  unfold Files.visible Files.put
  cases hm : files.manifest with
  | none => rfl
  | some i =>
    have hne : i ≠ fd := fun heq => h (heq ▸ hm)
    simp [Function.update_of_ne hne]

omit [JsNumber N] in
theorem Files.Apart.put (h : files.Apart) (fd : ℕ) (blob : Blob N) :
    (files.put fd blob).Apart := ⟨h.manifest, h.tmp, h.apart⟩

omit [JsNumber N] in
theorem Files.Apart.open_ne (h : files.Apart) :
    files.manifest ≠ some files.openTmp.1 := by
  intro hm
  have hfd : files.openTmp.1 = files.tmp.getD files.fresh := rfl
  cases ht : files.tmp with
  | none =>
    rw [ht] at hfd
    have hlt := h.manifest _ hm
    rw [hfd] at hlt
    exact absurd hlt (lt_irrefl _)
  | some i =>
    rw [ht] at hfd
    have htmp : files.tmp = some files.openTmp.1 := by rw [ht, hfd]; rfl
    exact h.apart _ hm htmp

omit [JsNumber N] in
theorem Files.Apart.openTmp (h : files.Apart) : files.openTmp.2.Apart := by
  have hne := h.open_ne
  have hfresh : files.fresh ≤ files.openTmp.2.fresh := by
    show files.fresh ≤ if files.tmp = none then files.fresh + 1 else files.fresh
    split <;> omega
  refine ⟨fun i hi => lt_of_lt_of_le (h.manifest i hi) hfresh, ?_, ?_⟩
  · intro i hi
    have hfd : files.tmp.getD files.fresh = i := Option.some.inj hi
    show i < if files.tmp = none then files.fresh + 1 else files.fresh
    cases ht : files.tmp with
    | none =>
      rw [ht] at hfd
      simp only [Option.getD_none] at hfd
      simp only [if_true]
      omega
    | some j =>
      rw [ht] at hfd
      simp only [Option.getD_some] at hfd
      have hlt := h.tmp j ht
      simp only [reduceCtorEq, if_false]
      omega
  · intro i hi hfd
    have heq : files.openTmp.1 = i := Option.some.inj hfd
    exact hne (heq ▸ hi)

omit [JsNumber N] in
theorem Files.visible_openTmp (h : files.Apart) :
    files.openTmp.2.visible = files.visible := by
  have hput : (files.put files.openTmp.1 { file := .garbled, length := 0 }).visible =
    files.visible := Files.visible_put h.open_ne _
  exact hput

/-- Between the open and the rename, with nothing failed: the commit holds the
temporary file. -/
def Stage.holds : Stage N → Bool
  | .writing _ _ => true
  | .syncing _ _ => true
  | .closing _ _ failed => !failed
  | .replacing _ => true
  | _ => false

def Stage.landed : Stage N → Bool
  | .replaced _ => true
  | .returned (.ok _ _) => true
  | _ => false

def Stage.draft : Stage N → Option (Manifest N)
  | .hashing next => some next
  | .makingDir next => some next
  | .opening file => some file
  | .writing file _ => some file
  | .syncing file _ => some file
  | .closing file _ _ => some file
  | .replacing file => some file
  | _ => none

/-- Where a committer stands with the files: its manifest is one revision up, the
temporary file that it holds is its own and the revision on disk is the one it expects,
and when its file is in place the revision is higher. -/
structure Standing (files : Files N) (expected : ℤ) (stage : Stage N) : Prop where
  next : ∀ m, stage.draft = some m → m.revision = expected + 1
  held : stage.holds = true → files.revision = some expected ∧ ∃ m, Carries files m stage
  landed : stage.landed = true → ∃ v, files.revision = some v ∧ expected < v

def Stage.opens : Stage N → Bool
  | .opening _ => true
  | _ => false

def Opens (stage : Stage N) (fate : Fate N) : Prop := stage.opens = true ∧ fate.fails = false

omit [JsNumber N] in
/-- A committer that does not hold the temporary file minds no change that raises the
revision. -/
theorem Standing.other {files' : Files N} {expected : ℤ} {stage : Stage N}
    (h : Standing files expected stage) (hno : stage.holds = false) (hrise : Rises files files') :
    Standing files' expected stage := by
  refine ⟨h.next, fun hh => ?_, fun hl => ?_⟩
  · rw [hno] at hh
    cases hh
  · obtain ⟨v, hv, hlt⟩ := h.landed hl
    obtain ⟨w, hw, hle⟩ := hrise.revision hv
    exact ⟨w, hw, lt_of_lt_of_le hlt hle⟩

structure Stepped (files : Files N) (expected : ℤ) (stage : Stage N) (fate : Fate N)
    (stage' : Stage N) (files' : Files N) : Prop where
  apart : files'.Apart
  standing : Standing files' expected stage'
  rises : Rises files files'
  /-- only the holder of the temporary file changes files, or the one that opens it -/
  frame : files' = files ∨ stage.holds = true ∨ Opens stage fate
  holds : stage'.holds = true → stage.holds = true ∨ Opens stage fate
  landed : stage'.landed = true → stage.landed = true ∨ stage.holds = true

omit [JsNumber N] in
theorem Stepped.idle {expected : ℤ} {stage stage' : Stage N} {fate : Fate N}
    (hA : files.Apart) (hnext : ∀ m, stage'.draft = some m → m.revision = expected + 1)
    (hno : stage'.holds = false) (hl : stage'.landed = false) :
    Stepped files expected stage fate stage' files where
  apart := hA
  standing := ⟨hnext, fun hh => absurd hh (by simp [hno]), fun h => absurd h (by simp [hl])⟩
  rises := Or.inl rfl
  frame := Or.inl rfl
  holds hh := absurd hh (by simp [hno])
  landed h := absurd h (by simp [hl])

/-- **A step of one commit.** -/
theorem committer_step {expected : ℤ} {stage : Stage N} (hA : files.Apart)
    (h : Standing files expected stage) (actor : String) (working : Manifest N) (fate : Fate N)
    (sys : Sys) (hopen : Opens stage fate → files.revision = some expected) :
    Stepped files expected stage fate
      (advance E L actor working expected fate files sys stage).1
      (advance E L actor working expected fate files sys stage).2.1 := by
  have hnone : ∀ m : Manifest N, (none : Option (Manifest N)) = some m →
      m.revision = expected + 1 := by
    intro m hm
    cases hm
  cases stage with
  | reading => exact .idle hA hnone rfl rfl
  | read revision =>
    cases revision with
    | none => exact .idle hA hnone rfl rfl
    | some r =>
      simp only [advance]
      split
      · exact .idle hA hnone rfl rfl
      · rename_i hne
        obtain rfl : r = expected := by simpa using hne
        refine .idle hA ?_ rfl rfl
        intro m hm
        cases hm
        rfl
  | hashing next => exact .idle hA h.next rfl rfl
  | makingDir next =>
    simp only [advance]
    split
    · exact .idle hA hnone rfl rfl
    · refine .idle hA ?_ rfl rfl
      intro m hm
      cases hm
      exact h.next next rfl
  | opening file =>
    simp only [advance]
    split
    · exact .idle hA hnone rfl rfl
    · rename_i hfine
      have hopens : Opens (.opening file) fate := ⟨rfl, by simpa using hfine⟩
      have hvisible := Files.visible_openTmp hA
      have hrev := (Files.revision_congr hvisible).trans (hopen hopens)
      refine ⟨hA.openTmp, ⟨h.next, fun _ => ⟨hrev, file, rfl, rfl, ?_⟩, ?_⟩, Or.inl hvisible,
        Or.inr (Or.inr hopens), fun _ => Or.inr hopens, ?_⟩
      · unfold Files.openTmp
        simp
      · intro hl
        cases hl
      · intro hl
        cases hl
  | writing file fd =>
    obtain ⟨hrev, m, hm, htmp, hempty⟩ := h.held rfl
    have hne : files.manifest ≠ some fd := fun heq => hA.apart fd heq htmp
    simp only [advance]
    split
    · have hvisible := Files.visible_put hne fate.left
      refine ⟨hA.put fd _, ⟨h.next, ?_, ?_⟩, Or.inl hvisible, Or.inr (Or.inl rfl), ?_, ?_⟩ <;>
        (intro hh; cases hh)
    · have hvisible : (files.write fd (L file) file fate.left).visible = files.visible :=
        Files.visible_put hne _
      refine ⟨hA.put fd _, ⟨h.next, fun _ => ⟨(Files.revision_congr hvisible).trans hrev, file,
        rfl, htmp, Files.write_empty hempty _ _ _⟩, ?_⟩, Or.inl hvisible, Or.inr (Or.inl rfl),
        fun _ => Or.inl rfl, ?_⟩ <;> (intro hh; cases hh)
  | syncing file fd =>
    obtain ⟨hrev, m, hm, htmp, hfile⟩ := h.held rfl
    refine ⟨hA, ⟨h.next, fun hh => ⟨hrev, m, ?_, hm, htmp, hfile⟩, ?_⟩, Or.inl rfl, Or.inl rfl,
      fun _ => Or.inl rfl, ?_⟩
    · have hfine : (!fate.fails) = true := hh
      simpa using hfine
    · intro hl
      cases hl
    · intro hl
      cases hl
  | closing file fd failed =>
    simp only [advance]
    split
    · exact .idle hA hnone rfl rfl
    · rename_i hfine
      have hopen : failed = false := by
        cases failed with
        | true => exact absurd rfl hfine
        | false => rfl
      subst hopen
      obtain ⟨hrev, m, -, hm, htmp, hfile⟩ := h.held rfl
      refine ⟨hA, ⟨h.next, fun _ => ⟨hrev, m, hm, fd, htmp, hfile⟩, ?_⟩, Or.inl rfl, Or.inl rfl,
        fun _ => Or.inl rfl, ?_⟩ <;> (intro hl; cases hl)
  | replacing file =>
    obtain ⟨hrev, m, hm, fd, htmp, hfile⟩ := h.held rfl
    obtain rfl : file = m := hm
    simp only [advance, Files.renameTmp, htmp]
    cases fate.fails with
    | true => exact .idle hA hnone rfl rfl
    | false =>
      -- the rename shows the next revision
      have hnew : ({ files with manifest := some fd, tmp := none } : Files N).revision =
          some (expected + 1) := by
        unfold Files.revision Files.visible
        simp only [Option.map_some, hfile]
        rw [h.next file rfl]
      refine ⟨⟨?_, ?_, ?_⟩, ⟨hnone, ?_, fun _ => ⟨expected + 1, hnew, by omega⟩⟩,
        Or.inr ⟨expected, expected + 1, hrev, hnew, by omega⟩, Or.inr (Or.inl rfl), ?_,
        fun _ => Or.inr rfl⟩
      · intro i hi
        cases hi
        exact hA.tmp fd htmp
      · intro i hi
        cases hi
      · intro i _ hi
        cases hi
      · intro hh
        cases hh
      · intro hh
        cases hh
  | replaced file =>
    refine ⟨hA, ⟨hnone, ?_, fun _ => h.landed rfl⟩, Or.inl rfl, Or.inl rfl, ?_,
      fun _ => Or.inl rfl⟩ <;> (intro hh; cases hh)
  | returned result =>
    exact ⟨hA, h, Or.inl rfl, Or.inl rfl, fun hh => Or.inl hh, fun hl => Or.inl hl⟩

variable {ι : Type} [DecidableEq ι]

/-- A commit opens the temporary file only while the revision that it checked is on disk
and no other commit holds the file. -/
def Exclusive (race : Race ι N) (e : ι × Fate N) : Prop :=
  Opens (race.committers e.1).stage e.2 →
    race.files.revision = some (race.committers e.1).expectedRevision ∧
      ∀ j, j ≠ e.1 → (race.committers j).stage.holds = false

instance [Fintype ι] (race : Race ι N) (e : ι × Fate N) : Decidable (Exclusive race e) :=
  inferInstanceAs (Decidable (_ ∧ _ → _ ∧ _))

/-- Every committer stands right, one at most holds the temporary file, and of those
that expect a revision one at most has put its file in place. -/
structure Locked (race : Race ι N) : Prop where
  apart : race.files.Apart
  standing : ∀ i, Standing race.files (race.committers i).expectedRevision
    (race.committers i).stage
  alone : ∀ i j, (race.committers i).stage.holds = true →
    (race.committers j).stage.holds = true → i = j
  first : ∀ i j, (race.committers i).stage.landed = true →
    (race.committers j).stage.landed = true →
    (race.committers i).expectedRevision = (race.committers j).expectedRevision → i = j

theorem tick_self (race : Race ι N) (e : ι × Fate N) :
    (race.tick E L e).committers e.1 =
      { race.committers e.1 with
        stage := (advance E L (race.committers e.1).actor (race.committers e.1).manifest
          (race.committers e.1).expectedRevision e.2 race.files race.sys
          (race.committers e.1).stage).1 } :=
  Function.update_self ..

theorem tick_other (race : Race ι N) (e : ι × Fate N) {j : ι} (h : j ≠ e.1) :
    (race.tick E L e).committers j = race.committers j :=
  Function.update_of_ne h ..

theorem tick_expected (race : Race ι N) (e : ι × Fate N) (j : ι) :
    ((race.tick E L e).committers j).expectedRevision =
      (race.committers j).expectedRevision := by
  by_cases h : j = e.1
  · rw [h, tick_self]
  · rw [tick_other race e h]

/-- **What every exclusive step keeps.** -/
theorem locked_tick {race : Race ι N} (h : Locked race) {e : ι × Fate N}
    (hg : Exclusive race e) :
    Locked (race.tick E L e) ∧ Rises race.files (race.tick E L e).files := by
  obtain ⟨i, fate⟩ := e
  have hstep := committer_step (E := E) (L := L) h.apart (h.standing i)
    (race.committers i).actor (race.committers i).manifest fate race.sys (fun ho => (hg ho).1)
  have hself := tick_self (E := E) (L := L) race (i, fate)
  have hother : ∀ j, j ≠ i → (race.tick E L (i, fate)).committers j = race.committers j :=
    fun j hj => tick_other race (i, fate) hj
  -- while the files change, the others hold nothing
  have hidle : ∀ j, j ≠ i → ((race.committers i).stage.holds = true ∨
      Opens (race.committers i).stage fate) → (race.committers j).stage.holds = false := by
    intro j hj hcause
    rcases hcause with hh | ho
    · cases hb : (race.committers j).stage.holds with
      | false => rfl
      | true => exact absurd (h.alone j i hb hh) hj
    · exact (hg ho).2 j hj
  refine ⟨⟨hstep.apart, ?_, ?_, ?_⟩, hstep.rises⟩
  · intro j
    by_cases hj : j = i
    · subst hj
      rw [hself]
      exact hstep.standing
    · rw [hother j hj]
      rcases hstep.frame with hsame | hcause
      · show Standing (advance E L _ _ _ _ _ _ _).2.1 _ _
        rw [hsame]
        exact h.standing j
      · exact (h.standing j).other (hidle j hj hcause) hstep.rises
  · have hnew : ∀ j, j ≠ i → ((race.tick E L (i, fate)).committers i).stage.holds = true →
        ((race.tick E L (i, fate)).committers j).stage.holds = true → False := by
      intro j hj hi hh
      rw [hself] at hi
      rw [hother j hj, hidle j hj (hstep.holds hi)] at hh
      cases hh
    intro j k hj hk
    by_cases hji : j = i
    · subst hji
      by_contra hne
      exact hnew k (Ne.symm hne) hj hk
    · by_cases hki : k = i
      · subst hki
        exact absurd hj (fun hj => hnew j hji hk hj)
      · rw [hother j hji] at hj
        rw [hother k hki] at hk
        exact h.alone j k hj hk
  · have hnew : ∀ j, j ≠ i → ((race.tick E L (i, fate)).committers i).stage.landed = true →
        ((race.tick E L (i, fate)).committers j).stage.landed = true →
        (race.committers i).expectedRevision = (race.committers j).expectedRevision → i = j := by
      intro j hj hi hl heq
      rw [hself] at hi
      rw [hother j hj] at hl
      rcases hstep.landed hi with hold | hheld
      · exact h.first i j hold hl heq
      · -- the revision that it checked is still on disk, past which the other put it
        obtain ⟨hrev, -⟩ := (h.standing i).held hheld
        obtain ⟨v, hv, hlt⟩ := (h.standing j).landed hl
        rw [hrev] at hv
        cases hv
        omega
    intro j k hj hk heq
    rw [tick_expected, tick_expected] at heq
    by_cases hji : j = i
    · subst hji
      by_cases hki : k = j
      · exact hki.symm
      · exact hnew k hki hj hk heq
    · by_cases hki : k = i
      · subst hki
        exact (hnew j hji hk hj heq.symm).symm
      · rw [hother j hji] at hj
        rw [hother k hki] at hk
        exact h.first j k hj hk heq

def Stage.left : Stage N → ℕ
  | .reading => 10
  | .read _ => 9
  | .hashing _ => 8
  | .makingDir _ => 7
  | .opening _ => 6
  | .writing _ _ => 5
  | .syncing _ _ => 4
  | .closing _ _ _ => 3
  | .replacing _ => 2
  | .replaced _ => 1
  | .returned _ => 0

theorem left_advance (actor : String) (working : Manifest N) (expected : ℤ) (fate : Fate N)
    (files : Files N) (sys : Sys) (stage : Stage N) :
    (advance E L actor working expected fate files sys stage).1.left ≤ stage.left - 1 := by
  cases stage with
  | read revision =>
    cases revision with
    | none => exact Nat.zero_le _
    | some r =>
      simp only [advance]
      split
      · exact Nat.zero_le _
      · exact le_rfl
  | replacing file =>
    simp only [advance]
    split
    · exact Nat.zero_le _
    · exact le_rfl
  | closing file fd failed =>
    simp only [advance]
    split
    · exact Nat.zero_le _
    · exact le_rfl
  | makingDir next =>
    simp only [advance]
    split
    · exact Nat.zero_le _
    · exact le_rfl
  | opening file =>
    simp only [advance]
    split
    · exact Nat.zero_le _
    · exact le_rfl
  | writing file fd =>
    simp only [advance]
    split
    · show 3 ≤ 5 - 1
      omega
    · exact le_rfl
  | _ => exact le_rfl

theorem left_run (race : Race ι N) (schedule : List (ι × Fate N)) (i : ι) :
    ((Machine.run (Race.tick E L) race schedule).committers i).stage.left ≤
      (race.committers i).stage.left - schedule.countP (fun e => e.1 = i) := by
  induction schedule generalizing race with
  | nil => exact le_rfl
  | cons e schedule ih =>
    rw [Machine.run_cons]
    refine (ih (race.tick E L e)).trans ?_
    by_cases hi : i = e.1
    · subst hi
      have hstep := left_advance (E := E) (L := L) (race.committers e.1).actor
        (race.committers e.1).manifest (race.committers e.1).expectedRevision e.2 race.files
        race.sys (race.committers e.1).stage
      rw [tick_self, List.countP_cons_of_pos (by simp)]
      show (advance E L _ _ _ _ _ _ _).1.left - _ ≤ _
      omega
    · rw [tick_other race e hi, List.countP_cons_of_neg (by simpa using Ne.symm hi)]

def Race.Won (race : Race ι N) (i : ι) : Prop :=
  ∃ r hash, (race.committers i).stage = .returned (.ok r hash)

/-- **Optimistic locking holds in runs of exclusive steps**: of the commits that expect
one revision at most one succeeds, what the manifest path shows changes only to a higher
revision, and a commit that goes on returns. -/
theorem optimistic_lock {race : Race ι N} (hstart : ∀ i, (race.committers i).stage = .reading)
    {r : ℤ} (hr : ∀ i, (race.committers i).expectedRevision = r) (hfiles : race.files.Apart)
    {schedule : List (ι × Fate N)}
    (hg : Machine.Guarded (Race.tick E L) Exclusive race schedule) :
    (∀ i j, (Machine.run (Race.tick E L) race schedule).Won i →
      (Machine.run (Race.tick E L) race schedule).Won j → i = j) ∧
    Machine.Guarded (Race.tick E L)
      (fun race e => Rises race.files (race.tick E L e).files) race schedule ∧
    ∀ i, 10 ≤ schedule.countP (fun e => e.1 = i) → ∃ result,
      ((Machine.run (Race.tick E L) race schedule).committers i).stage = .returned result := by
  have hlocked : Locked race := by
    refine ⟨hfiles, fun i => ⟨?_, ?_, ?_⟩, ?_, ?_⟩
    · intro m hm
      rw [hstart] at hm
      cases hm
    · intro hh
      rw [hstart] at hh
      cases hh
    · intro hl
      rw [hstart] at hl
      cases hl
    · intro i j hi
      rw [hstart] at hi
      cases hi
    · intro i j hi
      rw [hstart] at hi
      cases hi
  have hexpected : ∀ i, ((Machine.run (Race.tick E L) race schedule).committers
      i).expectedRevision = r :=
    fun i => Machine.run_inv_all (I := fun race : Race ι N =>
      (race.committers i).expectedRevision = r)
      (fun race e h => (tick_expected race e i).trans h) (hr i) schedule
  refine ⟨?_, ?_, ?_⟩
  · intro i j hi hj
    have hkeep : ∀ (race : Race ι N) (e : ι × Fate N), Locked race → Exclusive race e →
        Locked (race.tick E L e) := fun race e h hg => (locked_tick h hg).1
    have hend := Machine.run_inv hkeep hlocked hg
    obtain ⟨ri, hashi, hi⟩ := hi
    obtain ⟨rj, hashj, hj⟩ := hj
    refine hend.first i j ?_ ?_ ?_
    · rw [hi]
      rfl
    · rw [hj]
      rfl
    · rw [hexpected i, hexpected j]
  · clear hexpected hstart hr hfiles
    induction schedule generalizing race with
    | nil => trivial
    | cons e schedule ih =>
      obtain ⟨hnext, hrises⟩ := locked_tick hlocked hg.1
      exact ⟨hrises, ih hg.2 hnext⟩
  · intro i hcount
    have hleft := left_run (E := E) (L := L) race schedule i
    rw [hstart i] at hleft
    have hten : (Stage.reading : Stage N).left = 10 := rfl
    have hzero : ((Machine.run (Race.tick E L) race schedule).committers i).stage.left = 0 := by
      omega
    cases hstage : ((Machine.run (Race.tick E L) race schedule).committers i).stage with
    | returned result => exact ⟨result, rfl⟩
    | _ =>
      rw [hstage] at hzero
      cases hzero

/-- Two agents that each have a city to commit over the same manifest. -/
def twoCities : Race Bool ℚ where
  committers b :=
    { actor := "agent"
      manifest := (afterSession [.addFact (cityInput (if b then "Oslo" else "Rome") 0.5)]).working
      expectedRevision := 0
      stage := .reading }
  files := .holding oneCity.disk.manifestFile
  sys := {}

def stepsOf (b : Bool) (n : ℕ) : List (Bool × Fate ℚ) :=
  let fine : Fate ℚ := {}
  List.replicate n (b, fine)

def inOrder : List (Bool × Fate ℚ) := stepsOf false 10 ++ stepsOf true 10

/-- The race after steps of `twoCities`. -/
def raced (schedule : List (Bool × Fate ℚ)) : Race Bool ℚ :=
  Machine.run (Race.tick (Env.plain ℚ) fun _ => 0) twoCities schedule

theorem inOrder_locked :
    (∀ i j, (raced inOrder).Won i → (raced inOrder).Won j → i = j) ∧
    Machine.Guarded (Race.tick (Env.plain ℚ) fun _ => 0)
      (fun race e => Rises race.files (race.tick (Env.plain ℚ) (fun _ => 0) e).files) twoCities
      inOrder ∧
    ∀ i, 10 ≤ inOrder.countP (fun e => e.1 = i) → ∃ result,
      ((raced inOrder).committers i).stage = .returned result := by
  have hexpected : ∀ i, (twoCities.committers i).expectedRevision = 0 := fun _ => rfl
  have hapart : twoCities.files.Apart := by
    refine ⟨?_, ?_, ?_⟩
    · intro i hi
      cases hi
      decide
    · intro i hi
      cases hi
    · intro i _ hi
      cases hi
  exact optimistic_lock (fun _ => rfl) hexpected hapart
    (by decide +kernel : Machine.Guarded (Race.tick (Env.plain ℚ) fun _ => 0) Exclusive twoCities
      inOrder)

def bothRead : List (Bool × Fate ℚ) :=
  stepsOf false 1 ++ stepsOf true 1 ++ stepsOf false 9

def hashesShown : Option (ManifestFile ℚ) → List String
  | some (.manifest m) => m.facts.values.map (·.factHash)
  | _ => []

omit [JsNumber N] [DecidableEq ι] in
theorem won_of_read {race : Race ι N} {i : ι}
    (h : (match (race.committers i).stage with
      | .returned (.ok _ _) => true
      | _ => false) = true) : race.Won i := by
  split at h
  · rename_i r hash hstage
    exact ⟨r, hash, hstage⟩
  · cases h

/-- **The check and the rename are apart**: both of two commits succeed, and the second
shows the same revision with another content. -/
theorem both_commit :
    (¬ ∀ schedule i j, (raced schedule).Won i → (raced schedule).Won j → i = j) ∧
    ¬ ∀ schedule, Machine.Guarded (Race.tick (Env.plain ℚ) fun _ => 0)
      (fun race e => Rises race.files (race.tick (Env.plain ℚ) (fun _ => 0) e).files) twoCities
      schedule := by
  constructor
  · intro h
    have hfirst : (raced (bothRead ++ stepsOf true 9)).Won false :=
      won_of_read (by decide +kernel)
    have hsecond : (raced (bothRead ++ stepsOf true 9)).Won true :=
      won_of_read (by decide +kernel)
    exact absurd (h _ false true hfirst hsecond) (by decide)
  · intro h
    obtain ⟨-, hlast, -⟩ := Machine.guarded_append.1
      (h ((bothRead ++ stepsOf true 7) ++ stepsOf true 1))
    rcases hlast with hsame | ⟨old, new, hold, hnew, hlt⟩
    · have hhashes := congrArg hashesShown hsame
      exact absurd hhashes (by decide +kernel)
    · have hbefore : (raced (bothRead ++ stepsOf true 7)).files.revision = some 1 := by
        decide +kernel
      have hafter : ((raced (bothRead ++ stepsOf true 7)).tick (Env.plain ℚ) (fun _ => 0)
          (true, {})).files.revision = some 1 := by decide +kernel
      have hone : (1 : ℤ) = old := Option.some.inj (hbefore.symm.trans hold)
      have hone' : (1 : ℤ) = new := Option.some.inj (hafter.symm.trans hnew)
      omega

end ClawHarder
