import Mathlib.Data.List.Infix
import ClawHarder.Lib.FileTree

/-!
# Trees of directories

A file tree whose paths are lists of names: making directories, writing, renaming and
removing files, and removing and copying whole directories. An operation that the
operating system refuses is none. `Frame d t u` says that nothing at or below `d` tells
the two trees apart.

* `frame_mkdirs`, `frame_put`, `frame_rename`, `frame_unlink`, `frame_rmtree`,
  `frame_copyTree`: **an operation elsewhere keeps what is below a directory.**
* `below_copyTree`: what a copy holds.
-/

/-- What is above a path that is there is a directory, and a directory is no file. -/
structure DirTree (N B : Type*) extends FileTree (List N) B where
  parent : ∀ p a, (files (p ++ [a])).isSome = true ∨ dirs (p ++ [a]) = true → dirs p = true
  no_file : ∀ p, dirs p = true → files p = none

namespace DirTree

open FileTree (files_write files_move files_clean dirs_clean)

variable {N B : Type*} [DecidableEq N] {t u v : DirTree N B} {d p q r : List N}

/-- `path.exists()` -/
abbrev present (t : DirTree N B) (p : List N) : Bool := t.toFileTree.present p

omit [DecidableEq N] in
theorem dirs_above (t : DirTree N B) {r : List N} (hr : r ≠ [])
    (h : (t.files (d ++ r)).isSome = true ∨ t.dirs (d ++ r) = true) : t.dirs d = true := by
  induction r using List.reverseRecOn with
  | nil => exact absurd rfl hr
  | append_singleton r a ih =>
    rw [← List.append_assoc] at h
    have hparent := t.parent _ _ h
    by_cases hnil : r = []
    · rw [hnil, List.append_nil] at hparent
      exact hparent
    · exact ih hnil (Or.inr hparent)

omit [DecidableEq N] in
theorem files_below (t : DirTree N B) (h : t.present d = false) (r : List N) :
    t.files (d ++ r) = none := by
  unfold present FileTree.present at h
  rw [Bool.or_eq_false_iff] at h
  by_cases hr : r = []
  · rw [hr, List.append_nil]
    exact Option.not_isSome_iff_eq_none.1 (by rw [h.1]; exact Bool.false_ne_true)
  · cases hf : t.files (d ++ r) with
    | none => rfl
    | some b =>
      have hdir := t.dirs_above hr (Or.inl (by rw [hf]; rfl))
      rw [h.2] at hdir
      cases hdir

/-- `path.mkdir(parents=True, exist_ok=True)` -/
def mkdirs (t : DirTree N B) (p : List N) : Option (DirTree N B) :=
  if h : ∀ q ∈ p.inits, t.files q = none then
    some {
      files := t.files
      dirs := fun q => t.dirs q || decide (q ∈ p.inits)
      parent := fun q a hq => by
        simp only [Bool.or_eq_true, decide_eq_true_eq, List.mem_inits] at hq ⊢
        rcases hq with hq | hq | hq
        · exact Or.inl (t.parent q a (Or.inl hq))
        · exact Or.inl (t.parent q a (Or.inr hq))
        · exact Or.inr ((List.prefix_append q [a]).trans hq)
      no_file := fun q hq => by
        simp only [Bool.or_eq_true, decide_eq_true_eq] at hq
        rcases hq with hq | hq
        · exact t.no_file q hq
        · exact h q hq }
  else none

/-- `path.write_bytes(b)` -/
def put (t : DirTree N B) (p : List N) (b : B) : Option (DirTree N B) :=
  if h : t.dirs p = false ∧ t.dirs p.dropLast = true then
    some {
      t.write p b with
      parent := fun q a hq => by
        rw [files_write] at hq
        split at hq
        · rename_i heq
          rw [← heq, List.dropLast_concat] at h
          exact h.2
        · exact t.parent q a hq
      no_file := fun q hq => by
        have hqp : q ≠ p := fun heq => Bool.false_ne_true (h.1.symm.trans (heq ▸ hq))
        rw [files_write, if_neg hqp]
        exact t.no_file q hq }
  else none

/-- `src.replace(dst)` of a file -/
def rename (t : DirTree N B) (src dst : List N) : Option (DirTree N B) :=
  if h : (t.files src).isSome = true ∧ t.dirs dst = false ∧ t.dirs dst.dropLast = true then
    some {
      t.move src dst with
      parent := fun q a hq => by
        rw [files_move] at hq
        split at hq
        · rename_i heq
          rw [← heq, List.dropLast_concat] at h
          exact h.2.2
        · split at hq
          · rename_i heq
            exact t.parent q a (Or.inl (heq ▸ h.1))
          · exact t.parent q a hq
      no_file := fun q hq => by
        have hqd : q ≠ dst := fun heq => Bool.false_ne_true (h.2.1.symm.trans (heq ▸ hq))
        rw [files_move, if_neg hqd]
        split
        · rfl
        · exact t.no_file q hq }
  else none

/-- `path.unlink()` -/
def unlink (t : DirTree N B) (p : List N) : Option (DirTree N B) :=
  if h : (t.files p).isSome = true ∧ t.dirs p = false then
    some {
      t.clean p with
      parent := fun q a hq => by
        rw [files_clean h.2, dirs_clean] at hq
        rw [dirs_clean]
        split at hq
        · exact t.parent q a (Or.inr (hq.resolve_left Bool.false_ne_true))
        · exact t.parent q a hq
      no_file := fun q hq => by
        rw [dirs_clean] at hq
        rw [files_clean h.2]
        split
        · rfl
        · exact t.no_file q hq }
  else none

/-- `shutil.rmtree(path)` -/
def rmtree (t : DirTree N B) (p : List N) : Option (DirTree N B) :=
  if t.dirs p = true then
    some {
      files := fun q => if p <+: q then none else t.files q
      dirs := fun q => if p <+: q then false else t.dirs q
      parent := fun q a hq => by
        by_cases hpre : p <+: q ++ [a]
        · simp [if_pos hpre] at hq
        · rw [if_neg hpre, if_neg hpre] at hq
          have hnot : ¬ p <+: q := fun h => hpre (h.trans (List.prefix_append q [a]))
          rw [if_neg hnot]
          exact t.parent q a hq
      no_file := fun q hq => by
        split
        · rfl
        · rename_i hnot
          rw [if_neg hnot] at hq
          exact t.no_file q hq }
  else none

/-- `shutil.copytree(src, dst)` -/
def copyTree (t : DirTree N B) (src dst : List N) : Option (DirTree N B) :=
  if h : t.dirs src = true ∧ t.present dst = false ∧ ∀ q ∈ dst.inits, t.files q = none then
    some {
      files := fun q =>
        if dst <+: q then t.files (src ++ q.drop dst.length) else t.files q
      dirs := fun q =>
        if dst <+: q then t.dirs (src ++ q.drop dst.length)
        else t.dirs q || decide (q ∈ dst.inits)
      parent := fun q a hq => by
        by_cases hq' : dst <+: q
        · -- inside the copy, as in the source
          have hpre : dst <+: q ++ [a] := hq'.trans (List.prefix_append q [a])
          have hdrop : (q ++ [a]).drop dst.length = q.drop dst.length ++ [a] :=
            List.drop_append_of_le_length hq'.length_le
          rw [if_pos hpre, if_pos hpre, hdrop, ← List.append_assoc] at hq
          rw [if_pos hq']
          exact t.parent _ a hq
        · rw [if_neg hq']
          by_cases hpre : dst <+: q ++ [a]
          · have hdst : dst = q ++ [a] :=
              (List.prefix_concat_iff.1 hpre).resolve_right hq'
            simp [hdst]
          · rw [if_neg hpre, if_neg hpre] at hq
            simp only [Bool.or_eq_true, decide_eq_true_eq, List.mem_inits] at hq ⊢
            rcases hq with hq | hq | hq
            · exact Or.inl (t.parent q a (Or.inl hq))
            · exact Or.inl (t.parent q a (Or.inr hq))
            · exact Or.inr ((List.prefix_append q [a]).trans hq)
      no_file := fun q hq => by
        by_cases hpre : dst <+: q
        · rw [if_pos hpre] at hq ⊢
          exact t.no_file _ hq
        · rw [if_neg hpre] at hq ⊢
          rcases (Bool.or_eq_true _ _).mp hq with hq | hq
          · exact t.no_file q hq
          · exact h.2.2 q (of_decide_eq_true hq) }
  else none

theorem files_mkdirs (h : t.mkdirs p = some u) : u.files = t.files := by
  unfold mkdirs at h
  split at h
  · cases h
    rfl
  · cases h

theorem dirs_mkdirs (h : t.mkdirs p = some u) (q : List N) :
    u.dirs q = (t.dirs q || decide (q <+: p)) := by
  unfold mkdirs at h
  split at h
  · cases h
    simp only [List.mem_inits]
  · cases h

theorem files_put {b : B} (h : t.put p b = some u) (q : List N) :
    u.files q = if q = p then some b else t.files q := by
  unfold put at h
  split at h
  · cases h
    exact files_write ..
  · cases h

theorem dirs_put {b : B} (h : t.put p b = some u) : u.dirs = t.dirs := by
  unfold put at h
  split at h
  · cases h
    rfl
  · cases h

theorem files_rename (h : t.rename p q = some u) (x : List N) :
    u.files x = if x = q then t.files p else if x = p then none else t.files x := by
  unfold rename at h
  split at h
  · cases h
    exact files_move ..
  · cases h

theorem dirs_rename (h : t.rename p q = some u) : u.dirs = t.dirs := by
  unfold rename at h
  split at h
  · cases h
    rfl
  · cases h

theorem files_unlink (h : t.unlink p = some u) (q : List N) :
    u.files q = if q = p then none else t.files q := by
  unfold unlink at h
  split at h
  · rename_i hfile
    cases h
    exact files_clean hfile.2 q
  · cases h

theorem dirs_unlink (h : t.unlink p = some u) : u.dirs = t.dirs := by
  unfold unlink at h
  split at h
  · cases h
    exact dirs_clean ..
  · cases h

theorem files_rmtree (h : t.rmtree p = some u) (q : List N) :
    u.files q = if p <+: q then none else t.files q := by
  unfold rmtree at h
  split at h
  · cases h
    rfl
  · cases h

theorem files_copyTree (h : t.copyTree p q = some u) {x : List N} (hx : ¬ q <+: x) :
    u.files x = t.files x := by
  unfold copyTree at h
  split at h
  · cases h
    exact if_neg hx
  · cases h

theorem exists_mkdirs (h : ∀ q, q <+: p → t.files q = none) : ∃ u, t.mkdirs p = some u := by
  unfold mkdirs
  rw [dif_pos fun q hq => h q ((List.mem_inits _ _).1 hq)]
  exact ⟨_, rfl⟩

theorem exists_put (b : B) (hp : t.dirs p = false) (hparent : t.dirs p.dropLast = true) :
    ∃ u, t.put p b = some u := by
  unfold put
  rw [dif_pos ⟨hp, hparent⟩]
  exact ⟨_, rfl⟩

theorem exists_rename (hp : (t.files p).isSome = true) (hq : t.dirs q = false)
    (hparent : t.dirs q.dropLast = true) : ∃ u, t.rename p q = some u := by
  unfold rename
  rw [dif_pos ⟨hp, hq, hparent⟩]
  exact ⟨_, rfl⟩

theorem exists_unlink (hp : (t.files p).isSome = true) : ∃ u, t.unlink p = some u := by
  have hdir : t.dirs p = false := by
    cases hd : t.dirs p with
    | false => rfl
    | true =>
      rw [t.no_file p hd] at hp
      cases hp
  unfold unlink
  rw [dif_pos ⟨hp, hdir⟩]
  exact ⟨_, rfl⟩

theorem unlink_of_none (hp : t.files p = none) : t.unlink p = none := by
  unfold unlink
  rw [dif_neg fun h => by
    rw [hp] at h
    exact Bool.false_ne_true h.1]

theorem put_of_dir {b : B} (hp : t.dirs p = true) : t.put p b = none := by
  unfold put
  rw [dif_neg fun h => Bool.false_ne_true (h.1.symm.trans hp)]

/-- Nothing at or below `d` tells the two trees apart. -/
def Frame (d : List N) (t u : DirTree N B) : Prop :=
  ∀ q, d <+: q → u.files q = t.files q ∧ u.dirs q = t.dirs q

def Apart (d p : List N) : Prop := ¬ d <+: p ∧ ¬ p <+: d

omit [DecidableEq N] in
theorem Frame.refl (d : List N) (t : DirTree N B) : Frame d t t := fun _ _ => ⟨rfl, rfl⟩

omit [DecidableEq N] in
theorem Frame.trans (h₁ : Frame d t u) (h₂ : Frame d u v) : Frame d t v :=
  fun q hq => ⟨(h₂ q hq).1.trans (h₁ q hq).1, (h₂ q hq).2.trans (h₁ q hq).2⟩

omit [DecidableEq N] in
theorem Apart.not_below (h : Apart d p) (hq : d <+: q) : ¬ p <+: q := by
  intro hpq
  rcases List.prefix_or_prefix_of_prefix hq hpq with hdp | hpd
  · exact h.1 hdp
  · exact h.2 hpd

omit [DecidableEq N] in
theorem apart_of_head {a b : N} (h : a ≠ b) (p q : List N) : Apart (a :: p) (b :: q) := by
  constructor
  · intro hpre
    exact h (List.cons_prefix_cons.1 hpre).1
  · intro hpre
    exact h (List.cons_prefix_cons.1 hpre).1.symm

omit [DecidableEq N] in
theorem Apart.cons (h : Apart d p) (a : N) : Apart (a :: d) (a :: p) := by
  constructor
  · intro hpre
    exact h.1 (List.cons_prefix_cons.1 hpre).2
  · intro hpre
    exact h.2 (List.cons_prefix_cons.1 hpre).2

theorem frame_mkdirs (h : t.mkdirs p = some u) (hp : ¬ d <+: p) : Frame d t u := by
  intro q hq
  have hnot : ¬ q <+: p := fun hqp => hp (hq.trans hqp)
  refine ⟨congrFun (files_mkdirs h) q, ?_⟩
  rw [dirs_mkdirs h, decide_eq_false hnot, Bool.or_false]

theorem frame_put {b : B} (h : t.put p b = some u) (hp : ¬ d <+: p) : Frame d t u := by
  intro q hq
  have hne : q ≠ p := fun heq => hp (heq ▸ hq)
  exact ⟨by rw [files_put h, if_neg hne], congrFun (dirs_put h) q⟩

theorem frame_rename (h : t.rename p q = some u) (hp : ¬ d <+: p) (hq : ¬ d <+: q) :
    Frame d t u := by
  intro x hx
  have hxp : x ≠ p := fun heq => hp (heq ▸ hx)
  have hxq : x ≠ q := fun heq => hq (heq ▸ hx)
  exact ⟨by rw [files_rename h, if_neg hxq, if_neg hxp], congrFun (dirs_rename h) x⟩

theorem frame_unlink (h : t.unlink p = some u) (hp : ¬ d <+: p) : Frame d t u := by
  intro q hq
  have hne : q ≠ p := fun heq => hp (heq ▸ hq)
  exact ⟨by rw [files_unlink h, if_neg hne], congrFun (dirs_unlink h) q⟩

theorem frame_rmtree (h : t.rmtree p = some u) (hp : Apart d p) : Frame d t u := by
  unfold rmtree at h
  split at h
  · cases h
    intro q hq
    have hnot := hp.not_below hq
    exact ⟨if_neg hnot, if_neg hnot⟩
  · cases h

theorem frame_copyTree (h : t.copyTree p q = some u) (hq : Apart d q) : Frame d t u := by
  unfold copyTree at h
  split at h
  · cases h
    intro x hx
    have hnot := hq.not_below hx
    have hinit : x ∉ q.inits := fun hin => hq.1 (hx.trans ((List.mem_inits _ _).1 hin))
    refine ⟨if_neg hnot, ?_⟩
    simp [hnot, hinit]
  · cases h

theorem below_copyTree (h : t.copyTree p q = some u) (r : List N) :
    u.files (q ++ r) = t.files (p ++ r) ∧ u.dirs (q ++ r) = t.dirs (p ++ r) := by
  unfold copyTree at h
  split at h
  · cases h
    have hpre : q <+: q ++ r := List.prefix_append q r
    simp only [if_pos hpre, List.drop_left, and_self]
  · cases h

end DirTree
