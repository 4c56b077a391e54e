import Mathlib.Data.List.Induction
import Mathlib.Data.List.Nodup
import Mathlib.Logic.Function.Basic

/-!
# File trees and undo

A file tree gives each path its file, and says which paths are directories. A
transaction stages files under new names, moves the files that it replaces to
backups and moves the staged ones into place. `Undoable` is what its undo needs:
apart from the staged files, putting the backups back gives the files before it.

* `undoable_stage`, `undoable_backUp`, `undoable_activate`: each kind of step.
* `undo_restores`: **the undo gives back every file.**
-/

@[ext]
structure FileTree (P B : Type*) where
  files : P → Option B
  dirs : P → Bool

namespace FileTree

variable {P B : Type*} [DecidableEq P]

/-- `path.exists()` -/
def present (t : FileTree P B) (p : P) : Bool := (t.files p).isSome || t.dirs p

def write (t : FileTree P B) (p : P) (b : B) : FileTree P B :=
  { t with files := Function.update t.files p (some b) }

def clean (t : FileTree P B) (p : P) : FileTree P B :=
  if t.dirs p then t else { t with files := Function.update t.files p none }

def move (t : FileTree P B) (p q : P) : FileTree P B :=
  { t with files := Function.update (Function.update t.files p none) q (t.files p) }

def restore (t : FileTree P B) (e : P × P) : FileTree P B :=
  let t := if t.present e.2 then t.clean e.2 else t
  if (t.files e.1).isSome && !t.dirs e.2 then t.move e.1 e.2 else t

@[simp] theorem dirs_clean (t : FileTree P B) (p : P) : (t.clean p).dirs = t.dirs := by
  unfold clean
  split <;> rfl

@[simp] theorem dirs_move (t : FileTree P B) (p q : P) : (t.move p q).dirs = t.dirs := rfl

@[simp] theorem dirs_restore (t : FileTree P B) (e : P × P) : (t.restore e).dirs = t.dirs := by
  have hclean : (if t.present e.2 then t.clean e.2 else t).dirs = t.dirs := by
    split
    · exact dirs_clean t e.2
    · rfl
  have hmove : ∀ t' : FileTree P B, t'.dirs = t.dirs →
      (if (t'.files e.1).isSome && !t'.dirs e.2 then t'.move e.1 e.2 else t').dirs = t.dirs := by
    intro t' h
    split
    · exact h
    · exact h
  exact hmove _ hclean

@[simp] theorem dirs_cleanAll (t : FileTree P B) (ps : List P) :
    (ps.foldl clean t).dirs = t.dirs := by
  induction ps generalizing t with
  | nil => rfl
  | cons p ps ih => exact (ih _).trans (dirs_clean t p)

@[simp] theorem dirs_restoreAll (t : FileTree P B) (es : List (P × P)) :
    (es.foldl restore t).dirs = t.dirs := by
  induction es generalizing t with
  | nil => rfl
  | cons e es ih => exact (ih _).trans (dirs_restore t e)

theorem files_clean {t : FileTree P B} {p : P} (hp : t.dirs p = false) (q : P) :
    (t.clean p).files q = if q = p then none else t.files q := by
  unfold clean
  rw [hp]
  exact Function.update_apply ..

theorem files_write (t : FileTree P B) (p q : P) (b : B) :
    (t.write p b).files q = if q = p then some b else t.files q :=
  Function.update_apply ..

theorem present_write {t : FileTree P B} {p q : P} (h : q ≠ p) (b : B) :
    (t.write p b).present q = t.present q := by
  show ((Function.update t.files p (some b) q).isSome || t.dirs q) = _
  rw [Function.update_of_ne h]
  rfl

theorem files_cleanAll {t : FileTree P B} {ps : List P} (hps : ∀ p ∈ ps, t.dirs p = false) (q : P) :
    (ps.foldl clean t).files q = if q ∈ ps then none else t.files q := by
  induction ps generalizing t with
  | nil => simp
  | cons p ps ih =>
    have hp := hps p List.mem_cons_self
    rw [List.foldl_cons, ih (fun x hx => by
      rw [dirs_clean]
      exact hps x (List.mem_cons_of_mem p hx)), files_clean hp]
    by_cases hq : q = p
    · subst hq
      simp
    · simp [hq]

theorem files_cleanAll_of_not_mem {t : FileTree P B} {ps : List P} {q : P} (hq : q ∉ ps) :
    (ps.foldl clean t).files q = t.files q := by
  induction ps generalizing t with
  | nil => rfl
  | cons p ps ih =>
    have hne : q ≠ p := fun h => hq (by simp [h])
    rw [List.foldl_cons, ih fun h => hq (List.mem_cons_of_mem p h)]
    unfold clean
    split
    · rfl
    · exact Function.update_of_ne hne ..

theorem cleanAll_reverse {t : FileTree P B} {ps : List P} (hps : ∀ p ∈ ps, t.dirs p = false) :
    ps.reverse.foldl clean t = ps.foldl clean t := by
  have hrev : ∀ p ∈ ps.reverse, t.dirs p = false := fun p hp => hps p (List.mem_reverse.1 hp)
  refine FileTree.ext ?_ ((dirs_cleanAll t _).trans (dirs_cleanAll t ps).symm)
  funext q
  rw [files_cleanAll hrev, files_cleanAll hps]
  simp only [List.mem_reverse]

theorem files_move (t : FileTree P B) (p q x : P) :
    (t.move p q).files x = if x = q then t.files p else if x = p then none else t.files x := by
  show Function.update (Function.update t.files p none) q (t.files p) x = _
  rw [Function.update_apply, Function.update_apply]

theorem present_of_move {t : FileTree P B} {p q x : P} (h : (t.move p q).present x = true)
    (hx : x ≠ q) : t.present x = true := by
  unfold present at h ⊢
  rw [files_move, if_neg hx, dirs_move] at h
  by_cases hxp : x = p
  · rw [if_pos hxp] at h
    simp only [Option.isSome_none, Bool.false_or] at h
    rw [h, Bool.or_true]
  · rwa [if_neg hxp] at h

/-- What the undo of a transaction needs, of the files `before` it, the staged paths,
the backups with their originals, and the tree now. -/
structure Undoable (before : P → Option B) (temps : List P) (backups : List (P × P))
    (t : FileTree P B) : Prop where
  /-- all that is not part of the transaction is as it was -/
  same : ∀ p, p ∉ temps → p ∉ backups.map Prod.fst → p ∉ backups.map Prod.snd →
    t.files p = before p
  /-- a staged path was free, and is no backup -/
  staged : ∀ p ∈ temps, before p = none ∧ t.dirs p = false ∧ p ∉ backups.map Prod.fst
  /-- a backup, at a path that was free, holds its original, whose place is empty -/
  backed : ∀ e ∈ backups, t.files e.1 = before e.2 ∧ (before e.2).isSome = true ∧
    before e.1 = none ∧ t.files e.2 = none ∧ t.dirs e.2 = false
  fst : (backups.map Prod.fst).Nodup
  snd : (backups.map Prod.snd).Nodup

variable {before : P → Option B} {temps : List P} {backups : List (P × P)} {t : FileTree P B}

omit [DecidableEq P] in
theorem undoable_nil (t : FileTree P B) : Undoable t.files [] [] t where
  same _ _ _ _ := rfl
  staged p hp := by cases hp
  backed e he := by cases he
  fst := List.nodup_nil
  snd := List.nodup_nil

omit [DecidableEq P] in
theorem Undoable.of_files (h : Undoable before temps backups t) {t' : FileTree P B}
    (hfiles : t'.files = t.files)
    (hdirs : ∀ p, p ∈ temps ∨ p ∈ backups.map Prod.snd → t'.dirs p = t.dirs p) :
    Undoable before temps backups t' where
  same p hp hfst hsnd := hfiles ▸ h.same p hp hfst hsnd
  staged p hp := by
    rw [hdirs p (Or.inl hp)]
    exact h.staged p hp
  backed e he := by
    rw [hfiles, hdirs e.2 (Or.inr (List.mem_map_of_mem he))]
    exact h.backed e he
  fst := h.fst
  snd := h.snd

theorem undoable_stage (h : Undoable before temps [] t) {p : P} (hp : before p = none)
    (hd : t.dirs p = false) (b : B) : Undoable before (temps ++ [p]) [] (t.write p b) where
  same q hq _ _ := by
    have hne : q ≠ p := by
      rintro rfl
      exact hq (by simp)
    have hq' : q ∉ temps := fun hin => hq (List.mem_append_left _ hin)
    show Function.update t.files p (some b) q = before q
    rw [Function.update_of_ne hne]
    exact h.same q hq' (by simp) (by simp)
  staged q hq := by
    rcases List.mem_append.1 hq with hq | hq
    · exact h.staged q hq
    · rw [List.mem_singleton.1 hq]
      exact ⟨hp, hd, by simp⟩
  backed e he := by cases he
  fst := List.nodup_nil
  snd := List.nodup_nil

omit [DecidableEq P] in
theorem Undoable.ne (h : Undoable before temps backups t) {e e' : P × P} (he : e ∈ backups)
    (he' : e' ∈ backups) : e.1 ≠ e'.2 := by
  intro heq
  have hnone := (h.backed e he).2.2.1
  have hsome := (h.backed e' he').2.1
  rw [← heq, hnone] at hsome
  cases hsome

theorem undoable_backUp (h : Undoable before temps backups t) {b p : P}
    (hp : (t.files p).isSome = true) (hd : t.dirs p = false) (hptemps : p ∉ temps)
    (hpfst : p ∉ backups.map Prod.fst) (hb : before b = none) (hfree : t.files b = none)
    (hbtemps : b ∉ temps) : Undoable before temps (backups ++ [(b, p)]) (t.move p b) := by
  have hpsnd : p ∉ backups.map Prod.snd := by
    intro hin
    obtain ⟨e, he, rfl⟩ := List.mem_map.1 hin
    rw [(h.backed e he).2.2.2.1] at hp
    cases hp
  have hsame : t.files p = before p := h.same p hptemps hpfst hpsnd
  have hbfst : b ∉ backups.map Prod.fst := by
    intro hin
    obtain ⟨e, he, rfl⟩ := List.mem_map.1 hin
    have hsome := (h.backed e he).2.1
    rw [← (h.backed e he).1, hfree] at hsome
    cases hsome
  have hbsnd : b ∉ backups.map Prod.snd := by
    intro hin
    obtain ⟨e, he, rfl⟩ := List.mem_map.1 hin
    have hsome := (h.backed e he).2.1
    rw [hb] at hsome
    cases hsome
  have hbp : b ≠ p := by
    rintro rfl
    rw [hfree] at hp
    cases hp
  refine ⟨?_, ?_, ?_, ?_, ?_⟩
  · intro q hq hqfst hqsnd
    simp only [List.map_append, List.map_cons, List.map_nil, List.mem_append, List.mem_singleton,
      not_or] at hqfst hqsnd
    rw [files_move, if_neg hqfst.2, if_neg hqsnd.2]
    exact h.same q hq hqfst.1 hqsnd.1
  · intro q hq
    obtain ⟨hnone, hdir, hfst⟩ := h.staged q hq
    refine ⟨hnone, hdir, ?_⟩
    simp only [List.map_append, List.map_cons, List.map_nil, List.mem_append, List.mem_singleton,
      not_or]
    refine ⟨hfst, ?_⟩
    rintro rfl
    exact hbtemps hq
  · intro e he
    rcases List.mem_append.1 he with he | he
    · obtain ⟨hfile, hsome, hwas, hnone, hdir⟩ := h.backed e he
      have hfst : ∀ x, x ∉ backups.map Prod.fst → e.1 ≠ x := by
        rintro x hx rfl
        exact hx (List.mem_map_of_mem he)
      have hsnd : ∀ x, x ∉ backups.map Prod.snd → e.2 ≠ x := by
        rintro x hx rfl
        exact hx (List.mem_map_of_mem he)
      rw [files_move, files_move, if_neg (hfst b hbfst), if_neg (hfst p hpfst),
        if_neg (hsnd b hbsnd), if_neg (hsnd p hpsnd)]
      exact ⟨hfile, hsome, hwas, hnone, hdir⟩
    · rw [List.mem_singleton.1 he]
      have hat : (t.move p b).files b = t.files p := by
        rw [files_move, if_pos rfl]
      have hgone : (t.move p b).files p = none := by
        rw [files_move, if_neg (Ne.symm hbp), if_pos rfl]
      exact ⟨hat.trans hsame, hsame ▸ hp, hb, hgone, hd⟩
  · rw [List.map_append]
    refine List.nodup_append.2 ⟨h.fst, List.nodup_singleton _, ?_⟩
    rintro x hx y hy rfl
    rw [List.map_singleton, List.mem_singleton] at hy
    subst hy
    exact hbfst hx
  · rw [List.map_append]
    refine List.nodup_append.2 ⟨h.snd, List.nodup_singleton _, ?_⟩
    rintro x hx y hy rfl
    rw [List.map_singleton, List.mem_singleton] at hy
    subst hy
    exact hpsnd hx

theorem undoable_activate {placed : List P}
    (h : Undoable before temps backups (placed.foldl clean t))
    (hplaced : ∀ p ∈ placed, t.dirs p = false) {tmp p : P} (htmp : tmp ∈ temps)
    (hd : t.dirs p = false) (hempty : p ∈ backups.map Prod.snd ∨ before p = none)
    (hpfst : p ∉ backups.map Prod.fst) :
    Undoable before temps backups ((placed ++ [p]).foldl clean (t.move tmp p)) := by
  have hall : ∀ q ∈ placed ++ [p], (t.move tmp p).dirs q = false := by
    intro q hq
    rcases List.mem_append.1 hq with hq | hq
    · exact hplaced q hq
    · rw [List.mem_singleton.1 hq]
      exact hd
  have hfiles : ∀ q, ((placed ++ [p]).foldl clean (t.move tmp p)).files q =
      if q = p ∨ q = tmp then none else (placed.foldl clean t).files q := by
    intro q
    rw [files_cleanAll hall, files_cleanAll hplaced, files_move]
    by_cases hq : q = p
    · subst hq
      simp
    · by_cases hqt : q = tmp
      · subst hqt
        simp [hq]
      · simp [hq, hqt]
  have hdirs : ((placed ++ [p]).foldl clean (t.move tmp p)).dirs =
      (placed.foldl clean t).dirs := by
    rw [dirs_cleanAll, dirs_cleanAll, dirs_move]
  refine ⟨?_, ?_, ?_, h.fst, h.snd⟩
  · intro q hq hqfst hqsnd
    rw [hfiles]
    split
    · rename_i hor
      rcases hor with rfl | rfl
      · rcases hempty with hin | hnone
        · exact absurd hin hqsnd
        · exact hnone.symm
      · exact absurd htmp hq
    · exact h.same q hq hqfst hqsnd
  · intro q hq
    rw [hdirs]
    exact h.staged q hq
  · intro e he
    obtain ⟨hfile, hsome, hwas, hnone, hdir⟩ := h.backed e he
    have hne : ¬ (e.1 = p ∨ e.1 = tmp) := by
      rintro (rfl | rfl)
      · exact hpfst (List.mem_map_of_mem he)
      · exact (h.staged _ htmp).2.2 (List.mem_map_of_mem he)
    rw [hfiles, hfiles, hdirs, if_neg hne]
    refine ⟨hfile, hsome, hwas, ?_, hdir⟩
    split
    · rfl
    · exact hnone

theorem undoable_restore {e : P × P} (h : Undoable before temps (backups ++ [e]) t) :
    Undoable before temps backups (t.restore e) := by
  have hlast : e ∈ backups ++ [e] := by simp
  obtain ⟨hfile, hsome, hwas, hnone, hdir⟩ := h.backed e hlast
  have hmoved : t.restore e = t.move e.1 e.2 := by
    have hclear : t.present e.2 = false := by
      unfold present
      rw [hnone, hdir]
      rfl
    unfold restore
    simp [hclear, hfile, hsome, hdir]
  have hfst := h.fst
  have hsnd := h.snd
  rw [List.map_append, List.nodup_append] at hfst hsnd
  rw [hmoved]
  refine ⟨?_, ?_, ?_, hfst.1, hsnd.1⟩
  · intro q hq hqfst hqsnd
    rw [files_move]
    by_cases hq2 : q = e.2
    · rw [if_pos hq2, hfile, hq2]
    · rw [if_neg hq2]
      by_cases hq1 : q = e.1
      · rw [if_pos hq1, hq1, hwas]
      · rw [if_neg hq1]
        exact h.same q hq (by simp [hqfst, hq1]) (by simp [hqsnd, hq2])
  · intro q hq
    obtain ⟨hfree, hdirq, hqfst⟩ := h.staged q hq
    refine ⟨hfree, hdirq, ?_⟩
    intro hin
    exact hqfst (by
      rw [List.map_append]
      exact List.mem_append_left _ hin)
  · intro e' he'
    have hin : e' ∈ backups ++ [e] := List.mem_append_left _ he'
    obtain ⟨hfile', hsome', hwas', hnone', hdir'⟩ := h.backed e' hin
    have h11 : e'.1 ≠ e.1 := hfst.2.2 _ (List.mem_map_of_mem he') _ (by simp)
    have h22 : e'.2 ≠ e.2 := hsnd.2.2 _ (List.mem_map_of_mem he') _ (by simp)
    rw [files_move, files_move, if_neg (h.ne hin hlast), if_neg h11, if_neg h22,
      if_neg (h.ne hlast hin).symm]
    exact ⟨hfile', hsome', hwas', hnone', hdir'⟩

/-- **The undo gives back every file.** -/
theorem undo_restores (h : Undoable before temps backups t) :
    (temps.foldl clean (backups.reverse.foldl restore t)).files = before := by
  induction backups using List.reverseRecOn generalizing t with
  | nil =>
    funext q
    show (temps.foldl clean t).files q = before q
    rw [files_cleanAll fun p hp => (h.staged p hp).2.1]
    split
    · rename_i hq
      exact (h.staged q hq).1.symm
    · rename_i hq
      exact h.same q hq (by simp) (by simp)
  | append_singleton backups e ih =>
    rw [List.reverse_append, List.reverse_singleton, List.singleton_append, List.foldl_cons]
    exact ih (undoable_restore h)

end FileTree
