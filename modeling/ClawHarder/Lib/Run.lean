import Mathlib.Data.List.Basic

/-!
# Runs of a transition function

A system is a transition function `step : σ → α → σ`; a schedule, an oracle or
the arguments of a call are part of the label `α`. `run` folds it over a list of
labels. A *guard* `ok : σ → α → Prop` is a condition on a label in the state
before it; `Guarded` says that every step of a run meets it.

`Always` says that a property holds in every state of a run.

* `run_inv`: what every guarded step keeps, every guarded run keeps.
* `guarded_append`, `guarded_iff_prefix`: guards of a run in two pieces, and label by label.
* `run_iff_guarded`: what only guarded steps keep holds after the guarded runs only.
* `always_iff_guarded`: where one step keeps a property exactly under a guard, so
  does a run.
-/

namespace Machine

variable {σ α : Type*} (step : σ → α → σ)

def run (s : σ) (as : List α) : σ := as.foldl step s

/-- Every step of the run from `s` meets the guard in the state before it. -/
def Guarded (ok : σ → α → Prop) : σ → List α → Prop
  | _, [] => True
  | s, a :: as => ok s a ∧ Guarded ok (step s a) as

instance {ok : σ → α → Prop} [∀ s a, Decidable (ok s a)] :
    ∀ (s : σ) (as : List α), Decidable (Guarded step ok s as)
  | _, [] => inferInstanceAs (Decidable True)
  | s, a :: as =>
    have : Decidable (Guarded step ok (step s a) as) := instDecidableGuarded (step s a) as
    inferInstanceAs (Decidable (ok s a ∧ Guarded step ok (step s a) as))

variable {step}

@[simp] theorem run_nil (s : σ) : run step s [] = s := rfl

@[simp] theorem run_cons (s : σ) (a : α) (as : List α) :
    run step s (a :: as) = run step (step s a) as := rfl

theorem run_append (s : σ) (as bs : List α) :
    run step s (as ++ bs) = run step (run step s as) bs := List.foldl_append

theorem run_concat (s : σ) (as : List α) (a : α) :
    run step s (as ++ [a]) = step (run step s as) a := by
  rw [run_append]; rfl

variable {ok : σ → α → Prop} {s : σ} {as : List α}

theorem guarded_append {bs : List α} :
    Guarded step ok s (as ++ bs) ↔ Guarded step ok s as ∧ Guarded step ok (run step s as) bs := by
  induction as generalizing s with
  | nil => simp [Guarded]
  | cons a as ih => simp only [List.cons_append, Guarded, run_cons, ih, and_assoc]

theorem guarded_iff_prefix :
    Guarded step ok s as ↔ ∀ bs a, bs ++ [a] <+: as → ok (run step s bs) a := by
  constructor
  · rintro h bs a ⟨cs, rfl⟩
    rw [List.append_assoc] at h
    exact (guarded_append.1 h).2.1
  · induction as generalizing s with
    | nil => intro _; trivial
    | cons a as ih =>
      intro h
      refine ⟨h [] a (List.prefix_append [a] as), ih ?_⟩
      intro bs b hbs
      exact h (a :: bs) b ((List.prefix_cons_inj a).2 hbs)

theorem Guarded.mono {ok' : σ → α → Prop} (h : ∀ s a, ok s a → ok' s a)
    (hg : Guarded step ok s as) : Guarded step ok' s as := by
  induction as generalizing s with
  | nil => trivial
  | cons a as ih => exact ⟨h s a hg.1, ih hg.2⟩

theorem guarded_of_forall (h : ∀ s a, ok s a) (s : σ) (as : List α) :
    Guarded step ok s as := by
  induction as generalizing s with
  | nil => trivial
  | cons a as ih => exact ⟨h s a, ih (step s a)⟩

/-- **A guarded run keeps what its steps keep.** -/
theorem run_inv {I : σ → Prop} (hstep : ∀ s a, I s → ok s a → I (step s a)) (hI : I s) (hg : Guarded step ok s as) : I (run step s as) := by
  induction as generalizing s with
  | nil => exact hI
  | cons a as ih => exact ih (hstep s a hI hg.1) hg.2

theorem run_inv_all {I : σ → Prop} (hstep : ∀ s a, I s → I (step s a)) (hI : I s)
    (as : List α) : I (run step s as) := by
  induction as generalizing s with
  | nil => exact hI
  | cons a as ih => exact ih (hstep s a hI)

/-- The property holds in every state of the run from `s`. -/
def Always (step : σ → α → σ) (P : σ → Prop) (s : σ) (as : List α) : Prop :=
  ∀ bs, bs <+: as → P (run step s bs)

variable {P : σ → Prop}

theorem always_nil : Always step P s [] ↔ P s := by
  unfold Always
  constructor
  · intro h
    exact h [] List.nil_prefix
  · intro h bs hbs
    rw [List.prefix_nil.1 hbs]
    exact h

theorem always_cons {a : α} :
    Always step P s (a :: as) ↔ P s ∧ Always step P (step s a) as := by
  constructor
  · intro h
    refine ⟨h [] List.nil_prefix, ?_⟩
    intro bs hbs
    exact h (a :: bs) ((List.prefix_cons_inj a).2 hbs)
  · rintro ⟨hs, h⟩ bs hbs
    rcases List.prefix_cons_iff.1 hbs with rfl | ⟨cs, rfl, hcs⟩
    · exact hs
    · exact h cs hcs

theorem always_of_guarded
    (hstep : ∀ s a, P s → ok s a → P (step s a)) (hP : P s)
    (hg : Guarded step ok s as) : Always step P s as := by
  rintro bs ⟨cs, rfl⟩
  exact run_inv hstep hP (guarded_append.1 hg).1

theorem guarded_of_always
    (hstep : ∀ s a, P (step s a) → ok s a) (h : Always step P s as) :
    Guarded step ok s as := by
  induction as generalizing s with
  | nil => trivial
  | cons a as ih =>
    have hnext : Always step P (step s a) as := (always_cons.1 h).2
    exact ⟨hstep s a (hnext [] List.nil_prefix), ih hnext⟩

/-- **A property that holds after a step just in case it held before and the step meets
a guard** holds after the runs whose steps meet it, and no others. -/
theorem run_iff_guarded {I : σ → Prop}
    (hI : ∀ s a, I s → I (step s a)) (hP : ∀ s a, I s → (P (step s a) ↔ P s ∧ ok s a)) (hi : I s) (as : List α) :
    P (run step s as) ↔ P s ∧ Guarded step ok s as := by
  induction as generalizing s with
  | nil => exact (and_iff_left trivial).symm
  | cons a as ih =>
    rw [run_cons, ih (hI s a hi), hP s a hi, and_assoc]
    rfl

/-- **A property that one step keeps exactly under a guard** holds throughout the
runs whose steps meet it, and no others. -/
theorem always_iff_guarded {I : σ → Prop}
    (hI : ∀ s a, I s → I (step s a)) (hP : ∀ s a, I s → P s → (P (step s a) ↔ ok s a)) (hi : I s) (hp : P s) (as : List α) :
    Always step P s as ↔ Guarded step ok s as := by
  induction as generalizing s with
  | nil => exact always_nil.trans (iff_of_true hp trivial)
  | cons a as ih =>
    rw [always_cons]
    constructor
    · rintro ⟨-, h⟩
      have hnext : P (step s a) := h [] List.nil_prefix
      exact ⟨(hP s a hi hp).1 hnext, (ih (hI s a hi) hnext).1 h⟩
    · rintro ⟨hok, h⟩
      have hnext : P (step s a) := (hP s a hi hp).2 hok
      exact ⟨hp, (ih (hI s a hi) hnext).2 h⟩

end Machine
