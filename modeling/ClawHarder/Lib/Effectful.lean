import Mathlib.Data.List.Forall2

/-!
# Specifications of effectful computations

A computation in `EStateM ε σ` reads and writes a state and returns or raises; an
exception does not undo what was written before it. `Spec P m Q E` says that from
a state with `P`, `m` returns to one with `Q` or raises to one with `E`. `Keeps I m`
is the case of an invariant, which holds however `m` ends. `final` is the state that
a computation ends in.

* `keeps_forM`: **what the body keeps, a loop keeps.**
-/

namespace Effectful

universe u

variable {ε σ α β : Type u}

/-- The state that a computation ends in, whether it returns or raises. -/
def final (m : EStateM ε σ α) (s : σ) : σ :=
  match m.run s with
  | .ok _ s' => s'
  | .error _ s' => s'

def Spec (P : σ → Prop) (m : EStateM ε σ α) (Q : α → σ → Prop) (E : ε → σ → Prop) : Prop :=
  ∀ s, P s → match m.run s with
    | .ok a s' => Q a s'
    | .error e s' => E e s'

def Keeps (I : σ → Prop) (m : EStateM ε σ α) : Prop := Spec I m (fun _ => I) (fun _ => I)

variable {P P' I : σ → Prop} {Q Q' : α → σ → Prop} {R : β → σ → Prop} {E E' : ε → σ → Prop}
  {m : EStateM ε σ α} {f : α → EStateM ε σ β}

theorem Spec.final (h : Spec P m (fun _ => I) (fun _ => I)) {s : σ} (hs : P s) :
    I (final m s) := by
  have := h s hs
  unfold Effectful.final
  split at this <;> assumption

variable {a : α}

theorem Keeps.run_ok (h : Keeps I m) {s s' : σ} (hs : I s) (hrun : m.run s = .ok a s') :
    I s' := by
  have hs' := h s hs
  rw [hrun] at hs'
  exact hs'

theorem Spec.mono (h : Spec P m Q E) (hP : ∀ s, P' s → P s) (hQ : ∀ a s, Q a s → Q' a s)
    (hE : ∀ e s, E e s → E' e s) : Spec P' m Q' E' := by
  intro s hs
  have := h s (hP s hs)
  split at this
  · exact hQ _ _ this
  · exact hE _ _ this

def result (m : EStateM ε σ α) (s : σ) : Option α :=
  match m.run s with
  | .ok a _ => some a
  | .error _ _ => none

theorem run_of_result {s : σ} (h : result m s = some a) :
    m.run s = .ok a (Effectful.final m s) := by
  unfold result at h
  unfold Effectful.final
  cases hrun : m.run s with
  | ok b s' =>
    rw [hrun] at h
    cases h
    rfl
  | error e s' =>
    rw [hrun] at h
    cases h

theorem final_of_run {s s' : σ} (h : m.run s = .ok a s') : Effectful.final m s = s' := by
  unfold Effectful.final
  rw [h]

variable {g : α → Except ε β}

theorem bind_ok {x : Except ε α} {b : β} (h : (x >>= g) = .ok b) :
    ∃ a, x = .ok a ∧ g a = .ok b := by
  cases x with
  | error e => cases h
  | ok a => exact ⟨a, rfl, h⟩

theorem bind_eq_ok_iff {x : Except ε α} {b : β} :
    (x >>= g) = .ok b ↔ ∃ a, x = .ok a ∧ g a = .ok b := by
  constructor
  · exact bind_ok
  · rintro ⟨a, rfl, h⟩
    exact h

variable {xs : List α}

theorem forM_eq_ok_iff {g : α → Except ε PUnit.{u + 1}} :
    xs.forM g = .ok ⟨⟩ ↔ ∀ x ∈ xs, g x = .ok ⟨⟩ := by
  induction xs with
  | nil => exact iff_of_true rfl (by simp)
  | cons x xs ih =>
    have hloop : (x :: xs).forM g = (g x >>= fun _ => xs.forM g) := rfl
    rw [List.forall_mem_cons, ← ih, hloop, bind_eq_ok_iff]
    exact ⟨fun ⟨_, hx, hxs⟩ => ⟨hx, hxs⟩, fun ⟨hx, hxs⟩ => ⟨⟨⟩, hx, hxs⟩⟩

theorem mapM_eq_ok_iff {ys : List β} :
    xs.mapM g = .ok ys ↔ List.Forall₂ (fun x y => g x = .ok y) xs ys := by
  induction xs generalizing ys with
  | nil =>
    rw [List.forall₂_nil_left_iff]
    exact ⟨fun h => (Except.ok.inj h).symm, fun h => h ▸ rfl⟩
  | cons x xs ih =>
    rw [List.mapM_cons, List.forall₂_cons_left_iff, bind_eq_ok_iff]
    refine exists_congr fun y => ?_
    rw [bind_eq_ok_iff]
    constructor
    · rintro ⟨hx, ys', hxs, hys⟩
      exact ⟨ys', hx, ih.1 hxs, (Except.ok.inj hys).symm⟩
    · rintro ⟨ys', hx, hxs, rfl⟩
      exact ⟨hx, ys', ih.2 hxs, rfl⟩

theorem mapM_ok {f : α → β} (h : ∀ x ∈ xs, g x = .ok (f x)) :
    xs.mapM g = .ok (xs.map f) :=
  mapM_eq_ok_iff.2 (List.forall₂_map_right_iff.2 (List.forall₂_same.2 h))

theorem ok_of_mapM {ys : List β} (h : xs.mapM g = .ok ys) :
    ∀ x ∈ xs, ∃ y, g x = .ok y := by
  intro x hx
  obtain ⟨i, hi, rfl⟩ := List.getElem_of_mem hx
  have hall := mapM_eq_ok_iff.1 h
  exact ⟨_, hall.get hi (hall.length_eq ▸ hi)⟩

/-! Checks that return nothing when they fail. -/

theorem bind_isSome {o : Option α} {f : α → Option β} :
    (o >>= f).isSome = true ↔ ∃ a, o = some a ∧ (f a).isSome = true := by
  cases o with
  | none => simp
  | some a => simp

variable {l : List α}

theorem mapM_isSome_iff {f : α → Option β} :
    (l.mapM f).isSome = true ↔ ∀ a ∈ l, (f a).isSome = true := by
  induction l with
  | nil => simp
  | cons a l ih =>
    rw [List.mapM_cons, bind_isSome]
    constructor
    · rintro ⟨b, hb, hrest⟩
      obtain ⟨bs, hbs, -⟩ := bind_isSome.1 hrest
      have hl := ih.1 (by rw [hbs]; rfl)
      rintro x (_ | ⟨_, hx⟩)
      · rw [hb]
        rfl
      · exact hl x hx
    · intro h
      obtain ⟨b, hb⟩ := Option.isSome_iff_exists.1 (h a List.mem_cons_self)
      obtain ⟨bs, hbs⟩ := Option.isSome_iff_exists.1
        (ih.2 fun x hx => h x (List.mem_cons_of_mem a hx))
      refine ⟨b, hb, ?_⟩
      rw [hbs]
      rfl

theorem mapM_each {f : α → Option β} {r : List β} (h : l.mapM f = some r) :
    ∀ a ∈ l, (f a).isSome = true := mapM_isSome_iff.1 (by rw [h]; rfl)

theorem mapM_some {f : α → Option β} {r : List β} (h : l.mapM f = some r) :
    List.Forall₂ (fun a b => f a = some b) l r := by
  induction l generalizing r with
  | nil =>
    cases h
    exact List.Forall₂.nil
  | cons a l ih =>
    rw [List.mapM_cons] at h
    obtain ⟨b, hb, hrest⟩ := Option.bind_eq_some_iff.1 h
    obtain ⟨bs, hbs, hr⟩ := Option.bind_eq_some_iff.1 hrest
    cases hr
    exact List.Forall₂.cons hb (ih hbs)

theorem mapM_mem {f : α → Option β} {r : List β} (h : l.mapM f = some r) {b : β} :
    b ∈ r ↔ ∃ a ∈ l, f a = some b := by
  have hall := mapM_some h
  clear h
  induction hall with
  | nil => simp
  | cons hab _ ih =>
    simp only [List.mem_cons, exists_eq_or_imp, hab, Option.some.injEq]
    exact or_congr eq_comm ih

theorem run_bind_ok {s s' : σ} {b : β} (h : (m >>= f).run s = .ok b s') :
    ∃ a s₁, m.run s = .ok a s₁ ∧ (f a).run s₁ = .ok b s' := by
  rw [EStateM.run_bind] at h
  cases hm : m.run s with
  | ok a s₁ =>
    rw [hm] at h
    exact ⟨a, s₁, rfl, h⟩
  | error e s₁ =>
    rw [hm] at h
    cases h

theorem run_bind_of_ok {s s₁ : σ} (h : m.run s = .ok a s₁) :
    (m >>= f).run s = (f a).run s₁ := by
  rw [EStateM.run_bind, h]

theorem run_bind_of_error {s s₁ : σ} {e : ε} (h : m.run s = .error e s₁) :
    (m >>= f).run s = .error e s₁ := by
  rw [EStateM.run_bind, h]

theorem spec_pure (h : ∀ s, P s → Q a s) : Spec P (pure a : EStateM ε σ α) Q E := h

theorem spec_throw {e : ε} (h : ∀ s, P s → E e s) : Spec P (throw e : EStateM ε σ α) Q E := h

theorem spec_modify {g : σ → σ} {Q : PUnit → σ → Prop} (h : ∀ s, P s → Q ⟨⟩ (g s)) :
    Spec P (modify g : EStateM ε σ PUnit) Q E := h

theorem spec_bind (hm : Spec P m Q E) (hf : ∀ a, Spec (Q a) (f a) R E) :
    Spec P (m >>= f) R E := by
  intro s hs
  have hs' := hm s hs
  rw [EStateM.run_bind]
  split at hs' <;> rename_i heq <;> rw [heq]
  · exact hf _ _ hs'
  · exact hs'

theorem spec_get {f : σ → EStateM ε σ β} (h : ∀ r, P r → Spec (fun s => s = r) (f r) R E) :
    Spec P (get >>= f) R E := by
  intro s hs
  exact h s hs s rfl

theorem run_tryCatch (m : EStateM ε σ α) (handle : ε → EStateM ε σ α) (s : σ) :
    (tryCatch m handle).run s = match m.run s with
      | .ok a s' => .ok a s'
      | .error e s' => (handle e).run s' := by
  simp only [tryCatch, tryCatchThe, MonadExceptOf.tryCatch, EStateM.tryCatch, EStateM.run]
  cases m s <;> rfl

theorem spec_tryCatch {handle : ε → EStateM ε σ α} (hm : Spec P m Q E)
    (hh : ∀ e, Spec (E e) (handle e) Q E') : Spec P (tryCatch m handle) Q E' := by
  intro s hs
  have hs' := hm s hs
  rw [run_tryCatch]
  split at hs'
  · exact hs'
  · exact hh _ _ hs'

theorem spec_ite {c : Prop} [Decidable c] {m₁ m₂ : EStateM ε σ α} (h₁ : c → Spec P m₁ Q E)
    (h₂ : ¬ c → Spec P m₂ Q E) : Spec P (if c then m₁ else m₂) Q E := by
  split
  · exact h₁ ‹_›
  · exact h₂ ‹_›

theorem keeps_pure (a : α) : Keeps I (pure a : EStateM ε σ α) := fun _ hs => hs

theorem keeps_throw (e : ε) : Keeps I (throw e : EStateM ε σ α) := fun _ hs => hs

theorem keeps_modify {g : σ → σ} (h : ∀ s, I s → I (g s)) :
    Keeps I (modify g : EStateM ε σ PUnit) := h

theorem keeps_bind (hm : Keeps I m) (hf : ∀ a, Keeps I (f a)) : Keeps I (m >>= f) :=
  spec_bind hm hf

theorem keeps_ite {c : Prop} [Decidable c] {m₁ m₂ : EStateM ε σ α} (h₁ : c → Keeps I m₁)
    (h₂ : ¬ c → Keeps I m₂) : Keeps I (if c then m₁ else m₂) := spec_ite h₁ h₂

theorem keeps_tryCatch {handle : ε → EStateM ε σ α} (hm : Keeps I m)
    (hh : ∀ e, Keeps I (handle e)) : Keeps I (tryCatch m handle) := spec_tryCatch hm hh

/-- **What the body keeps, a loop keeps.** -/
theorem keeps_forM {γ : Type u} {body : γ → EStateM ε σ PUnit} {xs : List γ}
    (h : ∀ x ∈ xs, Keeps I (body x)) : Keeps I (xs.forM body) := by
  induction xs with
  | nil => exact keeps_pure PUnit.unit
  | cons x xs ih =>
    have hrest : Keeps I (xs.forM body) := ih fun y hy => h y (List.mem_cons_of_mem x hy)
    exact keeps_bind (h x List.mem_cons_self) fun _ => hrest

def Reads (m : EStateM ε σ α) : Prop := ∀ s, final m s = s

theorem Reads.keeps (hm : Reads m) : Keeps I m := by
  intro s hs
  have hsame := hm s
  unfold Effectful.final at hsame
  cases hrun : m.run s with
  | ok a s₁ =>
    rw [hrun] at hsame
    have heq : s₁ = s := hsame
    exact heq ▸ hs
  | error e s₁ =>
    rw [hrun] at hsame
    have heq : s₁ = s := hsame
    exact heq ▸ hs

theorem Reads.run_ok (hm : Reads m) {s s' : σ} (h : m.run s = .ok a s') : s = s' :=
  (hm s).symm.trans (final_of_run h)

theorem spec_reads_bind {r : σ} (hm : Reads m) (hE : ∀ e, E e r)
    (hf : ∀ a, m.run r = .ok a r → Spec (fun s => s = r) (f a) R E) :
    Spec (fun s => s = r) (m >>= f) R E := by
  intro s hs
  rw [hs, EStateM.run_bind]
  have hsame := hm r
  unfold Effectful.final at hsame
  cases hrun : m.run r with
  | ok a s₁ =>
    rw [hrun] at hsame
    have hs₁ : s₁ = r := hsame
    rw [hs₁] at hrun ⊢
    exact hf a hrun r rfl
  | error e s₁ =>
    rw [hrun] at hsame
    have hs₁ : s₁ = r := hsame
    rw [hs₁]
    exact hE e

theorem reads_pure (a : α) : Reads (pure a : EStateM ε σ α) := fun _ => rfl

theorem reads_throw (e : ε) : Reads (throw e : EStateM ε σ α) := fun _ => rfl

theorem reads_bind (hm : Reads m) (hf : ∀ a, Reads (f a)) : Reads (m >>= f) := by
  intro s
  have hsame := hm s
  unfold Effectful.final at hsame ⊢
  rw [EStateM.run_bind]
  cases hrun : m.run s with
  | ok a s₁ =>
    rw [hrun] at hsame
    exact (hf a s₁).trans hsame
  | error e s₁ =>
    rw [hrun] at hsame
    exact hsame

theorem reads_get {f : σ → EStateM ε σ β} (h : ∀ r, Reads (f r)) : Reads (get >>= f) :=
  fun s => h s s

theorem reads_ite {c : Prop} [Decidable c] {m₁ m₂ : EStateM ε σ α} (h₁ : Reads m₁)
    (h₂ : Reads m₂) : Reads (if c then m₁ else m₂) := by
  split
  · exact h₁
  · exact h₂

end Effectful
