import ClawHarder.Lib.Effectful

/-!
# Computations that ask in order

A decoder reads an unchecked value by conversions, each of which may raise. `Asks`
says that a computation meets its demands one after another: it returns just in case
every demand is met, and else raises what the first unmet one raises. `check` is the
conversion of a demand.

* `asks_bind`, `asks_mapM`: the demands of a sequence and of a loop.
* `checks_raise`: the first demand that is not met decides the exception.
* `Asks.caught_iff`: **a computation raises only what its handler catches just in case
  every demand whose exception the handler misses stands behind one whose exception it
  catches.**
-/

namespace Demand

variable {ε ν α β : Type}

def erase (m : Except ε α) : Except ε Unit := m.map fun _ => ()

variable (check : ν → Except ε Unit)

def checks : List ν → Except ε Unit
  | [] => .ok ()
  | n :: ns => check n >>= fun _ => checks ns

def Asks (m : Except ε α) (needs : List ν) : Prop := erase m = checks check needs

def Misses (caught : ε → Prop) (n : ν) : Prop := ∃ e, check n = .error e ∧ ¬ caught e

def Falls (caught : ε → Prop) (n : ν) : Prop := ∃ e, check n = .error e ∧ caught e

variable {check}

@[simp] theorem erase_ok (a : α) : erase (.ok a : Except ε α) = .ok () := rfl

@[simp] theorem erase_error (e : ε) : erase (.error e : Except ε α) = .error e := rfl

variable {m : Except ε α}

theorem erase_eq_error {e : ε} : erase m = .error e ↔ m = .error e := by
  cases m with
  | ok a => simp
  | error e' => simp

theorem asks_ok (a : α) : Asks check (.ok a : Except ε α) [] := rfl

theorem checks_append (A B : List ν) :
    checks check (A ++ B) = checks check A >>= fun _ => checks check B := by
  induction A with
  | nil => rfl
  | cons n A ih =>
    have hstep : checks check (n :: A ++ B) = check n >>= fun _ => checks check (A ++ B) := rfl
    have hcons : checks check (n :: A) = check n >>= fun _ => checks check A := rfl
    rw [hstep, hcons, ih]
    cases check n <;> rfl

variable {f : α → Except ε β} {B : List ν}

theorem asks_bind {A : List ν} (hm : Asks check m A)
    (hf : ∀ a, m = .ok a → Asks check (f a) B) : Asks check (m >>= f) (A ++ B) := by
  unfold Asks at hm ⊢
  rw [checks_append, ← hm]
  cases m with
  | error e => rfl
  | ok a => exact hf a rfl

theorem asks_cons {n : ν}
    (hm : Asks check m [n]) (hf : ∀ a, m = .ok a → Asks check (f a) B) :
    Asks check (m >>= f) (n :: B) := asks_bind hm hf

theorem asks_pass
    (hm : Asks check m []) (hf : ∀ a, m = .ok a → Asks check (f a) B) :
    Asks check (m >>= f) B := asks_bind hm hf

theorem asks_one {n : ν} (h : erase m = check n) : Asks check m [n] := by
  unfold Asks checks
  rw [h]
  cases check n <;> rfl

theorem Asks.cons_met {n : ν} (h : Asks check m B)
    (hn : check n = .ok ()) : Asks check m (n :: B) := by
  unfold Asks at h ⊢
  unfold checks
  rw [hn, h]
  rfl

theorem asks_stop {n : ν} {e : ε} (hn : check n = .error e) :
    Asks check (.error e : Except ε α) (n :: B) := by
  unfold Asks checks
  rw [hn]
  rfl

theorem asks_map {f : α → β} {A : List ν} (hm : Asks check m A) :
    Asks check (m.map f) A := by
  unfold Asks at hm ⊢
  rw [← hm]
  cases m <;> rfl

theorem asks_last {A : List ν} (hm : Asks check m A)
    (hf : ∀ a, m = .ok a → Asks check (f a) []) : Asks check (m >>= f) A := by
  have h := asks_bind hm hf
  rwa [List.append_nil] at h

theorem asks_ite {c : Prop} [Decidable c] {m₁ m₂ : Except ε α} {A : List ν}
    (h₁ : c → Asks check m₁ (A ++ B)) (h₂ : ¬ c → Asks check m₂ B) :
    Asks check (if c then m₁ else m₂) ((if c then A else []) ++ B) := by
  by_cases hc : c
  · rw [if_pos hc, if_pos hc]
    exact h₁ hc
  · rw [if_neg hc, if_neg hc]
    exact h₂ hc

theorem asks_when {c : Prop} [Decidable c] {m₁ m₂ : Except ε α} {A : List ν}
    (h₁ : c → Asks check m₁ A) (h₂ : ¬ c → Asks check m₂ []) :
    Asks check (if c then m₁ else m₂) (if c then A else []) := by
  have h := asks_ite (A := A) (B := []) (fun hc => by rw [List.append_nil]; exact h₁ hc) h₂
  rwa [List.append_nil] at h

theorem asks_mapM {needs : α → List ν} {xs : List α}
    (h : ∀ x ∈ xs, Asks check (f x) (needs x)) : Asks check (xs.mapM f) (xs.flatMap needs) := by
  induction xs with
  | nil => exact asks_ok []
  | cons x xs ih =>
    rw [List.mapM_cons, List.flatMap_cons]
    have hrest := ih fun y hy => h y (List.mem_cons_of_mem x hy)
    refine asks_bind (h x List.mem_cons_self) fun y _ => ?_
    exact asks_last hrest fun ys _ => asks_ok (y :: ys)

theorem asks_each {need : α → ν} {xs : List α}
    (h : ∀ x ∈ xs, Asks check (f x) [need x]) : Asks check (xs.mapM f) (xs.map need) := by
  rw [List.map_eq_flatMap]
  exact asks_mapM h

theorem asks_mapM_of {γ : Type} {g : γ → Except ε α} {needs : γ → List ν}
    {xs : List γ} {ys : List α} (hys : List.Forall₂ (fun x y => g x = .ok y) xs ys)
    (h : ∀ x y, g x = .ok y → Asks check (f y) (needs x)) :
    Asks check (ys.mapM f) (xs.flatMap needs) := by
  induction hys with
  | nil => exact asks_ok []
  | cons hxy _ ih =>
    rw [List.mapM_cons, List.flatMap_cons]
    refine asks_bind (h _ _ hxy) fun z _ => ?_
    exact asks_last ih fun zs _ => asks_ok (z :: zs)

theorem checks_raise {needs : List ν} {e : ε} :
    checks check needs = .error e ↔ ∃ before n after, needs = before ++ n :: after ∧
      (∀ m ∈ before, check m = .ok ()) ∧ check n = .error e := by
  induction needs with
  | nil =>
    refine iff_of_false (fun h => by cases h) ?_
    rintro ⟨before, n, after, h, -⟩
    have hlen := congrArg List.length h
    rw [List.length_append, List.length_cons] at hlen
    simp only [List.length_nil] at hlen
    omega
  | cons n needs ih =>
    have hstep : checks check (n :: needs) = check n >>= fun _ => checks check needs := rfl
    rw [hstep]
    cases hn : check n with
    | error e' =>
      constructor
      · intro h
        cases h
        exact ⟨[], n, needs, rfl, by simp, hn⟩
      · rintro ⟨before, k, after, heq, hbefore, hk⟩
        -- the head is the first of them
        cases before with
        | nil =>
          cases heq
          rw [hn] at hk
          exact hk
        | cons m before =>
          cases heq
          have hm := hbefore n List.mem_cons_self
          rw [hn] at hm
          cases hm
    | ok u =>
      have hpass : (Except.ok u >>= fun _ => checks check needs) = checks check needs := rfl
      rw [hpass, ih]
      constructor
      · rintro ⟨before, k, after, rfl, hbefore, hk⟩
        exact ⟨n :: before, k, after, rfl, List.forall_mem_cons.2 ⟨hn, hbefore⟩, hk⟩
      · rintro ⟨before, k, after, heq, hbefore, hk⟩
        cases before with
        | nil =>
          cases heq
          rw [hn] at hk
          cases hk
        | cons m before =>
          cases heq
          exact ⟨before, k, after, rfl, (List.forall_mem_cons.1 hbefore).2, hk⟩

theorem checks_ok {needs : List ν} :
    checks check needs = .ok () ↔ ∀ n ∈ needs, check n = .ok () := by
  induction needs with
  | nil => exact iff_of_true rfl (by simp)
  | cons n needs ih =>
    have hstep : checks check (n :: needs) = check n >>= fun _ => checks check needs := rfl
    rw [hstep, List.forall_mem_cons, ← ih, Effectful.bind_eq_ok_iff]
    exact ⟨fun ⟨_, hn, hrest⟩ => ⟨hn, hrest⟩, fun ⟨hn, hrest⟩ => ⟨(), hn, hrest⟩⟩

theorem Asks.drop_met {A : List ν} (h : Asks check m (A ++ B))
    (hB : ∀ n ∈ B, check n = .ok ()) : Asks check m A := by
  unfold Asks at h ⊢
  rw [h, checks_append, checks_ok.2 hB]
  cases checks check A <;> rfl

variable (check) in
theorem first_unmet (needs : List ν) : checks check needs = .ok () ∨
    ∃ before n after e, needs = before ++ n :: after ∧
      (∀ m ∈ before, check m = .ok ()) ∧ check n = .error e := by
  cases h : checks check needs with
  | ok u => exact Or.inl rfl
  | error e =>
    obtain ⟨before, n, after, hsplit, hbefore, hn⟩ := checks_raise.1 h
    exact Or.inr ⟨before, n, after, e, hsplit, hbefore, hn⟩

/-- **A computation raises only what its handler catches just in case every demand whose
exception the handler misses stands behind one whose exception it catches.** -/
theorem Asks.caught_iff {needs : List ν} (h : Asks check m needs)
    (caught : ε → Prop) : (∀ e, m = .error e → caught e) ↔
      ∀ before n after, needs = before ++ n :: after → Misses check caught n →
        ∃ k ∈ before, Falls check caught k := by
  have hraise : ∀ e, m = .error e ↔ checks check needs = .error e := by
    intro e
    rw [← h]
    exact erase_eq_error.symm
  constructor
  · rintro hall before n after rfl ⟨e, hn, he⟩
    rcases first_unmet check before with hok | hfirst
    · -- nothing before it fails, so its exception is the one raised
      have hm := (hraise e).2 (checks_raise.2 ⟨before, n, after, rfl, checks_ok.1 hok, hn⟩)
      exact absurd (hall e hm) he
    · obtain ⟨front, k, back, e', hsplit, hfront, hk⟩ := hfirst
      have hlist : before ++ n :: after = front ++ k :: (back ++ n :: after) := by
        rw [hsplit, List.append_assoc, List.cons_append]
      have hm := (hraise e').2 (checks_raise.2 ⟨front, k, _, hlist, hfront, hk⟩)
      have hmem : k ∈ before := by
        rw [hsplit]
        exact List.mem_append_right front List.mem_cons_self
      exact ⟨k, hmem, e', hk, hall e' hm⟩
  · intro hall e hm
    obtain ⟨before, n, after, hsplit, hbefore, hn⟩ := checks_raise.1 ((hraise e).1 hm)
    by_contra he
    obtain ⟨k, hk, e', hfall, -⟩ := hall before n after hsplit ⟨e, hn, he⟩
    rw [hbefore k hk] at hfall
    cases hfall

end Demand
