import Mathlib.Data.List.MinMax
import ClawHarder.Spec.Arbitration

/-!
# What arbitration returns

`spokesman` says which fact of an identity key arbitration listens to, without the
loop: the surest active fact, or else the surest among the facts in the state of
the oldest one that is neither archived nor invalidated.

* `findAuthoritativeFact_eq`: **the authoritative fact is the spokesman.**
* `arbitrate_eq`: the verdict is the contest between the observation and the spokesman.
-/

namespace ClawHarder

variable {N : Type} [JsNumber N] {m : Manifest N}

theorem preferFact_some {best : Option (Fact N)} {id : FactId} {f : Fact N}
    (h : preferFact m best id = some f) : best = some f ∨ m.facts.get? id = some f := by
  unfold preferFact at h
  split at h
  · exact Or.inl h
  · rename_i g hg
    split at h
    · exact Or.inl h
    · split at h
      · cases h; exact Or.inr hg
      · split at h
        · cases h; exact Or.inr hg
        · exact Or.inl h

theorem findAuthoritativeFact_mem {ids : OrderedSet FactId} {f : Fact N}
    (h : findAuthoritativeFact ids m = some f) : ∃ id ∈ ids, m.facts.get? id = some f := by
  unfold findAuthoritativeFact at h
  -- generalised over the accumulator, which starts empty
  have key : ∀ (ids : List FactId) (best : Option (Fact N)),
      ids.foldl (preferFact m) best = some f →
        best = some f ∨ ∃ id ∈ ids, m.facts.get? id = some f := by
    intro ids
    induction ids with
    | nil => intro best hb; exact Or.inl hb
    | cons id ids ih =>
      intro best hb
      rcases ih _ hb with hb | ⟨id', hid', hget⟩
      · rcases preferFact_some hb with hb | hget
        · exact Or.inl hb
        · exact Or.inr ⟨id, List.mem_cons_self, hget⟩
      · exact Or.inr ⟨id', List.mem_cons_of_mem id hid', hget⟩
  rcases key ids none h with hnone | hex
  · cases hnone
  · exact hex

variable {incoming : Incoming N} {indexes : ManifestIndexes}

theorem arbitrate_existing {id : FactId}
    (h : (arbitrate incoming m indexes).existingId? = some id) :
    ∃ f, findAuthoritativeFact (indexes.factsByIdentityKey.bucket incoming.identityKey) m = some f ∧
      f.factId = id := by
  unfold arbitrate at h
  simp only at h
  split at h
  · cases h
  · split at h
    · cases h
    · rename_i f hf
      refine ⟨f, hf, ?_⟩
      split_ifs at h <;> simpa [ArbitrationDecision.existingId?] using h

def FactState.retired (st : FactState) : Bool := st = .archived || st = .invalidated

def surest (st : FactState) (fs : List (Fact N)) : Option (Fact N) :=
  (fs.filter fun f => f.state = st).argmax (·.confidence)

/-- The fact that speaks for a list of facts of one key, oldest first. -/
def spokesman (fs : List (Fact N)) : Option (Fact N) :=
  let current := fs.filter fun f => !f.state.retired
  match surest .active current with
  | some a => some a
  | none =>
    match current.head? with
    | none => none
    | some oldest => surest oldest.state current

variable {st : FactState} {fs : List (Fact N)}

theorem surest_mem {a : Fact N} (h : surest st fs = some a) :
    a ∈ fs ∧ a.state = st := by
  have hin := List.argmax_mem h
  simpa using hin

theorem surest_eq_none :
    surest st fs = none ↔ ∀ f ∈ fs, f.state ≠ st := by
  unfold surest
  rw [List.argmax_eq_none, List.filter_eq_nil_iff]
  simp

theorem surest_concat_same {f : Fact N} (h : f.state = st) :
    surest st (fs ++ [f]) =
      match surest st fs with
      | none => some f
      | some c => if c.confidence < f.confidence then some f else some c := by
  unfold surest
  rw [List.filter_append, List.filter_cons_of_pos (by simp [h]), List.filter_nil, List.argmax_concat]
  cases (List.filter (fun f => decide (f.state = st)) fs).argmax (·.confidence) <;> rfl

theorem surest_concat_other {f : Fact N} (h : f.state ≠ st) :
    surest st (fs ++ [f]) = surest st fs := by
  unfold surest
  rw [List.filter_append, List.filter_cons_of_neg (by simp [h]), List.filter_nil, List.append_nil]

theorem spokesman_mem {a : Fact N} (h : spokesman fs = some a) :
    a ∈ fs ∧ a.state.retired = false := by
  have hcur : a ∈ fs.filter fun f => !f.state.retired := by
    unfold spokesman at h
    simp only at h
    split at h
    · rename_i b hb
      cases h
      exact (surest_mem hb).1
    · split at h
      · cases h
      · exact (surest_mem h).1
  simpa using hcur

theorem spokesman_active {a f : Fact N} (h : spokesman fs = some a)
    (hf : f ∈ fs) (hst : f.state = .active) : a.state = .active := by
  unfold spokesman at h
  simp only at h
  split at h
  · rename_i b hb
    cases h
    exact (surest_mem hb).2
  · rename_i hnone
    have hcur : f ∈ fs.filter fun f => !f.state.retired := by simp [hf, hst, FactState.retired]
    exact absurd hst (surest_eq_none.1 hnone f hcur)

theorem spokesman_eq_none :
    spokesman fs = none ↔ ∀ f ∈ fs, f.state.retired = true := by
  constructor
  · intro h f hf
    by_contra hr
    have hcur : f ∈ fs.filter fun f => !f.state.retired := by simpa [hf] using hr
    unfold spokesman at h
    simp only at h
    split at h
    · cases h
    · split at h
      · rename_i hhead
        rw [List.head?_eq_none_iff.1 hhead] at hcur
        cases hcur
      · rename_i oldest hhead
        exact surest_eq_none.1 h oldest (List.mem_of_head? hhead) rfl
  · intro h
    have hnil : (fs.filter fun f => !f.state.retired) = [] := by
      rw [List.filter_eq_nil_iff]
      intro f hf
      simp [h f hf]
    unfold spokesman
    rw [hnil]
    rfl

/-- **One more fact changes the spokesman as one turn of the loop does.** -/
theorem spokesman_concat (fs : List (Fact N)) (f : Fact N) :
    spokesman (fs ++ [f]) =
      if f.state.retired then spokesman fs
      else
        match spokesman fs with
        | none => some f
        | some b =>
          if (f.state = .active ∧ b.state ≠ .active) ∨
              (f.state = b.state ∧ b.confidence < f.confidence) then some f
          else some b := by
  by_cases hr : f.state.retired = true
  · rw [if_pos hr]
    unfold spokesman
    rw [List.filter_append, List.filter_cons_of_neg (by simp [hr]), List.filter_nil,
      List.append_nil]
  rw [if_neg hr]
  unfold spokesman
  rw [List.filter_append, List.filter_cons_of_pos (by simp [hr]), List.filter_nil]
  generalize (fs.filter fun f => !f.state.retired) = cur
  simp only
  by_cases hact : f.state = .active
  · rw [surest_concat_same hact]
    cases hs : surest .active cur with
    | some c =>
      -- an active spokesman yields to a surer active fact only
      have hc := (surest_mem hs).2
      simp only [hact, hc, ne_eq, not_true_eq_false, and_false, true_and, false_or]
      by_cases hlt : c.confidence < f.confidence
      · rw [if_pos hlt]
      · rw [if_neg hlt]
    | none =>
      cases hh : cur.head? with
      | none => rfl
      | some o =>
        cases ho : surest o.state cur with
        | none => exact absurd rfl (surest_eq_none.1 ho o (List.mem_of_head? hh))
        | some b =>
          have hb := (surest_mem ho).1
          have hne : b.state ≠ .active := surest_eq_none.1 hs b hb
          simp [hact, ho, hne]
  · rw [surest_concat_other hact]
    cases hs : surest .active cur with
    | some c =>
      have hc := (surest_mem hs).2
      have hne : f.state ≠ c.state := by rw [hc]; exact hact
      simp [hact, hne]
    | none =>
      cases hh : cur.head? with
      | none =>
        rw [List.head?_eq_none_iff.1 hh]
        simp [surest]
      | some o =>
        have hhead : (cur ++ [f]).head? = some o := by
          rw [List.head?_append, hh]; rfl
        simp only [hhead]
        cases ho : surest o.state cur with
        | none => exact absurd rfl (surest_eq_none.1 ho o (List.mem_of_head? hh))
        | some b =>
          have hb := (surest_mem ho).2
          by_cases hst : f.state = o.state
          · rw [surest_concat_same hst, ho]
            simp [hb, hst]
          · rw [surest_concat_other hst, ho]
            simp [hact, hb, hst]
/-- **The authoritative fact is the spokesman.** -/
theorem findAuthoritativeFact_eq (ids : List FactId) :
    findAuthoritativeFact ids m = spokesman (ids.filterMap m.facts.get?) := by
  induction ids using List.reverseRecOn with
  | nil => rfl
  | append_singleton ids id ih =>
    unfold findAuthoritativeFact at ih ⊢
    rw [List.foldl_append, List.foldl_cons, List.foldl_nil, ih, List.filterMap_append]
    cases hget : m.facts.get? id with
    | none => simp [preferFact, hget]
    | some f =>
      have hone : List.filterMap m.facts.get? [id] = [f] := by simp [hget]
      rw [hone, spokesman_concat]
      unfold preferFact
      rw [hget]
      by_cases hr : f.state.retired = true
      · have hr' : f.state = .archived ∨ f.state = .invalidated := by
          simpa [FactState.retired] using hr
        simp only [hr', hr, if_true]
      · have hr' : ¬ (f.state = .archived ∨ f.state = .invalidated) := by
          simpa [FactState.retired] using hr
        simp only [hr', hr, if_false]
        rfl

def contest (incoming : Incoming N) (a : Fact N) : Outcome :=
  let threshold : N := CONFIDENCE_SUPERIORITY_THRESHOLD
  if incoming.factHash = a.factHash then .converge
  else if threshold ≤ incoming.confidence - a.confidence then .supersede
  else if threshold ≤ -(incoming.confidence - a.confidence) then .reject
  else .conflict

/-- **The verdict is the contest between the observation and the spokesman.** -/
theorem arbitrate_eq :
    (arbitrate incoming m indexes).outcome =
      ((findAuthoritativeFact (indexes.factsByIdentityKey.bucket incoming.identityKey) m).map
        (contest incoming)).getD .new ∧
    (arbitrate incoming m indexes).existingId? =
      (findAuthoritativeFact (indexes.factsByIdentityKey.bucket incoming.identityKey) m).map
        (·.factId) := by
  unfold arbitrate
  simp only
  split
  · rename_i hnil
    rw [hnil]
    exact ⟨rfl, rfl⟩
  · cases findAuthoritativeFact (indexes.factsByIdentityKey.bucket incoming.identityKey) m with
    | none => exact ⟨rfl, rfl⟩
    | some a =>
      simp only [Option.map_some, Option.getD_some, contest]
      split_ifs <;> exact ⟨rfl, rfl⟩

end ClawHarder
