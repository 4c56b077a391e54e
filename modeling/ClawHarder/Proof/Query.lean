import ClawHarder.Proof.Coherence
import ClawHarder.Proof.Independence
import ClawHarder.Spec.Query

/-!
# A query and a scan

`scanFacts` filters all facts of the manifest, ranks them and takes the first. The
indexes list the facts of a type or of a key in the order of the manifest, after any
calls, so a query that starts from a bucket meets the same facts in the same order.

* `found_eq`: the candidates that pass the checks are the facts that match.
* `queryFacts_eq_scan`: **a query returns what the scan returns.**
-/

namespace ClawHarder

open Injection (compareConfidence sortBy)

variable {N : Type}

def Limit.Positive : Limit → Prop
  | .finite q => 0 < q
  | .infinity => True
  | .negInfinity | .nan => False

/-- The first elements of a list: as many whole ones as the limit has. -/
def takeFirst {α : Type} (limit : Option Limit) (l : List α) : List α :=
  match limit with
  | some (.finite q) => l.take q.floor.toNat
  | _ => l

section Scan

variable [JsNumber N]

def QueryFactsFilter.matches (filter : QueryFactsFilter N) (fact : Fact N) : Bool :=
  (given filter.type).all (fun type => fact.type = type) && filter.admits fact

def ranks (a b : Fact N) : Bool :=
  b.confidence < a.confidence ||
    (a.confidence = b.confidence && a.discoveryIndex ≤ b.discoveryIndex)

def scanFacts (filter : QueryFactsFilter N) (m : Manifest N) : List (Fact N) :=
  takeFirst filter.limit ((m.facts.values.filter filter.matches).mergeSort ranks)

def View.Typed (v : View N) : Prop := Listed (·.type) v.indexes.factsByType v.facts

omit [JsNumber N] in
theorem typed_build {m : Manifest N} (hk : m.Keyed) :
    Listed (·.type) (buildIndexes m).factsByType m.facts := by
  obtain ⟨htype, -⟩ := foldl_indexFact m.facts.values .empty
  rw [buildIndexes_eq]
  simp only [htype]
  exact listed_foldl (·.type) hk.facts

variable {E : Env N} {P : Policy N}

/-- **Every edit keeps the order of the type index.** -/
theorem typed_edit {v w : View N} (he : Edit E P v w) (hF : v.Filed E) (h : v.Typed) :
    w.Typed := by
  cases he with
  | insertFact f hid hp =>
    have hnew : v.facts.get? f.factId = none := by
      rw [hid]
      exact hF.working.newFact _ le_rfl
    exact Listed.insert (·.type) h hF.working.factId hnew
  | observe id f source now hget => exact Listed.rewrite (·.type) h hget rfl rfl
  | move id f st now hget => exact Listed.rewrite (·.type) h hget rfl rfl
  | force id f hget hp => exact Listed.rewrite (·.type) h hget rfl rfl
  | retire id f now hget hp => exact Listed.rewrite (·.type) h hget rfl rfl
  | load m hfile =>
    have hm := hF.file m hfile
    exact typed_build ⟨hm.factId, hm.summaryId⟩
  | _ => exact h

omit [JsNumber N] in
theorem lookup_ids {facts : OrderedMap FactId (Fact N)}
    (hk : ∀ k f, facts.get? k = some f → f.factId = k) (p q : Fact N → Bool) :
    ((facts.values.filter p).map (·.factId)).filterMap (fun fid => (facts.get? fid).filter q) =
      facts.values.filter fun f => p f && q f := by
  have hget : ∀ f ∈ facts.values, facts.get? f.factId = some f := by
    intro f hf
    obtain ⟨k, hkf⟩ := OrderedMap.mem_values.1 hf
    rw [hk k f hkf]
    exact hkf
  rw [List.filterMap_map]
  have hlocal : ∀ l : List (Fact N), (∀ f ∈ l, facts.get? f.factId = some f) →
      (l.filter p).filterMap ((fun fid => (facts.get? fid).filter q) ∘ (·.factId)) =
        l.filter fun f => p f && q f := by
    intro l hl
    induction l with
    | nil => rfl
    | cons f l ih =>
      have hf := hl f List.mem_cons_self
      have ih := ih fun g hg => hl g (List.mem_cons_of_mem f hg)
      by_cases hp : p f = true
      · rw [List.filter_cons_of_pos hp, List.filterMap_cons]
        simp only [Function.comp_apply, hf, Option.filter_some]
        cases hq : q f with
        | true =>
          rw [List.filter_cons_of_pos (by simp [hp, hq]), ← ih]
          rfl
        | false =>
          rw [List.filter_cons_of_neg (by simp [hq]), ← ih]
          rfl
      · rw [List.filter_cons_of_neg hp, ih, List.filter_cons_of_neg (by simp [hp])]
  exact hlocal facts.values hget

variable {s : Engine N}

/-- **The candidates that pass the checks are the facts that match**, in order. -/
theorem found_eq (hF : s.view.Filed E) (hT : s.view.Typed) (hB : s.view.Booked)
    (filter : QueryFactsFilter N) :
    ((s.candidates filter).filterMap fun fid =>
      (s.working.facts.get? fid).filter filter.admits) =
        s.working.facts.values.filter filter.matches := by
  have hk : ∀ k f, s.working.facts.get? k = some f → f.factId = k := hF.working.factId
  unfold Engine.candidates QueryFactsFilter.matches
  cases htype : given filter.type with
  | some type =>
    have hbucket : s.indexes.factsByType.bucket type =
        (s.working.facts.values.filter fun f => f.type = type).map (·.factId) := hT type
    simp only [hbucket, lookup_ids hk]
    rfl
  | none =>
    cases hkey : given filter.identityKey with
    | some key =>
      have hbucket : s.indexes.factsByIdentityKey.bucket key =
          (s.working.facts.values.filter fun f => f.identityKey = key).map (·.factId) :=
        hB.order key
      simp only [hbucket, lookup_ids hk]
      refine List.filter_congr fun f _ => ?_
      -- the checks ask for the key again
      have hagain : filter.admits f = true → f.identityKey = key := by
        intro h
        simp only [QueryFactsFilter.admits, hkey, Bool.and_eq_true] at h
        simpa using h.2
      by_cases h : filter.admits f = true
      · simp [h, hagain h]
      · simp [h]
    | none =>
      have hall := lookup_ids hk (fun _ => true) filter.admits
      rw [List.filter_eq_self.2 fun _ _ => rfl, values_ids hk] at hall
      rw [hall]
      rfl

/-- The difference of two numbers has the sign of their comparison. -/
def DifferenceCompares (N : Type) [JsNumber N] : Prop :=
  ∀ a b : N, a ≠ b → compare (a - b) (0.0 : N) = compare a b

theorem isLE_compare {α : Type} [LinearOrder α] (a b : α) :
    (compare a b).isLE = decide (a ≤ b) := by
  rcases lt_trichotomy a b with h | h | h
  · rw [compare_lt_iff_lt.2 h]
    simp [h.le]
  · rw [compare_eq_iff_eq.2 h]
    simp [h]
  · rw [compare_gt_iff_gt.2 h]
    simp [h]

theorem compareQueried_isLE (hsub : DifferenceCompares N) (a b : Fact N) :
    (compareQueried a b).isLE = ranks a b := by
  unfold compareQueried ranks compareConfidence
  by_cases h : b.confidence = a.confidence
  · rw [if_neg (not_not.2 h), isLE_compare]
    simp [h]
  · rw [if_pos h, hsub _ _ h, isLE_compare, Bool.eq_iff_iff]
    simp only [Ne.symm h, decide_false, Bool.false_and, Bool.or_false, decide_eq_true_eq]
    exact ⟨fun hle => lt_of_le_of_ne hle h, le_of_lt⟩

theorem limited_eq {α : Type} {limit : Option Limit}
    (hlimit : ∀ stop, limit = some stop → stop.Positive) (l : List α) :
    limited limit l = takeFirst limit l := by
  cases limit with
  | none => rfl
  | some stop =>
    have hpos := hlimit stop rfl
    cases stop with
    | finite q =>
      have hq : 0 < q := hpos
      have htruthy : Limit.truthy (.finite q) = true := decide_eq_true (ne_of_gt hq)
      have hfloor : 0 ≤ q.floor := Rat.le_floor_iff.2 (by simpa using hq.le)
      have htrunc : Limit.trunc q = q.floor := if_neg (not_lt_of_ge hq.le)
      have hplace : (Limit.finite q).position l.length = min q.floor.toNat l.length := by
        simp only [Limit.position, htrunc]
        exact if_neg (by omega)
      unfold limited takeFirst sliceTo
      simp only [htruthy, if_true, hplace]
      exact List.take_eq_take_min.symm
    | infinity => simp [limited, Limit.truthy, takeFirst, sliceTo, Limit.position]
    | negInfinity => exact hpos.elim
    | nan => exact hpos.elim

theorem typed_step (hE : Function.Injective E.shortId) (s : Engine N) (op : Op N)
    (h : s.InOrder E ∧ s.view.Typed) : (step E s op).InOrder E ∧ (step E s op).view.Typed := by
  have hedits := step_edits hE h.1.filed (allows_any op)
  have hkept : (step E s op).view.Filed E ∧ (step E s op).view.Typed := by
    refine hedits.inv (I := fun v => v.Filed E ∧ v.Typed) ?_ ⟨h.1.filed, h.2⟩
    rintro v w he ⟨hF, hT⟩
    exact ⟨filed_edit hE he hF, typed_edit he hF hT⟩
  exact ⟨inOrder_step hE s op h.1, hkept.2⟩

theorem typed_started (hs : Started E s) (hk : s.working.Keyed) : s.view.Typed := by
  have hbuild := typed_build hk
  rw [← hs.loaded.1] at hbuild
  exact hbuild

/-- **A query returns what the scan returns**, after any calls, for any filter with a
positive limit or none. -/
theorem queryFacts_eq_scan (hsub : DifferenceCompares N) (hs : Started E s)
    (hk : s.working.Keyed) (hid : UniqueIds E s) (ops : List (Op N)) (filter : QueryFactsFilter N)
    (hlimit : ∀ stop, filter.limit = some stop → stop.Positive) :
    (Machine.run (step E) s ops).queryFacts filter =
      scanFacts filter (Machine.run (step E) s ops).working := by
  have hstart : s.InOrder E ∧ s.view.Typed := ⟨inOrder_started hs hk hid, typed_started hs hk⟩
  obtain ⟨hord, htyped⟩ := Machine.run_inv_all (typed_step hid.injective) hstart ops
  have hfound := found_eq hord.filed htyped hord.booked filter
  have hsort : (fun a b : Fact N => (compareQueried a b).isLE) = ranks := by
    funext a b
    exact compareQueried_isLE hsub a b
  unfold Engine.queryFacts scanFacts sortBy
  simp only [hfound, hsort]
  exact limited_eq hlimit _

end Scan

theorem rational_compares : DifferenceCompares ℚ := by
  intro a b hab
  have hzero : (0.0 : ℚ) = 0 := by decide +kernel
  rcases lt_or_gt_of_ne hab with h | h
  · rw [compare_lt_iff_lt.2 h, compare_lt_iff_lt, hzero]
    exact sub_neg_of_lt h
  · rw [compare_gt_iff_gt.2 h, compare_gt_iff_gt, hzero]
    exact sub_pos_of_lt h

def topCities : QueryFactsFilter ℚ := { type := some "city", limit := some (.finite 2) }

theorem topCities_scanned :
    (afterSession citySession).queryFacts topCities =
      scanFacts topCities (afterSession citySession).working := by
  refine queryFacts_eq_scan rational_compares (started_fresh _ "agent" rfl {})
    (keyed_fresh _ "agent" _ {}) (uniqueIds_fresh (Env.plain_injective ℚ) "agent" _ {})
    citySession topCities ?_
  intro stop hstop
  cases hstop
  show (0 : ℚ) < 2
  decide

end ClawHarder
