import ClawHarder.Spec.Manager

/-!
# The law of the indexes

`IndexLaw` says what each index holds, read off the stores. A manifest whose
records are filed under their own ids has the indexes of `buildIndexes` exactly
when it has the law (`indexLaw_iff`), so an update of an index is checked against
the law and never against a rebuild.

* `indexLaw_iff`: **the law is equality with `buildIndexes`**.
* `Listed.insert`, `Listed.rewrite`, `listed_foldl`: a bucket lists its facts oldest first.
-/

namespace ClawHarder

variable {N : Type}

structure FactLaw (facts : OrderedMap FactId (Fact N)) (ix : ManifestIndexes) : Prop where
  type : ∀ k id, id ∈ ix.factsByType.bucket k ↔ ∃ f, facts.get? id = some f ∧ f.type = k
  identityKey : ∀ k id,
    id ∈ ix.factsByIdentityKey.bucket k ↔ ∃ f, facts.get? id = some f ∧ f.identityKey = k
  source : ∀ k id, id ∈ ix.factsBySource.bucket k ↔ ∃ f, facts.get? id = some f ∧ f.source = k
  active : ∀ id, id ∈ ix.activeFacts ↔ ∃ f, facts.get? id = some f ∧ f.state = .active
  conflicted : ∀ id,
    id ∈ ix.conflictedFacts ↔ ∃ f, facts.get? id = some f ∧ f.state = .conflicted

def RefLaw (references : OrderedMap RefId Reference) (ix : ManifestIndexes) : Prop :=
  ∀ k id, id ∈ ix.refsBySource.bucket k ↔ ∃ r ∈ references.values, r.source = k ∧ r.refId = id

def DepLaw (summaries : OrderedMap SummaryId (Summary N)) (ix : ManifestIndexes) : Prop :=
  ∀ fid sid, sid ∈ ix.summaryDeps.bucket fid ↔
    ∃ sm, summaries.get? sid = some sm ∧ fid ∈ sm.sourceFactIds

/-- **The law of the indexes.** -/
structure IndexLaw (facts : OrderedMap FactId (Fact N)) (references : OrderedMap RefId Reference)
    (summaries : OrderedMap SummaryId (Summary N)) (ix : ManifestIndexes) : Prop where
  facts : FactLaw facts ix
  references : RefLaw references ix
  summaries : DepLaw summaries ix

theorem filed_values {V : Type} {store : OrderedMap String V} {idOf : V → String}
    (hk : ∀ k v, store.get? k = some v → idOf v = k) (p : V → Prop) (id : String) :
    (∃ v ∈ store.values, p v ∧ idOf v = id) ↔ ∃ v, store.get? id = some v ∧ p v := by
  constructor
  · rintro ⟨v, hv, hp, hid⟩
    obtain ⟨k, hget⟩ := OrderedMap.mem_values.1 hv
    have hkid : idOf v = k := hk k v hget
    rw [hid] at hkid
    exact ⟨v, by rw [hkid]; exact hget, hp⟩
  · rintro ⟨v, hget, hp⟩
    exact ⟨v, OrderedMap.mem_values.2 ⟨id, hget⟩, hp, hk id v hget⟩

theorem foldl_indexFact (fs : List (Fact N)) (ix : ManifestIndexes) :
    (fs.foldl indexFact ix).factsByType =
      fs.foldl (fun m f => SetMap.add m f.type f.factId) ix.factsByType ∧
    (fs.foldl indexFact ix).factsByIdentityKey =
      fs.foldl (fun m f => SetMap.add m f.identityKey f.factId) ix.factsByIdentityKey ∧
    (fs.foldl indexFact ix).factsBySource =
      fs.foldl (fun m f => SetMap.add m f.source f.factId) ix.factsBySource ∧
    (fs.foldl indexFact ix).refsBySource = ix.refsBySource ∧
    (fs.foldl indexFact ix).summaryDeps = ix.summaryDeps := by
  induction fs generalizing ix with
  | nil => exact ⟨rfl, rfl, rfl, rfl, rfl⟩
  | cons f fs ih => exact ih (indexFact ix f)

theorem mem_active_foldl (fs : List (Fact N)) (ix : ManifestIndexes) (id : FactId) :
    id ∈ (fs.foldl indexFact ix).activeFacts ↔
      id ∈ ix.activeFacts ∨ ∃ f ∈ fs, f.state = .active ∧ f.factId = id := by
  induction fs generalizing ix with
  | nil => simp
  | cons f fs ih =>
    rw [List.foldl_cons, ih]
    simp only [List.mem_cons, exists_eq_or_imp, ← or_assoc]
    refine or_congr ?_ Iff.rfl
    by_cases h : f.state = .active
    · simp only [indexFact, h, if_true, OrderedSet.mem_add, true_and, eq_comm]
    · simp only [indexFact, h, if_false, false_and, or_false]

theorem mem_conflicted_foldl (fs : List (Fact N)) (ix : ManifestIndexes) (id : FactId) :
    id ∈ (fs.foldl indexFact ix).conflictedFacts ↔
      id ∈ ix.conflictedFacts ∨ ∃ f ∈ fs, f.state = .conflicted ∧ f.factId = id := by
  induction fs generalizing ix with
  | nil => simp
  | cons f fs ih =>
    rw [List.foldl_cons, ih]
    simp only [List.mem_cons, exists_eq_or_imp, ← or_assoc]
    refine or_congr ?_ Iff.rfl
    by_cases h : f.state = .conflicted
    · simp only [indexFact, h, if_true, OrderedSet.mem_add, true_and, eq_comm]
    · simp only [indexFact, h, if_false, false_and, or_false]

theorem foldl_indexReference (rs : List Reference) (ix : ManifestIndexes) :
    rs.foldl indexReference ix = { ix with
      refsBySource := rs.foldl (fun m r => SetMap.add m r.source r.refId) ix.refsBySource } := by
  induction rs generalizing ix with
  | nil => rfl
  | cons r rs ih => rw [List.foldl_cons, ih]; rfl

theorem foldl_indexSummaryDeps (sums : List (Summary N)) (ix : ManifestIndexes) :
    sums.foldl (fun ix s => indexSummaryDeps ix s.summaryId s.sourceFactIds) ix = { ix with
      summaryDeps := sums.foldl (fun m s =>
        s.sourceFactIds.foldl (fun m fid => SetMap.add m fid s.summaryId) m) ix.summaryDeps } := by
  induction sums generalizing ix with
  | nil => rfl
  | cons s sums ih => rw [List.foldl_cons, ih]; rfl

theorem mem_deps_foldl (sums : List (Summary N)) (m : SetMap FactId SummaryId) (fid : FactId)
    (sid : SummaryId) :
    sid ∈ (sums.foldl (fun m s =>
        s.sourceFactIds.foldl (fun m fid => SetMap.add m fid s.summaryId) m) m).bucket fid ↔
      sid ∈ m.bucket fid ∨ ∃ s ∈ sums, fid ∈ s.sourceFactIds ∧ s.summaryId = sid := by
  induction sums generalizing m with
  | nil => simp
  | cons s sums ih =>
    have hone := SetMap.mem_bucket_foldl_add (fun k : FactId => k) (fun _ => s.summaryId)
      s.sourceFactIds m fid sid
    rw [List.foldl_cons, ih, hone, or_assoc]
    simp only [List.mem_cons, exists_eq_or_imp]
    refine or_congr Iff.rfl (or_congr ?_ Iff.rfl)
    constructor
    · rintro ⟨k, hk, rfl, hsid⟩; exact ⟨hk, hsid⟩
    · rintro ⟨hk, hsid⟩; exact ⟨fid, hk, rfl, hsid⟩

theorem buildIndexes_eq (m : Manifest N) :
    buildIndexes m =
      { m.facts.values.foldl indexFact .empty with
        refsBySource := m.references.values.foldl (fun ix r => SetMap.add ix r.source r.refId)
          .empty
        summaryDeps := m.summaries.values.foldl (fun ix s =>
          s.sourceFactIds.foldl (fun ix fid => SetMap.add ix fid s.summaryId) ix) .empty } := by
  unfold buildIndexes
  obtain ⟨-, -, -, hrefs, hdeps⟩ := foldl_indexFact m.facts.values .empty
  simp only [foldl_indexReference, foldl_indexSummaryDeps, hrefs, hdeps]
  rfl

/-- **`buildIndexes` has the law.** -/
theorem indexLaw_buildIndexes {m : Manifest N} (hk : m.Keyed) :
    IndexLaw m.facts m.references m.summaries (buildIndexes m) := by
  obtain ⟨htype, hkey, hsource, -, -⟩ := foldl_indexFact m.facts.values .empty
  rw [buildIndexes_eq]
  have hfiled (p : Fact N → Prop) (id : FactId) := filed_values hk.facts p id
  refine ⟨⟨?_, ?_, ?_, ?_, ?_⟩, ?_, ?_⟩
  · intro k id
    rw [htype, SetMap.mem_bucket_foldl_add, ← hfiled (fun f => f.type = k)]
    simp [ManifestIndexes.empty]
  · intro k id
    rw [hkey, SetMap.mem_bucket_foldl_add, ← hfiled (fun f => f.identityKey = k)]
    simp [ManifestIndexes.empty]
  · intro k id
    rw [hsource, SetMap.mem_bucket_foldl_add, ← hfiled (fun f => f.source = k)]
    simp [ManifestIndexes.empty]
  · intro id
    rw [← hfiled (fun f => f.state = .active)]
    simp [mem_active_foldl, ManifestIndexes.empty]
  · intro id
    rw [← hfiled (fun f => f.state = .conflicted)]
    simp [mem_conflicted_foldl, ManifestIndexes.empty]
  · intro k id
    rw [SetMap.mem_bucket_foldl_add]
    simp
  · intro fid sid
    rw [mem_deps_foldl, ← filed_values hk.summaries (fun s => fid ∈ s.sourceFactIds)]
    simp

/-- **The law is equality with `buildIndexes`.** -/
theorem indexLaw_iff {m : Manifest N} (hk : m.Keyed) {ix : ManifestIndexes} :
    IndexLaw m.facts m.references m.summaries ix ↔ ix.Equiv (buildIndexes m) := by
  have hb := indexLaw_buildIndexes hk
  constructor
  · intro h
    exact
      { factsByType := fun k id => (h.facts.type k id).trans (hb.facts.type k id).symm
        factsByIdentityKey := fun k id =>
          (h.facts.identityKey k id).trans (hb.facts.identityKey k id).symm
        factsBySource := fun k id => (h.facts.source k id).trans (hb.facts.source k id).symm
        refsBySource := fun k id => (h.references k id).trans (hb.references k id).symm
        summaryDeps := fun fid sid => (h.summaries fid sid).trans (hb.summaries fid sid).symm
        activeFacts := fun id => (h.facts.active id).trans (hb.facts.active id).symm
        conflictedFacts := fun id => (h.facts.conflicted id).trans (hb.facts.conflicted id).symm }
  · intro h
    exact
      { facts :=
          { type := fun k id => (h.factsByType k id).trans (hb.facts.type k id)
            identityKey := fun k id => (h.factsByIdentityKey k id).trans (hb.facts.identityKey k id)
            source := fun k id => (h.factsBySource k id).trans (hb.facts.source k id)
            active := fun id => (h.activeFacts id).trans (hb.facts.active id)
            conflicted := fun id => (h.conflictedFacts id).trans (hb.facts.conflicted id) }
        references := fun k id => (h.refsBySource k id).trans (hb.references k id)
        summaries := fun fid sid => (h.summaryDeps fid sid).trans (hb.summaries fid sid) }

section Updates

variable {facts : OrderedMap FactId (Fact N)} {ix : ManifestIndexes} {id : FactId} {f f' : Fact N}

theorem exists_set_old (hget : facts.get? id = some f) (p : Fact N → Prop) (hp : p f' ↔ p f)
    (k : FactId) :
    (∃ g, (facts.set id f').get? k = some g ∧ p g) ↔ ∃ g, facts.get? k = some g ∧ p g := by
  by_cases hk : k = id
  · subst hk
    simp [hget, hp]
  · rw [OrderedMap.get?_set_ne facts f' hk]

theorem exists_set_new (hnew : facts.get? id = none) (p : Fact N → Prop) (k : FactId) :
    (∃ g, (facts.set id f).get? k = some g ∧ p g) ↔
      (∃ g, facts.get? k = some g ∧ p g) ∨ (p f ∧ k = id) := by
  by_cases hk : k = id
  · subst hk
    simp [hnew]
  · rw [OrderedMap.get?_set_ne facts f hk]
    simp [hk]

theorem FactLaw.insert (h : FactLaw facts ix) (hnew : facts.get? f.factId = none) :
    FactLaw (facts.set f.factId f) (indexFact ix f) where
  type k id := by
    rw [exists_set_new hnew (fun g => g.type = k), ← h.type k id]
    simp [indexFact, eq_comm]
  identityKey k id := by
    rw [exists_set_new hnew (fun g => g.identityKey = k), ← h.identityKey k id]
    simp [indexFact, eq_comm]
  source k id := by
    rw [exists_set_new hnew (fun g => g.source = k), ← h.source k id]
    simp [indexFact, eq_comm]
  active id := by
    rw [exists_set_new hnew (fun g => g.state = .active), ← h.active id]
    by_cases hst : f.state = .active <;> simp [indexFact, hst]
  conflicted id := by
    rw [exists_set_new hnew (fun g => g.state = .conflicted), ← h.conflicted id]
    by_cases hst : f.state = .conflicted <;> simp [indexFact, hst]

structure Fact.SameFiling (f' f : Fact N) : Prop where
  type : f'.type = f.type
  identityKey : f'.identityKey = f.identityKey
  source : f'.source = f.source

theorem Fact.moved_filing (f : Fact N) (st : FactState) (now : String) :
    (f.moved st now).SameFiling f :=
  ⟨rfl, rfl, rfl⟩

theorem FactLaw.rewrite (h : FactLaw facts ix) (hget : facts.get? id = some f)
    (hsame : f'.SameFiling f) (hst : f'.state = f.state) : FactLaw (facts.set id f') ix where
  type k x := by
    rw [exists_set_old hget (fun g => g.type = k) (by rw [hsame.type])]
    exact h.type k x
  identityKey k x := by
    rw [exists_set_old hget (fun g => g.identityKey = k) (by rw [hsame.identityKey])]
    exact h.identityKey k x
  source k x := by
    rw [exists_set_old hget (fun g => g.source = k) (by rw [hsame.source])]
    exact h.source k x
  active x := by
    rw [exists_set_old hget (fun g => g.state = .active) (by rw [hst])]
    exact h.active x
  conflicted x := by
    rw [exists_set_old hget (fun g => g.state = .conflicted) (by rw [hst])]
    exact h.conflicted x

theorem mem_align_active {prev st : FactState} {x : FactId} :
    x ∈ (alignStates ix id prev st).activeFacts ↔
      if x = id then st = .active ∨ (prev ≠ .active ∧ x ∈ ix.activeFacts) else x ∈ ix.activeFacts := by
  by_cases hx : x = id <;> by_cases hp : prev = .active <;> by_cases hs : st = .active <;>
    simp [alignStates, hx, hp, hs]

theorem mem_align_conflicted {prev st : FactState} {x : FactId} :
    x ∈ (alignStates ix id prev st).conflictedFacts ↔
      if x = id then st = .conflicted ∨ (prev ≠ .conflicted ∧ x ∈ ix.conflictedFacts)
      else x ∈ ix.conflictedFacts := by
  by_cases hx : x = id <;> by_cases hp : prev = .conflicted <;> by_cases hs : st = .conflicted <;>
    simp [alignStates, hx, hp, hs]

theorem FactLaw.frame (h : FactLaw facts ix) (refs : SetMap String RefId)
    (deps : SetMap FactId SummaryId) :
    FactLaw facts { ix with refsBySource := refs, summaryDeps := deps } :=
  ⟨h.type, h.identityKey, h.source, h.active, h.conflicted⟩

/-- A move from one state to another. The state that the indexes are told may
differ from the fact's own, if the fact is in no state set. -/
theorem FactLaw.move (h : FactLaw facts ix) (hget : facts.get? id = some f)
    (hsame : f'.SameFiling f) {prev : FactState} (ha : f.state = .active → prev = .active)
    (hc : f.state = .conflicted → prev = .conflicted) :
    FactLaw (facts.set id f') (alignStates ix id prev f'.state) where
  type k x := by
    rw [exists_set_old hget (fun g => g.type = k) (by rw [hsame.type])]
    exact h.type k x
  identityKey k x := by
    rw [exists_set_old hget (fun g => g.identityKey = k) (by rw [hsame.identityKey])]
    exact h.identityKey k x
  source k x := by
    rw [exists_set_old hget (fun g => g.source = k) (by rw [hsame.source])]
    exact h.source k x
  active x := by
    rw [mem_align_active]
    by_cases hx : x = id
    · subst hx
      have hlaw : x ∈ ix.activeFacts ↔ f.state = .active := by rw [h.active x]; simp [hget]
      rw [if_pos rfl, hlaw]
      simp only [OrderedMap.get?_set_self, Option.some.injEq, exists_eq_left']
      exact ⟨fun hor => hor.elim id (fun hand => absurd (ha hand.2) hand.1), Or.inl⟩
    · rw [if_neg hx, OrderedMap.get?_set_ne facts f' hx]
      exact h.active x
  conflicted x := by
    rw [mem_align_conflicted]
    by_cases hx : x = id
    · subst hx
      have hlaw : x ∈ ix.conflictedFacts ↔ f.state = .conflicted := by
        rw [h.conflicted x]; simp [hget]
      rw [if_pos rfl, hlaw]
      simp only [OrderedMap.get?_set_self, Option.some.injEq, exists_eq_left']
      exact ⟨fun hor => hor.elim id (fun hand => absurd (hc hand.2) hand.1), Or.inl⟩
    · rw [if_neg hx, OrderedMap.get?_set_ne facts f' hx]
      exact h.conflicted x

end Updates

theorem RefLaw.insert {references : OrderedMap RefId Reference} {ix : ManifestIndexes}
    {r : Reference} (h : RefLaw references ix) (hnew : references.get? r.refId = none) :
    RefLaw (references.set r.refId r) (indexReference ix r) := by
  intro k id
  rw [OrderedMap.values_set_new r hnew]
  have hold := h k id
  simp only [indexReference, SetMap.mem_bucket_add, hold, List.mem_append, List.mem_singleton]
  constructor
  · rintro (⟨r', hr', hk⟩ | ⟨rfl, rfl⟩)
    · exact ⟨r', Or.inl hr', hk⟩
    · exact ⟨r, Or.inr rfl, rfl, rfl⟩
  · rintro ⟨r', hr' | rfl, hk, hid⟩
    · exact Or.inl ⟨r', hr', hk, hid⟩
    · exact Or.inr ⟨hk.symm, hid.symm⟩

section Summaries

variable {summaries : OrderedMap SummaryId (Summary N)} {ix : ManifestIndexes} {sid : SummaryId}
  {sm sm' : Summary N}

theorem DepLaw.insert (h : DepLaw summaries ix) (hnew : summaries.get? sm.summaryId = none) :
    DepLaw (summaries.set sm.summaryId sm) (indexSummaryDeps ix sm.summaryId sm.sourceFactIds) := by
  intro fid k
  have hadd := SetMap.mem_bucket_foldl_add (fun x : FactId => x) (fun _ => sm.summaryId)
    sm.sourceFactIds ix.summaryDeps fid k
  simp only [indexSummaryDeps]
  rw [hadd, h fid k]
  by_cases hk : k = sm.summaryId
  · subst hk
    simp [hnew]
  · rw [OrderedMap.get?_set_ne _ _ hk]
    simp [Ne.symm hk]

theorem DepLaw.rewrite (h : DepLaw summaries ix) (hget : summaries.get? sid = some sm)
    (hsame : sm'.sourceFactIds = sm.sourceFactIds) : DepLaw (summaries.set sid sm') ix := by
  intro fid k
  rw [h fid k]
  by_cases hk : k = sid
  · subst hk
    simp [hget, hsame]
  · rw [OrderedMap.get?_set_ne _ _ hk]

end Summaries

section Order

variable {key : Fact N → String} {buckets : SetMap String FactId}
  {facts : OrderedMap FactId (Fact N)} {id : FactId} {f f' : Fact N}

def Listed (key : Fact N → String) (buckets : SetMap String FactId)
    (facts : OrderedMap FactId (Fact N)) : Prop :=
  ∀ k, buckets.bucket k = (facts.values.filter fun f => key f = k).map (·.factId)

theorem values_ids (hk : ∀ k f, facts.get? k = some f → f.factId = k) :
    facts.values.map (·.factId) = facts.keys := by
  unfold OrderedMap.values OrderedMap.keys
  rw [List.map_map]
  apply List.map_congr_left
  intro e he
  exact hk e.1 e.2 (OrderedMap.get?_eq_some.2 he)

theorem Listed.rewrite (key : Fact N → String) (h : Listed key buckets facts)
    (hget : facts.get? id = some f) (hid : f'.factId = f.factId) (hkey : key f' = key f) :
    Listed key buckets (facts.set id f') := by
  intro k
  obtain ⟨l, r, hold, hnew⟩ := OrderedMap.values_set_old f' hget
  rw [h k, hold, hnew, List.filter_append, List.filter_append, List.filter_cons,
    List.filter_cons, hkey]
  split
  · simp [hid]
  · rfl

theorem Listed.insert (key : Fact N → String) (h : Listed key buckets facts)
    (hfiled : ∀ k g, facts.get? k = some g → g.factId = k)
    (hnew : facts.get? f.factId = none) :
    Listed key (buckets.add (key f) f.factId) (facts.set f.factId f) := by
  intro k
  have hfresh : f.factId ∉ buckets.bucket (key f) := by
    rw [h]
    intro hin
    obtain ⟨g, hg, hgid⟩ := List.mem_map.1 hin
    obtain ⟨k', hk'⟩ := OrderedMap.mem_values.1 (List.mem_filter.1 hg).1
    have hkid : g.factId = k' := hfiled k' g hk'
    rw [← hkid, hgid, hnew] at hk'
    cases hk'
  rw [SetMap.bucket_add, OrderedMap.values_set_new f hnew, List.filter_append, List.map_append,
    ← h k, List.filter_singleton]
  by_cases hkey : k = key f
  · subst hkey
    rw [if_pos rfl, OrderedSet.add_of_not_mem hfresh]
    simp
  · simp [hkey, Ne.symm hkey]

theorem listed_foldl (key : Fact N → String)
    (hk : ∀ k f, facts.get? k = some f → f.factId = k) :
    Listed key (facts.values.foldl (fun m f => SetMap.add m (key f) f.factId) .empty) facts := by
  intro k
  rw [SetMap.bucket_foldl_add]
  · simp
  · rw [values_ids hk]
    exact facts.nodup
  · intro f _
    simp

end Order

end ClawHarder
