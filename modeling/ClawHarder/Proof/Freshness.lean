import ClawHarder.Proof.Chronicle
import ClawHarder.Proof.Indexing

/-!
# Fresh summaries

Staleness is pushed to the summaries listed under a fact in `summary_deps`, so an
active summary must be listed under each of its sources.

* `Changes.quiet`: the sources of a summary that is still fresh have not changed.
* `summaries_fresh`: **in every session a fresh summary is the only active one of
  its type and scope, and none of its sources has been outdated since.**
-/

namespace ClawHarder

open Relation

variable {N : Type}

def Summary.Fresh (sm : Summary N) : Prop := sm.state = .active ∧ sm.stale = false

theorem get?_markIn (sums : OrderedMap SummaryId (Summary N)) (sid k : SummaryId) :
    (markIn sums sid).get? k =
      (sums.get? k).map fun sm => if k = sid then { sm with stale := true } else sm := by
  unfold markIn
  cases hget : sums.get? sid with
  | none =>
    by_cases hk : k = sid
    · subst hk
      simp [hget]
    · simp [hk]
  | some sm =>
    by_cases hstale : sm.stale = true
    · simp only [hstale, if_true]
      by_cases hk : k = sid
      · subst hk
        -- the flag was set already
        have hsame : ({ sm with stale := true } : Summary N) = sm := by rw [← hstale]
        simp [hget, hsame]
      · simp [hk]
    · simp only [hstale, if_false, Bool.false_eq_true]
      rw [OrderedMap.get?_set]
      by_cases hk : k = sid
      · subst hk
        simp [hget]
      · simp [hk]

/-- **The summaries after a propagation.** -/
theorem get?_staleIn (sids : List SummaryId) (sums : OrderedMap SummaryId (Summary N))
    (k : SummaryId) :
    (staleIn sids sums).get? k =
      (sums.get? k).map fun sm => if k ∈ sids then { sm with stale := true } else sm := by
  unfold staleIn
  induction sids generalizing sums with
  | nil => simp
  | cons sid sids ih =>
    rw [List.foldl_cons, ih, get?_markIn, Option.map_map]
    congr 1
    funext sm
    simp only [Function.comp_apply, List.mem_cons]
    by_cases hk : k = sid <;> by_cases hin : k ∈ sids <;> simp [hk, hin]

theorem fresh_staleIn {sids : List SummaryId} {sums : OrderedMap SummaryId (Summary N)}
    {k : SummaryId} {sm : Summary N} (hget : (staleIn sids sums).get? k = some sm)
    (hf : sm.Fresh) : sums.get? k = some sm ∧ k ∉ sids := by
  rw [get?_staleIn, Option.map_eq_some_iff] at hget
  obtain ⟨old, hold, rfl⟩ := hget
  by_cases hin : k ∈ sids
  · simp only [hin, if_true] at hf
    exact absurd hf.2 (by simp)
  · simp only [hin, if_false]
    exact ⟨hold, not_false⟩

def SingleSummaries (sums : OrderedMap SummaryId (Summary N)) : Prop :=
  ∀ k k' a b, sums.get? k = some a → sums.get? k' = some b → a.state = .active →
    b.state = .active → a.type = b.type → a.scope = b.scope → k = k'

structure Scene.Summarized (v : Scene N) : Prop where
  keyed : ∀ k sm, v.summaries.get? k = some sm → sm.summaryId = k
  single : SingleSummaries v.summaries
  listed : ∀ k sm, v.summaries.get? k = some sm → sm.state = .active →
    ∀ fid ∈ sm.sourceFactIds, k ∈ v.deps.bucket fid

theorem SingleSummaries.shrink {sums sums' : OrderedMap SummaryId (Summary N)}
    (h : SingleSummaries sums)
    (hback : ∀ k sm, sums'.get? k = some sm → sm.state = .active →
      ∃ old, sums.get? k = some old ∧ old.state = .active ∧ old.type = sm.type ∧
        old.scope = sm.scope) : SingleSummaries sums' := by
  intro k k' a b ha hb hact hact' htype hscope
  obtain ⟨oa, hoa, hoact, hoat, hoas⟩ := hback k a ha hact
  obtain ⟨ob, hob, hobct, hobt, hobs⟩ := hback k' b hb hact'
  exact h k k' oa ob hoa hob hoact hobct (by rw [hoat, hobt, htype]) (by rw [hoas, hobs, hscope])

/-- The active summaries after one of a type and scope is superseded: those of other
types and scopes, as they were. -/
theorem Scene.Summarized.replace {v : Scene N} (h : v.Summarized) (type scope : String) :
    (v.replace type scope).Summarized ∧
    (∀ k sm, (v.replace type scope).summaries.get? k = some sm → sm.state = .active →
      v.summaries.get? k = some sm ∧ ¬ (sm.type = type ∧ sm.scope = scope)) ∧
    (∀ k, (v.replace type scope).summaries.get? k = none ↔ v.summaries.get? k = none) := by
  unfold Scene.replace
  cases hold : activeSummary type scope v.summaries with
  | none =>
    refine ⟨h, ?_, fun k => Iff.rfl⟩
    intro k sm hget hact
    refine ⟨hget, ?_⟩
    rintro ⟨rfl, rfl⟩
    have hnone := List.find?_eq_none.1 hold sm (OrderedMap.mem_values.2 ⟨k, hget⟩)
    simp [hact] at hnone
  | some old =>
    obtain ⟨ko, hko⟩ := OrderedMap.mem_values.1 (List.mem_of_find?_eq_some hold)
    have hid : old.summaryId = ko := h.keyed ko old hko
    subst hid
    have hprop := List.find?_some hold
    simp only [Bool.decide_and, Bool.and_eq_true, decide_eq_true_eq] at hprop
    obtain ⟨htype, hscope, hact⟩ := hprop
    have hback : ∀ k sm, (v.summaries.set old.summaryId { old with state := .superseded }).get? k =
        some sm → sm.state = .active → v.summaries.get? k = some sm ∧ k ≠ old.summaryId := by
      intro k sm hget hsm
      rw [OrderedMap.get?_set] at hget
      split at hget
      · cases hget
        cases hsm
      · rename_i hk
        exact ⟨hget, hk⟩
    refine ⟨⟨?_, ?_, ?_⟩, ?_, ?_⟩
    · intro k sm hget
      rw [OrderedMap.get?_set] at hget
      split at hget
      · rename_i hk
        cases hget
        exact hk.symm
      · exact h.keyed k sm hget
    · apply h.single.shrink
      intro k sm hget hsm
      exact ⟨sm, (hback k sm hget hsm).1, hsm, rfl, rfl⟩
    · intro k sm hget hsm fid hfid
      obtain ⟨hget', hk⟩ := hback k sm hget hsm
      rw [SetMap.mem_bucket_foldl_remove]
      exact ⟨h.listed k sm hget' hsm fid hfid, fun hin => hk hin.2⟩
    · intro k sm hget hsm
      obtain ⟨hget', hk⟩ := hback k sm hget hsm
      refine ⟨hget', ?_⟩
      rintro ⟨hty, hsc⟩
      exact hk (h.single k old.summaryId sm old hget' hko hsm hact (hty.trans htype.symm)
        (hsc.trans hscope.symm))
    · intro k
      rw [OrderedMap.get?_set]
      split
      · rename_i hk
        subst hk
        simp [hko]
      · exact Iff.rfl

variable [JsNumber N] {E : Env N}

/-- **Every change keeps the law of the summaries.** -/
theorem summarized_change {v w : Scene N} (h : Change E v w) (hv : v.Summarized) :
    w.Summarized := by
  cases h with
  | insert f hnew => exact ⟨hv.keyed, hv.single, hv.listed⟩
  | observe id source now => exact ⟨hv.keyed, hv.single, hv.listed⟩
  | force id f hget => exact ⟨hv.keyed, hv.single, hv.listed⟩
  | shift id st now =>
    have hback : ∀ k sm, (staleIn (v.deps.bucket id) v.summaries).get? k = some sm →
        ∃ old, v.summaries.get? k = some old ∧ sm.summaryId = old.summaryId ∧
          sm.state = old.state ∧ sm.type = old.type ∧ sm.scope = old.scope ∧
          sm.sourceFactIds = old.sourceFactIds := by
      intro k sm hget
      rw [get?_staleIn, Option.map_eq_some_iff] at hget
      obtain ⟨old, hold, rfl⟩ := hget
      refine ⟨old, hold, ?_⟩
      split <;> exact ⟨rfl, rfl, rfl, rfl, rfl⟩
    refine ⟨?_, ?_, ?_⟩
    · intro k sm hget
      obtain ⟨old, hold, hid, -⟩ := hback k sm hget
      rw [hid]
      exact hv.keyed k old hold
    · apply hv.single.shrink
      intro k sm hget hact
      obtain ⟨old, hold, -, hst, hty, hsc, -⟩ := hback k sm hget
      exact ⟨old, hold, hst ▸ hact, hty.symm, hsc.symm⟩
    · intro k sm hget hact fid hfid
      obtain ⟨old, hold, -, hst, -, -, hsrc⟩ := hback k sm hget
      exact hv.listed k old hold (hst ▸ hact) fid (hsrc ▸ hfid)
  | summarize sm hnew hactive =>
    obtain ⟨hr, hback, -⟩ := hv.replace sm.type sm.scope
    unfold Scene.summarize
    generalize v.replace sm.type sm.scope = u at hr hback
    refine ⟨?_, ?_, ?_⟩
    · intro k x hget
      rw [OrderedMap.get?_set] at hget
      split at hget
      · rename_i hk
        cases hget
        exact hk.symm
      · exact hr.keyed k x hget
    · -- the new summary is the only one of its type and scope
      intro k k' a b ha hb hact hact' htype hscope
      rw [OrderedMap.get?_set] at ha hb
      split at ha <;> split at hb
      · rename_i hk hk'
        rw [hk, hk']
      · cases ha
        exact absurd ⟨htype.symm, hscope.symm⟩ (hback k' b hb hact').2
      · cases hb
        exact absurd ⟨htype, hscope⟩ (hback k a ha hact).2
      · exact hr.single k k' a b ha hb hact hact' htype hscope
    · intro k x hget hact fid hfid
      rw [SetMap.mem_bucket_foldl_add]
      rw [OrderedMap.get?_set] at hget
      split at hget
      · rename_i hk
        cases hget
        exact Or.inr ⟨fid, hfid, rfl, hk.symm⟩
      · exact Or.inl (hr.listed k x hget hact fid hfid)

/-- The sources of a summary are as they were, or have become active. -/
def Unmoved (sources : List FactId) (facts facts' : OrderedMap FactId (Fact N)) : Prop :=
  ∀ fid ∈ sources, ∀ f g, facts.get? fid = some f → facts'.get? fid = some g →
    g.state = f.state ∨ g.state = .active

/-- A summary that is fresh after a change is new, or was fresh and the change left
its sources. -/
theorem Change.quiet {v w : Scene N} (h : Change E v w) (hk : v.Keyed) (hv : v.Summarized)
    {sid : SummaryId} {sm : Summary N} (hget : w.summaries.get? sid = some sm) (hf : sm.Fresh) :
    v.summaries.get? sid = none ∨
      (v.summaries.get? sid = some sm ∧ Unmoved sm.sourceFactIds v.facts w.facts) := by
  cases h with
  | insert n hnew =>
    refine Or.inr ⟨hget, ?_⟩
    intro fid _ f g hf' hg
    have hg' : (v.facts.set n.factId n).get? fid = some g := hg
    rw [OrderedMap.get?_set, if_neg, hf'] at hg'
    · cases hg'
      exact Or.inl rfl
    · rintro rfl
      rw [hnew.id] at hf'
      cases hf'
  | observe x source now =>
    refine Or.inr ⟨hget, ?_⟩
    intro fid _ f g hf' hg
    simp only [get?_observeIn (hk x)] at hg
    split at hg
    · rename_i hx
      subst hx
      rw [hf'] at hg
      cases hg
      exact Or.inl rfl
    · rw [hf'] at hg
      cases hg
      exact Or.inl rfl
  | force x f₀ hget₀ =>
    refine Or.inr ⟨hget, ?_⟩
    intro fid _ f g hf' hg
    rw [OrderedMap.get?_set] at hg
    split at hg
    · cases hg
      exact Or.inr rfl
    · rw [hf'] at hg
      cases hg
      exact Or.inl rfl
  | shift x st now =>
    obtain ⟨hold, hnot⟩ := fresh_staleIn hget hf
    refine Or.inr ⟨hold, ?_⟩
    intro fid hfid f g hf' hg
    simp only [Scene.shift, get?_moveIn] at hg
    split at hg
    · -- the summary is listed under its sources, so it would be stale
      rename_i hx
      subst hx
      exact absurd (hv.listed sid sm hold hf.1 fid hfid) hnot
    · rw [hf'] at hg
      cases hg
      exact Or.inl rfl
  | summarize n hnew hactive =>
    obtain ⟨-, hback, -⟩ := hv.replace n.type n.scope
    have hfacts : (v.summarize n).facts = v.facts := by
      unfold Scene.summarize Scene.replace
      cases activeSummary n.type n.scope v.summaries <;> rfl
    have hset : (v.summarize n).summaries.get? sid = some sm := hget
    unfold Scene.summarize at hset
    rw [OrderedMap.get?_set] at hset
    split at hset
    · rename_i hsid
      rw [hsid]
      exact Or.inl hnew
    · refine Or.inr ⟨(hback sid sm hset hf.1).1, ?_⟩
      intro fid _ f g hf' hg
      rw [hfacts, hf'] at hg
      cases hg
      exact Or.inl rfl

theorem Change.summary_kept {v w : Scene N} (h : Change E v w) (hv : v.Summarized)
    {sid : SummaryId} (hget : w.summaries.get? sid = none) : v.summaries.get? sid = none := by
  cases h with
  | shift x st now =>
    have hmap : (staleIn (v.deps.bucket x) v.summaries).get? sid = none := hget
    rw [get?_staleIn, Option.map_eq_none_iff] at hmap
    exact hmap
  | summarize n hnew hactive =>
    have hset : (v.summarize n).summaries.get? sid = none := hget
    unfold Scene.summarize at hset
    rw [OrderedMap.get?_set] at hset
    split at hset
    · cases hset
    · exact ((hv.replace n.type n.scope).2.2 sid).1 hset
  | _ => exact hget

/-- **A summary that is fresh after a call is new, or was fresh and its sources have
not been outdated.** -/
theorem Changes.quiet {v w : Scene N} (h : Changes E v w) (hk : v.Keyed) (hv : v.Summarized) :
    w.Summarized ∧ (∀ sid, w.summaries.get? sid = none → v.summaries.get? sid = none) ∧
    ∀ sid sm, w.summaries.get? sid = some sm → sm.Fresh →
      v.summaries.get? sid = none ∨
        (v.summaries.get? sid = some sm ∧ Unmoved sm.sourceFactIds v.facts w.facts) := by
  -- the facts stay, under their ids, which the last change needs
  have hall : w.Keyed ∧ w.Summarized ∧
      (∀ sid, w.summaries.get? sid = none → v.summaries.get? sid = none) ∧
      (∀ id f, v.facts.get? id = some f → ∃ g, w.facts.get? id = some g) ∧
      ∀ sid sm, w.summaries.get? sid = some sm → sm.Fresh →
        v.summaries.get? sid = none ∨
          (v.summaries.get? sid = some sm ∧ Unmoved sm.sourceFactIds v.facts w.facts) := by
    induction h with
    | refl =>
      refine ⟨hk, hv, fun _ h => h, fun id f hf => ⟨f, hf⟩, ?_⟩
      intro sid sm hget _
      refine Or.inr ⟨hget, ?_⟩
      intro fid _ f g hf hg
      rw [hf] at hg
      cases hg
      exact Or.inl rfl
    | @tail u w _ hlast ih =>
      obtain ⟨hku, hvu, hkept, hstay, hback⟩ := ih
      refine ⟨keyed_change hlast hku, summarized_change hlast hvu,
        fun sid hnone => hkept sid (hlast.summary_kept hvu hnone), ?_, ?_⟩
      · intro id f hf
        obtain ⟨g, hg⟩ := hstay id f hf
        obtain ⟨g', hg', -⟩ := hlast.kept hku hg
        exact ⟨g', hg'⟩
      · intro sid sm hget hf
        rcases hlast.quiet hku hvu hget hf with hnone | ⟨hmid, hun⟩
        · exact Or.inl (hkept sid hnone)
        · rcases hback sid sm hmid hf with hnone | ⟨hold, hun'⟩
          · exact Or.inl hnone
          · refine Or.inr ⟨hold, ?_⟩
            intro fid hfid f g hf' hg
            obtain ⟨m, hm⟩ := hstay fid f hf'
            rcases hun fid hfid m g hm hg with hsame | hact
            · rcases hun' fid hfid f m hf' hm with hsame' | hact'
              · exact Or.inl (hsame.trans hsame')
              · exact Or.inr (hsame.trans hact')
            · exact Or.inr hact
  exact ⟨hall.2.1, hall.2.2.1, hall.2.2.2.2⟩

def FactState.outdated (st : FactState) : Bool :=
  st = .superseded || st = .conflicted || st = .invalidated

inductive Event where
  /-- this summary was generated -/
  | generated (sid : SummaryId)
  /-- this fact became superseded, conflicted or invalidated -/
  | outdated (fid : FactId)
  deriving DecidableEq

def outdatedBy (s s' : Engine N) : List Event :=
  s'.working.facts.entries.filterMap fun e =>
    match s.working.facts.get? e.1 with
    | none => none
    | some f => if f.state ≠ e.2.state ∧ e.2.state.outdated then some (.outdated e.1) else none

def generatedBy (s s' : Engine N) : List Event :=
  s'.working.summaries.entries.filterMap fun e =>
    if s.working.summaries.contains e.1 then none else some (.generated e.1)

def freshnessLog (E : Env N) (s : Engine N) (op : Op N) : List Event :=
  outdatedBy s (step E s op) ++ generatedBy s (step E s op)

structure Told (sums : OrderedMap SummaryId (Summary N)) (trail : List Event) : Prop where
  single : SingleSummaries sums
  known : ∀ sid, .generated sid ∈ trail → sums.get? sid ≠ none
  fresh : ∀ sid sm, sums.get? sid = some sm → sm.Fresh →
    ∃ before after, trail = before ++ .generated sid :: after ∧ .generated sid ∉ before ∧
      ∀ fid ∈ sm.sourceFactIds, .outdated fid ∉ after

omit [JsNumber N] in
theorem not_mem_generatedBy {s s' : Engine N} {fid : FactId} :
    Event.outdated fid ∉ generatedBy s s' := by
  unfold generatedBy
  rw [List.mem_filterMap]
  rintro ⟨e, -, he⟩
  split at he <;> cases he

omit [JsNumber N] in
theorem mem_generatedBy {s s' : Engine N} {sid : SummaryId} :
    Event.generated sid ∈ generatedBy s s' ↔
      s.working.summaries.get? sid = none ∧ s'.working.summaries.get? sid ≠ none := by
  unfold generatedBy
  rw [List.mem_filterMap]
  constructor
  · rintro ⟨e, he, hev⟩
    split at hev
    · cases hev
    · rename_i hnot
      cases hev
      have hget := OrderedMap.get?_eq_some.2 he
      refine ⟨?_, by rw [hget]; simp⟩
      simpa [OrderedMap.contains] using hnot
  · rintro ⟨hnone, hsome⟩
    obtain ⟨sm, hget⟩ := Option.ne_none_iff_exists'.1 hsome
    refine ⟨(sid, sm), OrderedMap.get?_eq_some.1 hget, ?_⟩
    simp [OrderedMap.contains, hnone]

omit [JsNumber N] in
theorem mem_outdatedBy {s s' : Engine N} {ev : Event} :
    ev ∈ outdatedBy s s' ↔
      ∃ fid f g, ev = .outdated fid ∧ s.working.facts.get? fid = some f ∧
        s'.working.facts.get? fid = some g ∧ f.state ≠ g.state ∧ g.state.outdated = true := by
  unfold outdatedBy
  rw [List.mem_filterMap]
  constructor
  · rintro ⟨e, he, hev⟩
    split at hev
    · cases hev
    · rename_i f hf
      split at hev
      · rename_i hst
        cases hev
        exact ⟨e.1, f, e.2, rfl, hf, OrderedMap.get?_eq_some.2 he, hst.1, hst.2⟩
      · cases hev
  · rintro ⟨fid, f, g, rfl, hf, hg, hne, hout⟩
    refine ⟨(fid, g), OrderedMap.get?_eq_some.1 hg, ?_⟩
    simp [hf, hne, hout]

theorem told_step {s : Engine N} {trail : List Event} (hF : s.view.Filed E)
    (hv : s.scene.Summarized) (ht : Told s.working.summaries trail) {op : Op N}
    (hop : op.reloads = false) :
    (step E s op).scene.Summarized ∧
      Told (step E s op).working.summaries
        (trail ++ freshnessLog E s op) := by
  have hk : s.scene.Keyed := hF.working.factId
  obtain ⟨hsum, hkept, hback⟩ := (step_changes hF hop).quiet hk hv
  unfold freshnessLog
  rw [← List.append_assoc]
  generalize step E s op = s' at hsum hkept hback
  refine ⟨hsum, hsum.single, ?_, ?_⟩
  · intro sid hin hnone
    rw [List.mem_append, List.mem_append] at hin
    have hold : s.working.summaries.get? sid = none := hkept sid hnone
    rcases hin with (hin | hin) | hin
    · exact ht.known sid hin hold
    · obtain ⟨fid, f, g, hev, -⟩ := mem_outdatedBy.1 hin
      cases hev
    · exact (mem_generatedBy.1 hin).2 hnone
  · intro sid sm hget hf
    rcases hback sid sm hget hf with hnone | ⟨hold, hun⟩
    · -- generated by this call
      have hold : s.working.summaries.get? sid = none := hnone
      have hgen : Event.generated sid ∈ generatedBy s s' := by
        rw [mem_generatedBy]
        refine ⟨hold, ?_⟩
        have hget' : s'.working.summaries.get? sid = some sm := hget
        rw [hget']
        simp
      obtain ⟨b, a, hsplit, hnotb⟩ := List.eq_append_cons_of_mem hgen
      refine ⟨trail ++ outdatedBy s s' ++ b, a, ?_, ?_, ?_⟩
      · rw [hsplit, List.append_assoc, List.append_assoc, List.append_assoc]
      · rw [List.mem_append, List.mem_append]
        rintro ((hin | hin) | hin)
        · exact ht.known sid hin hold
        · obtain ⟨fid, f, g, hev, -⟩ := mem_outdatedBy.1 hin
          cases hev
        · exact hnotb hin
      · intro fid _ hin
        have hin' : Event.outdated fid ∈ generatedBy s s' := by
          rw [hsplit]
          exact List.mem_append_right _ (List.mem_cons_of_mem _ hin)
        exact not_mem_generatedBy hin'
    · obtain ⟨b, a, hsplit, hnotb, hquiet⟩ := ht.fresh sid sm hold hf
      refine ⟨b, a ++ outdatedBy s s' ++ generatedBy s s', ?_, hnotb, ?_⟩
      · rw [hsplit]
        simp
      · intro fid hfid hin
        rw [List.mem_append, List.mem_append] at hin
        rcases hin with (hin | hin) | hin
        · exact hquiet fid hfid hin
        · obtain ⟨fid', f, g, hev, hf', hg, hne, hout⟩ := mem_outdatedBy.1 hin
          cases hev
          rcases hun fid hfid f g hf' hg with hsame | hact
          · exact hne hsame.symm
          · rw [hact] at hout
            cases hout
        · exact not_mem_generatedBy hin

/-- **Summaries are fresh**: after every session from an empty manifest there is at
most one active summary for each type and scope, and since an active one that is not
stale was generated, none of its sources was outdated. What a reload discards, the
trail does not tell. -/
theorem summaries_fresh (hE : Function.Injective E.shortId) (actor : String) {disk : Disk N}
    (hdisk : disk.manifestFile = none) (sys : Sys) (ops : List (Op N)) :
    let c := Machine.run (chronicle E (freshnessLog E))
      (Chronicle.start (Engine.fresh E actor disk sys)) ops
    c.engine = Machine.run (step E) (Engine.fresh E actor disk sys) ops ∧
    SingleSummaries c.engine.working.summaries ∧
    ∀ sid sm, c.engine.working.summaries.get? sid = some sm → sm.Fresh →
      ∃ before after, c.trail = before ++ .generated sid :: after ∧ .generated sid ∉ before ∧
        ∀ fid ∈ sm.sourceFactIds, .outdated fid ∉ after := by
  intro c
  have hnone : Told (OrderedMap.empty : OrderedMap SummaryId (Summary N)) [] := by
    refine ⟨?_, ?_, ?_⟩
    · intro k k' a b ha
      cases ha
    · intro sid hin
      cases hin
    · intro sid sm hget
      cases hget
  have htold : c.engine.scene.Summarized ∧ Told c.engine.scene.summaries c.trail := by
    refine Chronicle.run_inv (E := E) (J := fun s => s.view.Filed E) (G := fun _ _ => True)
      (W := fun v t => v.Summarized ∧ Told v.summaries t) (F := fun m t => Told m.summaries t)
      hE (fun _ h => h) (fun _ op h => filed_step hE h op) ?_ ?_ ?_ ?_ ?_ ?_
      (Machine.guarded_of_forall (fun _ _ => trivial) _ ops)
    · intro s t op hF hop _ ⟨hv, ht⟩
      exact told_step hF hv ht hop
    · intro s t m _ ⟨_, ht⟩ _ hm
      rw [hm]
      exact ht
    · -- the rebuilt index lists every summary under its sources
      intro m t hk ht
      refine ⟨⟨hk.summaries, ht.single, ?_⟩, ht⟩
      intro k sm hget _ fid hfid
      exact ((indexLaw_buildIndexes hk).summaries fid k).2 ⟨sm, hget, hfid⟩
    · exact (started_fresh E actor hdisk sys).filed (keyed_fresh E actor disk sys)
        (uniqueIds_fresh hE actor disk sys)
    · refine ⟨⟨?_, hnone.single, ?_⟩, hnone⟩
      · intro k sm hget
        cases hget
      · intro k sm hget
        cases hget
    · intro m hm
      cases hm
      exact hnone
  exact ⟨chronicle_run _ ops, htold.2.single, htold.2.fresh⟩

def citySummary : AddSummaryInput ℚ :=
  { type := "overview", scope := "city", keyPoints := [], sourceFactIds := ["FACT_"],
    confidence := 0.5 }

/-- A fact and its summary, committed; the fact is invalidated, and the manifest
reloaded. -/
def discardedChange : List (Op ℚ) :=
  [.addFact (cityInput "Rome" 0.5), .addSummary citySummary, .commit {},
    .invalidateFact "FACT_" "wrong", .reload {}]

theorem discardedChange_summary :
    ∃ sm, (afterSession discardedChange).working.summaries.get? "SUM_I" = some sm ∧
      sm.state = .active ∧ sm.stale = false ∧ "FACT_" ∈ sm.sourceFactIds := by
  have hany : ((afterSession discardedChange).working.summaries.get? "SUM_I").any (fun sm =>
      sm.state = .active ∧ sm.stale = false ∧ "FACT_" ∈ sm.sourceFactIds) = true := by
    decide +kernel
  obtain ⟨sm, hget, hsm⟩ := (Option.any_eq_true _ _).1 hany
  exact ⟨sm, hget, of_decide_eq_true hsm⟩

theorem summaries_fresh_city :
    ∃ before after, (Machine.run (chronicle (Env.plain ℚ) (freshnessLog (Env.plain ℚ)))
      (Chronicle.start (Engine.fresh (Env.plain ℚ) "agent" (Disk.empty ℚ) {}))
      discardedChange).trail =
        before ++ .generated "SUM_I" :: after ∧ .outdated "FACT_" ∉ after := by
  have hdisk : (Disk.empty ℚ).manifestFile = none := rfl
  obtain ⟨hsame, -, hfresh⟩ :=
    summaries_fresh (Env.plain_injective ℚ) "agent" hdisk {} discardedChange
  obtain ⟨sm, hget, hact, hstale, hsrc⟩ := discardedChange_summary
  obtain ⟨before, after, htrail, -, hquiet⟩ :=
    hfresh "SUM_I" sm ((congrArg (fun s => s.working.summaries.get? "SUM_I") hsame).trans hget)
      ⟨hact, hstale⟩
  exact ⟨before, after, htrail, hquiet "FACT_" hsrc⟩

def happened (E : Env N) : Engine N → List (Op N) → List Event
  | _, [] => []
  | s, op :: ops =>
    freshnessLog E s op ++ happened E (step E s op) ops

/-- **Counted over the whole session a fresh summary can be outdated**: a reload
takes back a summary whose source was invalidated since, as fresh as it was saved. -/
theorem discarded_outdates :
    ¬ ∀ ops sid sm, (afterSession ops).working.summaries.get? sid = some sm → sm.Fresh →
      ∀ before after, happened (Env.plain ℚ)
        (Engine.fresh (Env.plain ℚ) "agent" (Disk.empty ℚ) {}) ops =
          before ++ .generated sid :: after → ∀ fid ∈ sm.sourceFactIds, .outdated fid ∉ after := by
  intro h
  obtain ⟨sm, hget, hact, hstale, hsrc⟩ := discardedChange_summary
  have hevents : happened (Env.plain ℚ) (Engine.fresh (Env.plain ℚ) "agent" (Disk.empty ℚ) {})
      discardedChange = [] ++ .generated "SUM_I" :: [.outdated "FACT_"] := by decide +kernel
  exact h discardedChange "SUM_I" sm hget ⟨hact, hstale⟩ [] _ hevents "FACT_" hsrc (by simp)

end ClawHarder
