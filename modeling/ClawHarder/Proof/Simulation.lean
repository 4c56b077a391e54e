import ClawHarder.Proof.ReplayOrder
import ClawHarder.Proof.StateRoundTrip
import ClawHarder.Spec.Simulation

/-!
# Proposals and their confirmations

A run recognises what is settled by the time of the last confirmation of the trait, of
whichever session. A run of one session that confirms a trait therefore drops the
proposals of the others, and a proposal at the time of a confirmation is never looked
at.

* `quiet_run`: after a run without a filter, nothing is confirmed until a proposal comes.
* `resolved_once`: **where no run confirms past a pending proposal of another session, and
  every proposal is newer than the last confirmation of its trait, each proposal of a
  mutable trait is a candidate in exactly one run that covers it.**
-/

namespace ClawHarder.EventLog

open Machine
open PyText (lit)

variable {b : PyBuiltins} {strategy : Strategy} {events log log' : List Event} {e e' : Event}
  {trait : PyText} {sessionId : Option PyText} {clock : ℕ → ℚ} {x : ℚ}

theorem foldl_max_lt {times : List ℚ} {start : ℚ} :
    times.foldl max start < x ↔ start < x ∧ ∀ t ∈ times, t < x := by
  induction times generalizing start with
  | nil => simp
  | cons t times ih =>
    rw [List.foldl_cons, ih, max_lt_iff, List.forall_mem_cons, and_assoc]

/-- **A time is past the watermark** exactly when it is past every confirmation. -/
theorem watermark_lt : watermark events trait < x ↔
    -1 < x ∧ ∀ e ∈ events, e.confirms = some trait → 0 < x ∧ e.timestamp < x := by
  have hmem : ∀ e, e ∈ events.filter (fun e => e.confirms = some trait) ↔
      e ∈ events ∧ e.confirms = some trait := by
    intro e
    rw [List.mem_filter, decide_eq_true_eq]
  unfold watermark
  simp only
  by_cases hnone : events.filter (fun e => e.confirms = some trait) = []
  · -- without a confirmation the watermark is -1
    rw [if_pos hnone]
    refine (and_iff_left ?_).symm
    intro e he hc
    have hin := (hmem e).2 ⟨he, hc⟩
    rw [hnone] at hin
    cases hin
  · -- with one it is at least 0
    rw [if_neg hnone, foldl_max_lt, List.forall_mem_map]
    constructor
    · rintro ⟨hpos, hall⟩
      exact ⟨neg_one_lt_zero.trans hpos, fun e he hc => ⟨hpos, hall e ((hmem e).2 ⟨he, hc⟩)⟩⟩
    · rintro ⟨-, hall⟩
      obtain ⟨e, he⟩ := List.exists_mem_of_ne_nil _ hnone
      have hfirst := (hmem e).1 he
      refine ⟨(hall e hfirst.1 hfirst.2).1, fun e' he' => ?_⟩
      exact (hall e' ((hmem e').1 he').1 ((hmem e').1 he').2).2

theorem mem_sortBySeq : e ∈ sortBySeq events ↔ e ∈ events := List.mem_insertionSort _

theorem watermark_sortBySeq_lt : watermark (sortBySeq log) trait < x ↔ watermark log trait < x := by
  simp only [watermark_lt, mem_sortBySeq]

theorem watermark_append_lt : watermark (log ++ log') trait < x ↔
    watermark log trait < x ∧ ∀ e ∈ log', e.confirms = some trait → 0 < x ∧ e.timestamp < x := by
  simp only [watermark_lt, List.forall_mem_append, and_assoc]

def Pending (log : List Event) (e : Event) : Prop :=
  ∃ trait, e.proposes = some trait ∧ watermark log trait < e.timestamp

def Candidate (log : List Event) (sessionId : Option PyText) (e : Event) : Prop :=
  e ∈ (sortBySeq log).filter (isCandidate (sortBySeq log) sessionId)

theorem candidate_iff : Candidate log sessionId e ↔
    e ∈ log ∧ Pending log e ∧ coversSession sessionId e.runId = true := by
  unfold Candidate Pending isCandidate
  rw [List.mem_filter, mem_sortBySeq]
  cases e.proposes with
  | none => simp
  | some trait =>
    simp only [Bool.and_eq_true, decide_eq_true_eq, watermark_sortBySeq_lt, Option.some.injEq,
      exists_eq_left']

theorem mem_collectProposals {p : IdentityProposal} :
    p ∈ collectProposals (sortBySeq log) sessionId ↔
      ∃ e trait, Candidate log sessionId e ∧ e.proposes = some trait ∧ e.proposal trait = p := by
  unfold collectProposals Candidate
  simp only [List.mem_filterMap, Option.map_eq_some_iff]
  constructor
  · rintro ⟨e, he, trait, htrait, rfl⟩
    exact ⟨e, trait, he, htrait, rfl⟩
  · rintro ⟨e, trait, he, htrait, rfl⟩
    exact ⟨e, he, trait, htrait, rfl⟩

theorem addToGroup_spec (p : IdentityProposal) (groups : List (PyText × List IdentityProposal)) :
    (∀ g ∈ addToGroup p groups, g.1 = p.trait ∧ g.2 ≠ [] ∨ g ∈ groups) ∧
      (∃ g ∈ addToGroup p groups, g.1 = p.trait) ∧
      ∀ g ∈ groups, ∃ g' ∈ addToGroup p groups, g'.1 = g.1 := by
  induction groups with
  | nil => simp [addToGroup]
  | cons group rest ih =>
    obtain ⟨hmem, hown, hkeep⟩ := ih
    unfold addToGroup
    split_ifs with htrait
    · refine ⟨?_, ⟨_, List.mem_cons_self, htrait⟩, ?_⟩
      · intro g hg
        rcases List.mem_cons.1 hg with rfl | hg
        · exact .inl ⟨htrait, by simp⟩
        · exact .inr (List.mem_cons_of_mem _ hg)
      · intro g hg
        rcases List.mem_cons.1 hg with rfl | hg
        · exact ⟨_, List.mem_cons_self, rfl⟩
        · exact ⟨g, List.mem_cons_of_mem _ hg, rfl⟩
    · refine ⟨?_, ?_, ?_⟩
      · intro g hg
        rcases List.mem_cons.1 hg with rfl | hg
        · exact .inr List.mem_cons_self
        · exact (hmem g hg).imp_right (List.mem_cons_of_mem _)
      · obtain ⟨g, hg, hgt⟩ := hown
        exact ⟨g, List.mem_cons_of_mem _ hg, hgt⟩
      · intro g hg
        rcases List.mem_cons.1 hg with rfl | hg
        · exact ⟨_, List.mem_cons_self, rfl⟩
        · obtain ⟨g', hg', hgt⟩ := hkeep g hg
          exact ⟨g', List.mem_cons_of_mem _ hg', hgt⟩

theorem groupByTrait_spec (proposals : List IdentityProposal) :
    (∀ g ∈ groupByTrait proposals, g.2 ≠ [] ∧ ∃ p ∈ proposals, p.trait = g.1) ∧
      ∀ p ∈ proposals, ∃ g ∈ groupByTrait proposals, g.1 = p.trait := by
  unfold groupByTrait
  induction proposals using List.reverseRecOn with
  | nil => simp
  | append_singleton proposals p ih =>
    obtain ⟨hfrom, hall⟩ := ih
    rw [List.foldl_append, List.foldl_cons, List.foldl_nil]
    obtain ⟨hmem, hown, hkeep⟩ := addToGroup_spec p
      (proposals.foldl (fun groups p => addToGroup p groups) [])
    refine ⟨?_, ?_⟩
    · intro g hg
      rcases hmem g hg with ⟨htrait, hne⟩ | hold
      · exact ⟨hne, p, by simp, htrait.symm⟩
      · obtain ⟨hne, q, hq, hqt⟩ := hfrom g hold
        exact ⟨hne, q, List.mem_append_left _ hq, hqt⟩
    · intro q hq
      rcases List.mem_append.1 hq with hq | hq
      · obtain ⟨g, hg, hgt⟩ := hall q hq
        obtain ⟨g', hg', hgt'⟩ := hkeep g hg
        exact ⟨g', hg', hgt'.trans hgt⟩
      · obtain ⟨g, hg, hgt⟩ := hown
        exact ⟨g, hg, by rw [hgt, List.mem_singleton.1 hq]⟩

/-- The trait is settled for good: it cannot change and is confirmed. -/
def Fixed (log : List Event) (trait : PyText) : Prop :=
  (traitConfig trait).mutable = false ∧ ∃ e ∈ log, e.confirms = some trait

theorem getConfirmedState_isSome : (getConfirmedState (sortBySeq log) trait).isSome = true ↔
    ∃ e ∈ log, e.confirms = some trait := by
  unfold getConfirmedState
  rw [Option.isSome_map, List.getLast?_isSome, ← List.isEmpty_eq_false_iff,
    List.isEmpty_eq_false_iff_exists_mem]
  simp only [List.mem_filter, mem_sortBySeq, decide_eq_true_eq]

variable {candidates : List IdentityProposal}

theorem exists_maxConfidence (h : candidates ≠ []) :
    ∃ p ∈ candidates, maxConfidence candidates ≤ p.confidence := by
  have hfold : ∀ (rest : List IdentityProposal) (p : IdentityProposal), ∃ q ∈ p :: rest,
      rest.foldl (fun m q => max m q.confidence) p.confidence ≤ q.confidence := by
    intro rest
    induction rest using List.reverseRecOn with
    | nil => exact fun p => ⟨p, List.mem_cons_self, le_rfl⟩
    | append_singleton rest r ih =>
      intro p
      rw [List.foldl_append, List.foldl_cons, List.foldl_nil]
      obtain ⟨q, hq, hle⟩ := ih p
      rcases le_total q.confidence r.confidence with hqr | hrq
      · exact ⟨r, by simp, max_le (hle.trans hqr) le_rfl⟩
      · exact ⟨q, List.mem_append_left [r] hq, max_le hle hrq⟩
  cases candidates with
  | nil => exact absurd rfl h
  | cons p rest => exact hfold rest p

theorem sortCandidates_ne_nil (h : candidates ≠ []) :
    sortCandidates candidates ≠ [] := by
  rw [← List.length_pos_iff] at h ⊢
  unfold sortCandidates
  rw [List.length_insertionSort]
  exact h

/-- **A trait is resolved unless it is settled for good.** -/
theorem resolve_spec (b : PyBuiltins) (strategy : Strategy) (log : List Event) (trait : PyText) (h : candidates ≠ []) :
    (Fixed log trait →
      resolve b strategy trait candidates (getConfirmedState (sortBySeq log)) = none) ∧
    (¬ Fixed log trait → ∃ result,
      resolve b strategy trait candidates (getConfirmedState (sortBySeq log)) = some result ∧
        result.trait = trait) := by
  have hsorted := sortCandidates_ne_nil h
  have hfixed : (!(traitConfig trait).mutable ∧
      (getConfirmedState (sortBySeq log) trait).isSome) ↔ Fixed log trait := by
    unfold Fixed
    rw [getConfirmedState_isSome, Bool.not_eq_true']
  unfold resolve
  refine ⟨fun hf => if_pos (hfixed.2 hf), fun hf => ?_⟩
  rw [if_neg fun h => hf (hfixed.1 h)]
  simp only
  by_cases hmerge : (traitConfig trait).merge = true
  · rw [if_pos hmerge, List.getLast?_eq_some_getLast hsorted]
    exact ⟨_, rfl, rfl⟩
  · rw [if_neg hmerge]
    have htop : topCandidates strategy (sortCandidates candidates) ≠ [] := by
      cases strategy with
      | lastWriteWins => exact hsorted
      | confidenceWeightedLast =>
        obtain ⟨p, hp, hmax⟩ := exists_maxConfidence hsorted
        exact List.ne_nil_of_mem (List.mem_filter.2 ⟨hp, by simpa using hmax⟩)
    rw [List.getLast?_eq_some_getLast htop]
    exact ⟨_, rfl, rfl⟩

/-- **What a run resolves**: the traits of its candidates that are not settled for good. -/
theorem mem_simulate (b : PyBuiltins) (strategy : Strategy) :
    (∃ result ∈ simulate b strategy (sortBySeq log) sessionId, result.trait = trait) ↔
    ¬ Fixed log trait ∧ ∃ e, Candidate log sessionId e ∧ e.proposes = some trait := by
  obtain ⟨hfrom, hall⟩ := groupByTrait_spec (collectProposals (sortBySeq log) sessionId)
  unfold simulate
  simp only [List.mem_filterMap]
  constructor
  · rintro ⟨result, ⟨g, hg, hresult⟩, htrait⟩
    obtain ⟨hne, p, hp, hpt⟩ := hfrom g hg
    obtain ⟨hno, hyes⟩ := resolve_spec b strategy log g.1 hne
    have hfree : ¬ Fixed log g.1 := by
      intro hf
      rw [hno hf] at hresult
      cases hresult
    obtain ⟨result', hresult', htrait'⟩ := hyes hfree
    rw [hresult'] at hresult
    cases hresult
    obtain ⟨e, t, he, het, rfl⟩ := mem_collectProposals.1 hp
    have hsame : t = trait := hpt.trans (htrait'.symm.trans htrait)
    rw [← htrait'.symm.trans htrait]
    exact ⟨hfree, e, he, by rw [het, hsame, ← htrait, htrait']⟩
  · rintro ⟨hfree, e, he, htrait⟩
    obtain ⟨g, hg, hgt⟩ := hall _ (mem_collectProposals.2 ⟨e, trait, he, htrait, rfl⟩)
    have hgt' : g.1 = trait := hgt
    obtain ⟨result, hresult, hrt⟩ :=
      (resolve_spec b strategy log g.1 (hfrom g hg).1).2 (by rw [hgt']; exact hfree)
    exact ⟨result, ⟨g, hg, hresult⟩, hrt.trans hgt'⟩

theorem proposes_ne_nil (h : e.proposes = some trait) : trait ≠ [] := by
  unfold Event.proposes nonEmpty at h
  cases hbody : e.body with
  | identityProposed type item =>
    rw [hbody] at h
    simpa using (Option.filter_eq_some_iff.1 h).2
  | _ =>
    rw [hbody] at h
    cases h

theorem confirmation_confirms {last : Option Event} {i : ℕ} {result : SimulationResult} :
    (confirmation last clock i result).confirms = some trait ↔
      result.trait = trait ∧ trait ≠ [] := by
  unfold Event.confirms confirmation nonEmpty
  simp only [Option.some_or, Option.filter_eq_some_iff, Option.some.injEq, decide_eq_true_eq]

theorem exists_mem_confirmations (b : PyBuiltins) (strategy : Strategy) (clock : ℕ → ℚ) :
    (∃ e ∈ confirmations b strategy log sessionId clock, e.confirms = some trait) ↔
      ¬ Fixed log trait ∧ ∃ e, Candidate log sessionId e ∧ e.proposes = some trait := by
  rw [← mem_simulate b strategy]
  unfold confirmations
  simp only [List.mem_mapIdx]
  constructor
  · rintro ⟨_, ⟨i, hi, rfl⟩, hc⟩
    exact ⟨_, List.getElem_mem hi, (confirmation_confirms.1 hc).1⟩
  · rintro ⟨result, hresult, htrait⟩
    obtain ⟨-, e, -, he⟩ := (mem_simulate b strategy).1 ⟨result, hresult, htrait⟩
    obtain ⟨i, hi, rfl⟩ := List.mem_iff_getElem.1 hresult
    exact ⟨_, ⟨i, hi, rfl⟩, confirmation_confirms.2 ⟨htrait, proposes_ne_nil he⟩⟩

theorem confirmations_time (h : e ∈ confirmations b strategy log sessionId clock) :
    e.proposes = none ∧ ∃ i, e.timestamp = clock i := by
  unfold confirmations at h
  obtain ⟨i, hi, rfl⟩ := List.mem_mapIdx.1 h
  exact ⟨rfl, i, rfl⟩

theorem proposedEvent_confirms (type : Option PyText) (item : Option IdentityItem) :
    (proposedEvent e type item).confirms = none := rfl

def Timely (log : List Event) : SimulationStep → Prop
  | .propose e _ _ => ∀ e' ∈ log, e'.timestamp ≤ e.timestamp
  | .run _ clock => Monotone clock ∧ ∀ e ∈ log, e.timestamp ≤ clock 0

/-- No proposal is lost: it is newer than the last confirmation of its trait, and a run of
one session confirms no trait that another session has a pending proposal of. -/
def Lossless (log : List Event) : SimulationStep → Prop
  | .propose e type item => ∀ trait, (proposedEvent e type item).proposes = some trait →
      (traitConfig trait).mutable = true → Pending log (proposedEvent e type item)
  | .run sessionId _ => ∀ e ∈ log, ∀ trait, e.proposes = some trait → Pending log e →
      (traitConfig trait).mutable = true →
      (∃ e', Candidate log sessionId e' ∧ e'.proposes = some trait) →
        coversSession sessionId e.runId = true

def SimulationStep.covers (e : Event) : SimulationStep → Bool
  | .propose _ _ _ => false
  | .run sessionId _ => coversSession sessionId e.runId

/-- The step is a run with the proposal, which is in the log, as a candidate. -/
def SimulationStep.takes (log : List Event) (e : Event) : SimulationStep → Bool
  | .propose _ _ _ => false
  | .run sessionId _ => isCandidate (sortBySeq log) sessionId e

theorem pending_iff (h : e.proposes = some trait) :
    Pending log e ↔ watermark log trait < e.timestamp := by
  unfold Pending
  rw [h]
  simp only [Option.some.injEq, exists_eq_left']

/-- **What is settled stays settled.** -/
theorem pending_of_step {a : SimulationStep}
    (h : Pending (simulationStep b strategy log a) e) : Pending log e := by
  obtain ⟨trait, htrait, hlt⟩ := h
  refine ⟨trait, htrait, ?_⟩
  cases a with
  | propose e' type item => exact (watermark_append_lt.1 hlt).1
  | run sessionId clock => exact (watermark_append_lt.1 hlt).1

theorem pending_propose {type : Option PyText} {item : Option IdentityItem} (h : Pending log e) :
    Pending (simulationStep b strategy log (.propose e' type item)) e := by
  obtain ⟨trait, htrait, hlt⟩ := h
  refine ⟨trait, htrait, watermark_append_lt.2 ⟨hlt, ?_⟩⟩
  intro e'' he'' hc
  rw [List.mem_singleton.1 he'', proposedEvent_confirms] at hc
  cases hc

theorem settled_of_candidate (b : PyBuiltins) (strategy : Strategy)
    (htime : Timely log (.run sessionId clock))
    (hc : Candidate log sessionId e) (htrait : e.proposes = some trait)
    (hfree : ¬ Fixed log trait) {e' : Event} (he' : e' ∈ log) (htrait' : e'.proposes = some trait) :
    ¬ Pending (simulationStep b strategy log (.run sessionId clock)) e' := by
  intro hp
  rw [pending_iff htrait'] at hp
  obtain ⟨c, hmem, hconf⟩ := (exists_mem_confirmations b strategy clock).2
    ⟨hfree, e, hc, htrait⟩
  obtain ⟨-, i, hi⟩ := confirmations_time hmem
  -- the run confirms the trait at a time that no proposal is later than
  have hlt := ((watermark_append_lt.1 hp).2 c hmem hconf).2
  have hmono : clock 0 ≤ clock i := htime.1 (Nat.zero_le i)
  have hle : e'.timestamp ≤ clock 0 := htime.2 e' he'
  rw [hi] at hlt
  exact absurd (hle.trans hmono) (not_le.2 hlt)

theorem pending_run (h : Pending log e) (htrait : e.proposes = some trait)
    (hnone : ¬ ∃ e', Candidate log sessionId e' ∧ e'.proposes = some trait) :
    Pending (simulationStep b strategy log (.run sessionId clock)) e := by
  rw [pending_iff htrait] at h ⊢
  refine watermark_append_lt.2 ⟨h, fun c hmem hconf => ?_⟩
  exact absurd ((exists_mem_confirmations b strategy clock).1 ⟨c, hmem, hconf⟩).2 hnone

theorem candidate_of_takes (he : e ∈ log)
    (h : isCandidate (sortBySeq log) sessionId e = true) : Candidate log sessionId e :=
  List.mem_filter.2 ⟨mem_sortBySeq.2 he, h⟩

theorem takes_iff (he : e ∈ log) : isCandidate (sortBySeq log) sessionId e = true ↔
    Pending log e ∧ coversSession sessionId e.runId = true := by
  constructor
  · intro h
    exact (candidate_iff.1 (candidate_of_takes he h)).2
  · intro h
    exact (List.mem_filter.1 (candidate_iff.2 ⟨he, h⟩)).2

def resolutions (b : PyBuiltins) (strategy : Strategy) (e : Event) :
    List Event → List SimulationStep → ℕ
  | _, [] => 0
  | log, a :: as =>
    (if a.takes log e then 1 else 0) +
      resolutions b strategy e (simulationStep b strategy log a) as

theorem mem_simulationStep (b : PyBuiltins) (strategy : Strategy) (a : SimulationStep)
    (he : e ∈ log) : e ∈ simulationStep b strategy log a := by
  cases a with
  | propose e' type item => exact List.mem_append_left _ he
  | run sessionId clock => exact List.mem_append_left _ he

theorem resolutions_settled (b : PyBuiltins) (strategy : Strategy) (as : List SimulationStep)
    (he : e ∈ log) (h : ¬ Pending log e) : resolutions b strategy e log as = 0 := by
  induction as generalizing log with
  | nil => rfl
  | cons a as ih =>
    have htake : a.takes log e = false := by
      cases a with
      | propose e' type item => rfl
      | run sessionId clock =>
        rw [← Bool.not_eq_true]
        exact fun ht => h ((takes_iff he).1 ht).1
    unfold resolutions
    rw [htake, ih (mem_simulationStep b strategy a he) fun hp => h (pending_of_step hp)]
    rfl

/-- **A pending proposal is taken by the first run that covers it, and by no other.** -/
theorem resolutions_pending {as : List SimulationStep} (he : e ∈ log)
    (htrait : e.proposes = some trait) (hmut : (traitConfig trait).mutable = true)
    (hp : Pending log e) (htime : Guarded (simulationStep b strategy) Timely log as)
    (hok : Guarded (simulationStep b strategy) Lossless log as) :
    resolutions b strategy e log as = if as.any (SimulationStep.covers e) then 1 else 0 := by
  induction as generalizing log with
  | nil => rfl
  | cons a as ih =>
    obtain ⟨hnow, hlater⟩ := htime
    obtain ⟨hoknow, hoklater⟩ := hok
    have hmem := mem_simulationStep b strategy a he
    have hfree : ¬ Fixed log trait := fun hf => by
      rw [hf.1] at hmut
      cases hmut
    unfold resolutions
    rw [List.any_cons]
    cases a with
    | propose e' type item =>
      rw [ih hmem (pending_propose hp) hlater hoklater]
      simp [SimulationStep.takes, SimulationStep.covers]
    | run sessionId clock =>
      by_cases hcover : coversSession sessionId e.runId = true
      · -- the first run that covers it takes it, and settles it
        have htake : isCandidate (sortBySeq log) sessionId e = true :=
          (takes_iff he).2 ⟨hp, hcover⟩
        have hsettled := settled_of_candidate b strategy hnow
          (candidate_of_takes he htake) htrait hfree he htrait
        rw [resolutions_settled b strategy as hmem hsettled]
        simp [SimulationStep.takes, SimulationStep.covers, htake, hcover]
      · -- a run that does not cover it confirms nothing of its trait
        have htake : isCandidate (sortBySeq log) sessionId e ≠ true :=
          fun ht => hcover ((takes_iff he).1 ht).2
        have hnone : ¬ ∃ e', Candidate log sessionId e' ∧ e'.proposes = some trait :=
          fun h => hcover (hoknow e he trait htrait hp hmut h)
        rw [ih hmem (pending_run hp htrait hnone) hlater hoklater]
        simp [SimulationStep.takes, SimulationStep.covers, htake, hcover]

def Quiet (log : List Event) : Prop :=
  ∀ e ∈ log, ∀ trait, e.proposes = some trait → Pending log e → Fixed log trait

theorem confirmations_of_quiet (h : Quiet log) :
    confirmations b strategy log sessionId clock = [] := by
  have hnone : simulate b strategy (sortBySeq log) sessionId = [] := by
    refine List.eq_nil_iff_forall_not_mem.2 fun result hresult => ?_
    obtain ⟨hfree, e, hc, htrait⟩ := (mem_simulate b strategy).1 ⟨result, hresult, rfl⟩
    obtain ⟨he, hp, -⟩ := candidate_iff.1 hc
    exact hfree (h e he _ htrait hp)
  unfold confirmations
  simp only [hnone, List.mapIdx_nil]

/-- **After a run that covers every session, all is quiet.** -/
theorem quiet_run (hall : sessionId = none ∨ sessionId = some [])
    (htime : Timely log (.run sessionId clock)) :
    Quiet (simulationStep b strategy log (.run sessionId clock)) := by
  intro e he trait htrait hp
  have hold : e ∈ log := by
    rcases List.mem_append.1 he with he | hnew
    · exact he
    · rw [(confirmations_time hnew).1] at htrait
      cases htrait
  by_cases hf : Fixed log trait
  · obtain ⟨hmut, c, hc, hconf⟩ := hf
    exact ⟨hmut, c, List.mem_append_left _ hc, hconf⟩
  · have hcover : coversSession sessionId e.runId = true := by
      unfold coversSession
      rcases hall with rfl | rfl
      · rfl
      · rfl
    have hc : Candidate log sessionId e := candidate_iff.2 ⟨hold, pending_of_step hp, hcover⟩
    exact absurd hp (settled_of_candidate b strategy htime hc htrait hf hold htrait)

theorem run_quiet {idle : List SimulationStep} (h : Quiet log)
    (hidle : ∀ a ∈ idle, ∃ sessionId clock, a = .run sessionId clock) :
    run (simulationStep b strategy) log idle = log := by
  induction idle with
  | nil => rfl
  | cons a idle ih =>
    obtain ⟨sessionId, clock, rfl⟩ := hidle a List.mem_cons_self
    rw [run_cons]
    have hsame : simulationStep b strategy log (.run sessionId clock) = log := by
      simp only [simulationStep]
      rw [confirmations_of_quiet h, List.append_nil]
    rw [hsame]
    exact ih fun a ha => hidle a (List.mem_cons_of_mem _ ha)

/-- A run with no new proposals since a run without a filter confirms nothing. -/
def Idempotent (b : PyBuiltins) (strategy : Strategy) (steps : List SimulationStep) : Prop :=
  ∀ before filter clock idle sessionId clock' rest,
    steps = before ++ .run filter clock :: (idle ++ .run sessionId clock' :: rest) →
    filter = none ∨ filter = some [] →
    (∀ a ∈ idle, ∃ sessionId clock, a = SimulationStep.run sessionId clock) →
    confirmations b strategy
      (run (simulationStep b strategy) [] (before ++ .run filter clock :: idle))
      sessionId clock' = []

/-- Every proposal of a mutable trait is a candidate in exactly one run that covers its
session, once there is one. -/
def ResolvedOnce (b : PyBuiltins) (strategy : Strategy) (steps : List SimulationStep) : Prop :=
  ∀ before e type item rest trait,
    steps = before ++ .propose e type item :: rest →
    (proposedEvent e type item).proposes = some trait → (traitConfig trait).mutable = true →
    resolutions b strategy (proposedEvent e type item)
        (run (simulationStep b strategy) [] (before ++ [.propose e type item])) rest =
      if rest.any (SimulationStep.covers (proposedEvent e type item)) then 1 else 0

theorem idempotent_of_timely {steps : List SimulationStep}
    (htime : Guarded (simulationStep b strategy) Timely [] steps) :
    Idempotent b strategy steps := by
  rintro before filter clock idle sessionId clock' rest rfl hall hidle
  have hnow := (guarded_append.1 htime).2.1
  rw [run_append, run_cons, run_quiet (quiet_run hall hnow) hidle]
  exact confirmations_of_quiet (quiet_run hall hnow)

/-- **Each proposal is resolved exactly once, in a sequence whose times do not fall and
whose steps lose no proposal**; and runs are idempotent in any such sequence. -/
theorem resolved_once (b : PyBuiltins) (strategy : Strategy) (steps : List SimulationStep)
    (htime : Guarded (simulationStep b strategy) Timely [] steps)
    (hok : Guarded (simulationStep b strategy) Lossless [] steps) :
    Idempotent b strategy steps ∧ ResolvedOnce b strategy steps := by
  refine ⟨idempotent_of_timely htime, ?_⟩
  rintro before e type item rest trait rfl htrait hmut
  obtain ⟨-, -, hlater⟩ := guarded_append.1 htime
  obtain ⟨-, hoknow, hoklater⟩ := guarded_append.1 hok
  rw [run_concat]
  refine resolutions_pending (List.mem_append_right _ (List.mem_singleton.2 rfl)) htrait hmut ?_
    hlater hoklater
  exact pending_propose (hoknow trait htrait hmut)

def sessionAt (session : String) (time : ℚ) : Event :=
  { runId := lit session, timestamp := time, body := .other [] }

def purposeOf (session : String) (time : ℚ) : SimulationStep :=
  .propose (sessionAt session time) (some (lit "purpose")) none

def purposeEvent (session : String) (time : ℚ) : Event :=
  proposedEvent (sessionAt session time) (some (lit "purpose")) none

/-- One session proposes a purpose, and a run without a filter follows. -/
def onePurpose : List SimulationStep := [purposeOf "a" 1, .run none fun _ => 2]

theorem onePurpose_resolved_once :
    ResolvedOnce RuntimeCore.plainBuiltins .confidenceWeightedLast onePurpose := by
  have htime : Guarded (simulationStep RuntimeCore.plainBuiltins .confidenceWeightedLast) Timely []
      onePurpose := by
    refine ⟨fun e he => ?_, ⟨fun _ _ _ => le_rfl, fun e he => ?_⟩, trivial⟩
    · cases he
    · rw [List.mem_singleton.1 he]
      exact one_le_two
  have hok : Guarded (simulationStep RuntimeCore.plainBuiltins .confidenceWeightedLast) Lossless []
      onePurpose := by
    refine ⟨fun trait htrait _ => ⟨trait, htrait, watermark_lt.2 ⟨?_, fun e he => ?_⟩⟩,
      fun e _ trait _ _ _ _ => rfl, trivial⟩
    · exact neg_one_lt_zero.trans one_pos
    · cases he
  exact (resolved_once RuntimeCore.plainBuiltins .confidenceWeightedLast onePurpose htime hok).2

/-- Two sessions propose a purpose; a run of the first confirms the trait past the second,
and a run without a filter follows. -/
def twoPurposes : List SimulationStep :=
  [purposeOf "a" 1, purposeOf "b" 2, .run (some (lit "a")) fun _ => 3, .run none fun _ => 4]

theorem twoPurposes_loses_one :
    Guarded (simulationStep RuntimeCore.plainBuiltins .confidenceWeightedLast) Timely []
        twoPurposes ∧
      ¬ ResolvedOnce RuntimeCore.plainBuiltins .confidenceWeightedLast twoPurposes := by
  have htimely : Timely [purposeEvent "a" 1, purposeEvent "b" 2]
      (.run (some (lit "a")) fun _ => 3) := by
    refine ⟨fun _ _ _ => le_rfl, fun e he => ?_⟩
    rcases List.mem_pair.1 he with rfl | rfl
    · exact (by decide : (1 : ℚ) ≤ 3)
    · exact (by decide : (2 : ℚ) ≤ 3)
  constructor
  · refine ⟨fun e he => ?_, fun e he => ?_, htimely, ⟨fun _ _ _ => le_rfl, fun e he => ?_⟩, trivial⟩
    · cases he
    · rw [List.mem_singleton.1 he]
      exact one_le_two
    · rcases List.mem_append.1 he with he | he
      · exact (htimely.2 e he).trans (by decide : (3 : ℚ) ≤ 4)
      · obtain ⟨i, hi⟩ := (confirmations_time he).2
        rw [hi]
        exact (by decide : (3 : ℚ) ≤ 4)
  · intro h
    have hone := h [purposeOf "a" 1] (sessionAt "b" 2) (some (lit "purpose")) none
      [.run (some (lit "a")) fun _ => 3, .run none fun _ => 4] (lit "purpose") rfl (by decide)
      (by decide)
    have htaken : Candidate [purposeEvent "a" 1, purposeEvent "b" 2] (some (lit "a"))
        (purposeEvent "a" 1) := by
      refine candidate_iff.2 ⟨List.mem_cons_self, ⟨lit "purpose", rfl, watermark_lt.2 ⟨?_, ?_⟩⟩, rfl⟩
      · exact neg_one_lt_zero.trans one_pos
      · intro e he hc
        rcases List.mem_pair.1 he with rfl | rfl
        · cases hc
        · cases hc
    have hmem : purposeEvent "b" 2 ∈ [purposeEvent "a" 1, purposeEvent "b" 2] :=
      List.mem_pair.2 (.inr rfl)
    -- the run of the first session confirms past the second's proposal
    have hsettled := settled_of_candidate RuntimeCore.plainBuiltins .confidenceWeightedLast htimely
      htaken rfl (fun hf => by cases hf.1) hmem rfl
    have hnone := resolutions_settled RuntimeCore.plainBuiltins
      .confidenceWeightedLast [.run none fun _ => 4]
      (mem_simulationStep _ _ (.run (some (lit "a")) fun _ => 3) hmem) hsettled
    have hskip : isCandidate (sortBySeq [purposeEvent "a" 1, purposeEvent "b" 2]) (some (lit "a"))
        (purposeEvent "b" 2) = false := by
      rw [← Bool.not_eq_true, takes_iff hmem]
      rintro ⟨-, hcover⟩
      exact absurd hcover (by decide)
    have hzero : resolutions RuntimeCore.plainBuiltins .confidenceWeightedLast
        (purposeEvent "b" 2) [purposeEvent "a" 1, purposeEvent "b" 2]
        [.run (some (lit "a")) fun _ => 3, .run none fun _ => 4] = 0 := by
      rw [resolutions, hnone]
      simp [SimulationStep.takes, hskip]
    exact absurd (hzero.symm.trans hone) (by decide)

end ClawHarder.EventLog
