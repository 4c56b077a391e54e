import Mathlib.Data.List.Dedup
import ClawHarder.Lib.PyJsonRead
import ClawHarder.Spec.RunDiff

/-!
# What a comparison of two runs tells

* `same_end`: snapshots that do not differ have the same last response, with the same calls in
  some order.
* `diffRuns_sound`: **a run is identical to itself, the two runs can be exchanged, and identical
  runs end each cycle beyond the shared ones with the same response.**
-/

namespace ClawHarder.LogDiff

open PyText (lit)
open PyJson (Encodable dumps loads sortKeys)

variable {U : Policy.Unicode}

theorem diffSnapshots_eq_nil_iff (a b : CycleSnapshot) :
    diffSnapshots a b = [] ↔ (∀ f ∈ comparedFields, f.2 a = f.2 b) ∧
      normaliseCalls a.toolCalls = normaliseCalls b.toolCalls := by
  unfold diffSnapshots
  rw [List.append_eq_nil_iff, List.filterMap_eq_nil_iff]
  refine and_congr (forall₂_congr fun f _ => ?_) ?_
  · by_cases h : f.2 a = f.2 b
    · simp [h]
    · simp [h]
  · by_cases h : normaliseCalls a.toolCalls = normaliseCalls b.toolCalls
    · simp [h]
    · simp [h]

theorem diffSnapshots_self (a : CycleSnapshot) : diffSnapshots a a = [] :=
  (diffSnapshots_eq_nil_iff a a).2 ⟨fun _ _ => rfl, rfl⟩

theorem diffSnapshots_comm (a b : CycleSnapshot) :
    diffSnapshots a b = [] ↔ diffSnapshots b a = [] := by
  rw [diffSnapshots_eq_nil_iff, diffSnapshots_eq_nil_iff, eq_comm (a := normaliseCalls _)]
  exact and_congr_left fun _ => forall₂_congr fun f _ => eq_comm

def RunDiff.differing (r : RunDiff) : List ℕ :=
  (r.cycles.filter CycleDiff.diverged).map CycleDiff.cycle

def Differs (U : Policy.Unicode) (eventsA eventsB : List Event) (skipUpTo : ℤ) (c : ℕ) : Prop :=
  skipUpTo < c ∧
    (¬(groupByCycle eventsA c = [] ↔ groupByCycle eventsB c = []) ∨
      (groupByCycle eventsA c ≠ [] ∧ groupByCycle eventsB c ≠ [] ∧
        diffSnapshots (buildSnapshot U (groupByCycle eventsA c))
          (buildSnapshot U (groupByCycle eventsB c)) ≠ []))

theorem differs_comm (eventsA eventsB : List Event) (skipUpTo : ℤ) (c : ℕ) :
    Differs U eventsA eventsB skipUpTo c ↔ Differs U eventsB eventsA skipUpTo c := by
  unfold Differs
  rw [iff_comm (a := groupByCycle eventsA c = []), ne_eq (diffSnapshots _ _), diffSnapshots_comm]
  constructor
  · rintro ⟨hskip, hone | ⟨ha, hb, hdiff⟩⟩
    · exact ⟨hskip, .inl hone⟩
    · exact ⟨hskip, .inr ⟨hb, ha, hdiff⟩⟩
  · rintro ⟨hskip, hone | ⟨hb, ha, hdiff⟩⟩
    · exact ⟨hskip, .inl hone⟩
    · exact ⟨hskip, .inr ⟨ha, hb, hdiff⟩⟩

def Counted (r : RunDiff) : Prop := r.identical ↔ r.differing = []

theorem differing_append (r : RunDiff) {r' : RunDiff} {cd : CycleDiff}
    (h : r'.cycles = r.cycles ++ [cd]) (c : ℕ) :
    c ∈ r'.differing ↔ c ∈ r.differing ∨ (c = cd.cycle ∧ cd.diverged = true) := by
  unfold RunDiff.differing
  rw [h, List.filter_append, List.map_append, List.mem_append]
  refine or_congr_right ?_
  cases hcd : cd.diverged with
  | false => simp [hcd]
  | true => simp [hcd]

theorem counted_append {r r' : RunDiff} {cd : CycleDiff} (hr : Counted r)
    (hcycles : r'.cycles = r.cycles ++ [cd])
    (hcount : r'.identical ↔ r.identical ∧ cd.diverged = false) : Counted r' := by
  have hmem := differing_append r hcycles
  unfold Counted at hr ⊢
  rw [hcount, hr, List.eq_nil_iff_forall_not_mem, List.eq_nil_iff_forall_not_mem]
  constructor
  · rintro ⟨hnone, hsame⟩ c hc
    rcases (hmem c).1 hc with hin | ⟨-, hdiverged⟩
    · exact hnone c hin
    · rw [hsame] at hdiverged
      cases hdiverged
  · intro hnone
    refine ⟨fun c hc => hnone c ((hmem c).2 (.inl hc)), ?_⟩
    by_contra hdiverged
    exact hnone cd.cycle ((hmem cd.cycle).2 (.inr ⟨rfl, by simpa using hdiverged⟩))

theorem compareCycle_spec (eventsA eventsB : List Event) (skipUpTo : ℤ) {r : RunDiff}
    (hr : Counted r) (cycle : ℕ) :
    Counted (compareCycle U eventsA eventsB skipUpTo r cycle) ∧
      ∀ c, c ∈ (compareCycle U eventsA eventsB skipUpTo r cycle).differing ↔
        c ∈ r.differing ∨ (c = cycle ∧ Differs U eventsA eventsB skipUpTo c) := by
  unfold compareCycle
  by_cases hskip : (cycle : ℤ) ≤ skipUpTo
  · rw [if_pos hskip]
    refine ⟨hr, fun c => ⟨.inl, ?_⟩⟩
    rintro (hin | ⟨rfl, hdiffers⟩)
    · exact hin
    · exact absurd hdiffers.1 (by omega)
  rw [if_neg hskip]
  have hbeyond : skipUpTo < cycle := by omega
  have hone : ∀ (r' : RunDiff) (cd : CycleDiff), r'.cycles = r.cycles ++ [cd] →
      cd.cycle = cycle → (r'.identical ↔ r.identical ∧ cd.diverged = false) →
      (cd.diverged = true ↔ Differs U eventsA eventsB skipUpTo cycle) →
      Counted r' ∧ ∀ c, c ∈ r'.differing ↔
        c ∈ r.differing ∨ (c = cycle ∧ Differs U eventsA eventsB skipUpTo c) := by
    intro r' cd hcycles hcycle hcount hdiverged
    refine ⟨counted_append hr hcycles hcount, fun c => ?_⟩
    rw [differing_append r hcycles, hcycle, hdiverged]
    refine or_congr_right (and_congr_right fun hc => ?_)
    rw [hc]
  cases hA : groupByCycle eventsA cycle with
  | nil =>
    cases hB : groupByCycle eventsB cycle with
    | nil =>
      refine ⟨hr, fun c => ⟨.inl, ?_⟩⟩
      rintro (hin | ⟨rfl, -, hdiffers⟩)
      · exact hin
      · rw [hA, hB] at hdiffers
        simp at hdiffers
    | cons e groupB =>
      refine hone _ { cycle := cycle, onlyInB := true } rfl rfl ?_ ?_
      · simp [RunDiff.identical, CycleDiff.diverged]
      · refine iff_of_true rfl ⟨hbeyond, .inl ?_⟩
        rw [hA, hB]
        simp
  | cons e groupA =>
    cases hB : groupByCycle eventsB cycle with
    | nil =>
      refine hone _ { cycle := cycle, onlyInA := true } rfl rfl ?_ ?_
      · simp [RunDiff.identical, CycleDiff.diverged]
      · refine iff_of_true rfl ⟨hbeyond, .inl ?_⟩
        rw [hA, hB]
        simp
    | cons e' groupB =>
      refine hone _ ⟨cycle, diffSnapshots (buildSnapshot U (e :: groupA))
        (buildSnapshot U (e' :: groupB)), false, false⟩ rfl rfl ?_ ?_
      · unfold RunDiff.identical
        simp only [Nat.add_eq_zero_iff, ite_eq_right_iff, Nat.one_ne_zero, imp_false,
          Bool.not_eq_true]
        rw [and_right_comm]
      · unfold Differs CycleDiff.diverged
        rw [hA, hB]
        simp [hbeyond]

theorem foldl_compareCycle_spec (eventsA eventsB : List Event) (skipUpTo : ℤ) (cycles : List ℕ)
    {r : RunDiff} (hr : Counted r) :
    Counted (cycles.foldl (compareCycle U eventsA eventsB skipUpTo) r) ∧
      ∀ c, c ∈ (cycles.foldl (compareCycle U eventsA eventsB skipUpTo) r).differing ↔
        c ∈ r.differing ∨ (c ∈ cycles ∧ Differs U eventsA eventsB skipUpTo c) := by
  induction cycles generalizing r with
  | nil => exact ⟨hr, fun c => by simp⟩
  | cons cycle cycles ih =>
    obtain ⟨hcounted, hmem⟩ := compareCycle_spec eventsA eventsB skipUpTo hr cycle (U := U)
    obtain ⟨hall, hrest⟩ := ih hcounted
    refine ⟨hall, fun c => ?_⟩
    rw [List.foldl_cons, hrest, hmem, or_assoc, ← or_and_right, List.mem_cons]

def sharedUpTo (a b : List Line) : ℤ :=
  ((forkProvenance (loadEvents a) (loadEvents b)).bind Prod.snd).getD (-1)

theorem foldl_from_start (eventsA eventsB : List Event) (skipUpTo : ℤ) (cycles : List ℕ)
    {r : RunDiff} (hcycles : r.cycles = []) (hidentical : r.identical) :
    Counted (cycles.foldl (compareCycle U eventsA eventsB skipUpTo) r) ∧
      ∀ c, c ∈ (cycles.foldl (compareCycle U eventsA eventsB skipUpTo) r).differing ↔
        c ∈ cycles ∧ Differs U eventsA eventsB skipUpTo c := by
  have hnone : r.differing = [] := by
    unfold RunDiff.differing
    rw [hcycles]
    rfl
  obtain ⟨hcounted, hmem⟩ := foldl_compareCycle_spec (U := U) eventsA eventsB skipUpTo cycles
    (r := r) (iff_of_true hidentical hnone)
  refine ⟨hcounted, fun c => ?_⟩
  rw [hmem, hnone, or_iff_right List.not_mem_nil]

theorem mem_cycles_of_group {events : List Event} {c : ℕ} (h : groupByCycle events c ≠ []) :
    c ∈ events.map Event.cycle := by
  obtain ⟨e, he⟩ := List.exists_mem_of_ne_nil _ h
  obtain ⟨hin, hc⟩ := List.mem_filter.1 he
  exact List.mem_map.2 ⟨e, hin, of_decide_eq_true hc⟩

/-- **The cycles that are reported are those that differ, and without one the runs are
identical.** -/
theorem mem_differing_iff (a b : List Line) :
    Counted (diffRuns U a b) ∧ ∀ c, c ∈ (diffRuns U a b).differing ↔
      Differs U (loadEvents a) (loadEvents b) (sharedUpTo a b) c := by
  obtain ⟨hcounted, hmem⟩ := foldl_from_start (U := U) (loadEvents a) (loadEvents b)
    (sharedUpTo a b) (((loadEvents a ++ loadEvents b).map Event.cycle).dedup.insertionSort (· ≤ ·))
    (r := ⟨extractRunId (loadEvents a), extractRunId (loadEvents b),
      (forkProvenance (loadEvents a) (loadEvents b)).map Prod.fst,
      (forkProvenance (loadEvents a) (loadEvents b)).bind Prod.snd, [], 0, 0, 0, 0⟩)
    rfl ⟨rfl, rfl, rfl⟩
  refine ⟨hcounted, fun c => (hmem c).trans (and_iff_right_of_imp fun hdiffers => ?_)⟩
  -- a cycle that differs has an event in one of the runs
  have hevent : groupByCycle (loadEvents a) c ≠ [] ∨ groupByCycle (loadEvents b) c ≠ [] := by
    by_contra hno
    rw [not_or, not_not, not_not] at hno
    rcases hdiffers.2 with hone | ⟨ha, -, -⟩
    · exact hone (iff_of_true hno.1 hno.2)
    · exact ha hno.1
  rw [List.mem_insertionSort, List.mem_dedup, List.map_append, List.mem_append]
  rcases hevent with h | h
  · exact .inl (mem_cycles_of_group h)
  · exact .inr (mem_cycles_of_group h)

theorem identical_iff (a b : List Line) :
    (diffRuns U a b).identical ↔
      ∀ c, ¬Differs U (loadEvents a) (loadEvents b) (sharedUpTo a b) c := by
  obtain ⟨hcounted, hmem⟩ := mem_differing_iff (U := U) a b
  unfold Counted at hcounted
  rw [hcounted, List.eq_nil_iff_forall_not_mem]
  exact forall_congr' fun c => not_congr (hmem c)

/-- The log `child` names the run of the log `parent` as the one that it was forked from. -/
def ForkOf (child parent : List Line) : Prop :=
  ∃ p ∈ extractForkProvenance (loadEvents child), p.1 = extractRunId (loadEvents parent)

theorem sharedUpTo_comm {a b : List Line} (h : ¬(ForkOf a b ∧ ForkOf b a)) :
    sharedUpTo a b = sharedUpTo b a := by
  have hnone : ∀ {x y : List Line}, ¬ForkOf x y → (extractForkProvenance (loadEvents x)).filter
      (fun p => p.1 = extractRunId (loadEvents y)) = none := by
    intro x y hfork
    refine Option.filter_eq_none_iff.2 fun p hp hsame => hfork ⟨p, hp, of_decide_eq_true hsame⟩
  unfold sharedUpTo forkProvenance
  rcases not_and_or.1 h with hfork | hfork
  · simp only [hnone hfork, Option.or_none, Option.none_or]
  · simp only [hnone hfork, Option.or_none, Option.none_or]

def response : EventBody → Option (PyText × List ToolCall)
  | .llmResponse outputText toolCalls => some (outputText, toolCalls)
  | _ => none

def responses (events : List Event) : List (PyText × List ToolCall) :=
  events.filterMap fun e => response e.body

theorem applyEvent_of_response {e : Event} {r : PyText × List ToolCall}
    (h : response e.body = some r) (snap : CycleSnapshot) :
    (applyEvent U snap e).llmResponse = some r.1 ∧ (applyEvent U snap e).toolCalls = r.2 := by
  obtain ⟨runId, cycle, seq, body⟩ := e
  cases body with
  | llmResponse outputText toolCalls =>
    cases h
    exact ⟨rfl, rfl⟩
  | _ => cases h

theorem applyEvent_of_none {e : Event} (h : response e.body = none) (snap : CycleSnapshot) :
    (applyEvent U snap e).llmResponse = snap.llmResponse ∧
      (applyEvent U snap e).toolCalls = snap.toolCalls := by
  obtain ⟨runId, cycle, seq, body⟩ := e
  cases body with
  | llmResponse outputText toolCalls => cases h
  | executionMode mode enabled =>
    cases mode with
    | some mode => exact ⟨rfl, rfl⟩
    | none =>
      cases enabled with
      | some on => exact ⟨rfl, rfl⟩
      | none => exact ⟨rfl, rfl⟩
  | _ => exact ⟨rfl, rfl⟩

/-- **A snapshot keeps the last response.** -/
theorem foldl_applyEvent_response (events : List Event) (snap : CycleSnapshot) :
    (events.foldl (applyEvent U) snap).llmResponse =
        (((responses events).getLast?).map Prod.fst).or snap.llmResponse ∧
      (events.foldl (applyEvent U) snap).toolCalls =
        (((responses events).getLast?).map Prod.snd).getD snap.toolCalls := by
  induction events generalizing snap with
  | nil => exact ⟨rfl, rfl⟩
  | cons e events ih =>
    obtain ⟨htext, hcalls⟩ := ih (applyEvent U snap e)
    rw [List.foldl_cons, htext, hcalls]
    cases hresponse : response e.body with
    | none =>
      have hskip : responses (e :: events) = responses events :=
        List.filterMap_cons_none hresponse
      obtain ⟨hkeepText, hkeepCalls⟩ := applyEvent_of_none (U := U) hresponse snap
      rw [hskip, hkeepText, hkeepCalls]
      exact ⟨rfl, rfl⟩
    | some r =>
      have hlast : responses (e :: events) = r :: responses events :=
        List.filterMap_cons_some hresponse
      obtain ⟨hsetText, hsetCalls⟩ := applyEvent_of_response (U := U) hresponse snap
      rw [hlast, hsetText, hsetCalls, List.getLast?_cons]
      cases (responses events).getLast? with
      | none => exact ⟨rfl, rfl⟩
      | some r' => exact ⟨rfl, rfl⟩

/-- The name and the arguments of a call, whose members have no order. -/
def content (c : ToolCall) : PyText × PyValue := (c.name, sortKeys (.dict c.arguments))

def SameResponse (r s : PyText × List ToolCall) : Prop :=
  r.1 = s.1 ∧ (r.2.map content).Perm (s.2.map content)

/-- The arguments of all calls are values that `json.loads` returns. -/
def Loaded (floatRepr : PyText → PyText) (events : List Event) : Prop :=
  ∀ r ∈ responses events, ∀ c ∈ r.2, Encodable floatRepr (.dict c.arguments)

variable {floatRepr : PyText → PyText}

theorem perm_of_normaliseCalls_eq {a b : List ToolCall}
    (ha : ∀ c ∈ a, Encodable floatRepr (.dict c.arguments))
    (hb : ∀ c ∈ b, Encodable floatRepr (.dict c.arguments))
    (h : normaliseCalls a = normaliseCalls b) : (a.map content).Perm (b.map content) := by
  have hkeys : (a.map callKey).Perm (b.map callKey) := by
    have hsorted := (List.perm_insertionSort (· ≤ ·) (a.map callKey)).symm
    unfold normaliseCalls at h
    rw [h] at hsorted
    exact hsorted.trans (List.perm_insertionSort (· ≤ ·) (b.map callKey))
  let contentOf := fun k : PyText ×ₗ PyText =>
    ((ofLex k).1, (loads floatRepr (ofLex k).2).getD .none)
  have hread : ∀ calls : List ToolCall,
      (∀ c ∈ calls, Encodable floatRepr (.dict c.arguments)) →
      (calls.map callKey).map contentOf = calls.map content := by
    intro calls hcalls
    rw [List.map_map]
    refine List.map_congr_left fun c hc => ?_
    have hloads : loads floatRepr (dumps (sortKeys (.dict c.arguments))) =
        some (sortKeys (.dict c.arguments)) :=
      PyJson.loads_dumps (PyJson.encodable_sortKeys (hcalls c hc)) rfl
    simp only [Function.comp_apply, contentOf, callKey, content, ofLex_toLex, hloads,
      Option.getD_some]
  have hmap := hkeys.map contentOf
  rwa [hread a ha, hread b hb] at hmap

theorem same_end {eventsA eventsB : List Event}
    (ha : Loaded floatRepr eventsA) (hb : Loaded floatRepr eventsB)
    (h : diffSnapshots (buildSnapshot U eventsA) (buildSnapshot U eventsB) = []) :
    Option.Rel SameResponse (responses eventsA).getLast? (responses eventsB).getLast? := by
  obtain ⟨hfields, hcalls⟩ := (diffSnapshots_eq_nil_iff _ _).1 h
  have htext := hfields (lit "llm_response", CycleSnapshot.llmResponse) (by simp [comparedFields])
  have hkept : ∀ events : List Event,
      (buildSnapshot U events).llmResponse = ((responses events).getLast?).map Prod.fst ∧
      (buildSnapshot U events).toolCalls =
        (((responses events).getLast?).map Prod.snd).getD [] := by
    intro events
    obtain ⟨hone, htwo⟩ := foldl_applyEvent_response (U := U) events
      { cycle := (events.head?.map Event.cycle).getD 0 }
    refine ⟨hone.trans (Option.or_none ..), htwo⟩
  simp only at htext
  rw [(hkept eventsA).1, (hkept eventsB).1] at htext
  rw [(hkept eventsA).2, (hkept eventsB).2] at hcalls
  cases hlastA : (responses eventsA).getLast? with
  | none =>
    rw [hlastA] at htext
    have hnone := Option.map_eq_none_iff.1 htext.symm
    rw [hnone]
    exact .none
  | some r =>
    rw [hlastA] at htext hcalls
    cases hlastB : (responses eventsB).getLast? with
    | none =>
      rw [hlastB] at htext
      cases htext
    | some s =>
      rw [hlastB] at htext hcalls
      have hperm := perm_of_normaliseCalls_eq (ha r (List.mem_of_getLast? hlastA))
        (hb s (List.mem_of_getLast? hlastB)) hcalls
      exact .some ⟨Option.some.inj htext, hperm⟩

theorem Loaded.group {events : List Event}
    (h : Loaded floatRepr events) (c : ℕ) : Loaded floatRepr (groupByCycle events c) := by
  intro r hr
  obtain ⟨e, he, hresponse⟩ := List.mem_filterMap.1 hr
  exact h r (List.mem_filterMap.2 ⟨e, List.mem_of_mem_filter he, hresponse⟩)

/-- **A run is identical to itself; the two runs can be exchanged, unless each is named as the
parent of the other; and runs that are reported as identical end each cycle beyond the shared
ones with the same response.** -/
theorem diffRuns_sound (U : Policy.Unicode) {floatRepr : PyText → PyText} {a b : List Line}
    (ha : Loaded floatRepr (loadEvents a)) (hb : Loaded floatRepr (loadEvents b)) :
    (diffRuns U a a).identical ∧
    (¬(ForkOf a b ∧ ForkOf b a) →
      ∀ c, c ∈ (diffRuns U a b).differing ↔ c ∈ (diffRuns U b a).differing) ∧
    ((diffRuns U a b).identical → ∀ c : ℕ, sharedUpTo a b < c →
      Option.Rel SameResponse (responses (groupByCycle (loadEvents a) c)).getLast?
        (responses (groupByCycle (loadEvents b) c)).getLast?) := by
  refine ⟨?_, ?_, ?_⟩
  · refine (identical_iff a a).2 fun c hdiffers => ?_
    rcases hdiffers.2 with hone | ⟨-, -, hdiff⟩
    · exact hone Iff.rfl
    · exact hdiff (diffSnapshots_self _)
  · intro hfork c
    rw [(mem_differing_iff a b).2, (mem_differing_iff b a).2, sharedUpTo_comm hfork, differs_comm]
  · intro hidentical c hc
    have hsame := (identical_iff a b).1 hidentical c
    have hboth : groupByCycle (loadEvents a) c = [] ↔ groupByCycle (loadEvents b) c = [] := by
      by_contra hone
      exact hsame ⟨hc, .inl hone⟩
    by_cases hempty : groupByCycle (loadEvents a) c = []
    · rw [hempty, hboth.1 hempty]
      exact .none
    · have hdiff : diffSnapshots (buildSnapshot U (groupByCycle (loadEvents a) c))
          (buildSnapshot U (groupByCycle (loadEvents b) c)) = [] := by
        by_contra hdiff
        exact hsame ⟨hc, .inr ⟨hempty, fun h => hempty (hboth.2 h), hdiff⟩⟩
      exact same_end (ha.group c) (hb.group c) hdiff

def oneCycle (runId : String) (bodies : List EventBody) : List Line :=
  bodies.map fun body => some { runId := lit runId, cycle := 1, body := body }

def answer (text : String) : EventBody := .llmResponse (lit text) []

def calls (names : List String) : EventBody :=
  .llmResponse [] (names.map fun name => { name := lit name })

def readOnce (runId : String) : List Line := oneCycle runId [calls ["read"]]

theorem sound_of_one_call :
    (diffRuns Policy.asciiOnly (readOnce "a") (readOnce "a")).identical ∧
    (¬(ForkOf (readOnce "a") (readOnce "b") ∧ ForkOf (readOnce "b") (readOnce "a")) →
      ∀ c, c ∈ (diffRuns Policy.asciiOnly (readOnce "a") (readOnce "b")).differing ↔
        c ∈ (diffRuns Policy.asciiOnly (readOnce "b") (readOnce "a")).differing) ∧
    ((diffRuns Policy.asciiOnly (readOnce "a") (readOnce "b")).identical →
      ∀ c : ℕ, sharedUpTo (readOnce "a") (readOnce "b") < c →
        Option.Rel SameResponse
          (responses (groupByCycle (loadEvents (readOnce "a")) c)).getLast?
          (responses (groupByCycle (loadEvents (readOnce "b")) c)).getLast?) := by
  have hloaded : ∀ runId, Loaded id (loadEvents (readOnce runId)) := by
    intro runId r hr c hc
    have hr' : r ∈ [(([] : PyText), [({ name := lit "read" } : ToolCall)])] := hr
    rw [List.mem_singleton.1 hr', List.mem_singleton] at hc
    rw [hc]
    exact .dict List.nodup_nil (by simp) (by simp)
  exact diffRuns_sound Policy.asciiOnly (hloaded "a") (hloaded "b")

instance (r : RunDiff) : Decidable r.identical :=
  inferInstanceAs (Decidable (_ ∧ _ ∧ _))

/-- Runs are taken for identical that differ in the first of two responses, in the order of two
calls, or in a cycle before the fork. -/
theorem identical_unsound :
    ((diffRuns Policy.asciiOnly (oneCycle "a" [answer "yes", answer "done"])
        (oneCycle "b" [answer "no", answer "done"])).identical ∧
      (responses (groupByCycle (loadEvents (oneCycle "a" [answer "yes", answer "done"])) 1)).map
        Prod.fst ≠
      (responses (groupByCycle (loadEvents (oneCycle "b" [answer "no", answer "done"])) 1)).map
        Prod.fst) ∧
    ((diffRuns Policy.asciiOnly (oneCycle "a" [calls ["read", "write"]])
        (oneCycle "b" [calls ["write", "read"]])).identical ∧
      (responses (groupByCycle (loadEvents (oneCycle "a" [calls ["read", "write"]])) 1)).map
        (fun r => r.2.map ToolCall.name) ≠
      (responses (groupByCycle (loadEvents (oneCycle "b" [calls ["write", "read"]])) 1)).map
        (fun r => r.2.map ToolCall.name)) ∧
    ((diffRuns Policy.asciiOnly (oneCycle "a" [answer "yes"])
        (oneCycle "b" [.forkCreated (some (lit "a")) (some 1), answer "no"])).identical ∧
      (responses (groupByCycle (loadEvents (oneCycle "a" [answer "yes"])) 1)).map Prod.fst ≠
      (responses (groupByCycle (loadEvents (oneCycle "b"
        [.forkCreated (some (lit "a")) (some 1), answer "no"])) 1)).map Prod.fst) := by
  decide +kernel

end ClawHarder.LogDiff
