import ClawHarder.Lib.Effectful
import ClawHarder.Spec.RuntimeState

/-!
# A written state is not read back

`InstitutionalVitals.to_dict` writes ten members, five of them aliases, and `from_dict`
passes all of them to a constructor with five parameters. So `from_dict` raises for
every state that `to_dict` or `to_persisted_dict` wrote, and with it `clone`.

* `ofKeywords_refused`: the vitals of any state are refused.
* `fromDict_refused`: **what a state is written as is never read back.**
-/

namespace ClawHarder.RuntimeCore

open PyText (lit)
open Effectful (bind_ok)

variable {α β : Type} {b : PyBuiltins} {E : Engines}

def Refuses (m : Py α) : Prop := ∀ r, m ≠ .ok r

theorem refuses_bind {m : Py α} {f : α → Py β} (h : ∀ a, Refuses (f a)) : Refuses (m >>= f) := by
  intro r hr
  obtain ⟨a, -, ha⟩ := bind_ok hr
  exact h a r ha

theorem refuses_first {m : Py α} {f : α → Py β} (h : Refuses m) : Refuses (m >>= f) := by
  intro r hr
  obtain ⟨a, ha, -⟩ := bind_ok hr
  exact h a ha

theorem keywords_refused {parameters : List String} {members : PyDict} {k : PyText}
    (hk : k ∈ members.map Prod.fst) (hnot : k ∉ parameters.map lit) :
    keywords parameters (.dict members) = .error .typeError := by
  obtain ⟨m, hm, rfl⟩ := List.mem_map.1 hk
  have hall : ¬ members.all (fun m => (parameters.map lit).contains m.1) = true := by
    intro hall
    have hcontains := List.all_eq_true.1 hall m hm
    exact hnot (List.contains_iff_mem.1 hcontains)
  unfold keywords
  simp only
  rw [if_neg hall]

/-- **The vitals of a state are refused**: `compliance_drift` is no parameter. -/
theorem ofKeywords_refused (v : InstitutionalVitals) :
    InstitutionalVitals.ofKeywords (v.toDict b) = .error .typeError := by
  have hkey : lit "compliance_drift" ∈ ["absurdity_pressure", "contradiction_density",
      "institutional_friction", "reality_stability", "continuity_debt", "compliance_drift",
      "variance_density", "prestige_pressure", "institutional_stability",
      "delivery_instability"].map lit := List.mem_map_of_mem (by decide)
  have hnot : lit "compliance_drift" ∉ ["absurdity_pressure", "contradiction_density",
      "institutional_friction", "reality_stability", "continuity_debt"].map lit := by decide
  unfold InstitutionalVitals.ofKeywords InstitutionalVitals.toDict
  rw [keywords_refused hkey hnot]
  rfl

/-- The keys that `to_dict` and `to_persisted_dict` share. -/
def sharedKeys : List String :=
  ["schema_version", "organism", "identity", "working", "signal", "memory", "bound_intent",
    "governance", "tick_count", "canon_ledger", "vitals", "permission_mode", "execution_mode",
    "sandbox_session_id", "initial_budget", "remaining_budget", "consumed_budget",
    "canary_consecutive_successes", "canary_validator_open", "canary_last_run_metrics",
    "killswitch_engaged", "killswitch_reason", "killswitch_at", "debug_mode",
    "last_activity_at", "tick_mode", "execution_state", "last_tick_reason",
    "tick_blocked_reason", "last_success_timestamp", "last_failure_timestamp",
    "auto_resume_on_restart", "pending_tool_confirmation"]

theorem sharedEntries_keys (s : RuntimeState) :
    (s.sharedEntries b).map Prod.fst = sharedKeys.map lit := rfl

theorem persistedKeys_nodup : ((sharedKeys ++ ["health_metrics"]).map lit).Nodup := by
  decide +kernel

theorem sharedEntries_vitals (s : RuntimeState) :
    (lit "vitals", s.vitals.toDict b) ∈ s.sharedEntries b :=
  List.mem_of_getElem? (i := 10) rfl

theorem toDict_vitals (s : RuntimeState) :
    PyValue.get? (lit "vitals") (s.sharedEntries b) = some (s.vitals.toDict b) := by
  refine PyValue.get?_of_mem ?_ (sharedEntries_vitals s)
  rw [sharedEntries_keys]
  have hnodup := persistedKeys_nodup
  rw [List.map_append] at hnodup
  exact (List.nodup_append.1 hnodup).1

theorem toPersistedDict_vitals (s : RuntimeState) :
    PyValue.get? (lit "vitals")
        (s.sharedEntries b ++ [entry "health_metrics" (.dict s.healthMetrics)]) =
      some (s.vitals.toDict b) := by
  refine PyValue.get?_of_mem ?_ (List.mem_append_left _ (sharedEntries_vitals s))
  rw [List.map_append, sharedEntries_keys]
  have hnodup := persistedKeys_nodup
  rw [List.map_append] at hnodup
  exact hnodup

theorem fromDict_refused {members : PyDict} {data : PyValue}
    (hget : PyValue.get? (lit "vitals") members = some data)
    (hdata : InstitutionalVitals.ofKeywords data = .error .typeError) :
    Refuses (RuntimeState.fromDict b E (.dict members)) := by
  have hvitals : ∀ ledger, Refuses (loadVitals E (.dict members) ledger) := by
    intro ledger r
    unfold loadVitals
    simp only [hget, hdata]
    intro h
    cases h
  unfold RuntimeState.fromDict
  -- the vitals are read after the ledger, which every step before must have let through
  iterate 23 refine refuses_bind fun _ => ?_
  exact refuses_first (hvitals _)

/-- `from_dict(to_persisted_dict())` returns, with every persisted field as it was. -/
def RoundTrips (b : PyBuiltins) (E : Engines) (s : RuntimeState) : Prop :=
  ∃ s', RuntimeState.fromDict b E (s.toPersistedDict b) = .ok s' ∧
    s' = { s with resumeFired := s'.resumeFired }

/-- `clone()` returns, with every field but `resume_fired` as it was. -/
def Clones (b : PyBuiltins) (E : Engines) (s : RuntimeState) : Prop :=
  ∃ s', s.clone b E = .ok s' ∧ s' = { s with resumeFired := s'.resumeFired }

theorem fromDict_toPersistedDict (s : RuntimeState) :
    Refuses (RuntimeState.fromDict b E (s.toPersistedDict b)) :=
  fromDict_refused (toPersistedDict_vitals s) (ofKeywords_refused s.vitals)

theorem clone_refused (s : RuntimeState) : Refuses (s.clone b E) :=
  fromDict_refused (toDict_vitals s) (ofKeywords_refused s.vitals)

/-- **No state survives the round trip, and none can be cloned.** -/
theorem no_state_round_trips (b : PyBuiltins) (E : Engines) (s : RuntimeState) :
    ¬ RoundTrips b E s ∧ ¬ Clones b E s := by
  constructor
  · rintro ⟨s', hback, -⟩
    exact fromDict_toPersistedDict s s' hback
  · rintro ⟨s', hclone, -⟩
    exact clone_refused s s' hclone

def plainBuiltins : PyBuiltins where
  float
    | .float r => .ok r
    | .int n => .ok (lit (toString n ++ ".0"))
    | _ => .error .typeError
  intOfFloat _ := .error .valueError
  intOfText _ := .error .valueError
  reprOf _ := []
  dictOfPairs vs := if vs.isEmpty then .ok [] else .error .typeError
  sameKey
    | .str t, .str u => t = u
    | _, _ => false
  round3 v := v
  oneMinus _ := .float (lit "0.0")
  now := lit "0.0"

def plainEngines : Engines where
  fresh := ⟨lit "revision", lit "now"⟩
  computeVitals _ := .ok {}

/-- `RuntimeState()` -/
def newState : RuntimeState where
  schemaVersion := 6
  identity := {}
  working := {}
  signal := {}
  memory := ⟨[], [], [], newStm, ⟨[], 1⟩, none, []⟩
  boundIntent := {}
  governance := {}
  tickCount := 0
  canonLedger := []
  vitals := {}
  permissionMode := lit "task"
  executionMode := lit "plan"
  sandboxSessionId := lit "default"
  initialBudget := lit "0.0"
  remainingBudget := lit "0.0"
  consumedBudget := lit "0.0"
  canaryConsecutiveSuccesses := 0
  canaryValidatorOpen := false
  canaryLastRunMetrics := []
  killswitchEngaged := false
  killswitchReason := []
  killswitchAt := none
  debugMode := false
  tickMode := .str (lit "off")
  executionState := .str (lit "idle")
  lastTickReason := .none
  tickBlockedReason := .none
  lastSuccessTimestamp := .none
  lastFailureTimestamp := .none
  autoResumeOnRestart := false
  pendingToolConfirmation := none
  healthMetrics := [entry "rejection_count" (.int 0), entry "recovery_count" (.int 0),
    entry "total_retries" (.int 0)]
  resumeFired := false
  lastActivityAt := none

theorem new_state_lost :
    RuntimeState.fromDict plainBuiltins plainEngines (newState.toPersistedDict plainBuiltins) =
        .error .typeError ∧
      ¬ RoundTrips plainBuiltins plainEngines newState := by
  constructor
  · rfl
  · rintro ⟨s', hback, -⟩
    exact fromDict_toPersistedDict newState s' hback

-- Without its vitals, as the repository's own test passes it, the payload is read back.
example : (RuntimeState.fromDict plainBuiltins plainEngines
    (.dict (PyValue.pop (lit "vitals") (newState.sharedEntries plainBuiltins)))).toOption.map
      (·.tickCount) = some newState.tickCount := by decide +kernel

end ClawHarder.RuntimeCore
