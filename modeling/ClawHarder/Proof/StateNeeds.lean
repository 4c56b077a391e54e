import ClawHarder.Lib.Demand
import ClawHarder.Spec.StateLoad

/-!
# What a payload needs

`from_dict` reads an unchecked payload by conversions, in a fixed order. `Need` is such
a conversion and the value it meets, and `payloadNeeds` lists them for a payload.

* `loadIdentity_asks`, …, `loadVitals_asks`: each part of `from_dict` meets its needs in
  order.
* `fromDict_asks`: **so does `from_dict`.**
-/

namespace ClawHarder.RuntimeCore

open PyText (lit)
open Demand

/-- A conversion of `from_dict`, and the value that it meets. -/
inductive Need where
  /-- `v.get(…)`, `v.items()` -/
  | object (v : PyValue)
  /-- `v[key]` -/
  | item (v : PyValue) (key : String)
  /-- `int(v)` -/
  | int (v : PyValue)
  /-- `float(v)` -/
  | float (v : PyValue)
  /-- `dict(v)` -/
  | dict (v : PyValue)
  /-- `list(v)`, or a loop -/
  | iterable (v : PyValue)
  /-- a key of a set or of a dictionary -/
  | hashable (v : PyValue)
  /-- `v.lower()` -/
  | text (v : PyValue)
  /-- `cls(**v)` -/
  | keywords (parameters : List String) (v : PyValue)
  /-- `word in v` -/
  | container (v : PyValue)

def Need.check (b : PyBuiltins) : Need → Py Unit
  | .object v => erase (Py.members v)
  | .item v key => erase (Py.item v key)
  | .int v => erase (Py.int b v)
  | .float v => erase (b.float v)
  | .dict v => erase (Py.dict b v)
  | .iterable v => erase (Py.items v)
  | .hashable v => if Py.hashable v then .ok () else .error .typeError
  | .text v => if v.asStr?.isSome then .ok () else .error .attributeError
  | .keywords parameters v => erase (RuntimeCore.keywords parameters v)
  | .container v => erase (hasWord "" v)

/-- `d.get(key, default)`, of a dictionary -/
def look (members : PyDict) (key : String) (default : PyValue) : PyValue :=
  (PyValue.get? (lit key) members).getD default

def membersOf (v : PyValue) : PyDict := v.asDict?.getD []

def itemsOf (v : PyValue) : List PyValue := (Py.items v).toOption.getD []

/-- A member that may be `None`. -/
def optionalNeed (need : PyValue → Need) : PyValue → List Need
  | .none => []
  | v => [need v]

/-- `isinstance(v, (int, float)) and not isinstance(v, bool)` -/
def numberNeed : PyValue → List Need
  | .int n => [.float (.int n)]
  | .float r => [.float (.float r)]
  | _ => []

variable (b : PyBuiltins)

def identityNeeds (d : PyDict) : List Need :=
  [.int (look d "version" (.int 1)), .dict (look d "traits" (.dict [])),
    .float (look d "attention_pressure" (.float (lit "0.0"))),
    .dict (look d "memory_buckets" (.dict [])), .dict (look d "calibrations" (.dict []))]

def workingNeeds (d : PyDict) : List Need :=
  let allocations := look d "allocations" (.dict [])
  .object allocations :: ((membersOf allocations).map (fun m => .float m.2) ++
    [.float (look d "limit_per_allocation" (look d "limit" (.float (lit "40.0")))),
      .float (look d "memory_total" (.float (lit "100.0"))),
      .iterable (look d "proposals" (.list [])), .dict (look d "ground_truth" (.dict []))])

def signalNeeds (d : PyDict) : List Need :=
  let trace := look d "trace" (.list [])
  .dict (look d "core" (.dict defaultCore)) :: .float (look d "valence" (.float (lit "0.5"))) ::
    .float (look d "arousal" (.float (lit "0.3"))) ::
    .float (look d "instability" (.float (lit "0.1"))) :: .iterable trace ::
    (itemsOf trace).map .iterable

def frameNeeds (frame : PyValue) : List Need :=
  [.item frame "role", .item frame "content", .item frame "ts"]

def semanticNeeds (raw : PyValue) : List Need :=
  [.item raw "key", .item raw "content", .float (look (membersOf raw) "ts" (.float b.now))]

def messageNeeds (item : PyValue) : List Need :=
  [.float (look (membersOf item) "ts" (.float b.now))]

def epochNeeds (epoch : PyValue) : List Need :=
  let d := membersOf epoch
  let messages := look d "messages" (.list [])
  .int (look d "epoch_seq" (.int 0)) :: .float (look d "opened_at" (.float b.now)) ::
    (optionalNeed .float (look d "closed_at" .none) ++
      .iterable messages :: ((itemsOf messages).filter Py.isDict).flatMap (messageNeeds b))

def stmNeeds (window : PyValue) : List Need :=
  let d := membersOf window
  let epochs := look d "epochs" (.list [])
  let openEpoch := look d "open_epoch" .none
  .iterable (look d "close_roles" (.list [.str (lit "assistant")])) ::
    .int (look d "max_epochs" (.int 6)) :: .int (look d "next_epoch_seq" (.int 1)) ::
    .iterable epochs ::
    (((itemsOf epochs).filter Py.isDict).flatMap (epochNeeds b) ++
      if Py.isDict openEpoch then epochNeeds b openEpoch else [])

def rowNeeds (row : PyValue) : List Need :=
  let d := membersOf row
  .int (look d "seq" (.int 0)) :: .float (look d "ts" (.float b.now)) ::
    optionalNeed .int (look d "epoch_seq" .none)

def ledgerNeeds (ledger : PyValue) : List Need :=
  let d := membersOf ledger
  let entries := look d "entries" (.list [])
  let rows := (itemsOf entries).filter Py.isDict
  .iterable entries :: (rows.flatMap (rowNeeds b) ++
    [.int (look d "next_seq" (.int (rows.length + 1)))])

def memoryNeeds (d : PyDict) : List Need :=
  let frames := look d "frames" (.list [])
  let semantic := look d "semantic_items" (.list [])
  let window := look d "epoch_window" (.dict [])
  let ledger := look d "session_ledger" (.dict [])
  .iterable frames :: ((itemsOf frames).flatMap frameNeeds ++
    .iterable (look d "notes" (.list [])) :: .iterable semantic ::
      ((itemsOf semantic).flatMap (semanticNeeds b) ++
        ((if Py.isDict window then stmNeeds b window else []) ++
          if Py.isDict ledger then ledgerNeeds b ledger else [])))

def boundNeeds (schemaVersion : ℤ) (d : PyDict) : List Need :=
  let defaults : ExecutionEnvelope := {}
  let operations := look d "operations" (.list defaults.operations)
  let scopes := look d "scopes" (look d "scope" (.list defaults.scopes))
  let renamed := schemaVersion < 2 ∧ (itemsOf operations).any isAlias
  .iterable operations :: ((itemsOf operations).map .hashable ++ .iterable scopes ::
    ((if renamed then (itemsOf scopes).map .hashable else []) ++
      [.iterable (look d "subjects" (.list defaults.subjects)),
        .iterable (look d "purposes" (.list defaults.purposes)),
        .iterable (look d "authorities" (.list defaults.authorities)),
        .iterable (look d "constraints" (.list defaults.constraints))]))

def governanceNeeds (d : PyDict) : List Need :=
  [.text (look d "mode" (.str (lit "standard"))), .iterable (look d "hard_denies" (.list []))]

/-- The parameters of `Revision`. -/
def revisionParameters : List String :=
  ["revision_id", "origin_id", "epoch_effective", "timestamp", "alignment_source",
    "continuity_flags", "claims", "edges", "content"]

/-- The parameters of `InstitutionalVitals`. -/
def vitalsParameters : List String :=
  ["absurdity_pressure", "contradiction_density", "institutional_friction",
    "reality_stability", "continuity_debt"]

def edgeNeeds (revision : PyValue) : List Need :=
  let edges := look (membersOf revision) "edges" (.list [])
  .iterable edges :: (itemsOf edges).map .object

def flagNeed (revision : PyValue) : Need :=
  .container (look (membersOf revision) "continuity_flags" (.list []))

/-- The vitals are read, or computed in three loops over the ledger. -/
def vitalsNeeds (d : PyDict) (revisions : List PyValue) : List Need :=
  match PyValue.get? (lit "vitals") d with
  | some data => [.keywords vitalsParameters data]
  | none => revisions.flatMap edgeNeeds ++ (revisions.flatMap edgeNeeds ++ revisions.map flagNeed)

/-- `value or 0` -/
def orZero (v : PyValue) : PyValue := if Py.truth v then v else .int 0

/-- The parts of `from_dict`, in a dictionary. -/
def memberNeeds (d : PyDict) : List (List Need) :=
  let version := look d "schema_version" (.int 1)
  let organism := membersOf (look d "organism" (.dict []))
  let identity := look organism "identity" (look d "identity" (.dict []))
  let working := look d "working" (.dict [])
  let signal := look organism "affective_state" (look d "signal" (.dict []))
  let memory := look organism "stm" (look d "memory" (.dict []))
  let bound := look d "bound_intent" (.dict [])
  let governance := look d "governance" (.dict [])
  let ledger := look d "canon_ledger" (.list [])
  [[.int version],
    identityNeeds (membersOf identity),
    .object working :: workingNeeds (membersOf working),
    signalNeeds (membersOf signal),
    memoryNeeds b (membersOf memory),
    .object bound :: boundNeeds ((Py.int b version).toOption.getD 0) (membersOf bound),
    .object governance :: governanceNeeds (membersOf governance),
    [.int (look d "tick_count" (.int 0))],
    [.iterable ledger],
    (itemsOf ledger).map (.keywords revisionParameters),
    vitalsNeeds d (itemsOf ledger),
    numberNeed (look d "initial_budget" .none),
    numberNeed (look d "remaining_budget" .none),
    numberNeed (look d "consumed_budget" .none),
    [.int (orZero (look d "canary_consecutive_successes" (.int 0)))],
    numberNeed (look d "killswitch_at" .none),
    [.dict (look d "health_metrics" defaultHealth)],
    numberNeed (look d "last_activity_at" .none)]

/-- The needs of `from_dict` in a payload, in its order. -/
def payloadNeeds (payload : PyValue) : List Need :=
  .object payload :: (memberNeeds b (membersOf payload)).flatten

theorem get_dict (d : PyDict) (key : String) (default : PyValue) :
    Py.get (.dict d) key default = .ok (look d key default) := rfl

theorem ok_bind {α γ : Type} (a : α) (f : α → Py γ) : (Except.ok a >>= f) = f a := rfl

theorem orEmpty_eq (v : PyValue) : Py.orEmpty v = .dict (membersOf v) := by
  cases v <;> rfl

theorem membersOf_dict (d : PyDict) : membersOf (.dict d) = d := rfl

theorem dict_of_isDict {v : PyValue} (h : Py.isDict v = true) : ∃ d, v = .dict d := by
  cases v with
  | dict d => exact ⟨d, rfl⟩
  | _ => cases h

theorem itemsOf_eq {v : PyValue} {vs : List PyValue} (h : Py.items v = .ok vs) :
    itemsOf v = vs := by
  unfold itemsOf
  rw [h]
  rfl

variable {b : PyBuiltins}

theorem asks_int (v : PyValue) : Asks (Need.check b) (Py.int b v) [.int v] := asks_one rfl

theorem asks_float (v : PyValue) : Asks (Need.check b) (b.float v) [.float v] := asks_one rfl

theorem asks_dict (v : PyValue) : Asks (Need.check b) (Py.dict b v) [.dict v] := asks_one rfl

theorem asks_items (v : PyValue) : Asks (Need.check b) (Py.items v) [.iterable v] := asks_one rfl

theorem asks_item (v : PyValue) (key : String) :
    Asks (Need.check b) (Py.item v key) [.item v key] := asks_one rfl

theorem asks_optional {α : Type} {convert : PyValue → Py α} {need : PyValue → Need}
    (h : ∀ v, Asks (Need.check b) (convert v) [need v]) (v : PyValue) :
    Asks (Need.check b) (Py.optional convert v) (optionalNeed need v) := by
  cases v with
  | none => exact asks_ok none
  | _ => exact asks_last (h _) fun a _ => asks_ok (some a)

theorem asks_optional_str (v : PyValue) :
    Asks (Need.check b) (Py.optional (fun w => .ok (Py.str b w)) v) [] := by
  cases v <;> exact asks_ok _

theorem asks_coerceFloat (v : PyValue) (default : PyText) :
    Asks (Need.check b) (coerceFloat b v default) (numberNeed v) := by
  cases v with
  | int n => exact asks_float (.int n)
  | float r => exact asks_float (.float r)
  | _ => exact asks_ok default

theorem asks_optionalFloat (v : PyValue) :
    Asks (Need.check b) (optionalFloat b v) (numberNeed v) := by
  cases v with
  | int n => exact asks_map (asks_float (.int n))
  | float r => exact asks_map (asks_float (.float r))
  | _ => exact asks_ok none

theorem loadIdentity_asks (d : PyDict) :
    Asks (Need.check b) (loadIdentity b (.dict d)) (identityNeeds d) := by
  simp only [loadIdentity, get_dict, ok_bind]
  refine asks_cons (asks_int _) fun version _ => ?_
  refine asks_cons (asks_dict _) fun traits _ => ?_
  refine asks_cons (asks_float _) fun pressure _ => ?_
  refine asks_cons (asks_dict _) fun buckets _ => ?_
  exact asks_last (asks_dict _) fun calibrations _ => asks_ok _

theorem loadWorking_asks (d : PyDict) :
    Asks (Need.check b) (loadWorking b (.dict d)) (workingNeeds d) := by
  simp only [loadWorking, get_dict, ok_bind]
  refine asks_cons (asks_one rfl) fun members hmembers => ?_
  have hof : membersOf (look d "allocations" (.dict [])) = members := by
    cases hlook : look d "allocations" (.dict []) with
    | dict ms =>
      rw [hlook] at hmembers
      cases hmembers
      rfl
    | _ =>
      rw [hlook] at hmembers
      cases hmembers
  have hloop : Asks (Need.check b) (members.mapM fun m => do
      let amount ← b.float m.2
      return (m.1, amount)) (members.map fun m => .float m.2) :=
    asks_each fun m _ => asks_last (asks_float m.2) fun amount _ => asks_ok _
  rw [hof]
  refine asks_bind hloop fun allocations _ => ?_
  refine asks_cons (asks_float _) fun limit _ => ?_
  refine asks_cons (asks_float _) fun total _ => ?_
  refine asks_cons (asks_items _) fun proposals _ => ?_
  exact asks_last (asks_dict _) fun truth _ => asks_ok _

theorem loadSignal_asks (d : PyDict) :
    Asks (Need.check b) (loadSignal b (.dict d)) (signalNeeds d) := by
  simp only [loadSignal, get_dict, ok_bind]
  refine asks_cons (asks_dict _) fun core _ => ?_
  refine asks_cons (asks_float _) fun valence _ => ?_
  refine asks_cons (asks_float _) fun arousal _ => ?_
  refine asks_cons (asks_float _) fun instability _ => ?_
  refine asks_cons (asks_items _) fun trace htrace => ?_
  rw [itemsOf_eq htrace]
  refine asks_last (asks_each fun item _ => ?_) fun items _ => asks_ok _
  exact asks_map (asks_items item)

/-! ### The memory -/

theorem loadFrame_asks (frame : PyValue) :
    Asks (Need.check b) (loadFrame frame) (frameNeeds frame) := by
  unfold loadFrame
  refine asks_cons (asks_item frame "role") fun role _ => ?_
  refine asks_cons (asks_item frame "content") fun content _ => ?_
  exact asks_last (asks_item frame "ts") fun ts _ => asks_ok _

theorem dict_of_item {v w : PyValue} {key : String} (h : Py.item v key = .ok w) :
    ∃ d, v = .dict d := by
  cases v with
  | dict d => exact ⟨d, rfl⟩
  | _ => cases h

theorem loadSemantic_asks (raws : List PyValue) (items : List SemanticItem) :
    Asks (Need.check b) (loadSemantic b raws items) (raws.flatMap (semanticNeeds b)) := by
  induction raws generalizing items with
  | nil => exact asks_ok items
  | cons raw raws ih =>
    rw [List.flatMap_cons]
    unfold loadSemantic
    refine asks_cons (asks_item raw "key") fun key hkey => ?_
    refine asks_cons (asks_item raw "content") fun content _ => ?_
    obtain ⟨d, rfl⟩ := dict_of_item hkey
    simp only [get_dict, ok_bind]
    refine asks_cons (asks_float _) fun ts _ => ?_
    exact ih _

theorem messageFrom_asks {item : PyValue} (h : Py.isDict item = true) :
    Asks (Need.check b) (StmEpoch.messageFrom b item) (messageNeeds b item) := by
  obtain ⟨d, rfl⟩ := dict_of_isDict h
  simp only [StmEpoch.messageFrom, messageNeeds, membersOf_dict, get_dict, ok_bind]
  exact asks_last (asks_float _) fun ts _ => asks_ok _

theorem epoch_asks {epoch : PyValue} (h : Py.isDict epoch = true) :
    Asks (Need.check b) (StmEpoch.fromDict b epoch) (epochNeeds b epoch) := by
  obtain ⟨d, rfl⟩ := dict_of_isDict h
  simp only [StmEpoch.fromDict, epochNeeds, membersOf_dict, get_dict, ok_bind]
  refine asks_cons (asks_int _) fun seq _ => ?_
  refine asks_cons (asks_float _) fun opened _ => ?_
  refine asks_bind (asks_optional asks_float _) fun closed _ => ?_
  refine asks_pass (asks_optional_str _) fun reason _ => ?_
  refine asks_cons (asks_items _) fun messages hmessages => ?_
  rw [itemsOf_eq hmessages]
  refine asks_last (asks_mapM fun item hitem => ?_) fun frames _ => asks_ok _
  exact messageFrom_asks (List.mem_filter.1 hitem).2

theorem stm_asks {window : PyValue} (h : Py.isDict window = true) :
    Asks (Need.check b) (StmStore.fromDict b window) (stmNeeds b window) := by
  obtain ⟨d, rfl⟩ := dict_of_isDict h
  simp only [StmStore.fromDict, stmNeeds, membersOf_dict, get_dict, ok_bind]
  refine asks_cons (asks_items _) fun roles _ => ?_
  refine asks_cons (asks_int _) fun maxEpochs _ => ?_
  refine asks_cons (asks_int _) fun nextSeq _ => ?_
  refine asks_cons (asks_items _) fun epochs hepochs => ?_
  rw [itemsOf_eq hepochs]
  have hloop : ∀ epoch ∈ epochs.filter Py.isDict,
      Asks (Need.check b) (StmEpoch.fromDict b epoch) (epochNeeds b epoch) :=
    fun epoch hepoch => epoch_asks (List.mem_filter.1 hepoch).2
  refine asks_bind (asks_mapM hloop) fun closed _ => ?_
  refine asks_when (fun hopen => ?_) fun _ => asks_ok _
  exact asks_last (asks_map (epoch_asks hopen)) fun e _ => asks_ok _

theorem row_asks {row : PyValue} (h : Py.isDict row = true) :
    Asks (Need.check b) (SessionLedgerEntry.fromDict b row) (rowNeeds b row) := by
  obtain ⟨d, rfl⟩ := dict_of_isDict h
  simp only [SessionLedgerEntry.fromDict, rowNeeds, membersOf_dict, get_dict, ok_bind]
  refine asks_cons (asks_int _) fun seq _ => ?_
  refine asks_cons (asks_float _) fun ts _ => ?_
  refine asks_last (asks_optional asks_int _) fun epochSeq _ => ?_
  refine asks_pass (asks_optional_str _) fun role _ => ?_
  refine asks_pass (asks_optional_str _) fun content _ => ?_
  rw [orEmpty_eq]
  exact asks_ok _

theorem ledger_asks {ledger : PyValue} (h : Py.isDict ledger = true) :
    Asks (Need.check b) (SessionLedger.fromDict b ledger) (ledgerNeeds b ledger) := by
  obtain ⟨d, rfl⟩ := dict_of_isDict h
  simp only [SessionLedger.fromDict, ledgerNeeds, membersOf_dict, get_dict, ok_bind]
  refine asks_cons (asks_items _) fun entries hentries => ?_
  rw [itemsOf_eq hentries]
  have hloop : ∀ row ∈ entries.filter Py.isDict,
      Asks (Need.check b) (SessionLedgerEntry.fromDict b row) (rowNeeds b row) :=
    fun row hrow => row_asks (List.mem_filter.1 hrow).2
  refine asks_bind (asks_mapM hloop) fun rows hrows => ?_
  have hlength : rows.length = (entries.filter Py.isDict).length :=
    (Effectful.mapM_eq_ok_iff.1 hrows).length_eq.symm
  rw [hlength]
  exact asks_last (asks_int _) fun nextSeq _ => asks_ok _

theorem loadMemory_asks (d : PyDict) :
    Asks (Need.check b) (loadMemory b (.dict d)) (memoryNeeds b d) := by
  simp only [loadMemory, get_dict, ok_bind]
  refine asks_cons (asks_items _) fun frames hframes => ?_
  rw [itemsOf_eq hframes]
  refine asks_bind (asks_mapM fun frame _ => loadFrame_asks frame) fun loaded _ => ?_
  refine asks_cons (asks_items _) fun notes _ => ?_
  refine asks_cons (asks_items _) fun raws hraws => ?_
  rw [itemsOf_eq hraws]
  refine asks_bind (loadSemantic_asks raws _) fun semantic _ => ?_
  refine asks_ite (fun hwindow => asks_bind (stm_asks hwindow) fun stm _ => ?_) fun _ => ?_
  all_goals
    refine asks_when (fun hledger => ?_) fun _ => asks_ok _
    exact asks_last (ledger_asks hledger) fun mtm _ => asks_ok _

/-! ### The intent and the governance -/

theorem renameOperation_asks (v : PyValue) :
    Asks (Need.check b) (renameOperation v) [.hashable v] := by
  cases v <;> exact asks_one rfl

theorem hashable_renamed {v w : PyValue} (h : renameOperation v = .ok w) :
    Py.hashable w = true := by
  cases v with
  | list vs => cases h
  | dict d => cases h
  | _ =>
    cases h
    rfl

theorem hashable_all {vs ws : List PyValue}
    (h : List.Forall₂ (fun v w => renameOperation v = .ok w) vs ws) :
    ∀ w ∈ ws, Py.hashable w = true := by
  induction h with
  | nil => simp
  | cons hvw _ ih => exact List.forall_mem_cons.2 ⟨hashable_renamed hvw, ih⟩

theorem dedupe_asks (seen vs : List PyValue) :
    Asks (Need.check b) (dedupe b seen vs) (vs.map .hashable) := by
  induction vs generalizing seen with
  | nil => exact asks_ok []
  | cons v vs ih =>
    unfold dedupe
    by_cases hv : Py.hashable v = true
    · rw [hv]
      simp only [Bool.not_true, Bool.false_eq_true, if_false]
      split
      · exact Asks.cons_met (ih seen) (if_pos hv)
      · exact Asks.cons_met (asks_map (ih _)) (if_pos hv)
    · have hunmet : Need.check b (.hashable v) = .error .typeError := if_neg hv
      rw [Bool.not_eq_true] at hv
      rw [hv]
      exact asks_stop hunmet

theorem migrateBoundIntent_asks (d : PyDict) (schemaVersion : ℤ) :
    Asks (Need.check b) (migrateBoundIntent b (.dict d) schemaVersion {})
      (boundNeeds schemaVersion d) := by
  simp only [migrateBoundIntent, get_dict, ok_bind]
  refine asks_cons (asks_items _) fun operations hoperations => ?_
  simp only [itemsOf_eq hoperations]
  refine asks_bind (asks_each fun v _ => renameOperation_asks v) fun renamed hrenamed => ?_
  -- what is renamed can be hashed, so nothing new is asked
  have hhashable : ∀ n ∈ renamed.map Need.hashable, Need.check b n = .ok () := by
    intro n hn
    obtain ⟨w, hw, rfl⟩ := List.mem_map.1 hn
    exact if_pos (hashable_all (Effectful.mapM_eq_ok_iff.1 hrenamed) w hw)
  have hdedupe := Asks.drop_met (A := []) (dedupe_asks (b := b) [] renamed) hhashable
  refine asks_pass hdedupe fun normalized _ => ?_
  refine asks_cons (asks_items _) fun scopes hscopes => ?_
  rw [itemsOf_eq hscopes]
  have hrest : ∀ scopes : List PyValue, Asks (Need.check b) (do
      let subjects ← Py.items (look d "subjects" (.list ({} : ExecutionEnvelope).subjects))
      let purposes ← Py.items (look d "purposes" (.list ({} : ExecutionEnvelope).purposes))
      let authorities ← Py.items (look d "authorities" (.list ({} : ExecutionEnvelope).authorities))
      let constraints ← Py.items (look d "constraints" (.list ({} : ExecutionEnvelope).constraints))
      return (⟨subjects, normalized, scopes, purposes, authorities, constraints⟩ :
        ExecutionEnvelope))
      [.iterable (look d "subjects" (.list ({} : ExecutionEnvelope).subjects)),
        .iterable (look d "purposes" (.list ({} : ExecutionEnvelope).purposes)),
        .iterable (look d "authorities" (.list ({} : ExecutionEnvelope).authorities)),
        .iterable (look d "constraints" (.list ({} : ExecutionEnvelope).constraints))] := by
    intro scopes
    refine asks_cons (asks_items _) fun subjects _ => ?_
    refine asks_cons (asks_items _) fun purposes _ => ?_
    refine asks_cons (asks_items _) fun authorities _ => ?_
    exact asks_last (asks_items _) fun constraints _ => asks_ok _
  refine asks_ite (fun _ => ?_) fun _ => hrest scopes
  have hkeys := dedupe_asks (b := b) [] (scopes ++ [.str (lit "runtime_memory")])
  rw [List.map_append] at hkeys
  have hlast : ∀ n ∈ [PyValue.str (lit "runtime_memory")].map Need.hashable,
      Need.check b n = .ok () := by
    intro n hn
    rw [List.map_singleton, List.mem_singleton] at hn
    subst hn
    rfl
  exact asks_bind (hkeys.drop_met hlast) fun scopes _ => hrest scopes

theorem forMode_asks (mode authority : PyValue) :
    Asks (Need.check b) (GovernanceProfile.forMode mode authority) [.text mode] := by
  cases mode with
  | str t =>
    unfold GovernanceProfile.forMode
    dsimp only
    split_ifs <;> exact asks_one rfl
  | _ => exact asks_one rfl

theorem loadGovernance_asks (d : PyDict) :
    Asks (Need.check b) (loadGovernance (.dict d)) (governanceNeeds d) := by
  simp only [loadGovernance, get_dict, ok_bind]
  refine asks_cons (forMode_asks _ _) fun profile _ => ?_
  have hdenies : Asks (Need.check b)
      (Py.items (look d "hard_denies" (.list profile.hardDenies)))
      [.iterable (look d "hard_denies" (.list []))] := by
    refine asks_one ?_
    -- either default is a list
    unfold Need.check look
    cases PyValue.get? (lit "hard_denies") d <;> rfl
  exact asks_last hdenies fun denies _ => asks_ok _

/-! ### The ledger and the vitals -/

variable {fresh : Fresh} {arithmetic : VitalsArithmetic}

theorem revision_asks (data : PyValue) :
    Asks (Need.check b) (Revision.fromDict fresh data) [.keywords revisionParameters data] := by
  unfold Revision.fromDict
  exact asks_last (asks_one rfl) fun args _ => asks_ok _

theorem revision_reads {data : PyValue} {r : Revision} (h : Revision.fromDict fresh data = .ok r) :
    r.edges = look (membersOf data) "edges" (.list []) ∧
      r.continuityFlags = look (membersOf data) "continuity_flags" (.list []) := by
  unfold Revision.fromDict at h
  obtain ⟨args, hargs, hr⟩ := Effectful.bind_ok h
  have hdata : args = membersOf data := by
    unfold keywords at hargs
    cases data with
    | dict d =>
      dsimp only at hargs
      split at hargs <;> cases hargs
      rfl
    | _ => cases hargs
  cases hr
  rw [hdata]
  exact ⟨rfl, rfl⟩

theorem countEdges_asks {kinds : List String} {data : PyValue} {r : Revision}
    (h : Revision.fromDict fresh data = .ok r) :
    Asks (Need.check b) (countEdges kinds r) (edgeNeeds data) := by
  unfold countEdges edgeNeeds
  rw [(revision_reads h).1]
  refine asks_cons (asks_items _) fun edges hedges => ?_
  rw [itemsOf_eq hedges]
  refine asks_last (asks_each fun edge _ => asks_one ?_) fun types _ => asks_ok _
  cases edge <;> rfl

theorem flag_asks {data : PyValue} {r : Revision} (h : Revision.fromDict fresh data = .ok r) :
    Asks (Need.check b) (hasWord "REINTERPRETED" r.continuityFlags) [flagNeed data] := by
  unfold flagNeed
  rw [(revision_reads h).2]
  refine asks_one ?_
  unfold Need.check
  cases look (membersOf data) "continuity_flags" (.list []) <;> rfl

theorem loadVitals_asks (d : PyDict) {raws : List PyValue} {revisions : List Revision}
    (h : raws.mapM (Revision.fromDict fresh) = .ok revisions) :
    Asks (Need.check b) (loadVitals ⟨fresh, computeVitals arithmetic⟩ (.dict d) revisions)
      (vitalsNeeds d raws) := by
  unfold loadVitals vitalsNeeds
  dsimp only
  cases PyValue.get? (lit "vitals") d with
  | some data => exact asks_last (asks_one rfl) fun args _ => asks_ok _
  | none =>
    have hread := Effectful.mapM_eq_ok_iff.1 h
    unfold computeVitals
    cases hread with
    | nil => exact asks_ok _
    | cons hfirst hrest =>
      have hall := Effectful.mapM_eq_ok_iff.1 h
      refine asks_bind (asks_mapM_of hall fun _ _ => countEdges_asks) fun contradictions _ => ?_
      refine asks_bind (asks_mapM_of hall fun _ _ => countEdges_asks) fun reconciliations _ => ?_
      rw [List.map_eq_flatMap]
      exact asks_last (asks_mapM_of hall fun _ _ => flag_asks) fun flags _ => asks_ok _

/-! ### The payload -/

theorem asks_object {α : Type} {m : PyValue → Py α} {needs : PyDict → List Need}
    (hdict : ∀ d, Asks (Need.check b) (m (.dict d)) (needs d))
    (hother : ∀ v, Py.isDict v = false → m v = .error .attributeError) (v : PyValue) :
    Asks (Need.check b) (m v) (.object v :: needs (membersOf v)) := by
  by_cases hv : Py.isDict v = true
  · obtain ⟨d, rfl⟩ := dict_of_isDict hv
    exact Asks.cons_met (hdict d) rfl
  · rw [Bool.not_eq_true] at hv
    rw [hother v hv]
    refine asks_stop (e := PyRaised.attributeError) ?_
    cases v with
    | dict d => cases hv
    | _ => rfl

theorem working_asks (v : PyValue) :
    Asks (Need.check b) (loadWorking b v) (.object v :: workingNeeds (membersOf v)) := by
  refine asks_object loadWorking_asks (fun v hv => ?_) v
  cases v with
  | dict d => cases hv
  | _ => rfl

theorem bound_asks (v : PyValue) (schemaVersion : ℤ) :
    Asks (Need.check b) (migrateBoundIntent b v schemaVersion {})
      (.object v :: boundNeeds schemaVersion (membersOf v)) := by
  refine asks_object (m := fun v => migrateBoundIntent b v schemaVersion {})
    (fun d => migrateBoundIntent_asks d schemaVersion) (fun v hv => ?_) v
  cases v with
  | dict d => cases hv
  | _ => rfl

theorem governance_asks (v : PyValue) :
    Asks (Need.check b) (loadGovernance v) (.object v :: governanceNeeds (membersOf v)) := by
  refine asks_object loadGovernance_asks (fun v hv => ?_) v
  cases v with
  | dict d => cases hv
  | _ => rfl

theorem loadExecutionMode_asks (d : PyDict) :
    Asks (Need.check b) (loadExecutionMode (.dict d)) [] := by
  simp only [loadExecutionMode, get_dict, ok_bind]
  exact asks_ok _

theorem asks_part {α γ : Type} {m : Py α} {f : α → Py γ} {A : List Need} {parts : List (List Need)}
    (hm : Asks (Need.check b) m A)
    (hf : ∀ a, m = .ok a → Asks (Need.check b) (f a) parts.flatten) :
    Asks (Need.check b) (m >>= f) (A :: parts).flatten := asks_bind hm hf

/-- **`from_dict` meets the needs of its payload in order.** -/
theorem fromDict_asks (payload : PyValue) :
    Asks (Need.check b) (RuntimeState.fromDict b ⟨fresh, computeVitals arithmetic⟩ payload)
      (payloadNeeds b payload) := by
  cases payload with
  | dict d =>
    refine Asks.cons_met ?_ rfl
    simp only [RuntimeState.fromDict, get_dict, ok_bind, orEmpty_eq, membersOf_dict]
    refine asks_part (asks_int _) fun version hversion => ?_
    refine asks_part (loadIdentity_asks _) fun identity _ => ?_
    refine asks_part (working_asks _) fun working _ => ?_
    refine asks_part (loadSignal_asks _) fun signal _ => ?_
    refine asks_part (loadMemory_asks _) fun memory _ => ?_
    rw [hversion]
    refine asks_part (bound_asks _ version) fun boundIntent _ => ?_
    refine asks_part (governance_asks _) fun governance _ => ?_
    refine asks_part (asks_int _) fun tickCount _ => ?_
    refine asks_part (asks_items _) fun raws hraws => ?_
    rw [itemsOf_eq hraws]
    refine asks_part (asks_each fun raw _ => revision_asks raw) fun ledger hledger => ?_
    refine asks_part (loadVitals_asks d hledger) fun vitals _ => ?_
    refine asks_pass (loadExecutionMode_asks d) fun executionMode _ => ?_
    refine asks_part (asks_coerceFloat _ _) fun initial _ => ?_
    refine asks_part (asks_coerceFloat _ _) fun remaining _ => ?_
    refine asks_part (asks_coerceFloat _ _) fun consumed _ => ?_
    refine asks_part (asks_int _) fun successes _ => ?_
    refine asks_pass (asks_optional_str _) fun reason _ => ?_
    refine asks_part (asks_optionalFloat _) fun killswitchAt _ => ?_
    refine asks_part (asks_dict _) fun healthMetrics _ => ?_
    refine asks_part (asks_optionalFloat _) fun lastActivityAt _ => ?_
    exact asks_ok _
  | _ => exact asks_stop rfl

end ClawHarder.RuntimeCore
