import ClawHarder.Proof.StateNeeds
import ClawHarder.Proof.StateRoundTrip

/-!
# When a load raises

A need escapes when its conversion raises what `load` does not catch: `get` or `lower`
of another type, a key that is not there, a number beyond a float or an integer.

* `excused_iff`: `from_dict` raises only what is caught, as far as nothing escapes first.
* `load_raises_iff`: **a load raises nothing just in case, in each file that is read,
  every need that escapes stands behind one that fails and is caught.**
-/

namespace ClawHarder.RuntimeCore

open PyText (lit)
open Demand

/-- The needs whose exception `load` does not catch. -/
def Need.Escapes (b : PyBuiltins) : Need → Prop
  | .object v => Py.isDict v = false
  | .item v key => ∃ members, v = .dict members ∧ PyValue.get? (lit key) members = none
  -- an infinity
  | .int v => ∃ r, v = .float r ∧ b.intOfFloat r = .error .overflowError
  -- an integer beyond a float
  | .float v => ∃ n, v = .int n ∧ b.float v = .error .overflowError
  | .text v => v.asStr? = none
  | _ => False

/-- The needs that fail with an exception that `load` catches. -/
def Need.IsCaught (b : PyBuiltins) (n : Need) : Prop := n.check b ≠ .ok () ∧ ¬ n.Escapes b

/-- Every need that escapes stands behind one that fails and is caught. -/
def Excused (b : PyBuiltins) (needs : List Need) : Prop :=
  ∀ before n after, needs = before ++ n :: after → n.Escapes b →
    ∃ k ∈ before, k.IsCaught b

variable {b : PyBuiltins} {fresh : Fresh} {arithmetic : VitalsArithmetic}

/-- The exceptions of the builtins: a float overflows on an integer, an integer on an
infinity, and anything else raises `TypeError` or `ValueError`. -/
structure Documented (b : PyBuiltins) : Prop where
  float_raises : ∀ v e, b.float v = .error e →
    Caught e ∨ e = .overflowError ∧ ∃ n, v = .int n
  intOfFloat_raises : ∀ r e, b.intOfFloat r = .error e → Caught e ∨ e = .overflowError
  intOfText_raises : ∀ t e, b.intOfText t = .error e → Caught e
  dictOfPairs_raises : ∀ vs e, b.dictOfPairs vs = .error e → Caught e

theorem not_caught_overflow : ¬ Caught .overflowError := id

theorem not_caught_attribute : ¬ Caught .attributeError := id

theorem not_caught_key : ¬ Caught .keyError := id

theorem not_misses {n : Need} (h : ∀ e, n.check b = .error e → Caught e) :
    ¬ Misses (Need.check b) Caught n := by
  rintro ⟨e, hn, he⟩
  exact he (h e hn)

variable {v : PyValue} {e : PyRaised}

theorem dict_raises (hb : Documented b)
    (h : Py.dict b v = .error e) : Caught e := by
  cases v with
  | dict d => cases h
  | list vs => exact hb.dictOfPairs_raises vs e h
  | str t =>
    cases t with
    | nil => cases h
    | cons c t =>
      cases h
      trivial
  | _ =>
    cases h
    trivial

theorem items_raises (h : Py.items v = .error e) : Caught e := by
  cases v with
  | list vs => cases h
  | dict d => cases h
  | str t => cases h
  | _ =>
    cases h
    trivial

theorem keywords_raises {parameters : List String}
    (h : keywords parameters v = .error e) : Caught e := by
  unfold keywords at h
  cases v with
  | dict d =>
    dsimp only at h
    split at h
    · cases h
    · cases h
      trivial
  | _ =>
    cases h
    trivial

theorem hasWord_raises {word : String}
    (h : hasWord word v = .error e) : Caught e := by
  cases v with
  | list vs => cases h
  | dict d => cases h
  | str t => cases h
  | _ =>
    cases h
    trivial

/-- **What escapes, by the shape of the value.** -/
theorem escapes_iff (hb : Documented b) (n : Need) :
    Misses (Need.check b) Caught n ↔ n.Escapes b := by
  cases n with
  | object v =>
    cases v with
    | dict d =>
      refine iff_of_false (not_misses fun e h => ?_) (by simp [Need.Escapes, Py.isDict])
      cases h
    | _ => exact iff_of_true ⟨.attributeError, rfl, not_caught_attribute⟩ rfl
  | item v key =>
    cases v with
    | dict d =>
      cases hget : PyValue.get? (lit key) d with
      | none =>
        refine iff_of_true ⟨.keyError, ?_, not_caught_key⟩ ⟨d, rfl, hget⟩
        simp [Need.check, Py.item, hget]
      | some w =>
        refine iff_of_false (not_misses fun e h => ?_) ?_
        · simp [Need.check, Py.item, hget] at h
        · rintro ⟨members, heq, hnone⟩
          cases heq
          rw [hget] at hnone
          cases hnone
    | _ =>
      refine iff_of_false (not_misses fun e h => ?_) ?_
      · cases h
        trivial
      · rintro ⟨members, heq, -⟩
        cases heq
  | int v =>
    constructor
    · rintro ⟨e, hn, he⟩
      have hraise := erase_eq_error.1 hn
      cases v with
      | float r =>
        rcases hb.intOfFloat_raises r e hraise with hcaught | rfl
        · exact absurd hcaught he
        · exact ⟨r, rfl, hraise⟩
      | str t => exact absurd (hb.intOfText_raises t e hraise) he
      | bool x => cases hraise
      | int n => cases hraise
      | _ =>
        cases hraise
        exact absurd trivial he
    · rintro ⟨r, rfl, hraise⟩
      exact ⟨.overflowError, erase_eq_error.2 hraise, not_caught_overflow⟩
  | float v =>
    constructor
    · rintro ⟨e, hn, he⟩
      have hraise := erase_eq_error.1 hn
      rcases hb.float_raises v e hraise with hcaught | ⟨rfl, n, rfl⟩
      · exact absurd hcaught he
      · exact ⟨n, rfl, hraise⟩
    · rintro ⟨n, rfl, hraise⟩
      exact ⟨.overflowError, erase_eq_error.2 hraise, not_caught_overflow⟩
  | dict v => exact iff_of_false (not_misses fun e h => dict_raises hb (erase_eq_error.1 h)) id
  | iterable v => exact iff_of_false (not_misses fun e h => items_raises (erase_eq_error.1 h)) id
  | hashable v =>
    refine iff_of_false (not_misses fun e h => ?_) id
    cases hv : Py.hashable v with
    | true => simp [Need.check, hv] at h
    | false =>
      simp [Need.check, hv] at h
      subst h
      trivial
  | text v =>
    cases v with
    | str t =>
      refine iff_of_false (not_misses fun e h => ?_) (by simp [Need.Escapes, PyValue.asStr?])
      cases h
    | _ => exact iff_of_true ⟨.attributeError, rfl, not_caught_attribute⟩ rfl
  | keywords parameters v =>
    exact iff_of_false (not_misses fun e h => keywords_raises (erase_eq_error.1 h)) id
  | container v =>
    exact iff_of_false (not_misses fun e h => hasWord_raises (erase_eq_error.1 h)) id

theorem isCaught_iff (hb : Documented b) (n : Need) :
    Falls (Need.check b) Caught n ↔ n.IsCaught b := by
  unfold Need.IsCaught
  rw [← escapes_iff hb]
  cases hn : n.check b with
  | ok u =>
    refine iff_of_false ?_ (fun h => h.1 rfl)
    rintro ⟨e, he, -⟩
    rw [hn] at he
    cases he
  | error e =>
    constructor
    · rintro ⟨e', he', hcaught⟩
      refine ⟨by simp, not_misses fun e₂ he₂ => ?_⟩
      rw [he'] at he₂
      cases he₂
      exact hcaught
    · rintro ⟨-, hmiss⟩
      by_contra hfall
      refine hmiss ⟨e, hn, fun hcaught => hfall ⟨e, hn, hcaught⟩⟩

theorem excused_iff (fresh : Fresh) (arithmetic : VitalsArithmetic) (hb : Documented b)
    (payload : PyValue) :
    (∀ e, RuntimeState.fromDict b ⟨fresh, computeVitals arithmetic⟩ payload = .error e → Caught e) ↔
      Excused b (payloadNeeds b payload) := by
  rw [(fromDict_asks payload).caught_iff]
  simp only [escapes_iff hb, isCaught_iff hb]
  rfl

variable {β : Type}

/-- A file that `load` can read: `json.loads` raises nothing that is not caught, and every
need of the payload that escapes stands behind one that fails and is caught. -/
structure Loads (b : PyBuiltins) (parse : List β → Parsed) (text : List β) : Prop where
  parses : parse text ≠ .escaped
  excused : ∀ payload, parse text = .value payload → Excused b (payloadNeeds b payload)

/-- A file that `load` gives up for the backup: one that is not JSON, or a payload with a
need that fails. -/
def FallsBack (b : PyBuiltins) (parse : List β → Parsed) (text : List β) : Prop :=
  parse text = .caught ∨
    ∃ payload, parse text = .value payload ∧ ∃ n ∈ payloadNeeds b payload, n.check b ≠ .ok ()

variable {parse : List β → Parsed}

theorem decode_escaped_iff (fresh : Fresh) (arithmetic : VitalsArithmetic) (hb : Documented b)
    (text : List β) :
    decode b fresh arithmetic parse text ≠ .escaped ↔ Loads b parse text := by
  unfold decode
  cases hparse : parse text with
  | caught =>
    refine iff_of_true (by simp) ⟨by simp [hparse], fun payload h => ?_⟩
    rw [hparse] at h
    cases h
  | escaped => exact iff_of_false (by simp) fun h => h.parses hparse
  | value payload =>
    have hexcused := excused_iff fresh arithmetic hb payload
    have hloads : Loads b parse text ↔ Excused b (payloadNeeds b payload) := by
      constructor
      · exact fun h => h.excused payload hparse
      · intro h
        refine ⟨by simp [hparse], fun p hp => ?_⟩
        rw [hparse] at hp
        cases hp
        exact h
    rw [hloads, ← hexcused]
    dsimp only
    cases RuntimeState.fromDict b ⟨fresh, computeVitals arithmetic⟩ payload with
    | ok s => exact iff_of_true (by simp) (by simp)
    | error e => by_cases he : Caught e <;> simp [he]

theorem decode_caught_iff {text : List β} (h : Loads b parse text) (hb : Documented b) :
    decode b fresh arithmetic parse text = .caught ↔ FallsBack b parse text := by
  have hnot := (decode_escaped_iff fresh arithmetic hb text).2 h
  unfold decode at hnot ⊢
  unfold FallsBack
  cases hparse : parse text with
  | caught => simp
  | escaped => exact absurd hparse h.parses
  | value payload =>
    rw [hparse] at hnot
    dsimp only at hnot ⊢
    have hasks : Asks (Need.check b)
        (RuntimeState.fromDict b ⟨fresh, computeVitals arithmetic⟩ payload)
        (payloadNeeds b payload) := fromDict_asks payload
    simp only [reduceCtorEq, Parsed.value.injEq, exists_eq_left', false_or]
    cases hfrom : RuntimeState.fromDict b ⟨fresh, computeVitals arithmetic⟩ payload with
    | ok s =>
      rw [hfrom] at hasks
      have hall := checks_ok.1 hasks.symm
      refine iff_of_false (by simp) ?_
      rintro ⟨n, hn, hfail⟩
      exact hfail (hall n hn)
    | error e =>
      rw [hfrom] at hnot hasks
      have hcaught : Caught e := by
        by_contra he
        exact hnot (if_neg he)
      refine iff_of_true (if_pos hcaught) ?_
      obtain ⟨before, n, after, hsplit, -, hn⟩ := checks_raise.1 (Eq.symm hasks)
      refine ⟨n, ?_, ?_⟩
      · rw [hsplit]
        exact List.mem_append_right before List.mem_cons_self
      · rw [hn]
        simp

/-- **A load raises nothing just in case, in each file that is read, every need that
escapes stands behind one that fails and is caught.** -/
theorem load_raises_iff (b : PyBuiltins) (hb : Documented b) (fresh : Fresh)
    (arithmetic : VitalsArithmetic) (parse : List β → Parsed) (f : Runtime.StateFiles β) :
    RuntimeState.load b fresh arithmetic parse f ≠ .raised ↔
      ∀ text, f.main = some text → Loads b parse text ∧
        (FallsBack b parse text → ∀ copy, f.backup = some copy → Loads b parse copy) := by
  unfold RuntimeState.load Runtime.StateFiles.load
  cases f.main with
  | none => exact iff_of_true (by simp) (by simp)
  | some text =>
    simp only [Option.some.injEq, forall_eq']
    rw [← decode_escaped_iff fresh arithmetic hb text]
    cases hdecode : decode b fresh arithmetic parse text with
    | state s =>
      have hnot : decode b fresh arithmetic parse text ≠ .escaped := by simp [hdecode]
      have hloads := (decode_escaped_iff fresh arithmetic hb text).1 hnot
      refine iff_of_true (by simp) ⟨by simp, fun hfalls => ?_⟩
      have hcaught : decode b fresh arithmetic parse text = .caught :=
        (decode_caught_iff hloads hb).2 hfalls
      rw [hdecode] at hcaught
      cases hcaught
    | escaped => simp
    | caught =>
      have hnot : decode b fresh arithmetic parse text ≠ .escaped := by simp [hdecode]
      have hloads := (decode_escaped_iff fresh arithmetic hb text).1 hnot
      have hfalls := (decode_caught_iff hloads hb).1 hdecode
      unfold Runtime.StateFiles.loadBackup
      cases f.backup with
      | none => exact iff_of_true (by simp) ⟨by simp, by simp⟩
      | some copy =>
        simp only [Option.some.injEq, forall_eq']
        rw [← decode_escaped_iff fresh arithmetic hb copy]
        cases hcopy : decode b fresh arithmetic parse copy <;> simp [hfalls]

theorem documented_plain : Documented plainBuiltins where
  float_raises v e h := by
    left
    cases v <;> cases h <;> trivial
  intOfFloat_raises r e h := by
    cases h
    exact Or.inl trivial
  intOfText_raises t e h := by
    cases h
    trivial
  dictOfPairs_raises vs e h := by
    simp only [plainBuiltins] at h
    split at h
    · cases h
    · cases h
      trivial

/-- The bytes of a state file whose `working` is a list. -/
def listedBytes : List UInt8 := "\x7b\"working\": []\x7d".toUTF8.toList

/-- `json.loads`, of that file. -/
def listedParse (text : List UInt8) : Parsed :=
  if text = listedBytes then .value (.dict [entry "working" (.list [])]) else .caught

def listedFiles : Runtime.StateFiles UInt8 := ⟨some listedBytes, none, none⟩

theorem listed_raises_iff :
    RuntimeState.load plainBuiltins plainEngines.fresh (fun _ _ _ _ => {}) listedParse
        listedFiles ≠ .raised ↔
      ∀ text, listedFiles.main = some text → Loads plainBuiltins listedParse text ∧
        (FallsBack plainBuiltins listedParse text →
          ∀ copy, listedFiles.backup = some copy → Loads plainBuiltins listedParse copy) :=
  load_raises_iff plainBuiltins documented_plain plainEngines.fresh (fun _ _ _ _ => {})
    listedParse listedFiles

theorem listed_raises :
    RuntimeState.load plainBuiltins plainEngines.fresh (fun _ _ _ _ => {}) listedParse
      listedFiles = .raised := by
  have hparse : listedParse listedBytes = .value (.dict [entry "working" (.list [])]) :=
    if_pos rfl
  have hfrom : RuntimeState.fromDict plainBuiltins
      ⟨plainEngines.fresh, computeVitals fun _ _ _ _ => {}⟩
      (.dict [entry "working" (.list [])]) = .error .attributeError := by
    rfl
  have hdecode : decode plainBuiltins plainEngines.fresh (fun _ _ _ _ => {}) listedParse
      listedBytes = .escaped := by
    unfold decode
    rw [hparse]
    simp only [hfrom]
    rfl
  unfold RuntimeState.load Runtime.StateFiles.load listedFiles
  simp only [hdecode]

end ClawHarder.RuntimeCore
