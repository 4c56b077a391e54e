import ClawHarder.Lib.Effectful
import ClawHarder.Lib.Run
import ClawHarder.Proof.StateRoundTrip
import ClawHarder.Spec.Trajectory
import Mathlib.Data.List.Dedup

/-!
# The trajectory and the replay

The trajectory skips a Boolean and what is no number, where the replay takes the one for
0.0 or 1.0 and raises at the other; it reads no factor from a text; and it raises at a
timestamp, where the replay raises at events that the trajectory does not look at.

* `agrees_step`: the two folds agree after an event just in case they read it alike.
* `last_state_iff`: **the last state of the trajectory is that of the replay, for a log
  and its initial parts, just in case every event is read alike.**
-/

namespace OrderedMap

variable {K V : Type*} [DecidableEq K] {m m' : OrderedMap K V} {k : K}

theorem keys_set_of_mem (v : V) (h : k ∈ m.keys) : (m.set k v).keys = m.keys := by
  unfold keys at h ⊢
  unfold set
  rw [dif_pos h]
  exact replace_keys k v m.entries

theorem ext_get? (hkeys : m.keys = m'.keys) (h : ∀ k, m.get? k = m'.get? k) : m = m' := by
  have hlen : m.entries.length = m'.entries.length := by
    have := congrArg List.length hkeys
    simpa [keys] using this
  apply OrderedMap.ext
  refine List.ext_getElem hlen ?_
  intro i hi hi'
  have hfst : (m.entries[i]).1 = (m'.entries[i]).1 := by
    have hi'' : m.keys[i]? = m'.keys[i]? := by rw [hkeys]
    simpa [keys, hi, hi'] using hi''
  have hget : m.get? (m.entries[i]).1 = some (m.entries[i]).2 :=
    get?_eq_some.2 (List.getElem_mem hi)
  have hget' : m'.get? (m'.entries[i]).1 = some (m'.entries[i]).2 :=
    get?_eq_some.2 (List.getElem_mem hi')
  rw [h, hfst, hget'] at hget
  exact Prod.ext hfst (Option.some.inj hget).symm

end OrderedMap

namespace ClawHarder.Truth

open PyText (lit)
open RuntimeCore (plainBuiltins)

variable {H : AffectHost} {d : PyDict} {s s' : SignalState} {names : List PyText}

def coreNames : List PyText := defaultCore.map Prod.fst

def shiftAll (H : AffectHost) (value : PyText → PyText) (names : List PyText) (s : SignalState) :
    SignalState :=
  names.foldl (fun s name => s.shift H name (value name)) s

theorem keys_shift {name delta : PyText} (h : name ∈ s.core.keys) :
    (s.shift H name delta).core.keys = s.core.keys :=
  OrderedMap.keys_set_of_mem _ h

variable {value : PyText → PyText}

theorem keys_shiftAll (h : ∀ name ∈ names, name ∈ s.core.keys) :
    (shiftAll H value names s).core.keys = s.core.keys := by
  induction names generalizing s with
  | nil => rfl
  | cons name names ih =>
    have hkeys : (s.shift H name (value name)).core.keys = s.core.keys :=
      keys_shift (h name List.mem_cons_self)
    have hrest : ∀ n ∈ names, n ∈ (s.shift H name (value name)).core.keys := by
      intro n hn
      rw [hkeys]
      exact h n (List.mem_cons_of_mem _ hn)
    exact (ih hrest).trans hkeys

/-- **Each name is shifted once, whatever the order.** -/
theorem get?_shiftAll (hnd : names.Nodup) (k : PyText) :
    (shiftAll H value names s).core.get? k =
      if k ∈ names then some (H.shifted (s.level k) (value k)) else s.core.get? k := by
  induction names generalizing s with
  | nil => rfl
  | cons name names ih =>
    obtain ⟨hname, hnd⟩ := List.nodup_cons.1 hnd
    have hstep : ∀ k, (s.shift H name (value name)).core.get? k =
        if k = name then some (H.shifted (s.level name) (value name)) else s.core.get? k :=
      OrderedMap.get?_set s.core name _
    refine (ih hnd).trans ?_
    by_cases hk : k = name
    · rw [hk, if_neg hname, if_pos List.mem_cons_self, hstep, if_pos rfl]
    · have hlevel : (s.shift H name (value name)).level k = s.level k := by
        unfold SignalState.level
        rw [hstep, if_neg hk]
      rw [hlevel, hstep, if_neg hk]
      simp only [List.mem_cons, hk, false_or]

theorem shiftAll_trace (value : PyText → PyText) :
    (shiftAll H value names s).trace.length = s.trace.length + names.length := by
  induction names generalizing s with
  | nil => rfl
  | cons name names ih =>
    refine ih.trans ?_
    simp only [SignalState.shift, List.length_append, List.length_cons, List.length_nil]
    omega

theorem shiftAll_rest (H : AffectHost) (s : SignalState) (names : List PyText)
    (value : PyText → PyText) :
    (shiftAll H value names s).valence = s.valence ∧
      (shiftAll H value names s).arousal = s.arousal ∧
      (shiftAll H value names s).instability = s.instability := by
  induction names generalizing s with
  | nil => exact ⟨rfl, rfl, rfl⟩
  | cons name names ih => exact ih _

structure Alike (s s' : SignalState) : Prop where
  core : s.core = s'.core
  valence : s.valence = s'.valence
  arousal : s.arousal = s'.arousal
  instability : s.instability = s'.instability
  trace : s.trace.length = s'.trace.length

theorem snapshot_eq_iff (hkeys : s.core.keys = s'.core.keys) :
    s.snapshot H = s'.snapshot H ↔ Alike s s' := by
  constructor
  · intro h
    have hcore := congrArg Snapshot.core h
    simp only [SignalState.snapshot, hkeys] at hcore
    have hlevel : ∀ k ∈ s'.core.keys, s.level k = s'.level k := by
      intro k hk
      have hmem := List.map_inj_left.1 hcore k ((List.mem_insertionSort _).2 hk)
      exact (Prod.mk.inj hmem).2
    have hget : ∀ k, s.core.get? k = s'.core.get? k := by
      intro k
      by_cases hk : k ∈ s'.core.keys
      · obtain ⟨v, hv⟩ := OrderedMap.mem_keys.1 (hkeys ▸ hk)
        obtain ⟨v', hv'⟩ := OrderedMap.mem_keys.1 hk
        have hl := hlevel k hk
        unfold SignalState.level at hl
        rw [hv, hv'] at hl
        rw [hv, hv']
        exact congrArg some hl
      · rw [OrderedMap.get?_eq_none.2 hk, OrderedMap.get?_eq_none.2 (hkeys ▸ hk)]
    exact ⟨OrderedMap.ext_get? hkeys hget, congrArg Snapshot.valence h, congrArg Snapshot.arousal h,
      congrArg Snapshot.instability h, congrArg Snapshot.traceLen h⟩
  · intro h
    have hlevel : ∀ k, s.level k = s'.level k := by
      intro k
      unfold SignalState.level
      rw [h.core]
    unfold SignalState.snapshot SignalState.stage
    simp only [h.core, h.valence, h.arousal, h.instability, h.trace, hlevel]

theorem alike_shiftAll {names' : List PyText} (h : Alike s s')
    (hperm : names.Perm names') (hnd : names.Nodup) (hnames : ∀ name ∈ names, name ∈ s.core.keys) :
    Alike (shiftAll H value names s) (shiftAll H value names' s') := by
  have hrest := shiftAll_rest H s names value
  have hrest' := shiftAll_rest H s' names' value
  have hkeys' : (shiftAll H value names' s').core.keys = s'.core.keys := by
    refine keys_shiftAll ?_
    intro name hname
    rw [← h.core]
    exact hnames name (hperm.mem_iff.2 hname)
  refine ⟨OrderedMap.ext_get? ?_ ?_, ?_, ?_, ?_, ?_⟩
  · rw [keys_shiftAll hnames, hkeys', h.core]
  · intro k
    have hlevel : s.level k = s'.level k := by
      unfold SignalState.level
      rw [h.core]
    rw [get?_shiftAll hnd, get?_shiftAll (hperm.nodup_iff.1 hnd), hlevel, h.core]
    simp only [hperm.mem_iff]
  · rw [hrest.1, hrest'.1, h.valence]
  · rw [hrest.2.1, hrest'.2.1, h.arousal]
  · rw [hrest.2.2, hrest'.2.2, h.instability]
  · rw [shiftAll_trace, shiftAll_trace, h.trace, hperm.length_eq]

/-- `float(details[name])` -/
def fieldFloat (H : AffectHost) (d : PyDict) (name : PyText) : Py PyText :=
  H.builtins.float ((PyValue.get? name d).getD .none)

def fieldValue (H : AffectHost) (d : PyDict) (name : PyText) : PyText :=
  (fieldFloat H d name).toOption.getD []

/-- `isinstance(details[name], bool)` -/
def isFlag (d : PyDict) (name : PyText) : Bool :=
  ((PyValue.get? name d).getD .none).asBool?.isSome

def Readable (H : AffectHost) (d : PyDict) (names : List PyText) : Prop :=
  ∀ name ∈ names, name ∈ coreNames → ∃ v, fieldFloat H d name = .ok v

theorem fieldFloat_eq {name v : PyText} (h : fieldFloat H d name = .ok v) :
    fieldValue H d name = v := by
  unfold fieldValue
  rw [h]
  rfl

theorem readable_cons {name : PyText} : Readable H d (name :: names) ↔
    (name ∈ coreNames → ∃ v, fieldFloat H d name = .ok v) ∧ Readable H d names :=
  List.forall_mem_cons

theorem contains_core (hkeys : s.core.keys = coreNames) (name : PyText) :
    s.core.contains name = decide (name ∈ coreNames) := by
  have hiff : s.core.contains name = true ↔ name ∈ coreNames := by
    rw [OrderedMap.contains_iff, ← OrderedMap.mem_keys, hkeys]
  by_cases h : name ∈ coreNames
  · rw [hiff.2 h, decide_eq_true h]
  · rw [decide_eq_false h, Bool.eq_false_iff]
    exact fun hc => h (hiff.1 hc)

/-- **The replay shifts by every field of the core, and raises if one is unreadable.** -/
theorem replayShift_ok (hkeys : s.core.keys = coreNames) :
    replayShift H d names s = .ok s' ↔
      Readable H d names ∧ s' = shiftAll H (fieldValue H d) (names.filter (· ∈ coreNames)) s := by
  induction names generalizing s with
  | nil =>
    constructor
    · rintro ⟨⟩
      exact ⟨by rintro name ⟨⟩, rfl⟩
    · rintro ⟨-, rfl⟩
      rfl
  | cons name names ih =>
    rw [replayShift, contains_core hkeys, readable_cons]
    by_cases hname : name ∈ coreNames
    · have hnext : (s.shift H name (fieldValue H d name)).core.keys = coreNames :=
        (keys_shift (hkeys ▸ hname)).trans hkeys
      rw [if_pos (decide_eq_true hname), List.filter_cons_of_pos (by simpa using hname)]
      change (fieldFloat H d name >>= fun v => replayShift H d names (s.shift H name v)) = _ ↔ _
      cases hv : fieldFloat H d name with
      | error e =>
        refine iff_of_false (by rintro ⟨⟩) ?_
        rintro ⟨⟨hread, -⟩, -⟩
        obtain ⟨v, hv'⟩ := hread hname
        cases hv'
      | ok v =>
        rw [fieldFloat_eq hv] at hnext
        refine (ih hnext).trans (and_congr ?_ ?_)
        · exact (and_iff_right fun _ => ⟨v, rfl⟩).symm
        · unfold shiftAll
          rw [List.foldl_cons, fieldFloat_eq hv]
    · rw [decide_eq_false hname, if_neg Bool.false_ne_true,
        List.filter_cons_of_neg (by simpa using hname), ih hkeys]
      exact and_congr_left fun _ => (and_iff_right fun h => absurd h hname).symm

theorem shiftValue_of_ok {v : PyValue} {t : PyText} (h : H.builtins.float v = .ok t) :
    shiftValue H v = .ok (if v.asBool?.isSome then none else some t) := by
  cases v <;> simp only [shiftValue, h] <;> rfl

/-- **The trajectory shifts by the readable fields of the core that are no Booleans.** -/
theorem trajectoryShift_of_readable (hkeys : s.core.keys = coreNames) (hread : Readable H d names)
    (delta : List (PyText × PyText)) :
    trajectoryShift H d names (s, delta) =
      .ok (shiftAll H (fieldValue H d) (names.filter fun n => n ∈ coreNames ∧ !isFlag d n) s,
        delta ++ (names.filter fun n => n ∈ coreNames ∧ !isFlag d n).map
          fun n => (n, fieldValue H d n)) := by
  induction names generalizing s delta with
  | nil =>
    rw [List.filter_nil, List.map_nil, List.append_nil]
    rfl
  | cons name names ih =>
    obtain ⟨hhead, hread⟩ := readable_cons.1 hread
    rw [trajectoryShift, contains_core hkeys]
    by_cases hname : name ∈ coreNames
    · obtain ⟨v, hv⟩ := hhead hname
      have hbool : ((PyValue.get? name d).getD .none).asBool?.isSome = isFlag d name := rfl
      rw [if_pos (decide_eq_true hname), shiftValue_of_ok hv, hbool]
      cases hflag : isFlag d name with
      | true =>
        rw [if_pos rfl, List.filter_cons_of_neg (by simp [hflag])]
        exact ih hkeys hread delta
      | false =>
        have hnext : (s.shift H name v).core.keys = coreNames :=
          (keys_shift (hkeys ▸ hname)).trans hkeys
        rw [if_neg Bool.false_ne_true, List.filter_cons_of_pos (by simp [hflag, hname])]
        refine (ih hnext hread _).trans ?_
        unfold shiftAll
        rw [List.foldl_cons, List.map_cons, fieldFloat_eq hv, List.append_assoc]
        rfl
    · rw [decide_eq_false hname, if_neg Bool.false_ne_true,
        List.filter_cons_of_neg (by simp [hname])]
      exact ih hkeys hread delta

/-- The signal of the trajectory after an event, and the delta of its point if it has one. -/
def eventDelta (H : AffectHost) (signal : SignalState) (event : PyDict) :
    Py (SignalState × Option (List (PyText × PyText))) :=
  match read event "details" (.dict []) with
  | .dict d => signalDelta H (H.str (read event "kind" (.str []))) d signal
  | _ => .ok (signal, none)

def signalStep (H : AffectHost) (signal : SignalState) (event : PyDict) : Py SignalState := do
  let (signal, delta) ← eventDelta H signal event
  match delta with
  | none => return signal
  | some _ =>
    let _ ← H.builtins.float (timestampOf event)
    return signal

/-- The state of the last point; that of a new signal where there is none. -/
def lastState (H : AffectHost) (points : List TrajectoryPoint) : Snapshot :=
  (points.getLast?.map (·.state)).getD (SignalState.new.snapshot H)

theorem trajectoryShift_keeps {delta delta' : List (PyText × PyText)}
    (h : trajectoryShift H d names (s, delta) = .ok (s', delta')) :
    s'.core.keys = s.core.keys ∧ delta.length ≤ delta'.length ∧
      (delta'.length = delta.length → s' = s) := by
  induction names generalizing s delta with
  | nil =>
    cases h
    exact ⟨rfl, le_rfl, fun _ => rfl⟩
  | cons name names ih =>
    rw [trajectoryShift] at h
    by_cases hname : s.core.contains name = true
    · rw [if_pos hname] at h
      cases hv : shiftValue H ((PyValue.get? name d).getD .none) with
      | error e =>
        rw [hv] at h
        cases h
      | ok o =>
        rw [hv] at h
        cases o with
        | none => exact ih h
        | some v =>
          obtain ⟨hkeys, hle, -⟩ := ih h
          have hmem : name ∈ s.core.keys := OrderedMap.mem_keys.2 (OrderedMap.contains_iff.1 hname)
          rw [List.length_append, List.length_singleton] at hle
          refine ⟨hkeys.trans (keys_shift hmem), by omega, ?_⟩
          intro hlen
          omega
    · rw [if_neg hname] at h
      exact ih h

theorem keys_decay (factor : PyText) : (s.decay H factor).core.keys = s.core.keys := by
  have hfold : ∀ (es : List (PyText × PyText)) (m : OrderedMap PyText PyText),
      (∀ e ∈ es, e.1 ∈ m.keys) →
      (es.foldl (fun m e => m.set e.1 (H.decayed e.2 factor)) m).keys = m.keys := by
    intro es
    induction es with
    | nil => intro m _; rfl
    | cons e es ih =>
      intro m hes
      have hset : (m.set e.1 (H.decayed e.2 factor)).keys = m.keys :=
        OrderedMap.keys_set_of_mem _ (hes e List.mem_cons_self)
      refine (ih _ ?_).trans hset
      intro e' he'
      rw [hset]
      exact hes e' (List.mem_cons_of_mem _ he')
  exact hfold s.core.entries s.core fun e he => List.mem_map_of_mem he

theorem signalDelta_keeps {kind : PyText} {delta : Option (List (PyText × PyText))}
    (h : signalDelta H kind d s = .ok (s', delta)) :
    s'.core.keys = s.core.keys ∧ (delta = none → s' = s) := by
  unfold signalDelta at h
  split_ifs at h with hshift hdecay
  · cases hloop : trajectoryShift H d (sortedKeys d) (s, []) with
    | error e =>
      rw [hloop] at h
      cases h
    | ok r =>
      rw [hloop] at h
      cases h
      obtain ⟨hkeys, -, hsame⟩ := trajectoryShift_keeps hloop
      refine ⟨hkeys, ?_⟩
      intro hnone
      refine hsame ?_
      cases hd : r.2 with
      | nil => rfl
      | cons a l =>
        rw [hd] at hnone
        cases hnone
  · cases hf : decayFactor H d with
    | error e =>
      rw [hf] at h
      cases h
    | ok f =>
      rw [hf] at h
      cases h
      exact ⟨keys_decay f, by rintro ⟨⟩⟩
  · cases h
    exact ⟨rfl, fun _ => rfl⟩

variable {e : PyDict}

theorem eventDelta_keeps {delta : Option (List (PyText × PyText))}
    (h : eventDelta H s e = .ok (s', delta)) :
    s'.core.keys = s.core.keys ∧ (delta = none → s' = s) := by
  unfold eventDelta at h
  split at h
  · exact signalDelta_keeps h
  · cases h
    exact ⟨rfl, fun _ => rfl⟩

theorem signalStep_ok : signalStep H s e = .ok s' ↔
    ∃ delta, eventDelta H s e = .ok (s', delta) ∧
      (delta ≠ none → ∃ t, H.builtins.float (timestampOf e) = .ok t) := by
  unfold signalStep
  cases eventDelta H s e with
  | error x => exact iff_of_false (by rintro ⟨⟩) (by rintro ⟨_, ⟨⟩, _⟩)
  | ok r =>
    obtain ⟨signal, _ | delta⟩ := r
    · constructor
      · rintro ⟨⟩
        exact ⟨none, rfl, fun h => absurd rfl h⟩
      · rintro ⟨_, ⟨⟩, -⟩
        rfl
    · change (H.builtins.float (timestampOf e) >>= fun _ => pure signal) = _ ↔ _
      cases H.builtins.float (timestampOf e) with
      | error x =>
        refine iff_of_false (by rintro ⟨⟩) ?_
        rintro ⟨_, ⟨⟩, ht⟩
        obtain ⟨t, ⟨⟩⟩ := ht (by rintro ⟨⟩)
      | ok t =>
        constructor
        · rintro ⟨⟩
          exact ⟨some delta, rfl, fun _ => ⟨t, rfl⟩⟩
        · rintro ⟨_, ⟨⟩, -⟩
          rfl

theorem keys_signalStep (h : signalStep H s e = .ok s') :
    s'.core.keys = s.core.keys := by
  obtain ⟨delta, hδ, -⟩ := signalStep_ok.1 h
  exact (eventDelta_keeps hδ).1

theorem trajectoryStep_eq (events : List PyDict) (points : List TrajectoryPoint) (e : PyDict) :
    trajectoryStep H events (s, points) e = (do
      let (signal, delta) ← eventDelta H s e
      match delta with
      | none => return (signal, points)
      | some delta => return (signal, points ++ [← trajectoryPoint H events e delta signal])) := by
  unfold trajectoryStep eventDelta
  cases read e "details" (.dict []) <;> rfl

theorem trajectoryPoint_ok {t : PyText} (ht : H.builtins.float (timestampOf e) = .ok t)
    (events : List PyDict) (delta : List (PyText × PyText)) (signal : SignalState) :
    ∃ p, trajectoryPoint H events e delta signal = .ok p ∧ p.state = signal.snapshot H := by
  unfold trajectoryPoint
  rw [ht]
  exact ⟨_, rfl, rfl⟩

theorem trajectoryPoint_error {x : PyRaised}
    (ht : H.builtins.float (timestampOf e) = .error x) (events : List PyDict)
    (delta : List (PyText × PyText)) (signal : SignalState) :
    trajectoryPoint H events e delta signal = .error x := by
  unfold trajectoryPoint
  rw [ht]
  rfl

/-- **The points follow the signal**: a step returns just in case that of the signal does,
and then the last point shows the signal. -/
theorem trajectoryStep_ok (events : List PyDict) (e : PyDict) {points : List TrajectoryPoint}
    (hlast : lastState H points = s.snapshot H) :
    (∀ s', signalStep H s e = .ok s' → ∃ points', trajectoryStep H events (s, points) e =
        .ok (s', points') ∧ lastState H points' = s'.snapshot H) ∧
      ∀ r, trajectoryStep H events (s, points) e = .ok r → signalStep H s e = .ok r.1 := by
  rw [trajectoryStep_eq]
  unfold signalStep
  cases hδ : eventDelta H s e with
  | error x => exact ⟨by rintro _ ⟨⟩, by rintro _ ⟨⟩⟩
  | ok r =>
    obtain ⟨signal, _ | delta⟩ := r
    · have hsame : signal = s := (eventDelta_keeps hδ).2 rfl
      refine ⟨?_, ?_⟩
      · rintro s' ⟨⟩
        exact ⟨points, rfl, hsame ▸ hlast⟩
      · rintro r ⟨⟩
        rfl
    · change (∀ s', (H.builtins.float (timestampOf e) >>= fun _ => pure signal) = .ok s' →
        ∃ points', (trajectoryPoint H events e delta signal >>= fun p =>
          pure (signal, points ++ [p])) = .ok (s', points') ∧ _) ∧
        ∀ r, (trajectoryPoint H events e delta signal >>= fun p => pure (signal, points ++ [p])) =
          .ok r → (H.builtins.float (timestampOf e) >>= fun _ => pure signal) = .ok r.1
      cases ht : H.builtins.float (timestampOf e) with
      | error x =>
        rw [trajectoryPoint_error ht]
        exact ⟨by rintro _ ⟨⟩, by rintro _ ⟨⟩⟩
      | ok t =>
        obtain ⟨p, hp, hstate⟩ := trajectoryPoint_ok ht events delta signal
        rw [hp]
        refine ⟨?_, ?_⟩
        · rintro s' ⟨⟩
          refine ⟨points ++ [p], rfl, ?_⟩
          unfold lastState
          rw [List.getLast?_concat]
          exact hstate
        · rintro r ⟨⟩
          rfl

theorem getLast?_sliceFrom {α : Type} (points : List α) (window : ℤ) :
    (EventLog.sliceFrom points (-max 1 window)).getLast? = points.getLast? := by
  have hneg : -max 1 window < 0 := by
    have := le_max_left 1 window
    omega
  have hpos : 0 < (-max 1 window).natAbs := by omega
  unfold EventLog.sliceFrom
  rw [if_pos hneg, List.getLast?_drop]
  split
  next hlen =>
    have hnil : points.length = 0 := by omega
    rw [List.length_eq_zero_iff.1 hnil]
    rfl
  next => rfl

theorem foldlM_trajectoryStep {points : List TrajectoryPoint} (events es : List PyDict)
    (hlast : lastState H points = s.snapshot H) :
    (∀ s', es.foldlM (signalStep H) s = .ok s' → ∃ points',
        es.foldlM (trajectoryStep H events) (s, points) = .ok (s', points') ∧
          lastState H points' = s'.snapshot H) ∧
      ∀ r, es.foldlM (trajectoryStep H events) (s, points) = .ok r →
        es.foldlM (signalStep H) s = .ok r.1 := by
  induction es generalizing s points with
  | nil =>
    refine ⟨?_, ?_⟩
    · rintro s' ⟨⟩
      exact ⟨points, rfl, hlast⟩
    · rintro r ⟨⟩
      rfl
  | cons e es ih =>
    obtain ⟨hforth, hback⟩ := trajectoryStep_ok events e hlast
    simp only [List.foldlM_cons]
    refine ⟨?_, ?_⟩
    · intro s' h
      cases hs : signalStep H s e with
      | error x =>
        rw [hs] at h
        cases h
      | ok s₁ =>
        rw [hs] at h
        obtain ⟨points₁, hstep, hlast₁⟩ := hforth s₁ hs
        rw [hstep]
        exact (ih hlast₁).1 s' h
    · intro r h
      cases ht : trajectoryStep H events (s, points) e with
      | error x =>
        rw [ht] at h
        cases h
      | ok r₁ =>
        have hs := hback r₁ ht
        obtain ⟨points₁, hstep, hlast₁⟩ := hforth r₁.1 hs
        obtain ⟨s₁, _⟩ := r₁
        rw [ht] at hstep
        cases hstep
        rw [ht] at h
        rw [hs]
        exact (ih hlast₁).2 r h

/-- **The last state of the window is that of the signal.** -/
theorem lastState_window (events : List PyDict) (window : ℤ) (snap : Snapshot) :
    (∃ points, affectiveTrajectoryWindow H events (max 1 window) = .ok points ∧
        lastState H points = snap) ↔
      ∃ signal, events.foldlM (signalStep H) .new = .ok signal ∧ signal.snapshot H = snap := by
  have hnew : lastState H [] = SignalState.new.snapshot H := rfl
  obtain ⟨hforth, hback⟩ := foldlM_trajectoryStep events events hnew
  unfold affectiveTrajectoryWindow
  constructor
  · rintro ⟨points, hwindow, hlast⟩
    cases ht : events.foldlM (trajectoryStep H events) (SignalState.new, []) with
    | error x =>
      rw [ht] at hwindow
      cases hwindow
    | ok r =>
      have hs := hback r ht
      obtain ⟨points₁, hstep, hlast₁⟩ := hforth r.1 hs
      obtain ⟨s₁, _⟩ := r
      rw [ht] at hstep hwindow
      cases hstep
      cases hwindow
      refine ⟨_, hs, hlast₁.symm.trans ?_⟩
      rw [← hlast]
      unfold lastState
      rw [getLast?_sliceFrom]
  · rintro ⟨signal, hsignal, hsnap⟩
    obtain ⟨points, hstep, hlast⟩ := hforth signal hsignal
    rw [hstep]
    refine ⟨_, rfl, ?_⟩
    rw [← hsnap, ← hlast]
    unfold lastState
    rw [getLast?_sliceFrom]

/-- `isinstance(v, (int, float))` -/
def isNumber : PyValue → Bool
  | .bool _ | .int _ | .float _ => true
  | _ => false

def Timed (H : AffectHost) (e : PyDict) : Prop := ∃ t, H.builtins.float (timestampOf e) = .ok t

/-- The details of a shift are a dictionary whose fields of the core are readable and no
Booleans; if it has one, the event's timestamp is readable too. -/
def ShiftAlike (H : AffectHost) (e : PyDict) : Prop :=
  ∃ d, read e "details" (.dict []) = .dict d ∧ Readable H d (keys d) ∧
    (∀ name ∈ keys d, name ∈ coreNames → isFlag d name = false ∧ Timed H e)

/-- The details of a decay are a dictionary, and its timestamp and factor are readable;
a factor that is no number decays the signal as 0.98 does. -/
def DecayAlike (H : AffectHost) (signal : SignalState) (e : PyDict) : Prop :=
  ∃ d factor, read e "details" (.dict []) = .dict d ∧ Timed H e ∧
    H.builtins.float (read d "factor" (.float (lit "0.98"))) = .ok factor ∧
    (isNumber (read d "factor" (.float (lit "0.98"))) ∨
      (signal.decay H factor).core = (signal.decay H (lit "0.98")).core)

/-- The trajectory and the replay read an event alike, in the state before it: a signal
event in the sense above, and another event that the replay does not raise at. -/
def ReadAlike (H : AffectHost) (s : ReplayState) (e : PyDict) : Prop :=
  match read e "kind" (.str []) with
  | .str kind =>
    if kind = lit "signal.shift" then ShiftAlike H e
    else if kind = lit "signal.decay" then DecayAlike H s.signal e
    else ∃ s', applyOther H s (read e "details" (.dict [])) kind = .ok s'
  | _ => True

/-! ### The events that are no signals -/

/-- A computation that returns a state with the same signal, if it returns. -/
def KeepsSignal (s : ReplayState) (x : Py ReplayState) : Prop :=
  ∀ s', x = .ok s' → s'.signal = s.signal

section KeepsSignal

variable {s : ReplayState} {α : Type}

theorem keeps_ok {s' : ReplayState} (h : s'.signal = s.signal) : KeepsSignal s (.ok s') := by
  rintro _ ⟨⟩
  exact h

theorem keeps_error (x : PyRaised) : KeepsSignal s (.error x) := by
  rintro _ ⟨⟩

theorem keeps_bind {x : Py α} {f : α → Py ReplayState} (h : ∀ a, KeepsSignal s (f a)) :
    KeepsSignal s (x >>= f) := by
  intro s' hs'
  obtain ⟨a, -, ha⟩ := Effectful.bind_ok hs'
  exact h a s' ha

theorem keeps_ite {p : Prop} [Decidable p] {x y : Py ReplayState} (hx : KeepsSignal s x)
    (hy : KeepsSignal s y) : KeepsSignal s (if p then x else y) := by
  split
  · exact hx
  · exact hy

theorem keeps_message (details : PyValue) (role : PyText) :
    KeepsSignal s (replayMessage s details role) :=
  keeps_bind fun _ => keeps_ok (by split <;> rfl)

theorem keeps_pulse (details : PyValue) : KeepsSignal s (replayPulse H s details) := by
  refine keeps_bind fun _ => keeps_bind fun cycle => ?_
  cases cycle <;> exact keeps_ok rfl

theorem keeps_mode (details : PyValue) : KeepsSignal s (replayMode s details) :=
  keeps_bind fun _ => keeps_ite (keeps_bind fun _ => keeps_ok rfl) (keeps_ok rfl)

theorem keeps_authority (details : PyValue) : KeepsSignal s (replayAuthority H s details) :=
  keeps_bind fun _ => keeps_bind fun _ => keeps_ok (by split <;> rfl)

theorem keeps_executionMode (details : PyValue) : KeepsSignal s (replayExecutionMode s details) := by
  refine keeps_bind fun mode => ?_
  split
  · exact keeps_ok (by split <;> rfl)
  · refine keeps_bind fun enabled => ?_
    split <;> exact keeps_ok rfl

theorem keeps_engaged (details : PyValue) : KeepsSignal s (replayEngaged H s details) :=
  keeps_bind fun _ => keeps_bind fun _ => keeps_bind fun _ => keeps_ok rfl

theorem keeps_confirmed (details : PyValue) : KeepsSignal s (replayConfirmed H s details) := by
  refine keeps_bind fun item => ?_
  split
  · refine keeps_ite (keeps_ok rfl) (keeps_bind fun type => ?_)
    refine keeps_ite (keeps_ok rfl) (keeps_ite (keeps_error _) ?_)
    split
    · refine keeps_ite (keeps_ok rfl) ?_
      split
      · exact keeps_ok rfl
      · exact keeps_bind fun _ => keeps_ok rfl
    · exact keeps_ok rfl
  · exact keeps_ite (keeps_error _) (keeps_ok rfl)

theorem keeps_bucket (details : PyValue)
    (update : PyDict → PyValue → List PyDict → List PyDict) :
    KeepsSignal s (replayBucket s details update) := by
  refine keeps_bind fun members => keeps_ite (keeps_error _) ?_
  split <;> exact keeps_ok rfl

theorem keeps_calibration (details : PyValue) : KeepsSignal s (replayCalibration s details) :=
  keeps_bind fun _ => keeps_bind fun _ =>
    keeps_ite (keeps_ite (keeps_ok rfl) (keeps_error _)) (keeps_ok rfl)

theorem keeps_ignite (details : PyValue) : KeepsSignal s (replayIgnite H s details) :=
  keeps_bind fun _ => keeps_bind fun _ => keeps_ite (keeps_ok rfl) (keeps_ok rfl)

/-- **No other event touches the signal.** -/
theorem keeps_other (details : PyValue) (kind : PyText) :
    KeepsSignal s (applyOther H s details kind) := by
  unfold applyOther
  refine keeps_ite (keeps_message _ _) (keeps_ite (keeps_message _ _) (keeps_ite (keeps_pulse _) ?_))
  refine keeps_ite (keeps_mode _) (keeps_ite (keeps_authority _) ?_)
  refine keeps_ite (keeps_executionMode _) (keeps_ite (keeps_engaged _) (keeps_ite (keeps_ok rfl) ?_))
  refine keeps_ite (keeps_confirmed _) (keeps_ite (keeps_bucket _ _) (keeps_ite (keeps_bucket _ _) ?_))
  exact keeps_ite (keeps_calibration _) (keeps_ite (keeps_ignite _) (keeps_ok rfl))

end KeepsSignal

/-! ### The signal events -/

section Step

variable {r r' : ReplayState} {e : PyDict}

theorem signalStep_of_ne (hshift : H.str (read e "kind" (.str [])) ≠ lit "signal.shift")
    (hdecay : H.str (read e "kind" (.str [])) ≠ lit "signal.decay") :
    signalStep H s e = .ok s := by
  refine signalStep_ok.2 ⟨none, ?_, fun h => absurd rfl h⟩
  unfold eventDelta signalDelta
  split
  · rw [if_neg hshift, if_neg hdecay]
  · rfl

def replayFields (d : PyDict) : List PyText := (keys d).filter (· ∈ coreNames)

/-- The fields that the trajectory shifts by, where all are readable. -/
def trajectoryFields (d : PyDict) : List PyText :=
  (sortedKeys d).filter fun n => n ∈ coreNames ∧ !isFlag d n

theorem mem_replayFields {name : PyText} :
    name ∈ replayFields d ↔ name ∈ keys d ∧ name ∈ coreNames := by
  unfold replayFields
  simp only [List.mem_filter, decide_eq_true_eq]

theorem trajectoryFields_perm (d : PyDict) :
    ((replayFields d).filter fun n => !isFlag d n).Perm (trajectoryFields d) := by
  have hfilter : (replayFields d).filter (fun n => !isFlag d n) =
      (keys d).filter fun n => n ∈ coreNames ∧ !isFlag d n := by
    unfold replayFields
    rw [List.filter_filter]
    refine List.filter_congr fun n _ => ?_
    simp [Bool.and_comm]
  rw [hfilter]
  exact ((List.perm_insertionSort _ _).symm.filter _)

theorem nodup_replayFields (d : PyDict) : (replayFields d).Nodup :=
  (List.nodup_reverse.2 (List.nodup_dedup _)).filter _

theorem signalStep_shift (hkeys : s.core.keys = coreNames)
    (hkind : read e "kind" (.str []) = .str (lit "signal.shift"))
    (hd : read e "details" (.dict []) = .dict d) (hread : Readable H d (keys d)) :
    signalStep H s e = .ok s' ↔ s' = shiftAll H (fieldValue H d) (trajectoryFields d) s ∧
      (trajectoryFields d ≠ [] → Timed H e) := by
  have hsorted : Readable H d (sortedKeys d) := by
    intro name hname
    exact hread name ((List.mem_insertionSort _).1 hname)
  have hδ : eventDelta H s e = .ok (shiftAll H (fieldValue H d) (trajectoryFields d) s,
      if trajectoryFields d = [] then none
      else some ((trajectoryFields d).map fun n => (n, fieldValue H d n))) := by
    unfold eventDelta signalDelta
    rw [hd, hkind]
    simp only [AffectHost.str, if_true]
    rw [trajectoryShift_of_readable hkeys hsorted]
    change Except.ok (_, if ((trajectoryFields d).map _).isEmpty = true then _ else _) = _
    simp only [List.isEmpty_iff, List.map_eq_nil_iff, List.nil_append]
    rfl
  rw [signalStep_ok, hδ]
  constructor
  · rintro ⟨delta, hdelta, ht⟩
    cases hdelta
    refine ⟨rfl, ?_⟩
    intro hne
    exact ht (by rw [if_neg hne]; rintro ⟨⟩)
  · rintro ⟨rfl, ht⟩
    refine ⟨_, rfl, ?_⟩
    intro hne
    refine ht fun hnil => hne ?_
    rw [if_pos hnil]

theorem applyEvent_shift (hkeys : r.signal.core.keys = coreNames)
    (hkind : read e "kind" (.str []) = .str (lit "signal.shift")) :
    applyEvent H r e = .ok r' ↔ ∃ d, read e "details" (.dict []) = .dict d ∧
      Readable H d (keys d) ∧
      r' = { r with signal := shiftAll H (fieldValue H d) (replayFields d) r.signal } := by
  unfold applyEvent
  rw [hkind]
  simp only [if_true]
  constructor
  · intro h
    obtain ⟨d, hd, h⟩ := Effectful.bind_ok h
    obtain ⟨signal, hsignal, h⟩ := Effectful.bind_ok h
    cases h
    obtain ⟨hread, rfl⟩ := (replayShift_ok hkeys).1 hsignal
    refine ⟨d, ?_, hread, rfl⟩
    unfold Py.members at hd
    split at hd
    next ms hms =>
      cases hd
      exact hms
    next => cases hd
  · rintro ⟨d, hd, hread, rfl⟩
    rw [hd]
    change (replayShift H d (keys d) r.signal >>= fun signal => _) = _
    rw [(replayShift_ok hkeys).2 ⟨hread, rfl⟩]
    rfl

theorem shift_alike_iff (hs : s.core.keys = coreNames) (hr : r.signal.core.keys = coreNames)
    (halike : Alike s r.signal) (hkind : read e "kind" (.str []) = .str (lit "signal.shift")) :
    (∃ s' r', signalStep H s e = .ok s' ∧ applyEvent H r e = .ok r' ∧ Alike s' r'.signal) ↔
      ShiftAlike H e := by
  have hperm := trajectoryFields_perm
  constructor
  · rintro ⟨s', r', hsig, hrep, hafter⟩
    obtain ⟨d, hd, hread, rfl⟩ := (applyEvent_shift hr hkind).1 hrep
    obtain ⟨rfl, ht⟩ := (signalStep_shift hs hkind hd hread).1 hsig
    -- as many shifts, so no field was skipped
    have htrace := hafter.trace
    rw [shiftAll_trace, shiftAll_trace, halike.trace, ← (hperm d).length_eq] at htrace
    have hlen : ((replayFields d).filter fun n => !isFlag d n).length = (replayFields d).length := by
      omega
    have hall := List.length_filter_eq_length_iff.1 hlen
    refine ⟨d, hd, hread, ?_⟩
    intro name hname hcore
    have hmem := mem_replayFields.2 ⟨hname, hcore⟩
    have hflag : isFlag d name = false := by simpa using hall name hmem
    refine ⟨hflag, ht ?_⟩
    have hin : name ∈ trajectoryFields d :=
      (hperm d).mem_iff.1 (List.mem_filter.2 ⟨hmem, hall name hmem⟩)
    exact List.ne_nil_of_mem hin
  · rintro ⟨d, hd, hread, hall⟩
    have hsame : (replayFields d).filter (fun n => !isFlag d n) = replayFields d := by
      refine List.filter_eq_self.2 ?_
      intro name hname
      obtain ⟨hkey, hcore⟩ := mem_replayFields.1 hname
      simp [(hall name hkey hcore).1]
    have hp : (trajectoryFields d).Perm (replayFields d) := by
      have := hperm d
      rw [hsame] at this
      exact this.symm
    refine ⟨_, _, (signalStep_shift hs hkind hd hread).2 ⟨rfl, ?_⟩,
      (applyEvent_shift hr hkind).2 ⟨d, hd, hread, rfl⟩, ?_⟩
    · intro hne
      obtain ⟨name, hname⟩ := List.exists_mem_of_ne_nil _ hne
      obtain ⟨hkey, hcore⟩ := mem_replayFields.1 (hp.mem_iff.1 hname)
      exact (hall name hkey hcore).2
    · refine alike_shiftAll halike hp (hp.nodup_iff.2 (nodup_replayFields d)) ?_
      intro name hname
      rw [hs]
      exact (mem_replayFields.1 (hp.mem_iff.1 hname)).2

theorem signalStep_decay (hkind : read e "kind" (.str []) = .str (lit "signal.decay"))
    (hd : read e "details" (.dict []) = .dict d) : signalStep H s e = .ok s' ↔
      ∃ factor, decayFactor H d = .ok factor ∧ Timed H e ∧ s' = s.decay H factor := by
  have hne : lit "signal.decay" ≠ lit "signal.shift" := by decide
  have hδ : eventDelta H s e = (decayFactor H d >>= fun factor =>
      .ok (s.decay H factor, some [(lit "factor", factor)])) := by
    unfold eventDelta signalDelta
    rw [hd, hkind]
    simp only [AffectHost.str, if_neg hne, if_true]
    rfl
  rw [signalStep_ok, hδ]
  constructor
  · rintro ⟨delta, h, ht⟩
    obtain ⟨factor, hf, h⟩ := Effectful.bind_ok h
    cases h
    exact ⟨factor, hf, ht (by rintro ⟨⟩), rfl⟩
  · rintro ⟨factor, hf, ht, rfl⟩
    rw [hf]
    exact ⟨_, rfl, fun _ => ht⟩

theorem applyEvent_decay (hkind : read e "kind" (.str []) = .str (lit "signal.decay")) :
    applyEvent H r e = .ok r' ↔ ∃ d factor, read e "details" (.dict []) = .dict d ∧
      H.builtins.float (read d "factor" (.float (lit "0.98"))) = .ok factor ∧
      r' = { r with signal := r.signal.decay H factor } := by
  have hne : lit "signal.decay" ≠ lit "signal.shift" := by decide
  unfold applyEvent
  rw [hkind]
  simp only [if_neg hne, if_true]
  constructor
  · intro h
    obtain ⟨v, hv, h⟩ := Effectful.bind_ok h
    obtain ⟨factor, hf, h⟩ := Effectful.bind_ok h
    cases h
    unfold Py.get at hv
    split at hv
    next d hd =>
      cases hv
      exact ⟨d, factor, hd, hf, rfl⟩
    next => cases hv
  · rintro ⟨d, factor, hd, hf, rfl⟩
    rw [hd]
    change (H.builtins.float (read d "factor" (.float (lit "0.98"))) >>= fun factor => _) = _
    rw [hf]
    rfl

theorem decayFactor_of_ok {factor : PyText}
    (hf : H.builtins.float (read d "factor" (.float (lit "0.98"))) = .ok factor) :
    decayFactor H d = .ok (if isNumber (read d "factor" (.float (lit "0.98"))) then factor
      else lit "0.98") := by
  unfold decayFactor
  cases hv : read d "factor" (.float (lit "0.98")) <;> rw [hv] at hf <;>
    simp only [floatIfNumber, isNumber, hf] <;> rfl

theorem decay_alike_iff {factor factor' : PyText} (halike : Alike s r.signal) :
    Alike (s.decay H factor) (r.signal.decay H factor') ↔
      (r.signal.decay H factor').core = (r.signal.decay H factor).core := by
  have hcore : ∀ f, (s.decay H f).core = (r.signal.decay H f).core := by
    intro f
    unfold SignalState.decay
    rw [halike.core]
  constructor
  · intro h
    rw [← h.core, hcore]
  · intro h
    exact ⟨(hcore factor).trans h.symm, halike.valence, halike.arousal, halike.instability,
      halike.trace⟩

theorem decay_step_alike_iff (halike : Alike s r.signal)
    (hkind : read e "kind" (.str []) = .str (lit "signal.decay")) :
    (∃ s' r', signalStep H s e = .ok s' ∧ applyEvent H r e = .ok r' ∧ Alike s' r'.signal) ↔
      DecayAlike H r.signal e := by
  constructor
  · rintro ⟨s', r', hsig, hrep, hafter⟩
    obtain ⟨d, factor, hd, hf, rfl⟩ := (applyEvent_decay hkind).1 hrep
    obtain ⟨factor', hf', ht, rfl⟩ := (signalStep_decay hkind hd).1 hsig
    refine ⟨d, factor, hd, ht, hf, ?_⟩
    rw [decayFactor_of_ok hf] at hf'
    cases hf'
    by_cases hnum : isNumber (read d "factor" (.float (lit "0.98"))) = true
    · exact Or.inl hnum
    · rw [if_neg hnum] at hafter
      exact Or.inr ((decay_alike_iff halike).1 hafter)
  · rintro ⟨d, factor, hd, ht, hf, hor⟩
    refine ⟨_, _, (signalStep_decay hkind hd).2 ⟨_, decayFactor_of_ok hf, ht, rfl⟩,
      (applyEvent_decay hkind).2 ⟨d, factor, hd, hf, rfl⟩, (decay_alike_iff halike).2 ?_⟩
    split
    · rfl
    next hnum => exact hor.resolve_left hnum

/-- **Both folds return from an event and agree after it just in case they read it alike.** -/
theorem step_alike_iff (hs : s.core.keys = coreNames) (hr : r.signal.core.keys = coreNames)
    (halike : Alike s r.signal) :
    (∃ s' r', signalStep H s e = .ok s' ∧ applyEvent H r e = .ok r' ∧ Alike s' r'.signal) ↔
      ReadAlike H r e := by
  unfold ReadAlike
  split
  next kind hkind =>
    by_cases hshift : kind = lit "signal.shift"
    · subst hshift
      rw [if_pos rfl]
      exact shift_alike_iff hs hr halike hkind
    · by_cases hdecay : kind = lit "signal.decay"
      · subst hdecay
        rw [if_neg hshift, if_pos rfl]
        exact decay_step_alike_iff halike hkind
      · rw [if_neg hshift, if_neg hdecay]
        have hquiet : signalStep H s e = .ok s := by
          refine signalStep_of_ne ?_ ?_ <;> rw [hkind]
          · exact hshift
          · exact hdecay
        have hother : applyEvent H r e = applyOther H r (read e "details" (.dict [])) kind := by
          unfold applyEvent
          rw [hkind]
          simp only [if_neg hshift, if_neg hdecay]
        rw [hquiet, hother]
        constructor
        · rintro ⟨_, r', -, hr', -⟩
          exact ⟨r', hr'⟩
        · rintro ⟨r', hr'⟩
          exact ⟨s, r', rfl, hr', (keeps_other _ _ r' hr').symm ▸ halike⟩
  next hkind =>
    refine iff_of_true ?_ trivial
    -- no other value prints as the name of a signal event
    have hstr : H.str (read e "kind" (.str [])) = H.printed (read e "kind" (.str [])) := by
      unfold AffectHost.str
      split
      next t ht => exact absurd ht (hkind t)
      next => rfl
    have hquiet : signalStep H s e = .ok s := by
      refine signalStep_of_ne ?_ ?_ <;> rw [hstr]
      · exact (H.printed_ne _).1
      · exact (H.printed_ne _).2
    have happly : applyEvent H r e = .ok r := by
      unfold applyEvent
      split
      next t ht => exact absurd ht (hkind t)
      next => rfl
    exact ⟨s, r, hquiet, happly, halike⟩

theorem keys_applyEvent (hr : r.signal.core.keys = coreNames) (h : applyEvent H r e = .ok r') :
    r'.signal.core.keys = coreNames := by
  cases hkind : read e "kind" (.str []) with
  | str kind =>
    by_cases hshift : kind = lit "signal.shift"
    · subst hshift
      obtain ⟨d, -, -, rfl⟩ := (applyEvent_shift hr hkind).1 h
      refine (keys_shiftAll ?_).trans hr
      intro name hname
      rw [hr]
      exact (mem_replayFields.1 hname).2
    · by_cases hdecay : kind = lit "signal.decay"
      · subst hdecay
        obtain ⟨d, factor, -, -, rfl⟩ := (applyEvent_decay hkind).1 h
        exact (keys_decay factor).trans hr
      · unfold applyEvent at h
        rw [hkind] at h
        simp only [if_neg hshift, if_neg hdecay] at h
        rw [keeps_other _ _ r' h]
        exact hr
  | _ =>
    unfold applyEvent at h
    rw [hkind] at h
    cases h
    exact hr

def bothStep (H : AffectHost) (p : Py SignalState × Py ReplayState) (e : PyDict) :
    Py SignalState × Py ReplayState :=
  (p.1 >>= fun s => signalStep H s e, p.2 >>= fun r => applyEvent H r e)

theorem run_both (events : List PyDict) (p : Py SignalState × Py ReplayState) :
    Machine.run (bothStep H) p events =
      (p.1 >>= fun s => events.foldlM (signalStep H) s,
        p.2 >>= fun r => events.foldlM (applyEvent H) r) := by
  induction events generalizing p with
  | nil => exact Prod.ext (bind_pure p.1).symm (bind_pure p.2).symm
  | cons e events ih =>
    rw [Machine.run_cons, ih]
    unfold bothStep
    simp only [List.foldlM_cons, bind_assoc]

def Named (p : Py SignalState × Py ReplayState) : Prop :=
  (∀ s, p.1 = .ok s → s.core.keys = coreNames) ∧
    ∀ r, p.2 = .ok r → r.signal.core.keys = coreNames

def Agreed (H : AffectHost) (p : Py SignalState × Py ReplayState) : Prop :=
  ∃ s r, p.1 = .ok s ∧ p.2 = .ok r ∧ s.snapshot H = r.signal.snapshot H

theorem named_step (p : Py SignalState × Py ReplayState) (e : PyDict) (h : Named p) :
    Named (bothStep H p e) := by
  constructor
  · intro s' hs'
    obtain ⟨s, hs, hstep⟩ := Effectful.bind_ok hs'
    exact (keys_signalStep hstep).trans (h.1 s hs)
  · intro r' hr'
    obtain ⟨r, hr, hstep⟩ := Effectful.bind_ok hr'
    exact keys_applyEvent (h.2 r hr) hstep

/-- **Folds that agree still agree after an event just in case they read it alike.** -/
theorem agreed_step (p : Py SignalState × Py ReplayState) (e : PyDict) (hnamed : Named p)
    (h : Agreed H p) : Agreed H (bothStep H p e) ↔ ∀ r, p.2 = .ok r → ReadAlike H r e := by
  obtain ⟨s, r, hs, hr, hsnap⟩ := h
  have hkeys := hnamed.1 s hs
  have hkeys' := hnamed.2 r hr
  have halike := (snapshot_eq_iff (hkeys.trans hkeys'.symm)).1 hsnap
  obtain ⟨p₁, p₂⟩ := p
  cases hs
  cases hr
  have hall : (∀ r₁, Except.ok r = Except.ok (ε := PyRaised) r₁ → ReadAlike H r₁ e) ↔
      ReadAlike H r e := by
    constructor
    · intro h
      exact h r rfl
    · rintro h r₁ ⟨⟩
      exact h
  rw [hall, ← step_alike_iff hkeys hkeys' halike]
  refine exists_congr fun s' => exists_congr fun r' => ?_
  refine and_congr_right fun hs' => and_congr_right fun hr' => ?_
  refine snapshot_eq_iff ?_
  rw [keys_signalStep hs', hkeys, keys_applyEvent hkeys' hr']

/-- The trajectory of the events and their replay return, and the last state of the one is
the snapshot of the other. -/
def LastStateAgrees (H : AffectHost) (events : List PyDict) (window : ℤ) : Prop :=
  ∃ points state, affectiveTrajectoryWindow H events (max 1 window) = .ok points ∧
    replay H events = .ok state ∧ lastState H points = state.signal.snapshot H

theorem lastStateAgrees_iff (events : List PyDict) (window : ℤ) :
    LastStateAgrees H events window ↔
      Agreed H (Machine.run (bothStep H) (.ok .new, .ok {}) events) := by
  rw [run_both]
  constructor
  · rintro ⟨points, state, hwindow, hreplay, hlast⟩
    obtain ⟨s, hs, hsnap⟩ := (lastState_window events window _).1 ⟨points, hwindow, hlast⟩
    exact ⟨s, state, hs, hreplay, hsnap⟩
  · rintro ⟨s, state, hs, hreplay, hsnap⟩
    obtain ⟨points, hwindow, hlast⟩ := (lastState_window events window _).2 ⟨s, hs, hsnap⟩
    exact ⟨points, state, hwindow, hreplay, hlast⟩

end Step

/-- **The last state of the trajectory is the replayed one, for the log and for each initial
part of its events, just in case the log loads and each event is read alike in the state
that the replay has reached before it.** -/
theorem last_state_iff (H : AffectHost) (log : List Line) (window : ℤ) :
    (∃ events, loadEvents H log = .ok events ∧
      ∀ part, part <+: events → LastStateAgrees H part window) ↔
    ∃ events, loadEvents H log = .ok events ∧ ∀ before e, before ++ [e] <+: events →
      ∀ state, replay H before = .ok state → ReadAlike H state e := by
  refine exists_congr fun events => and_congr_right fun _ => ?_
  have hnamed : Named (.ok .new, .ok {}) := by
    constructor <;> rintro _ ⟨⟩ <;> rfl
  have hagreed : Agreed H (.ok .new, .ok {}) := ⟨_, _, rfl, rfl, rfl⟩
  have halways := Machine.always_iff_guarded named_step agreed_step hnamed hagreed events
  rw [Machine.guarded_iff_prefix] at halways
  refine Iff.trans ?_ (halways.trans ?_)
  · exact forall₂_congr fun part _ => lastStateAgrees_iff part window
  · refine forall₂_congr fun before e => forall_congr' fun _ => forall_congr' fun state => ?_
    rw [run_both]
    exact Iff.rfl

def plainAffect : AffectHost where
  builtins := { plainBuiltins with
    float := fun
      | .bool true => .ok (lit "1.0")
      | v => plainBuiltins.float v }
  shifted _ delta := delta
  decayed v _ := v
  above _ _ := false
  greater _ b := b
  same _ _ := false
  less _ _ := .ok false
  printed _ := []
  printed_ne _ := by decide

/-- An event whose shift of joy is `true`. -/
def joyEvent : PyDict :=
  [(lit "kind", .str (lit "signal.shift")), (lit "details", .dict [(lit "joy", .bool true)])]

/-- **The replay shifts by a Boolean and the trajectory does not.** -/
theorem joy_true_differs : ¬ ∀ log window, ∃ events, loadEvents plainAffect log = .ok events ∧
    LastStateAgrees plainAffect events window := by
  intro h
  obtain ⟨events, hload, hagrees⟩ := h [some (.dict joyEvent)] 1
  cases hload
  have hnamed : Named (.ok .new, .ok {}) := by
    constructor <;> rintro _ ⟨⟩ <;> rfl
  have hstep := (agreed_step _ joyEvent hnamed ⟨_, _, rfl, rfl, rfl⟩).1
    ((lastStateAgrees_iff _ 1).1 hagrees)
  have hkind : read joyEvent "kind" (.str []) = .str (lit "signal.shift") := rfl
  have halike := hstep {} rfl
  unfold ReadAlike at halike
  rw [hkind] at halike
  obtain ⟨d, hd, -, hall⟩ := halike
  cases hd
  have hflag := (hall (lit "joy") (by decide +kernel) (by decide +kernel)).1
  cases hflag

end ClawHarder.Truth
