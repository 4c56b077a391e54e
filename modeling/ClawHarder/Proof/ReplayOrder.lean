import ClawHarder.Spec.EventLog

/-!
# The order of a replay

A replay sorts the events by a counter that every process starts anew, so the order of
the appends survives only where the numbers of a later process are not smaller.

* `replay_order_iff`: **a log replays in the order of its appends, run after run, exactly
  when every run that a later event follows has at most one event.**
-/

namespace ClawHarder.EventLog

open PyText (lit)

variable {seq k : ℤ} {e : Event} {events : List Event} {runs : List (List Event)}

instance : Std.Total fun e e' : Event => e.seq ≤ e'.seq := ⟨fun e e' => le_total e.seq e'.seq⟩

instance : IsTrans Event fun e e' => e.seq ≤ e'.seq := ⟨fun _ _ _ => le_trans⟩

theorem sortBySeq_eq_self : sortBySeq events = events ↔
    events.Pairwise fun e e' => e.seq ≤ e'.seq := by
  unfold sortBySeq
  constructor
  · intro h
    rw [← h]
    exact List.pairwise_insertionSort _ events
  · exact List.Pairwise.insertionSort_eq

theorem loadEvents_map_some (events : List Event) :
    loadEvents (events.map some) = sortBySeq events := by
  unfold loadEvents
  rw [List.filterMap_map]
  exact congrArg sortBySeq (List.filterMap_some ..)

theorem exists_mem_emitAll : (∃ e ∈ emitAll seq events, e.seq = k) ↔
    seq < k ∧ k ≤ seq + events.length := by
  induction events generalizing seq with
  | nil =>
    simp only [emitAll, List.not_mem_nil, false_and, exists_false, List.length_nil, false_iff]
    omega
  | cons e events ih =>
    simp only [emitAll, List.mem_cons, or_and_right, exists_or, exists_eq_left, ih,
      List.length_cons]
    push_cast
    omega

theorem emitAll_pairwise : (emitAll seq events).Pairwise fun e e' => e.seq ≤ e'.seq := by
  induction events generalizing seq with
  | nil => exact List.Pairwise.nil
  | cons e events ih =>
    refine List.Pairwise.cons ?_ ih
    intro e' he'
    have hseq := exists_mem_emitAll.1 ⟨e', he', rfl⟩
    simp only
    omega

/-- The numbers of a later run are not smaller exactly where it has no event, or the
earlier run has at most one. -/
theorem emitAll_le_iff {run later : List Event} :
    (∀ e ∈ emitAll 0 run, ∀ e' ∈ emitAll 0 later, e.seq ≤ e'.seq) ↔
      (later ≠ [] → run.length ≤ 1) := by
  constructor
  · intro h hlater
    by_contra hlen
    have hpos : 0 < later.length := List.length_pos_iff.2 hlater
    -- the earlier run has the number 2, and the later one begins with 1
    obtain ⟨e, he, hseq⟩ := exists_mem_emitAll.2
      (show (0 : ℤ) < 2 ∧ (2 : ℤ) ≤ 0 + run.length by omega)
    obtain ⟨e', he', hseq'⟩ := exists_mem_emitAll.2
      (show (0 : ℤ) < 1 ∧ (1 : ℤ) ≤ 0 + later.length by omega)
    have hle := h e he e' he'
    omega
  · intro h e he e' he'
    have hseq := exists_mem_emitAll.1 ⟨e, he, rfl⟩
    have hseq' := exists_mem_emitAll.1 ⟨e', he', rfl⟩
    have hlater : later ≠ [] := by
      rintro rfl
      cases he'
    have hlen := h hlater
    omega

def ShortBeforeLater (runs : List (List Event)) : Prop :=
  runs.Pairwise fun run later => later ≠ [] → run.length ≤ 1

/-- The events are applied as they were appended, and the replay after a restart goes on
from the replay before it, whatever applying an event does. -/
def ReplaysInOrder (runs : List (List Event)) : Prop :=
  loadEvents (logOf runs) = appended runs ∧
    ∀ before after, runs = before ++ after → ∀ b,
      replay b (logOf runs) = (appended after).foldl (applyEvent b) (replay b (logOf before))

theorem loadEvents_logOf_iff :
    loadEvents (logOf runs) = appended runs ↔ ShortBeforeLater runs := by
  unfold logOf
  rw [loadEvents_map_some, sortBySeq_eq_self]
  unfold appended ShortBeforeLater
  rw [List.pairwise_flatMap]
  simp only [emitAll_le_iff]
  exact and_iff_right fun run _ => emitAll_pairwise

/-- **The order of the appends is kept exactly when no run of two or more events is
followed by an event of a later run.** -/
theorem replay_order_iff (runs : List (List Event)) :
    ReplaysInOrder runs ↔ ShortBeforeLater runs := by
  constructor
  · intro h
    exact loadEvents_logOf_iff.1 h.1
  · intro h
    have horder := loadEvents_logOf_iff.2 h
    refine ⟨horder, ?_⟩
    rintro before after rfl b
    -- the log before the restart is in order too
    have hbefore : loadEvents (logOf before) = appended before :=
      loadEvents_logOf_iff.2 (List.pairwise_append.1 h).1
    unfold replay
    rw [horder, hbefore]
    unfold appended
    rw [List.flatMap_append, List.foldl_append]

/-- A run that engages the killswitch and is restarted; the restarted one releases it. -/
def restarted : List (List Event) :=
  [[{ body := .other (lit "mcp.loaded") }, { body := .killswitchEngaged (lit "halt") }],
    [{ body := .killswitchReleased }]]

theorem restarted_out_of_order :
    loadEvents (logOf restarted) ≠ appended restarted ∧
      ∀ b, (replay b (logOf restarted)).killswitchEngaged = true ∧
        ((appended restarted).foldl (applyEvent b) {}).killswitchEngaged = false := by
  refine ⟨?_, fun b => ⟨rfl, rfl⟩⟩
  intro h
  have hseq : (loadEvents (logOf restarted)).map Event.seq = (appended restarted).map Event.seq :=
    congrArg (List.map Event.seq) h
  exact absurd hseq (by decide)

end ClawHarder.EventLog
