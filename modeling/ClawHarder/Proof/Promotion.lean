import ClawHarder.Lib.Register
import ClawHarder.Lib.Window
import ClawHarder.Spec.Promotion

/-!
# What is left of a promoted decision

Over any number of turns, each of which appends frames to the episodic memory and executes
decisions. A key-addressed store reads under a key what was promoted last under it
(`readAt_run`); the episodic store has the last 500 frames (`episodic_run`).

`readable_iff`: **a promoted content is read back exactly when nothing has replaced it**: no
other content under its key, and no 500 frames without it.
-/

namespace ClawHarder.Salience

open PyText (lit)
open RuntimeCore (MemoryFrame SemanticItem semanticWrite appendEpisodic)

/-- A turn of the runtime: frames of the conversation, and then the membrane. The host may be
another process. -/
structure Turn where
  host : Host
  frames : List MemoryFrame
  decisions : List ArbitrationDecision

def runTurn (memory : MemoryStore) (t : Turn) : MemoryStore :=
  (execute t.host t.decisions
    { memory with episodic := t.frames.foldl appendEpisodic memory.episodic }).2

inductive Event where
  | frame (f : MemoryFrame)
  | promoted (host : Host) (ts : PyText) (p : ProposalMutation)

def Event.apply (memory : MemoryStore) : Event → MemoryStore
  | .frame f => { memory with episodic := appendEpisodic memory.episodic f }
  | .promoted host ts p => promote host ts p memory

def promotions (host : Host) (i : ℕ) : List ArbitrationDecision → List Event
  | [] => []
  | decision :: decisions =>
    if decision.outcome = .approved then
      .promoted host (host.clock i) decision.proposal :: promotions host (i + 1) decisions
    else promotions host (i + 1) decisions

def Turn.events (t : Turn) : List Event :=
  t.frames.map Event.frame ++ promotions t.host 0 t.decisions

def history (turns : List Turn) : List Event := turns.flatMap Turn.events

theorem executeFrom_eq (host : Host) (i : ℕ) (decisions : List ArbitrationDecision)
    (memory : MemoryStore) :
    executeFrom host i memory decisions =
      (decisions.filter (fun d => d.outcome = .approved),
        Machine.run Event.apply memory (promotions host i decisions)) := by
  induction decisions generalizing i memory with
  | nil => rfl
  | cons decision decisions ih =>
    unfold executeFrom promotions
    by_cases happroved : decision.outcome = .approved
    · rw [if_pos happroved, if_pos happroved, ih, List.filter_cons_of_pos (by simp [happroved])]
      rfl
    · rw [if_neg happroved, if_neg happroved, ih, List.filter_cons_of_neg (by simp [happroved])]

/-- **The promoted decisions are the approved ones.** -/
theorem execute_promoted (host : Host) (decisions : List ArbitrationDecision)
    (memory : MemoryStore) :
    (execute host decisions memory).1 = decisions.filter fun d => d.outcome = .approved := by
  unfold execute
  rw [executeFrom_eq]

theorem run_frames (frames : List MemoryFrame) (memory : MemoryStore) :
    Machine.run Event.apply memory (frames.map Event.frame) =
      { memory with episodic := frames.foldl appendEpisodic memory.episodic } := by
  induction frames generalizing memory with
  | nil => rfl
  | cons f frames ih =>
    rw [List.map_cons, Machine.run_cons, ih, List.foldl_cons]
    simp only [Event.apply]

theorem runTurn_eq (memory : MemoryStore) (t : Turn) :
    runTurn memory t = Machine.run Event.apply memory t.events := by
  unfold runTurn execute Turn.events
  rw [executeFrom_eq, Machine.run_append, run_frames]

theorem run_turns (memory : MemoryStore) (turns : List Turn) :
    turns.foldl runTurn memory = Machine.run Event.apply memory (history turns) := by
  induction turns generalizing memory with
  | nil => rfl
  | cons t turns ih =>
    have hcons : history (t :: turns) = t.events ++ history turns := List.flatMap_cons
    rw [List.foldl_cons, ih, hcons, Machine.run_append, runTurn_eq]

def readAt (destination : Destination) (key : PyText) (memory : MemoryStore) : Option PyValue :=
  match destination with
  | .semantic => (semanticRead key memory.semantic).map SemanticItem.content
  | .procedural => PyValue.get? key memory.procedural
  | .episodic => none

def Event.writes (destination : Destination) (key : PyText) : Event → Option PyText
  | .frame _ => none
  | .promoted host _ p =>
    if p.destination = destination ∧ keyOf host p = key then some p.content else none

theorem semanticRead_semanticWrite (key k : PyText) (content : PyValue) (ts : PyText)
    (items : List SemanticItem) :
    (semanticRead k (semanticWrite key content ts none items)).map SemanticItem.content =
      if key = k then some content else (semanticRead k items).map SemanticItem.content := by
  induction items with
  | nil =>
    by_cases hk : key = k
    · simp [semanticWrite, semanticRead, hk]
    · simp [semanticWrite, semanticRead, hk]
  | cons item items ih =>
    have hread : ∀ it its, semanticRead k (it :: its) =
        if it.key = k then some it else semanticRead k its := by
      intro it its
      unfold semanticRead
      by_cases hit : it.key = k
      · rw [List.find?_cons_of_pos (by simp [hit]), if_pos hit]
      · rw [List.find?_cons_of_neg (by simp [hit]), if_neg hit]
    unfold semanticWrite
    by_cases hitem : item.key = key
    · rw [if_pos hitem, hread, hread]
      by_cases hk : key = k
      · rw [if_pos hk, if_pos hk]
        rfl
      · have hne : item.key ≠ k := fun heq => hk (hitem.symm.trans heq)
        rw [if_neg hk, if_neg hk, if_neg hne]
    · rw [if_neg hitem, hread, hread]
      by_cases hk : item.key = k
      · have hne : key ≠ k := fun heq => hitem (hk.trans heq.symm)
        rw [if_pos hk, if_pos hk, if_neg hne]
      · rw [if_neg hk, if_neg hk, ih]

theorem readAt_apply {destination : Destination} (hdestination : destination ≠ .episodic)
    (key : PyText) (memory : MemoryStore) (e : Event) :
    readAt destination key (e.apply memory) =
      ((e.writes destination key).map fun c => some (PyValue.str c)).getD
        (readAt destination key memory) := by
  cases e with
  | frame f =>
    simp only [Event.writes, Option.map_none, Option.getD_none, Event.apply]
    cases destination <;> simp only [readAt]
  | promoted host ts p =>
    have hother : p.destination ≠ destination →
        (Event.promoted host ts p).writes destination key = none := fun hne =>
      if_neg fun hand => hne hand.1
    cases hp : p.destination with
    | episodic =>
      rw [hother fun heq => hdestination (heq.symm.trans hp), Event.apply,
        promote_episodic host ts memory hp, Option.map_none, Option.getD_none]
      cases destination <;> simp only [readAt]
    | semantic =>
      rw [Event.apply, promote_semantic host ts memory hp]
      cases destination with
      | episodic => exact absurd rfl hdestination
      | procedural =>
        rw [hother (by rw [hp]; decide)]
        rfl
      | semantic =>
        simp only [readAt, semanticRead_semanticWrite, Event.writes, hp, true_and]
        by_cases hk : keyOf host p = key
        · rw [if_pos hk, if_pos hk]
          rfl
        · rw [if_neg hk, if_neg hk]
          rfl
    | procedural =>
      rw [Event.apply, promote_procedural host ts memory hp]
      cases destination with
      | episodic => exact absurd rfl hdestination
      | semantic =>
        rw [hother (by rw [hp]; decide)]
        rfl
      | procedural =>
        simp only [readAt, PyValue.get?_set, Event.writes, hp, true_and]
        by_cases hk : keyOf host p = key
        · rw [if_pos hk.symm, if_pos hk]
          rfl
        · rw [if_neg fun heq => hk heq.symm, if_neg hk]
          rfl

/-- **A key-addressed store reads what was promoted last.** -/
theorem readAt_run {destination : Destination} (hdestination : destination ≠ .episodic)
    (key : PyText) (memory : MemoryStore) (events : List Event) :
    readAt destination key (Machine.run Event.apply memory events) =
      ((events.filterMap (Event.writes destination key)).getLast?.map fun c =>
        some (PyValue.str c)).getD (readAt destination key memory) := by
  have hrun := Machine.read_run (readAt_apply hdestination key) memory events
  rw [hrun]
  unfold Machine.lastSet
  have hmap : events.filterMap (fun e => (e.writes destination key).map fun c =>
      some (PyValue.str c)) =
      (events.filterMap (Event.writes destination key)).map fun c => some (PyValue.str c) := by
    rw [List.map_filterMap]
  rw [hmap, List.getLast?_map]

def Event.frame? : Event → Option MemoryFrame
  | .frame f => some f
  | .promoted _ ts p =>
    if p.destination = .episodic then some (promotedFrame p.content ts) else none

def framesOf (events : List Event) : List MemoryFrame := events.filterMap Event.frame?

theorem appendEpisodic_eq (frames : List MemoryFrame) (f : MemoryFrame) :
    appendEpisodic frames f = (frames ++ [f]).rtake 500 := by
  unfold appendEpisodic List.rtake
  rfl

theorem frame?_promoted (host : Host) (ts : PyText) (p : ProposalMutation) :
    (Event.promoted host ts p).frame? =
      if p.destination = .episodic then some (promotedFrame p.content ts) else none := rfl

theorem apply_episodic (memory : MemoryStore) (e : Event) :
    (e.apply memory).episodic =
      match e.frame? with
      | some f => (memory.episodic ++ [f]).rtake 500
      | none => memory.episodic := by
  cases e with
  | frame f =>
    simp only [Event.apply, Event.frame?, appendEpisodic_eq]
  | promoted host ts p =>
    rw [frame?_promoted, Event.apply]
    cases hp : p.destination with
    | episodic =>
      rw [promote_episodic host ts memory hp, if_pos rfl]
      simp only [appendEpisodic_eq]
    | semantic =>
      rw [promote_semantic host ts memory hp, if_neg (by decide)]
    | procedural =>
      rw [promote_procedural host ts memory hp, if_neg (by decide)]

/-- **The episodic store has the last frames.** -/
theorem episodic_run {memory : MemoryStore} {seen : List MemoryFrame}
    (hseen : memory.episodic = seen.rtake 500) (events : List Event) :
    (Machine.run Event.apply memory events).episodic = (seen ++ framesOf events).rtake 500 := by
  induction events generalizing memory seen with
  | nil => simpa [framesOf] using hseen
  | cons e events ih =>
    have hstep := apply_episodic memory e
    rw [Machine.run_cons]
    cases hframe : e.frame? with
    | none =>
      have hframes : framesOf (e :: events) = framesOf events := List.filterMap_cons_none hframe
      simp only [hframe] at hstep
      rw [hframes]
      exact ih (hstep.trans hseen)
    | some f =>
      have hframes : framesOf (e :: events) = f :: framesOf events :=
        List.filterMap_cons_some hframe
      simp only [hframe] at hstep
      have hnext : (e.apply memory).episodic = (seen ++ [f]).rtake 500 := by
        rw [hstep, hseen, List.rtake_concat]
      rw [ih hnext, hframes, List.append_assoc]
      rfl

def Holds (content : PyText) (f : MemoryFrame) : Prop :=
  f.role = .str (lit "promoted") ∧ f.content = .str content

/-- The content can be read back from the store it was promoted to. -/
def Readable (host : Host) (p : ProposalMutation) (memory : MemoryStore) : Prop :=
  match p.destination with
  | .episodic => ∃ f ∈ memory.episodic, Holds p.content f
  | destination => readAt destination (keyOf host p) memory = some (.str p.content)

def Replaced (host : Host) (p : ProposalMutation) (after : List Event) : Prop :=
  match p.destination with
  | .episodic => 500 ≤ (framesOf after).length ∧
      ∀ f ∈ (framesOf after).rtake 500, ¬Holds p.content f
  | destination => ∃ content ≠ p.content,
      (after.filterMap (Event.writes destination (keyOf host p))).getLast? = some content

theorem readable_keyed (host : Host) {p : ProposalMutation} (hp : p.destination ≠ .episodic)
    (ts : PyText) (memory : MemoryStore) (after : List Event) :
    readAt p.destination (keyOf host p)
        (Machine.run Event.apply memory (.promoted host ts p :: after)) = some (.str p.content) ↔
      ¬∃ content ≠ p.content,
        (after.filterMap (Event.writes p.destination (keyOf host p))).getLast? = some content := by
  have hwrites : (Event.promoted host ts p).writes p.destination (keyOf host p) =
      some p.content := if_pos ⟨rfl, rfl⟩
  rw [readAt_run hp, List.filterMap_cons_some hwrites, List.getLast?_cons]
  cases hlast : (after.filterMap (Event.writes p.destination (keyOf host p))).getLast? with
  | none => simp
  | some content => simp

theorem readable_episodic {host : Host} {p : ProposalMutation} (hp : p.destination = .episodic)
    (ts : PyText) (memory : MemoryStore) (after : List Event) :
    (∃ f ∈ (Machine.run Event.apply memory (.promoted host ts p :: after)).episodic,
        Holds p.content f) ↔
      ¬(500 ≤ (framesOf after).length ∧
        ∀ f ∈ (framesOf after).rtake 500, ¬Holds p.content f) := by
  have hframe : (Event.promoted host ts p).frame? = some (promotedFrame p.content ts) := if_pos hp
  have hfirst := apply_episodic memory (.promoted host ts p)
  simp only [hframe] at hfirst
  rw [Machine.run_cons, episodic_run hfirst, List.append_assoc, List.singleton_append]
  by_cases hlong : 500 ≤ (framesOf after).length
  · have hcons : 500 ≤ (promotedFrame p.content ts :: framesOf after).length := by
      rw [List.length_cons]
      omega
    have hwindow : (memory.episodic ++ promotedFrame p.content ts :: framesOf after).rtake 500 =
        (framesOf after).rtake 500 := by
      rw [List.rtake_append_right hcons, ← List.singleton_append, List.rtake_append_right hlong]
    rw [hwindow]
    simp only [hlong, true_and]
    push Not
    exact Iff.rfl
  · refine iff_of_true ⟨promotedFrame p.content ts, ?_, rfl, rfl⟩ fun hreplaced =>
      hlong hreplaced.1
    exact List.mem_rtake_append (by omega)

/-- **A promoted content is read back exactly when nothing has replaced it.** -/
theorem readable_iff (memory : MemoryStore) (turns : List Turn) {before after : List Event}
    {host : Host} {ts : PyText} {p : ProposalMutation}
    (h : history turns = before ++ .promoted host ts p :: after) :
    Readable host p (turns.foldl runTurn memory) ↔ ¬Replaced host p after := by
  rw [run_turns, h, Machine.run_append]
  unfold Readable Replaced
  cases hp : p.destination with
  | episodic => exact readable_episodic hp ts _ after
  | semantic =>
    have hne : p.destination ≠ .episodic := by
      rw [hp]
      decide
    have hkeyed := readable_keyed host hne ts (Machine.run Event.apply memory before) after
    rwa [hp] at hkeyed
  | procedural =>
    have hne : p.destination ≠ .episodic := by
      rw [hp]
      decide
    have hkeyed := readable_keyed host hne ts (Machine.run Event.apply memory before) after
    rwa [hp] at hkeyed

def sampleHost : Host := ⟨fun _ => 0, fun _ => lit "0.0"⟩

def focusEvent : WorkspaceEvent where
  kind := lit "operator_focus"
  path := some (lit "src/app.py")

def focusProposal (content : PyText) (cycle : ℤ) (h : PyText.strip content ≠ []) :
    ProposalMutation where
  content := content
  destination := .semantic
  cycle := cycle
  key := deriveKey focusEvent .semantic
  content_ne := h

def firstFocus : ProposalMutation := focusProposal (lit "reads the config") 1 (by decide)

def secondFocus : ProposalMutation := focusProposal (lit "writes the log") 2 (by decide)

def focusTurns : List Turn :=
  [⟨sampleHost, [], [⟨firstFocus, .approved⟩]⟩, ⟨sampleHost, [], [⟨secondFocus, .approved⟩]⟩]

theorem second_focus_readable :
    Readable sampleHost secondFocus (focusTurns.foldl runTurn ⟨[], [], []⟩) ↔
      ¬Replaced sampleHost secondFocus [] :=
  readable_iff ⟨[], [], []⟩ focusTurns
    (show history focusTurns = [.promoted sampleHost (lit "0.0") firstFocus] ++
      .promoted sampleHost (lit "0.0") secondFocus :: [] from rfl)

theorem first_focus_replaced :
    history focusTurns = [.promoted sampleHost (lit "0.0") firstFocus,
      .promoted sampleHost (lit "0.0") secondFocus] ∧
      ¬Readable sampleHost firstFocus (focusTurns.foldl runTurn ⟨[], [], []⟩) := by
  refine ⟨rfl, fun hread => ?_⟩
  have hlast : readAt .semantic (keyOf sampleHost firstFocus)
      (focusTurns.foldl runTurn ⟨[], [], []⟩) = some (.str (lit "writes the log")) := rfl
  have hfirst : readAt .semantic (keyOf sampleHost firstFocus)
      (focusTurns.foldl runTurn ⟨[], [], []⟩) = some (.str (lit "reads the config")) := hread
  have hsame : lit "writes the log" = lit "reads the config" :=
    PyValue.str.inj (Option.some.inj (hlast.symm.trans hfirst))
  exact absurd hsame (by decide)

end ClawHarder.Salience
