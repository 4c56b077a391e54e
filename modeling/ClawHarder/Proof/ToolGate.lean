import ClawHarder.Spec.ToolBatch
import Mathlib.Data.List.Nodup

/-!
# No execution past a block

All that blocks a batch is checked before its token is issued, so a blocked batch
changes nothing (`blocked_unchanged`). A batch that gets past the checks draws one
token, consumes it, and only then calls handlers (`Segment`): what it adds to the trace
is a token issued, the same token consumed, and calls.

* `gate_and_token`: over any run of batches, **no handler is called past a block, and a
  batch that calls handlers consumes one token, before its first call, that no other
  batch consumes**.
-/

namespace ClawHarder.Runtime

open Effectful Machine
open PyText (lit)

variable {C L G H V : Type} [DecidableEq G] [DecidableEq H] {T : Toolbox C L G H V}
  {plans : List (Attempt C L G H V)} {t : List TraceEvent} {d : ℕ}

def Blocked (plans : List (Attempt C L G H V)) (w : World C L G H) : Prop :=
  (∃ p ∈ plans, p.decision.executionAllowed = false) ∨
    w.state.killswitchEngaged = true ∨
    w.state.executionMode ≠ .execute ∨
    precommitAllows plans w = false ∨
    1 < plans.length ∧ ∃ p ∈ plans, p.irreversible = true

variable {s : BatchState C L G H}

/-- **A blocked batch returns and changes nothing.** -/
theorem blocked_unchanged (h : Blocked plans s.world) :
    ∃ results, (bindToolBatch T plans).run s = .ok results s := by
  unfold bindToolBatch
  rw [EStateM.run_bind, EStateM.run_get]
  simp only
  by_cases hempty : plans.isEmpty = true
  · exact ⟨_, by rw [if_pos hempty]; rfl⟩
  rw [if_neg hempty]
  by_cases hkill : s.world.state.killswitchEngaged = true
  · exact ⟨_, by rw [if_pos hkill]; rfl⟩
  rw [if_neg hkill]
  by_cases hdecision : (plans.any (!·.decision.executionAllowed)) = true
  · exact ⟨_, by rw [if_pos hdecision]; rfl⟩
  rw [if_neg hdecision]
  by_cases hmode : s.world.state.executionMode ≠ .execute
  · exact ⟨_, by rw [if_pos hmode]; rfl⟩
  rw [if_neg hmode]
  cases herrors : batchExecutionErrors T plans with
  | some results => exact ⟨results, rfl⟩
  | none =>
    by_cases hprecommit : (!precommitAllows plans s.world) = true
    · exact ⟨_, by simp only [if_pos hprecommit]; rfl⟩
    · exfalso
      rcases h with ⟨p, hp, hblocked⟩ | hengaged | hplan | hreject | ⟨hlen, p, hp, hirreversible⟩
      · exact hdecision (List.any_eq_true.2 ⟨p, hp, by rw [hblocked]; rfl⟩)
      · exact hkill hengaged
      · exact hmode hplan
      · exact hprecommit (by rw [hreject]; rfl)
      · have hany : plans.any (·.irreversible) = true := List.any_eq_true.2 ⟨p, hp, hirreversible⟩
        simp [batchExecutionErrors, hlen, hany] at herrors

/-- Calls after the trace `t`, with at least `d` values drawn. -/
def Calling (t : List TraceEvent) (d : ℕ) (s : BatchState C L G H) : Prop :=
  d ≤ s.drawn ∧ ∃ names : List PyText, s.trace = t ++ names.map .called

section Calling

omit [DecidableEq G] [DecidableEq H]

theorem calling_world (f : World C L G H → World C L G H) :
    Keeps (Calling (C := C) (L := L) (G := G) (H := H) t d) (modifyWorld f) :=
  keeps_modify fun _ hs => hs

theorem calling_called (name : PyText) :
    Keeps (Calling (C := C) (L := L) (G := G) (H := H) t d) (record (.called name)) := by
  apply keeps_modify
  rintro s ⟨hd, names, htrace⟩
  exact ⟨hd, names ++ [name], by simp [htrace]⟩

theorem calling_reading :
    Keeps (Calling (C := C) (L := L) (G := G) (H := H) t d) reading := fun _ hs => hs

theorem calling_get {α : Type} {f : BatchState C L G H → Batch C L G H α}
    (h : ∀ r, Keeps (Calling t d) (f r)) : Keeps (Calling t d) (get >>= f) :=
  spec_get fun r hr => (h r).mono (fun _ hs => hs ▸ hr) (fun _ _ h => h) fun _ _ h => h

theorem calling_restoreSnapshot (id : ℕ) :
    Keeps (Calling (C := C) (L := L) (G := G) (H := H) t d) (restoreSnapshot id) := by
  apply calling_get
  intro r
  apply keeps_ite (fun _ => keeps_throw _)
  intro _
  split
  · exact keeps_throw _
  · exact keeps_ite (fun _ => keeps_throw _) fun _ => calling_world _

theorem calling_execute (name : PyText) (arguments : PyDict) :
    Keeps (Calling t d) (execute T name arguments) := by
  unfold execute
  split
  · exact keeps_pure _
  · apply keeps_bind (calling_called _)
    intro _
    apply spec_get
    intro r hr
    -- the world that the handler leaves takes the place of the one before it
    split
    · exact fun _ _ => hr
    · exact fun _ _ => hr

theorem calling_rollbackTool (p : Attempt C L G H V) (value : V) :
    Keeps (Calling t d) (rollbackTool T p value) := by
  unfold rollbackTool
  split
  · exact keeps_pure _
  · apply spec_get
    intro r hr
    split
    · exact fun _ _ => hr
    · exact fun _ _ => hr

theorem calling_rollbackExecutedTools (executed : List (Attempt C L G H V × V)) :
    Keeps (Calling t d) (rollbackExecutedTools T executed) := by
  apply keeps_forM
  intro e _
  exact keeps_ite (fun _ => calling_rollbackTool _ _) fun _ => keeps_pure _

theorem calling_undoBatch (progress : Progress C L G H V) (snapshotId : Option ℕ) :
    Keeps (Calling t d) (undoBatch T progress snapshotId) := by
  apply keeps_bind (calling_rollbackExecutedTools _)
  intro _
  split
  · exact keeps_pure _
  · exact calling_restoreSnapshot _

end Calling

theorem calling_gateVerifies (before : Capture G H) (value : V) :
    Keeps (Calling t d) (gateVerifies T before value) := by
  unfold gateVerifies
  apply keeps_bind calling_reading
  intro _
  apply keeps_bind calling_reading
  intro _
  apply calling_get
  intro _
  exact keeps_bind calling_reading fun _ => keeps_pure _

theorem calling_runTool (p : Attempt C L G H V) (gate : Option (Capture G H)) :
    Keeps (Calling t d) (runTool T p gate) := by
  have hanchor : ∀ anchor : Option G,
      Keeps (Calling (C := C) (L := L) (H := H) t d) (setGateAnchor gate anchor) := fun anchor =>
    keeps_ite (fun _ => calling_world _) fun _ => keeps_pure _
  unfold runTool
  apply keeps_bind (hanchor _)
  intro _
  apply keeps_bind (calling_execute _ _)
  intro value
  apply keeps_bind (hanchor _)
  intro _
  split
  · exact keeps_pure _
  · apply keeps_ite (fun _ => keeps_throw _)
    intro _
    split
    · exact keeps_pure _
    · apply keeps_bind (calling_gateVerifies _ _)
      intro verified
      exact keeps_ite (fun _ => keeps_pure _) fun _ => keeps_pure _

theorem calling_bindToolExecution (p : Attempt C L G H V) :
    Keeps (Calling t d) (bindToolExecution T p) := by
  apply calling_get
  intro s
  apply keeps_ite (fun _ => keeps_pure _)
  intro _
  apply keeps_ite (fun _ => calling_runTool _ _)
  intro _
  apply keeps_bind calling_reading
  intro n
  have hhalt : ∀ reason : PyText, Keeps (Calling (C := C) (L := L) (G := G) (H := H) t d)
      (do toolGateHalt reason; pure (failedResult p .gateRejected)) := fun reason =>
    keeps_bind (calling_world _) fun _ => keeps_pure _
  apply keeps_ite (fun _ => hhalt _)
  intro _
  apply keeps_ite (fun _ => hhalt _)
  intro _
  apply keeps_bind calling_reading
  intro _
  exact keeps_ite (fun _ => keeps_pure _) fun _ => calling_runTool _ _

theorem calling_executePlans (plans : List (Attempt C L G H V)) :
    Keeps (Calling t d) (executePlans T plans) := by
  induction plans with
  | nil => exact keeps_pure _
  | cons p plans ih =>
    apply keeps_bind (calling_bindToolExecution p)
    intro result
    split
    · exact keeps_bind ih fun _ => keeps_pure _
    · exact keeps_pure _

theorem calling_runTools (plans : List (Attempt C L G H V)) (snapshotId : Option ℕ) :
    Keeps (Calling t d) (runTools T plans snapshotId) := by
  apply keeps_bind (calling_executePlans plans)
  intro progress
  exact keeps_ite (fun _ => keeps_bind (calling_undoBatch _ _) fun _ => keeps_pure _)
    fun _ => keeps_pure _

/-- What a batch adds to the trace, with the token `k`. -/
def Segment (k : ℕ) (added : List TraceEvent) : Prop :=
  added = [] ∨ added = [.issued k] ∨
    ∃ names : List PyText, added = .issued k :: .consumed k :: names.map .called

/-- The trace `t`, with at least `d` values drawn. -/
def Still (t : List TraceEvent) (d : ℕ) (s : BatchState C L G H) : Prop :=
  d ≤ s.drawn ∧ s.trace = t

section Token

omit [DecidableEq G] [DecidableEq H]

theorem still_takeSnapshot (plans : List (Attempt C L G H V)) :
    Keeps (Still (C := C) (L := L) (G := G) (H := H) t d) (takeSnapshot plans) := by
  apply keeps_ite
  · intro _
    refine keeps_bind ?_ fun id => keeps_pure (some id)
    apply spec_get
    intro r hr
    apply spec_ite
    · exact fun _ => spec_throw fun s hs => hs ▸ hr
    · intro _
      apply spec_bind (Q := fun _ => Still t d)
      · exact fun s hs => hs ▸ ⟨hr.1.trans (Nat.le_succ r.drawn), hr.2⟩
      · intro id
        apply keeps_ite (fun _ => keeps_throw _)
        intro _
        exact keeps_bind (keeps_modify fun _ hs => hs) fun _ => keeps_pure _
  · exact fun _ => keeps_pure none

theorem still_consume (k : ℕ) :
    Spec (Still (C := C) (L := L) (G := G) (H := H) t d) (consume k)
      (fun _ => Still (t ++ [.consumed k]) d) fun _ => Still t d := by
  apply spec_get
  rintro r ⟨hd, rfl⟩
  apply spec_ite
  · rintro _ s rfl
    exact ⟨hd, rfl⟩
  · rintro _ s rfl
    exact ⟨hd, rfl⟩

theorem still_issueToken {t : List TraceEvent} {d : ℕ} {E : BatchRaised → BatchState C L G H → Prop} :
    Spec (fun s => s.trace = t ∧ s.drawn = d) issueToken
      (fun k s => k = d ∧ Still (t ++ [.issued d]) (d + 1) s) E := by
  rintro s ⟨rfl, rfl⟩
  exact ⟨rfl, le_rfl, rfl⟩

end Token

/-- The trace `t` and what a batch adds to it with the token `k`, which is drawn. -/
def Spent (t : List TraceEvent) (k : ℕ) (s : BatchState C L G H) : Prop :=
  k < s.drawn ∧ ∃ added, Segment k added ∧ s.trace = t ++ added

omit [DecidableEq G] [DecidableEq H] in
theorem Calling.spent {k : ℕ}
    (h : Calling (t ++ [.issued k] ++ [.consumed k]) (k + 1) s) : Spent t k s := by
  obtain ⟨hd, names, htrace⟩ := h
  refine ⟨hd, _, .inr (.inr ⟨names, rfl⟩), ?_⟩
  rw [htrace, List.append_assoc, List.append_assoc]
  rfl

omit [DecidableEq G] [DecidableEq H] in
theorem Still.calling (h : Still t d s) : Calling t d s :=
  ⟨h.1, [], by rw [h.2, List.map_nil, List.append_nil]⟩

omit [DecidableEq G] [DecidableEq H] in
theorem Still.spent {k : ℕ}
    (h : Still (t ++ [.issued k]) (k + 1) s) : Spent t k s :=
  ⟨h.1, _, .inr (.inl rfl), h.2⟩

/-- **The batch consumes its token before it calls a handler.** -/
theorem spent_runBatch (plans : List (Attempt C L G H V)) (k : ℕ) :
    Spec (Still (t ++ [.issued k]) (k + 1)) (runBatch T plans k) (fun _ => Spent t k)
      fun _ => Spent t k := by
  apply spec_bind ((still_takeSnapshot plans).mono (fun _ h => h) (fun _ _ h => h)
    fun _ _ h => h.spent)
  intro snapshotId
  apply spec_bind ((still_consume k).mono (fun _ h => h) (fun _ _ h => h.calling)
    fun _ _ h => h.spent)
  intro _
  apply spec_get
  intro r hr
  apply spec_ite
  · exact fun _ => spec_pure fun s hs => hs ▸ hr.spent
  · intro _
    exact (calling_runTools plans snapshotId).mono (fun s hs => hs ▸ hr) (fun _ _ h => h.spent)
      fun _ _ h => h.spent

theorem bindToolBatch_trace (T : Toolbox C L G H V) (plans : List (Attempt C L G H V))
    (s : BatchState C L G H) :
    final (bindToolBatch T plans) s = s ∨ Spent s.trace s.drawn (final (bindToolBatch T plans) s) := by
  let After (s' : BatchState C L G H) : Prop := s' = s ∨ Spent s.trace s.drawn s'
  suffices Spec (fun r => r = s) (bindToolBatch T plans) (fun _ => After) fun _ => After from
    this.final rfl
  have hsame : ∀ results : List (BindingResult V),
      Spec (fun r => r = s) (pure results : Batch C L G H _) (fun _ => After) fun _ => After :=
    fun _ => spec_pure fun r hr => .inl hr
  apply spec_get
  intro r hr
  subst hr
  apply spec_ite (fun _ => hsame _)
  intro _
  apply spec_ite (fun _ => hsame _)
  intro _
  apply spec_ite (fun _ => hsame _)
  intro _
  apply spec_ite (fun _ => hsame _)
  intro _
  split
  · exact hsame _
  · apply spec_ite (fun _ => hsame _)
    intro _
    apply spec_bind ((still_issueToken (t := r.trace) (d := r.drawn)).mono
      (fun s hs => hs ▸ ⟨rfl, rfl⟩) (fun _ _ h => h) fun _ _ h => h)
    intro k s' hs'
    obtain ⟨rfl, hstill⟩ := hs'
    exact ((spent_runBatch plans r.drawn).mono (fun _ h => h) (fun _ _ h => .inr h)
      fun _ _ h => .inr h) s' hstill

theorem consumedTokens_called (names : List PyText) :
    consumedTokens (names.map .called) = [] := by
  induction names with
  | nil => rfl
  | cons name names ih => exact ih

theorem consumedTokens_append (t u : List TraceEvent) :
    consumedTokens (t ++ u) = consumedTokens t ++ consumedTokens u :=
  List.filterMap_append

theorem Segment.consumedTokens {k : ℕ} {added : List TraceEvent} (h : Segment k added) :
    consumedTokens added = [] ∨ consumedTokens added = [k] := by
  rcases h with rfl | rfl | ⟨names, rfl⟩
  · exact .inl rfl
  · exact .inl rfl
  · have hnames := consumedTokens_called names
    right
    change k :: Runtime.consumedTokens (names.map .called) = [k]
    rw [hnames]

def Orderly (s : BatchState C L G H) : Prop :=
  (consumedTokens s.trace).Nodup ∧ ∀ k ∈ consumedTokens s.trace, k < s.drawn

omit [DecidableEq G] [DecidableEq H] in
theorem Orderly.spent {s' : BatchState C L G H} (hs : Orderly s)
    (h : Spent s.trace s.drawn s') : Orderly s' := by
  obtain ⟨hdrawn, added, hadded, htrace⟩ := h
  unfold Orderly
  rw [htrace, consumedTokens_append]
  rcases hadded.consumedTokens with hnone | hone
  · rw [hnone, List.append_nil]
    exact ⟨hs.1, fun k hk => (hs.2 k hk).trans hdrawn⟩
  · rw [hone]
    constructor
    · refine List.nodup_append'.2 ⟨hs.1, List.nodup_singleton _, ?_⟩
      intro k hk hk'
      rw [List.mem_singleton.1 hk'] at hk
      exact absurd (hs.2 _ hk) (lt_irrefl _)
    · intro k hk
      rcases List.mem_append.1 hk with hk | hk
      · exact (hs.2 k hk).trans hdrawn
      · rw [List.mem_singleton.1 hk]
        exact hdrawn

theorem orderly_step (hs : Orderly s) (l : BatchLabel C L G H V) :
    Orderly (s.step T l) := by
  cases l with
  | world w => exact hs
  | batch plans =>
    rcases bindToolBatch_trace T plans s with hsame | hspent
    · change Orderly (final (bindToolBatch T plans) s)
      rw [hsame]
      exact hs
    · exact hs.spent hspent

theorem orderly_run (hs : Orderly s)
    (ls : List (BatchLabel C L G H V)) : Orderly (run (BatchState.step T) s ls) :=
  run_inv_all (I := Orderly) (fun _ l hs => orderly_step hs l) hs ls

theorem trace_step (s : BatchState C L G H) (l : BatchLabel C L G H V) :
    s.trace <+: (s.step T l).trace := by
  cases l with
  | world w => exact List.prefix_rfl
  | batch plans =>
    rcases bindToolBatch_trace T plans s with hsame | ⟨-, added, -, htrace⟩
    · refine ⟨[], ?_⟩
      change s.trace ++ [] = (final (bindToolBatch T plans) s).trace
      rw [hsame, List.append_nil]
    · exact ⟨added, htrace.symm⟩

theorem trace_run (s : BatchState C L G H) (ls : List (BatchLabel C L G H V)) :
    s.trace <+: (run (BatchState.step T) s ls).trace :=
  run_inv_all (I := fun r => s.trace <+: r.trace) (fun r l h => h.trans (trace_step r l))
    List.prefix_rfl ls

/-- **No execution past a block; and a batch that calls handlers consumes one token, before
the first call, that is consumed once in the whole run.** -/
theorem gate_and_token (T : Toolbox C L G H V) (w : World C L G H)
    (before after : List (BatchLabel C L G H V)) (plans : List (Attempt C L G H V)) :
    let s := run (BatchState.step T) (.start w) before
    let s' := s.step T (.batch plans)
    ∃ added, s'.trace = s.trace ++ added ∧
      (Blocked plans s.world → handlerCalls added = []) ∧
      (handlerCalls added ≠ [] → ∃ (k : ℕ) (names : List PyText),
        added = .issued k :: .consumed k :: names.map .called ∧
        (consumedTokens (run (BatchState.step T) s' after).trace).count k = 1) := by
  intro s s'
  have horderly : Orderly s := by
    apply orderly_run
    exact ⟨List.nodup_nil, fun k hk => absurd hk List.not_mem_nil⟩
  by_cases hblocked : Blocked plans s.world
  · have hsame : s' = s := by
      obtain ⟨results, hrun⟩ := blocked_unchanged (T := T) hblocked
      change final (bindToolBatch T plans) s = s
      unfold final
      rw [hrun]
    refine ⟨[], ?_, fun _ => rfl, fun h => absurd rfl h⟩
    rw [hsame, List.append_nil]
  · rcases bindToolBatch_trace T plans s with hsame | ⟨-, added, hadded, htrace⟩
    · refine ⟨[], ?_, fun _ => rfl, fun h => absurd rfl h⟩
      rw [List.append_nil]
      exact congrArg BatchState.trace hsame
    · refine ⟨added, htrace, fun h => absurd h hblocked, fun hcalls => ?_⟩
      rcases hadded with rfl | rfl | ⟨names, rfl⟩
      · exact absurd rfl hcalls
      · exact absurd rfl hcalls
      · refine ⟨s.drawn, names, rfl, ?_⟩
        have hend : Orderly (run (BatchState.step T) s' after) :=
          orderly_run (orderly_step horderly _) after
        have hmem : s.drawn ∈ consumedTokens (run (BatchState.step T) s' after).trace := by
          obtain ⟨later, hlater⟩ := trace_run (T := T) s' after
          have hs' : s'.trace = s.trace ++ _ := htrace
          rw [← hlater, hs', consumedTokens_append, consumedTokens_append]
          exact List.mem_append_left _ (List.mem_append_right _ List.mem_cons_self)
        exact List.count_eq_one_of_mem hend.1 hmem

def clockTool : Tool Unit Unit Unit Unit Unit :=
  ⟨false, .readOnly, fun _ => true, fun _ => pure (), none⟩

def clockToolbox : Toolbox Unit Unit Unit Unit Unit where
  registry name := if name = lit "utc_time" then some clockTool else none
  receipt _ := none
  renders _ := true
  capture _ _ := ⟨.hash (), true, ()⟩
  expired _ := false

def clockAttempt : Attempt Unit Unit Unit Unit Unit :=
  ⟨lit "utc_time", [], some clockTool, .allow⟩

def clockWorld : World Unit Unit Unit Unit :=
  ⟨{ executionMode := .execute }, .hash (), ⟨(), true, fun _ => none, none, none⟩, ()⟩

theorem one_token_two_calls :
    let trace := (run (BatchState.step clockToolbox) (.start clockWorld)
      [.batch [clockAttempt, clockAttempt]]).trace
    handlerCalls trace = [lit "utc_time", lit "utc_time"] ∧ consumedTokens trace = [0] := by
  decide +kernel

end ClawHarder.Runtime
