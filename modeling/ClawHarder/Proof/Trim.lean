import ClawHarder.Lib.Register
import ClawHarder.Proof.ReplayOrder

/-!
# What trimming the event log forgets

A server trims the event log to its last lines before it starts, and what the runtime
takes its authority from is the replay of that log. A replay has four registers, each of
which some events set, and a bucket for each identity trait, which an event can empty.

* `trim_preserves_iff`: **trimming keeps the authority exactly when the kept lines set
  every register last and fill every bucket as the whole log does.**
-/

namespace ClawHarder.EventLog

open Machine (lastSet)
open PyText (lit)
open Policy (GovernanceProfile)

variable {b : PyBuiltins} {type : PyText} {lines : List Line} {maxLines : ℤ}

def killswitchSet (e : Event) : Option Bool :=
  match e.body with
  | .killswitchEngaged _ => some true
  | .killswitchReleased => some false
  | _ => none

def modeSet (e : Event) : Option PyText :=
  match e.body with
  | .policyEngineMode mode => if mode = [] then none else some (GovernanceProfile.forMode mode []).mode
  | _ => none

/-- The mode `degraded_repair` sets the authority too, to its default. -/
def authoritySet (e : Event) : Option PyText :=
  match e.body with
  | .policyEngineMode mode =>
    if RuntimeCore.lowerWord mode = lit "degraded_repair" then some (lit "user") else none
  | .operatorAuthority authority => if authority = [] then none else some authority
  | _ => none

theorem forMode_mode (mode authority : PyText) :
    (GovernanceProfile.forMode mode authority).mode = (GovernanceProfile.forMode mode []).mode := by
  unfold GovernanceProfile.forMode
  simp only
  split_ifs <;> rfl

theorem forMode_authority (mode authority : PyText) :
    (GovernanceProfile.forMode mode authority).operatorAuthority =
      if RuntimeCore.lowerWord mode = lit "degraded_repair" then lit "user" else authority := by
  have hguided : lit "guided" ≠ lit "degraded_repair" := by decide
  have hexpert : lit "expert" ≠ lit "degraded_repair" := by decide
  have hunlocked : lit "unlocked" ≠ lit "degraded_repair" := by decide
  unfold GovernanceProfile.forMode
  simp only
  split_ifs with h₁ h₂ h₃ h₄ <;> simp_all

theorem read_replay {V : Type} {sets : Event → Option V} (read : RuntimeState → V)
    (hstep : ∀ s e, read (applyEvent b s e) = (sets e).getD (read s)) (lines : List Line) :
    read (replay b lines) = lastSet sets (read {}) (loadEvents lines) :=
  Machine.read_run hstep _ _

theorem replay_killswitch (lines : List Line) :
    (replay b lines).killswitchEngaged = lastSet killswitchSet false (loadEvents lines) := by
  refine read_replay (·.killswitchEngaged) (fun s e => ?_) lines
  unfold applyEvent killswitchSet
  cases e.body with
  | policyEngineMode mode => simp only; split <;> rfl
  | operatorAuthority authority => simp only; split <;> rfl
  | _ => rfl

theorem replay_executionMode (lines : List Line) : (replay b lines).executionMode =
    lastSet (fun e => executionModeSet e.body) (lit "plan") (loadEvents lines) := by
  refine read_replay (·.executionMode) (fun s e => ?_) lines
  unfold applyEvent
  cases e.body with
  | policyEngineMode mode => simp only; split <;> rfl
  | operatorAuthority authority => simp only; split <;> rfl
  | _ => rfl

theorem replay_mode (lines : List Line) :
    (replay b lines).governance.mode = lastSet modeSet (lit "standard") (loadEvents lines) := by
  refine read_replay (·.governance.mode) (fun s e => ?_) lines
  unfold applyEvent modeSet
  cases e.body with
  | policyEngineMode mode =>
    simp only
    by_cases hm : mode = []
    · rw [if_pos hm, if_pos hm]
      rfl
    · rw [if_neg hm, if_neg hm]
      exact forMode_mode mode _
  | operatorAuthority authority => simp only; split <;> rfl
  | _ => rfl

theorem replay_authority (lines : List Line) : (replay b lines).governance.operatorAuthority =
    lastSet authoritySet (lit "user") (loadEvents lines) := by
  refine read_replay (·.governance.operatorAuthority) (fun s e => ?_) lines
  unfold applyEvent authoritySet
  cases e.body with
  | policyEngineMode mode =>
    simp only
    by_cases hm : mode = []
    · -- an empty mode is no mode, and the profile stays
      have hne : ¬ RuntimeCore.lowerWord mode = lit "degraded_repair" := by
        rw [hm]
        decide
      rw [if_pos hm, if_neg hne]
      rfl
    · rw [if_neg hm]
      simp only
      rw [forMode_authority]
      split_ifs <;> rfl
  | operatorAuthority authority => simp only; split_ifs <;> rfl
  | _ => rfl

/-- What happens to the item of a bucket after its first confirmation. -/
inductive Later where
  | confirmed (item : IdentityItem)
  | edited (content : Option PyValue) (updatedAt : Option ℚ)

/-- A bucket since it was last emptied: the item that was confirmed first, and what
happened to it. -/
structure Life where
  first : IdentityItem
  later : List Later

def Confirms (type : PyText) (type' : Option PyText) (item : IdentityItem) : Prop :=
  type'.or item.type = some type ∧ type ≠ [] ∧ validateIdentityTrait type = true

instance {type : PyText} {type' : Option PyText} {item : IdentityItem} :
    Decidable (Confirms type type' item) :=
  inferInstanceAs (Decidable (_ ∧ _ ∧ _))

/-- An edit or a deletion of the item counts where it names its id. -/
def lifeStep (type : PyText) : Option Life → Event → Option Life := fun life e =>
  match e.body, life with
  | .identityConfirmed type' (some item), none =>
    if Confirms type type' item then some ⟨item, []⟩ else none
  | .identityConfirmed type' (some item), some l =>
    if Confirms type type' item then some ⟨l.first, l.later ++ [.confirmed item]⟩ else some l
  | .identityEdited type' id content updatedAt, some l =>
    if type' = some type ∧ l.first.id = id then
      some ⟨l.first, l.later ++ [.edited content updatedAt]⟩
    else some l
  | .identityDeleted type' id, some l =>
    if type' = some type ∧ l.first.id = id then none else some l
  | _, life => life

def lifeOf (type : PyText) (events : List Event) : Option Life :=
  Machine.run (lifeStep type) none events

section Node

variable (b) (type : PyText)

def laterNode (node : IdentityItem) : Later → IdentityItem
  | .confirmed item => { node with
      content := some (mergeIdentityTrait b type (node.content.getD .none)
        (item.content.getD .none))
      confidence := some (max (node.confidence.getD 0) (item.confidence.getD 0))
      updatedAt := item.updatedAt.or node.updatedAt
      sourceRefs := node.sourceRefs ++ item.sourceRefs }
  | .edited content updatedAt => { node with
      content := content.or node.content
      updatedAt := updatedAt.or node.updatedAt }

def Life.node (l : Life) : IdentityItem := l.later.foldl (laterNode b type) l.first

def bucketOf : Option Life → List IdentityItem
  | none => []
  | some l => [l.node b type]

end Node

theorem laterNode_id (node : IdentityItem) (x : Later) : (laterNode b type node x).id = node.id := by
  cases x <;> rfl

theorem Life.node_id (l : Life) : (l.node b type).id = l.first.id := by
  obtain ⟨first, later⟩ := l
  unfold Life.node
  simp only
  induction later generalizing first with
  | nil => rfl
  | cons x later ih => rw [List.foldl_cons, ih, laterNode_id]

theorem Life.node_concat (first : IdentityItem) (later : List Later) (x : Later) :
    Life.node b type ⟨first, later ++ [x]⟩ =
      laterNode b type (Life.node b type ⟨first, later⟩) x := by
  unfold Life.node
  rw [List.foldl_append]
  rfl

theorem confirmed_bucketOf (life : Option Life) (item : IdentityItem) :
    confirmItem b type (bucketOf b type life) item =
      bucketOf b type (some (match life with
        | none => ⟨item, []⟩
        | some l => ⟨l.first, l.later ++ [.confirmed item]⟩)) := by
  cases life with
  | none => rfl
  | some l =>
    simp only [bucketOf]
    rw [Life.node_concat]
    rfl

/-- **An event does to the bucket what it does to its life.** -/
theorem applyToBucket_bucketOf (life : Option Life) (e : Event) :
    applyToBucket b type (bucketOf b type life) e.body = bucketOf b type (lifeStep type life e) := by
  unfold lifeStep
  cases e.body with
  | identityConfirmed type' item =>
    cases item with
    | none => cases life <;> rfl
    | some item =>
      change (if Confirms type type' item then confirmItem b type (bucketOf b type life) item
        else bucketOf b type life) = _
      -- the item of another trait, or of none, leaves the bucket
      by_cases hc : Confirms type type' item
      · rw [if_pos hc, confirmed_bucketOf]
        cases life with
        | none => simp only [if_pos hc]
        | some l => simp only [if_pos hc]
      · rw [if_neg hc]
        cases life with
        | none => simp only [if_neg hc]
        | some l => simp only [if_neg hc]
  | identityEdited type' id content updatedAt =>
    unfold applyToBucket
    cases life with
    | none => simp only [bucketOf, editItem, ite_self]
    | some l =>
      simp only [bucketOf, editItem]
      by_cases htype : type' = some type
      · by_cases hid : l.first.id = id
        · -- the item is found by the id of its first confirmation
          rw [if_pos htype, if_pos (l.node_id.trans hid), if_pos ⟨htype, hid⟩]
          simp only
          rw [Life.node_concat]
          rfl
        · rw [if_pos htype, if_neg fun h => hid (l.node_id.symm.trans h),
            if_neg fun h => hid h.2]
      · rw [if_neg htype, if_neg fun h => htype h.1]
  | identityDeleted type' id =>
    unfold applyToBucket
    cases life with
    | none => simp only [bucketOf, deleteItem, List.filter_nil, ite_self]
    | some l =>
      simp only [bucketOf, deleteItem]
      by_cases htype : type' = some type
      · by_cases hid : l.first.id = id
        · rw [if_pos htype, if_pos ⟨htype, hid⟩]
          simp [Life.node_id, hid]
        · rw [if_pos htype, if_neg fun h => hid h.2]
          simp [Life.node_id, hid]
      · rw [if_neg htype, if_neg fun h => htype h.1]
  | _ => cases life <;> rfl

theorem applyEvent_bucket (s : RuntimeState) (e : Event) :
    (applyEvent b s e).memoryBuckets type = applyToBucket b type (s.memoryBuckets type) e.body := by
  unfold applyEvent
  cases e.body with
  | policyEngineMode mode => simp only; split <;> rfl
  | operatorAuthority authority => simp only; split <;> rfl
  | _ => rfl

/-- **A bucket holds what happened since it was last emptied.** -/
theorem replay_bucket (type : PyText) (lines : List Line) :
    (replay b lines).memoryBuckets type = bucketOf b type (lifeOf type (loadEvents lines)) := by
  -- the induction carries the life along with the state
  have hrun : ∀ (events : List Event) (s : RuntimeState) (life : Option Life),
      s.memoryBuckets type = bucketOf b type life →
        (Machine.run (applyEvent b) s events).memoryBuckets type =
          bucketOf b type (Machine.run (lifeStep type) life events) := by
    intro events
    induction events with
    | nil => exact fun s life h => h
    | cons e events ih =>
      intro s life h
      refine ih _ _ ?_
      rw [applyEvent_bucket, h, applyToBucket_bucketOf]
  exact hrun _ _ none rfl

/-! ### Lives that leave the same item -/

section Same

variable (b) (type : PyText)

def Life.content (l : Life) : Option PyValue :=
  l.later.foldl (fun content x => match x with
    | .confirmed item =>
      some (mergeIdentityTrait b type (content.getD .none) (item.content.getD .none))
    | .edited content' _ => content'.or content) l.first.content

/-- The highest confidence of the confirmations; the first alone is kept as it is. -/
def Life.confidence (l : Life) : Option ℚ :=
  l.later.foldl (fun confidence x => match x with
    | .confirmed item => some (max (confidence.getD 0) (item.confidence.getD 0))
    | .edited _ _ => confidence) l.first.confidence

def Life.updatedAt (l : Life) : Option ℚ :=
  l.later.foldl (fun updatedAt x => match x with
    | .confirmed item => item.updatedAt.or updatedAt
    | .edited _ updatedAt' => updatedAt'.or updatedAt) l.first.updatedAt

def Later.sourceRefs : Later → List PyText
  | .confirmed item => item.sourceRefs
  | .edited _ _ => []

def Life.sourceRefs (l : Life) : List PyText :=
  l.first.sourceRefs ++ l.later.flatMap Later.sourceRefs

def SameItem : Option Life → Option Life → Prop
  | none, none => True
  | some l, some l' =>
    l.first.id = l'.first.id ∧ l.first.type = l'.first.type ∧ l.first.others = l'.first.others ∧
      l.content b type = l'.content b type ∧ l.confidence = l'.confidence ∧
      l.updatedAt = l'.updatedAt ∧ l.sourceRefs = l'.sourceRefs
  | _, _ => False

end Same

theorem Life.node_eq (l : Life) : l.node b type = {
    id := l.first.id
    type := l.first.type
    content := l.content b type
    confidence := l.confidence
    updatedAt := l.updatedAt
    sourceRefs := l.sourceRefs
    others := l.first.others } := by
  obtain ⟨first, later⟩ := l
  -- the last change first: each member of the item is a fold of its own
  induction later using List.reverseRecOn with
  | nil => simp [Life.node, Life.content, Life.confidence, Life.updatedAt, Life.sourceRefs]
  | append_singleton later x ih =>
    rw [Life.node_concat, ih]
    unfold Life.content Life.confidence Life.updatedAt Life.sourceRefs
    simp only [List.foldl_append, List.foldl_cons, List.foldl_nil, List.flatMap_append,
      List.flatMap_cons, List.flatMap_nil, List.append_nil, ← List.append_assoc]
    cases x with
    | confirmed item => rfl
    | edited content updatedAt =>
      simp only [laterNode, Later.sourceRefs, List.append_nil]

theorem bucketOf_eq_iff (life life' : Option Life) :
    bucketOf b type life = bucketOf b type life' ↔ SameItem b type life life' := by
  cases life with
  | none =>
    cases life' with
    | none => exact iff_of_true rfl trivial
    | some l' => exact iff_of_false (List.cons_ne_nil _ _).symm not_false
  | some l =>
    cases life' with
    | none => exact iff_of_false (List.cons_ne_nil _ _) not_false
    | some l' =>
      simp only [bucketOf, SameItem, List.cons.injEq, and_true, Life.node_eq,
        IdentityItem.mk.injEq]
      tauto

def droppedCount (lines : List Line) (maxLines : ℤ) : ℕ :=
  if (lines.length : ℤ) ≤ maxLines then 0
  else if 0 < maxLines then lines.length - maxLines.toNat
  else (-maxLines).toNat

theorem trimEventLog_eq (lines : List Line) (maxLines : ℤ) :
    trimEventLog lines maxLines = lines.drop (droppedCount lines maxLines) := by
  unfold trimEventLog droppedCount
  by_cases hlen : (lines.length : ℤ) ≤ maxLines
  · rw [if_pos hlen, if_pos hlen]
    rfl
  · rw [if_neg hlen, if_neg hlen]
    unfold sliceFrom
    by_cases hpos : 0 < maxLines
    · rw [if_pos hpos, if_pos (by omega)]
      congr 2
      omega
    · rw [if_neg hpos, if_neg (by omega)]
      congr 1
      omega

/-- The replay of the trimmed log has the authority that the whole log gives. -/
structure Preserves (b : PyBuiltins) (lines : List Line) (maxLines : ℤ) : Prop where
  buckets : ∀ type, (replay b (trimEventLog lines maxLines)).memoryBuckets type =
    (replay b lines).memoryBuckets type
  killswitch : (replay b (trimEventLog lines maxLines)).killswitchEngaged =
    (replay b lines).killswitchEngaged
  executionMode : (replay b (trimEventLog lines maxLines)).executionMode =
    (replay b lines).executionMode
  mode : (replay b (trimEventLog lines maxLines)).governance.mode =
    (replay b lines).governance.mode
  authority : (replay b (trimEventLog lines maxLines)).governance.operatorAuthority =
    (replay b lines).governance.operatorAuthority

/-- The kept events set each register last to what all events set it last, and since the
last deletion they make the same item of each trait. -/
structure Harmless (b : PyBuiltins) (kept all : List Event) : Prop where
  killswitch : lastSet killswitchSet false kept = lastSet killswitchSet false all
  executionMode : lastSet (fun e => executionModeSet e.body) (lit "plan") kept =
    lastSet (fun e => executionModeSet e.body) (lit "plan") all
  mode : lastSet modeSet (lit "standard") kept = lastSet modeSet (lit "standard") all
  authority : lastSet authoritySet (lit "user") kept = lastSet authoritySet (lit "user") all
  items : ∀ type, SameItem b type (lifeOf type kept) (lifeOf type all)

/-- **Trimming preserves the authority exactly when the dropped lines are harmless.** -/
theorem trim_preserves_iff (b : PyBuiltins) (lines : List Line) (maxLines : ℤ) :
    Preserves b lines maxLines ↔
      Harmless b (loadEvents (lines.drop (droppedCount lines maxLines))) (loadEvents lines) := by
  rw [← trimEventLog_eq]
  constructor
  · intro h
    refine ⟨?_, ?_, ?_, ?_, fun type => ?_⟩
    · rw [← replay_killswitch (b := b), ← replay_killswitch (b := b)]
      exact h.killswitch
    · rw [← replay_executionMode (b := b), ← replay_executionMode (b := b)]
      exact h.executionMode
    · rw [← replay_mode (b := b), ← replay_mode (b := b)]
      exact h.mode
    · rw [← replay_authority (b := b), ← replay_authority (b := b)]
      exact h.authority
    · rw [← bucketOf_eq_iff, ← replay_bucket, ← replay_bucket]
      exact h.buckets type
  · intro h
    refine ⟨fun type => ?_, ?_, ?_, ?_, ?_⟩
    · rw [replay_bucket, replay_bucket]
      exact (bucketOf_eq_iff _ _).2 (h.items type)
    · rw [replay_killswitch, replay_killswitch]
      exact h.killswitch
    · rw [replay_executionMode, replay_executionMode]
      exact h.executionMode
    · rw [replay_mode, replay_mode]
      exact h.mode
    · rw [replay_authority, replay_authority]
      exact h.authority

def acts (e : Event) : Bool :=
  match e.body with
  | .identityProposed .. => false
  | .other _ => false
  | _ => true

theorem applyEvent_idle (s : RuntimeState) (e : Event) (h : acts e = false) :
    applyEvent b s e = s := by
  unfold acts at h
  unfold applyEvent
  split at h
  · rename_i heq
    rw [heq]
    rfl
  · rename_i heq
    rw [heq]
    rfl
  · cases h

theorem replay_acting (lines : List Line) : replay b lines =
    Machine.run (applyEvent b) {} (sortBySeq ((lines.filterMap id).filter acts)) := by
  have hsorted : sortBySeq ((lines.filterMap id).filter acts) = (loadEvents lines).filter acts :=
    (List.filter_insertionSort acts _).symm
  rw [hsorted, Machine.run_filter applyEvent_idle]
  rfl

theorem acting_nil (h : ∀ e, some e ∈ lines → acts e = false) :
    (lines.filterMap id).filter acts = [] := by
  refine List.filter_eq_nil_iff.2 fun e he => ?_
  obtain ⟨line, hline, hsome⟩ := List.mem_filterMap.1 he
  have hidle := h e (hsome ▸ hline)
  rw [hidle]
  exact Bool.false_ne_true

/-- **Dropping idle events loses nothing.** -/
theorem preserves_of_idle (h : ∀ e, some e ∈ lines.take (droppedCount lines maxLines) →
    acts e = false) : Preserves b lines maxLines := by
  have hreplay : replay b (trimEventLog lines maxLines) = replay b lines := by
    rw [trimEventLog_eq, replay_acting, replay_acting]
    conv_rhs => rw [← List.take_append_drop (droppedCount lines maxLines) lines]
    rw [List.filterMap_append, List.filter_append, acting_nil h, List.nil_append]
  constructor
  · intro type
    rw [hreplay]
  all_goals rw [hreplay]

def purposeItem : IdentityItem where
  id := some (lit "p1")
  type := some (lit "purpose")
  content := some (.str (lit "serve"))

def authorityEvents : List Event := [
  { seq := 1, body := .identityConfirmed (some (lit "purpose")) (some purposeItem) },
  { seq := 2, body := .killswitchEngaged (lit "halt") }]

def tick : Event := { seq := 3, body := .other (lit "tick") }

def busyLog : List Line := authorityEvents.map some ++ List.replicate 5000 (some tick)

theorem ticks_idle (n : ℕ) : ((List.replicate n (some tick)).filterMap id).filter acts = [] := by
  refine acting_nil fun e he => ?_
  cases (List.mem_replicate.1 he).2
  rfl

theorem busyLog_dropped : droppedCount busyLog 5000 = 2 := by
  have hlen : busyLog.length = 5002 := by
    unfold busyLog
    rw [List.length_append, List.length_replicate]
    rfl
  unfold droppedCount
  rw [hlen]
  rfl

theorem busyLog_trimmed : trimEventLog busyLog 5000 = List.replicate 5000 (some tick) := by
  rw [trimEventLog_eq, busyLog_dropped]
  exact List.drop_left' rfl

/-- **The purpose and the killswitch are lost at the next start.** -/
theorem busyLog_loses_authority : droppedCount busyLog 5000 = 2 ∧
    ∀ b, (replay b busyLog).memoryBuckets (lit "purpose") = [purposeItem] ∧
      (replay b busyLog).killswitchEngaged = true ∧
      (replay b (trimEventLog busyLog 5000)).memoryBuckets (lit "purpose") = [] ∧
      (replay b (trimEventLog busyLog 5000)).killswitchEngaged = false ∧
      ¬ Preserves b busyLog 5000 := by
  refine ⟨busyLog_dropped, fun b => ?_⟩
  -- the ticks do not matter, and nothing else is left of the trimmed log
  have hwhole : replay b busyLog = Machine.run (applyEvent b) {} (sortBySeq authorityEvents) := by
    rw [replay_acting]
    unfold busyLog
    rw [List.filterMap_append, List.filter_append, ticks_idle]
    rfl
  have htrimmed : replay b (trimEventLog busyLog 5000) = {} := by
    rw [busyLog_trimmed, replay_acting, ticks_idle]
    rfl
  have hengaged : (replay b busyLog).killswitchEngaged = true := by
    rw [hwhole]
    rfl
  have hreleased : (replay b (trimEventLog busyLog 5000)).killswitchEngaged = false := by
    rw [htrimmed]
  refine ⟨by rw [hwhole]; rfl, hengaged, by rw [htrimmed], hreleased, fun h => ?_⟩
  have hsame := h.killswitch
  rw [hengaged, hreleased] at hsame
  cases hsame

end ClawHarder.EventLog
