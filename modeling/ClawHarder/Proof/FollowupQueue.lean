import ClawHarder.Proof.FollowupDrain

/-!
# No follow-up is lost or handled twice

Of the runs that were dropped under `summarize`, `droppedCount` counts those that no
summary has named; a summary on its way names all that it counted when the call was made.
What is dropped later is cleared with them, and a count is cleared too when the last item
of a queue was aborted.

* `tallied_step`: the count, over a step.
* `accounted_always`: **every accepted run is accounted for once**, in every state of a
  run without such steps.
-/

namespace ClawHarder.Followup

variable {H : RouteHost} {q : Queue} {w : World}

def Counted (w : World) : Event → Prop
  | .resume => ∀ q ∈ w.queue, ∀ d ∈ q.drain, q.Clears d.place → q.uncounted = []
  | _ => True

instance (w : World) : ∀ e, Decidable (Counted w e)
  | .resume => inferInstanceAs (Decidable (∀ q ∈ w.queue, ∀ d ∈ q.drain, _))
  | .enqueue _ | .abort _ | .schedule => inferInstanceAs (Decidable True)

/-- **The runs dropped under `summarize` are each named by one summary, or still counted.** -/
structure Tallied (w : World) : Prop where
  summaries : (summarized w.calls ++ w.uncounted).Perm w.overflowed
  named : ∀ q, w.queue = some q → q.Named

theorem uncounted_idle (hq : w.queue = some q) (hd : q.drain = none) :
    w.uncounted = q.overflow := by
  unfold World.uncounted Queue.uncounted
  rw [hq]
  simp only [Option.elim, hd]

theorem uncounted_eq (hq : w.queue = some q) : w.uncounted = q.uncounted := by
  unfold World.uncounted
  rw [hq]
  rfl

theorem tallied_after {st : Stretch} (hw : Tallied w) (hcount : w.uncounted = q.overflow)
    (hlands : Lands q st) : Tallied (w.after st) where
  summaries := by
    have hsum := hw.summaries
    rw [hcount] at hsum
    refine List.Perm.trans ?_ hsum
    change (summarized (w.calls ++ st.2) ++ st.1.elim [] Queue.uncounted).Perm _
    rw [summarized_append, List.append_assoc]
    exact List.Perm.append_left _ hlands.summaries
  named := hlands.named

theorem tallied_schedule (hw : Tallied w) : Tallied w.scheduleFollowupDrain := by
  unfold World.scheduleFollowupDrain
  split
  next q hq =>
    split
    next hd =>
      have hcallback : Tallied { w with callback := true } := ⟨hw.summaries, hw.named⟩
      exact tallied_after hcallback (uncounted_idle hq hd) lands_loopTop
    next => exact hw
  next => exact hw

theorem named_of_not_clears {place : Await} (hplaced : Placed q.items place)
    (h : ¬ q.Clears place) : place.named = [] := by
  cases place with
  | group size groups pendingSummary =>
    cases pendingSummary with
    | none => rfl
    | some summary => exact absurd rfl h
  | summaryOnly summary => exact absurd trivial h
  | summaryNext summary => exact hplaced.elim
  | summaryNextDone summary => exact hplaced.elim
  | _ => rfl

theorem tallied_resume (hs : Sound w) (hw : Tallied w) (hok : Undisturbed w .resume)
    (hcounted : Counted w .resume) : Tallied (w.step H .resume) := by
  unfold World.step
  simp only
  split
  next q hq =>
    split
    next d hd =>
      have hplaced := hs.placed q hq d hd
      have hround : d.place.beforeRound → ¬ q.Displaces := hok q hq d hd
      have hcount : w.uncounted = (q.settle d.place).overflow := by
        rw [uncounted_eq hq]
        by_cases hclears : q.Clears d.place
        · rw [← settle_of_clears hclears]
          exact hcounted q hq d hd hclears
        · rw [← settle_of_not_clears hclears]
          unfold Queue.uncounted
          simp only [hd, named_of_not_clears hplaced hclears]
          rfl
      exact tallied_after hw hcount (resume_lands hplaced hround)
    next => exact hw
  next => exact hw

theorem tallied_settings {q' : Queue} (hw : Tallied w)
    (hoverflow : q'.overflow = w.queue.elim [] (·.overflow))
    (hdrain : q'.drain = w.queue.bind (·.drain)) : Tallied { w with queue := some q' } := by
  have hcount : World.uncounted { w with queue := some q' } = w.uncounted := by
    unfold World.uncounted Queue.uncounted
    cases hq : w.queue with
    | none =>
      rw [hq] at hoverflow hdrain
      simp only [Option.elim, hoverflow, hdrain, Option.bind_none]
    | some q =>
      rw [hq] at hoverflow hdrain
      simp only [Option.elim, hoverflow, hdrain, Option.bind_some]
  refine ⟨?_, ?_⟩
  · rw [hcount]
    exact hw.summaries
  · rintro _ ⟨⟩ d hd
    rw [hdrain] at hd
    obtain ⟨q, hq, hqd⟩ := Option.bind_eq_some_iff.1 hd
    rw [hoverflow, hq]
    exact hw.named q hq d hqd

theorem tallied_push {w' : World} {q' : Queue} {more : List Queued} (hw : Tallied w)
    (hq : w.queue = some q) (hqueue : w'.queue = some q') (hdrain : q'.drain = q.drain)
    (hoverflow : q'.overflow = q.overflow ++ more) (hcalls : w'.calls = w.calls)
    (hoverflowed : w'.overflowed = w.overflowed ++ more) : Tallied w' := by
  have hcount : q'.uncounted = q.uncounted ++ more := by
    unfold Queue.uncounted
    rw [hdrain]
    cases hd : q.drain with
    | none => exact hoverflow
    | some d =>
      simp only
      rw [hoverflow, List.drop_append_of_le_length (hw.named q hq d hd)]
  have hsum := hw.summaries
  rw [uncounted_eq hq] at hsum
  refine ⟨?_, ?_⟩
  · rw [uncounted_eq hqueue, hcount, hcalls, hoverflowed, ← List.append_assoc]
    exact List.Perm.append_right _ hsum
  · intro q'' hq''
    rw [hqueue] at hq''
    cases hq''
    intro d hd
    rw [hdrain] at hd
    have hle := hw.named q hq d hd
    rw [hoverflow, List.length_append]
    omega

theorem tallied_enqueue (hw : Tallied w) (call : Enqueue) : Tallied (w.enqueueFollowupRun call) := by
  obtain ⟨-, hdrain, hoverflow⟩ := getFollowupQueue_fields w.queue call.settings
  unfold World.enqueueFollowupRun
  split
  · exact hw
  · simp only
    split
    · exact tallied_settings hw hoverflow hdrain
    · have hbefore : Tallied { w with queue := some { getFollowupQueue w.queue call.settings with
          lastRun := some call.run.run } } := tallied_settings hw hoverflow hdrain
      split
      · exact hbefore
      next q' dropped hpolicy =>
        obtain ⟨-, hsame, hpol, hold, hnew⟩ := applyQueueDropPolicy_some hpolicy
        have hafter : Tallied { w with
            queue := some { q' with items := q'.items ++ [⟨w.accepted.length, call.run⟩] }
            callback := w.callback || call.callback
            accepted := w.accepted ++ [⟨w.accepted.length, call.run⟩]
            discarded := if q'.dropPolicy = .old then w.discarded ++ dropped else w.discarded
            overflowed :=
              if q'.dropPolicy = .old then w.overflowed else w.overflowed ++ dropped } := by
          by_cases hpold : q'.dropPolicy = .old
          · have hnone : q'.overflow = (getFollowupQueue w.queue call.settings).overflow ++ [] := by
              rw [List.append_nil]
              exact hold (hpol.symm.trans hpold)
            refine tallied_push hbefore rfl rfl hsame hnone rfl ?_
            rw [List.append_nil]
            exact if_pos hpold
          · refine tallied_push hbefore rfl rfl hsame (hnew ?_) rfl (if_neg hpold)
            exact fun h => hpold (hpol.trans h)
        split
        · exact tallied_schedule hafter
        · exact hafter

def Accountable (w : World) (e : Event) : Prop := Undisturbed w e ∧ Counted w e

instance (w : World) (e : Event) : Decidable (Accountable w e) :=
  inferInstanceAs (Decidable (_ ∧ _))

theorem tallied_step (H : RouteHost) (w : World) (e : Event) (hw : Sound w ∧ Tallied w)
    (hok : Accountable w e) : Sound (w.step H e) ∧ Tallied (w.step H e) := by
  refine ⟨sound_step H w e hw.1 hok.1, ?_⟩
  cases e with
  | enqueue call => exact tallied_enqueue hw.2 call
  | abort signal => exact ⟨hw.2.summaries, hw.2.named⟩
  | schedule => exact tallied_schedule hw.2
  | resume => exact tallied_resume hw.1 hw.2 hok.1 hok.2

/-- Every accepted run has its own ticket and is in one place: it waits, one call has it,
or it was dropped; and if it was dropped under `summarize`, one summary counts it or
`droppedCount` still does. -/
structure Accounted (w : World) : Prop where
  tickets : (w.accepted.map Queued.ticket).Nodup
  runs : (w.waiting ++ handed w.calls ++ (w.discarded ++ w.overflowed)).Perm w.accepted
  summaries : (summarized w.calls ++ w.uncounted).Perm w.overflowed

/-- **In every state every accepted run is accounted for exactly once**, in a run in which
no enqueue drops runs under a call, no summary takes an item's place and no run is cleared
from the count that no summary names. -/
theorem accounted_always (H : RouteHost) (events : List Event)
    (hok : Machine.Guarded (World.step H) Accountable {} events) :
    Machine.Always (World.step H) Accounted {} events := by
  have hnew : Sound {} ∧ Tallied {} := ⟨sound_new, List.Perm.refl _, by rintro q ⟨⟩⟩
  have hall := Machine.always_of_guarded (tallied_step H) hnew hok
  intro before hbefore
  obtain ⟨hsound, htallied⟩ := hall before hbefore
  refine ⟨?_, hsound.runs, htallied.summaries⟩
  rw [hsound.tickets]
  exact List.nodup_range

theorem id_empty : id "" = "" := rfl

def plainRoutes : RouteHost where
  trim := id
  trim_empty := id_empty
  toLowerCase := id
  printed n := toString n
  isRoutableChannel _ := false

def enqueueOne (sender : String) (mode : QueueMode) (policy : DropPolicy) : Event :=
  .enqueue {
    run := { run := { senderId := some sender } }
    settings := { mode, cap := .finite 1, dropPolicy := some policy } }

/-- Three runs, of which the first is dropped at the debounce and named in a summary. -/
def summarizedRun : List Event :=
  [enqueueOne "ada" .collect .summarize, .resume, enqueueOne "bob" .collect .summarize,
    .resume, .resume, .resume, .resume, .resume, enqueueOne "eve" .collect .new, .resume]

theorem summarized_run_accounted :
    Machine.Always (World.step plainRoutes) Accounted {} summarizedRun :=
  accounted_always plainRoutes summarizedRun (by decide +kernel)

/-- A run is enqueued with a cap of one while the first is being handled. -/
def crowdedRun : List Event :=
  [enqueueOne "ada" .followup .old, .resume, .resume, .resume, enqueueOne "bob" .followup .old,
    .resume]

/-- **A run that was never handled is removed in the place of one that was dropped.** -/
theorem crowded_run_loses : ¬ ∀ H events, Machine.Always (World.step H) Accounted {} events := by
  intro h
  have htickets := (h plainRoutes crowdedRun crowdedRun List.prefix_rfl).runs.map Queued.ticket
  exact absurd htickets (by decide +kernel)

section Size

variable {H : RouteHost} {ab : Queued → Bool} {m : ℕ} {q : Queue} {w : World} {force : Bool}

/-- At most `m` runs wait, and a summary has at most `m` lines. -/
structure Queue.Short (m : ℕ) (q : Queue) : Prop where
  items : q.items.length ≤ m
  lines : q.summaryLines.length ≤ m

def LeftShort (m : ℕ) (queue : Option Queue) : Prop := ∀ q ∈ queue, q.Short m

theorem short_shrunk {items : List Queued} (h : q.Short m) (hitems : items.length ≤ q.items.length) :
    { q with items := items }.Short m :=
  ⟨hitems.trans h.items, h.lines⟩

theorem short_cleared (h : q.Short m) : (clearFollowupQueueSummaryState q).Short m :=
  ⟨h.items, Nat.zero_le m⟩

theorem short_awaiting {place : Await} {calls : List Call} (h : q.Short m) :
    LeftShort m (awaiting q force place calls).1 := by
  rintro _ ⟨⟩
  exact ⟨h.items, h.lines⟩

theorem short_dropAborted {second : Bool} {dropped index : ℕ} (h : q.Short m) :
    LeftShort m (dropAbortedFollowups ab q force second dropped index).1 := by
  unfold dropAbortedFollowups
  split
  · exact short_awaiting h
  · exact short_awaiting h

theorem short_finish (h : q.Short m) : LeftShort m (finish ab q).1 := by
  unfold finish
  split
  · exact fun _ hq => absurd hq (Option.not_mem_none _)
  · exact short_dropAborted h

theorem short_loopTop (h : q.Short m) : LeftShort m (loopTop ab q force).1 := by
  unfold loopTop
  split
  · exact short_finish h
  · exact short_dropAborted h

theorem short_drainNext {none_ : Await} (h : q.Short m) :
    LeftShort m (drainNextQueueItem q force none_).1 := by
  unfold drainNextQueueItem
  split
  · exact short_awaiting h
  · exact short_awaiting h

theorem short_callSummary (h : q.Short m) : LeftShort m (callSummary ab q force).1 := by
  unfold callSummary
  split
  · exact short_awaiting h
  · exact short_finish h

theorem short_callGroup {group : List Queued} {groups : List (List Queued)} {summary : Option Summary}
    (h : q.Short m) : LeftShort m (callGroup ab q force group groups summary).1 := by
  unfold callGroup
  split
  · exact short_loopTop h
  · exact short_awaiting h

theorem short_round (h : q.Short m) : LeftShort m (round H ab q force).1 := by
  unfold round
  split
  · simp only
    split
    · exact short_awaiting h
    · exact short_drainNext h
  · split
    · exact short_drainNext h
    · split
      · exact short_finish h
      · exact short_awaiting h
      · exact short_awaiting h

theorem short_resume {place : Await} (h : q.Short m) : LeftShort m (resume H ab q force place).1 := by
  have htail : { q with items := q.items.tail }.Short m :=
    short_shrunk h (by rw [List.length_tail]; omega)
  cases place with
  | aborting second index dropped =>
    have herase : { q with items := q.items.eraseIdx index }.Short m :=
      short_shrunk h (List.length_eraseIdx_le ..)
    simp only [resume]
    split
    · exact short_finish herase
    · exact short_dropAborted herase
  | abortsDone second dropped =>
    have hcleared : (if 0 < dropped ∧ q.items = [] then clearFollowupQueueSummaryState q
        else q).Short m := by
      split
      · exact short_cleared h
      · exact h
    simp only [resume]
    generalize (if 0 < dropped ∧ q.items = [] then clearFollowupQueueSummaryState q else q) = q'
      at hcleared ⊢
    split
    · exact short_finish hcleared
    · split
      · exact short_round hcleared
      · exact short_awaiting hcleared
  | debounce => exact short_dropAborted h
  | next => exact short_awaiting htail
  | nextDone => exact short_loopTop h
  | nextNone => exact short_finish h
  | skipped =>
    simp only [resume]
    split
    · exact short_callSummary h
    · exact short_callGroup h
  | empty => exact short_callSummary h
  | group size groups pendingSummary =>
    have hdrop : { q with items := q.items.drop size }.Short m :=
      short_shrunk h (by rw [List.length_drop]; omega)
    have hcleared : (if pendingSummary.isSome then clearFollowupQueueSummaryState
        { q with items := q.items.drop size } else { q with items := q.items.drop size }).Short m := by
      split
      · exact short_cleared hdrop
      · exact hdrop
    cases groups with
    | nil => exact short_loopTop hcleared
    | cons group groups => exact short_callGroup hcleared
  | summaryOnly summary => exact short_loopTop (short_cleared h)
  | summaryNext summary => exact short_awaiting htail
  | summaryNextDone summary => exact short_loopTop (short_cleared h)

theorem short_schedule (h : LeftShort m w.queue) : LeftShort m w.scheduleFollowupDrain.queue := by
  unfold World.scheduleFollowupDrain
  split
  next q hq =>
    split
    · exact short_loopTop (h q hq)
    · exact h
  · exact h

/-- The cap in force at an enqueue is a positive one, of at most `m`. -/
def CappedAt (m : ℕ) (w : World) : Event → Prop
  | .enqueue call => ∃ cap ∈ (getFollowupQueue w.queue call.settings).cap, 0 < cap ∧ cap ≤ m
  | _ => True

instance (m : ℕ) (w : World) : ∀ e, Decidable (CappedAt m w e)
  | .enqueue _ => inferInstanceAs (Decidable (∃ cap ∈ _, _))
  | .abort _ | .schedule | .resume => inferInstanceAs (Decidable True)

/-- Under the cap there is room for one more, or so many are dropped that there is. -/
theorem short_policy {q' : Queue} {dropped : List Queued} {cap : ℕ} (h : q.Short m)
    (hcap : q.cap = some cap) (hpos : 0 < cap) (hle : cap ≤ m)
    (hpolicy : applyQueueDropPolicy q = some (q', dropped)) :
    q'.items.length < m ∧ q'.summaryLines.length ≤ m := by
  have hlines := h.lines
  have hitems := h.items
  simp only [applyQueueDropPolicy, hcap] at hpolicy
  split_ifs at hpolicy with hroom hnew hsum
  · cases hpolicy
    omega
  · cases hpolicy
    simp only [List.length_drop, List.length_append, List.length_map]
    omega
  · cases hpolicy
    simp only [List.length_drop]
    omega

theorem short_enqueue (h : LeftShort m w.queue) {call : Enqueue} (hok : CappedAt m w (.enqueue call)) :
    LeftShort m (w.enqueueFollowupRun call).queue := by
  obtain ⟨cap, hcap, hpos, hle⟩ := hok
  have hfound : (getFollowupQueue w.queue call.settings).Short m := by
    cases hq : w.queue with
    | none => exact ⟨Nat.zero_le m, Nat.zero_le m⟩
    | some q => exact ⟨(h q hq).items, (h q hq).lines⟩
  have hnext : { getFollowupQueue w.queue call.settings with lastRun := some call.run.run }.Short m :=
    ⟨hfound.items, hfound.lines⟩
  unfold World.enqueueFollowupRun
  split
  · exact h
  · simp only
    -- a duplicate, or one that the policy refuses, leaves the runs as they are
    split
    · rintro _ ⟨⟩
      exact hfound
    · split
      · rintro _ ⟨⟩
        exact hnext
      next q' dropped hpolicy =>
        obtain ⟨hitems, hlines⟩ := short_policy hnext hcap hpos hle hpolicy
        have hpushed : LeftShort m
            (some { q' with items := q'.items ++ [⟨w.accepted.length, call.run⟩] }) := by
          rintro _ ⟨⟩
          refine ⟨?_, hlines⟩
          simp only [List.length_append, List.length_singleton]
          omega
        split
        · exact short_schedule hpushed
        · exact hpushed

theorem short_step (H : RouteHost) (w : World) (e : Event) (h : LeftShort m w.queue)
    (hok : CappedAt m w e) : LeftShort m (w.step H e).queue := by
  cases e with
  | enqueue call => exact short_enqueue h hok
  | abort signal => exact h
  | schedule => exact short_schedule h
  | resume =>
    simp only [World.step]
    split
    next q hq =>
      split
      · exact short_resume (h q hq)
      · exact h
    · exact h

/-- **No more runs wait than the largest cap that was in force at an enqueue**, whatever is aborted or
scheduled meanwhile and wherever the drain is. -/
theorem queue_bounded (H : RouteHost) (m : ℕ) (events : List Event)
    (hcaps : Machine.Guarded (World.step H) (CappedAt m) {} events) :
    Machine.Always (World.step H) (fun w => LeftShort m w.queue) {} events :=
  Machine.always_of_guarded (short_step H) (fun _ hq => absurd hq (Option.not_mem_none _)) hcaps

end Size

theorem crowded_run_bounded :
    Machine.Always (World.step plainRoutes) (fun w => LeftShort 1 w.queue) {} crowdedRun :=
  queue_bounded plainRoutes 1 crowdedRun (by decide +kernel)

end ClawHarder.Followup
