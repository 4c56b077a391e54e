import ClawHarder.Proof.FollowupDrain
import Mathlib.Data.List.Chain

/-!
# Collect batches

A batch is a group of neighbours in the queue with one authorization key. That they have
one reply route is decided by `hasCrossChannelItems`, before an await at which runs may
arrive, and by a compact key that two routes may share.

* `uniform_split`: the groups, if neighbours with one key have one route.
* `collected_always`: **the runs of a call have one key and one route, and the calls keep
  the order of the queue**.
-/

namespace ClawHarder.Followup

variable {H : RouteHost} {ab : Queued → Bool} {q : Queue} {force : Bool} {w : World}

def Queued.route (H : RouteHost) (item : Queued) : ReplyRoute := item.run.origin.replyRoute H

def Queued.crossKey (H : RouteHost) (item : Queued) : CrossKey :=
  resolveCrossChannelKey H item.run.origin

def Uniform (H : RouteHost) (items : List Queued) : Prop :=
  ∀ a ∈ items, ∀ b ∈ items, a.key = b.key ∧ a.route H = b.route H

/-- An item may follow another one in the queue while the drain awaits that it may collect:
if the authorization key is the same, so is the route, or at least its compact key. -/
def Follows (H : RouteHost) (a b : Queued) : Prop :=
  a.key = b.key → a.route H = b.route H ∨ (a.crossKey H = b.crossKey H ∧ ∃ k, a.crossKey H = .key k)

theorem normalize_of_blank {value : Option String} (h : (truthy value).isNone) :
    normalizeOptionalString H value = none := by
  cases value with
  | none => rfl
  | some s =>
    have hs : s = "" := by simpa [truthy] using h
    subst hs
    simp [normalizeOptionalString, H.trim_empty]

theorem route_of_blank {o : Origin} (h : resolveCrossChannelKey H o = .blank) :
    o.replyRoute H = ⟨"", "", "", ""⟩ := by
  unfold resolveCrossChannelKey at h
  split at h
  next hblank =>
    simp only [Bool.and_eq_true] at hblank
    obtain ⟨⟨⟨hchannel, htarget⟩, haccount⟩, hthread⟩ := hblank
    have hid : stringifyRouteThreadId H o.threadId = none := by
      simp only [blankThread, Bool.or_eq_true, Option.isNone_iff_eq_none, decide_eq_true_eq]
        at hthread
      rcases hthread with hnone | hempty
      · rw [hnone]
        rfl
      · rw [hempty]
        simp [stringifyRouteThreadId, normalizeOptionalString, H.trim_empty]
    unfold Origin.replyRoute normalizeOptionalAccountId
    rw [normalize_of_blank hchannel, normalize_of_blank htarget, normalize_of_blank haccount, hid]
    rfl
  next =>
    split at h
    · cases h
    · split at h <;> cases h

variable {items : List Queued}

theorem mem_routeKeys {k : String} :
    k ∈ ((items.map (Queued.crossKey H)).filterMap CrossKey.key?).dedup ↔
      ∃ c ∈ items, c.crossKey H = .key k := by
  rw [List.mem_dedup, List.filterMap_map, List.mem_filterMap]
  refine exists_congr fun c => and_congr_right fun _ => ?_
  change (c.crossKey H).key? = some k ↔ _
  cases c.crossKey H with
  | key k' => simp [CrossKey.key?]
  | _ => exact iff_of_false (by rintro ⟨⟩) (by rintro ⟨⟩)

/-- **Items that are not mixed**: any two may follow each other. -/
theorem not_cross_follows (h : hasCrossChannelItems H items = false)
    {a b : Queued} (ha : a ∈ items) (hb : b ∈ items) : Follows H a b := by
  intro _
  unfold hasCrossChannelItems at h
  change ((items.map (Queued.crossKey H)).any (· = .cross) ||
    (!((items.map (Queued.crossKey H)).filterMap CrossKey.key?).dedup.isEmpty &&
      ((items.map (Queued.crossKey H)).any (· = .blank) ||
        decide (1 < ((items.map (Queued.crossKey H)).filterMap CrossKey.key?).dedup.length)))) =
    false at h
  rw [Bool.or_eq_false_iff, List.any_map, List.any_eq_false] at h
  obtain ⟨hcross, hkeys⟩ := h
  have hnotcross : ∀ c ∈ items, c.crossKey H ≠ .cross := by
    intro c hc hk
    exact hcross c hc (by simp [hk])
  -- one key means that no item is blank and that there is no second key
  have hone : ∀ c ∈ items, ∀ k, c.crossKey H = .key k → ∀ c' ∈ items, c'.crossKey H = .key k := by
    intro c hc k hk c' hc'
    have hmem := mem_routeKeys.2 ⟨c, hc, hk⟩
    rw [List.isEmpty_eq_false_iff.2 (List.ne_nil_of_mem hmem), Bool.not_false, Bool.true_and,
      Bool.or_eq_false_iff, List.any_map, List.any_eq_false, decide_eq_false_iff_not] at hkeys
    obtain ⟨hblank, hlen⟩ := hkeys
    cases hk' : c'.crossKey H with
    | cross => exact absurd hk' (hnotcross c' hc')
    | blank => exact absurd (by simp [hk']) (hblank c' hc')
    | key k' =>
      have hmem' := mem_routeKeys.2 ⟨c', hc', hk'⟩
      obtain ⟨i, hi, hgi⟩ := List.getElem_of_mem hmem
      obtain ⟨j, hj, hgj⟩ := List.getElem_of_mem hmem'
      have hij : i = j := by omega
      subst hij
      rw [← hgi, ← hgj]
  cases hka : a.crossKey H with
  | cross => exact absurd hka (hnotcross a ha)
  | key k => exact Or.inr ⟨(hone a ha k hka b hb).symm, k, rfl⟩
  | blank =>
    cases hkb : b.crossKey H with
    | cross => exact absurd hkb (hnotcross b hb)
    | blank => exact Or.inl ((route_of_blank hka).trans (route_of_blank hkb).symm)
    | key k =>
      have := hone b hb k hkb a ha
      rw [hka] at this
      cases this

theorem uniform_of_common {key : AuthorizationKey} {route : ReplyRoute}
    (h : ∀ a ∈ items, a.key = key ∧ a.route H = route) : Uniform H items := by
  intro a ha b hb
  exact ⟨(h a ha).1.trans (h b hb).1.symm, (h a ha).2.trans (h b hb).2.symm⟩

theorem uniform_singleton (item : Queued) : Uniform H [item] := by
  intro a ha b hb
  rw [List.mem_singleton.1 ha, List.mem_singleton.1 hb]
  exact ⟨rfl, rfl⟩

def Adjacent (H : RouteHost) (a b : Queued) : Prop := a.key = b.key → a.route H = b.route H

theorem uniform_splitFrom {current : List Queued} {key : AuthorizationKey}
    {route : ReplyRoute} (hcurrent : ∀ a ∈ current, a.key = key ∧ a.route H = route)
    (hnext : ∀ b ∈ items.head?, key = b.key → route = b.route H)
    (hchain : items.IsChain (Adjacent H)) :
    ∀ group ∈ splitFrom current key items, Uniform H group := by
  induction items generalizing current key route with
  | nil =>
    intro group hgroup
    rw [List.mem_singleton.1 hgroup]
    exact uniform_of_common hcurrent
  | cons item items ih =>
    have hrest : ∀ b ∈ items.head?, item.key = b.key → item.route H = b.route H :=
      (List.isChain_cons.1 hchain).1
    unfold splitFrom
    split
    next hkey =>
      have hjoined : ∀ a ∈ current ++ [item], a.key = key ∧ a.route H = route := by
        intro a ha
        rcases List.mem_append.1 ha with ha | ha
        · exact hcurrent a ha
        · rw [List.mem_singleton.1 ha]
          exact ⟨hkey, (hnext item rfl hkey.symm).symm⟩
      refine ih hjoined ?_ hchain.tail
      intro b hb hbkey
      rw [hnext item rfl hkey.symm]
      exact hrest b hb (hkey.trans hbkey)
    next =>
      intro group hgroup
      rcases List.mem_cons.1 hgroup with rfl | hgroup
      · exact uniform_of_common hcurrent
      · refine ih ?_ hrest hchain.tail group hgroup
        intro a ha
        rw [List.mem_singleton.1 ha]
        exact ⟨rfl, rfl⟩

/-- **The groups are uniform** where neighbours with one key have one route. -/
theorem uniform_split (hchain : items.IsChain (Adjacent H)) :
    ∀ group ∈ splitCollectItemsByAuthorization items, Uniform H group := by
  cases items with
  | nil =>
    intro group hgroup
    cases hgroup
  | cons item items =>
    refine uniform_splitFrom ?_ (List.isChain_cons.1 hchain).1 hchain.tail
    intro a ha
    rw [List.mem_singleton.1 ha]
    exact ⟨rfl, rfl⟩

def Decided (H : RouteHost) (items : List Queued) : Await → Prop
  | .skipped => items.IsChain (Follows H)
  | .group _ groups _ => ∀ group ∈ groups, Uniform H group
  | _ => True

/-- A stretch makes uniform calls, and its decisions hold where it awaits. -/
structure Batched (H : RouteHost) (st : Stretch) : Prop where
  calls : ∀ c ∈ st.2, Uniform H c.merged
  decided : ∀ q, st.1 = some q → ∀ d, q.drain = some d → Decided H q.items d.place

variable {place : Await}

theorem batched_awaiting {calls : List Call}
    (hcalls : ∀ c ∈ calls, Uniform H c.merged) (hplace : Decided H q.items place) :
    Batched H (awaiting q force place calls) := by
  refine ⟨hcalls, ?_⟩
  rintro _ ⟨⟩ _ ⟨⟩
  exact hplace

theorem uniform_call {c : Call} (hc : c.merged = items)
    (h : Uniform H items) : ∀ c' ∈ [c], Uniform H c'.merged := by
  intro c' hc'
  rw [List.mem_singleton.1 hc', hc]
  exact h

theorem uniform_nil : Uniform H [] := by
  rintro a ⟨⟩

theorem batched_dropAborted (second : Bool) (dropped index : ℕ) :
    Batched H (dropAbortedFollowups ab q force second dropped index) := by
  unfold dropAbortedFollowups
  split
  next i item _ => exact batched_awaiting (uniform_call rfl (uniform_singleton item)) trivial
  next => exact batched_awaiting (by rintro c ⟨⟩) trivial

theorem batched_finish : Batched H (finish ab q) := by
  unfold finish
  split
  · exact ⟨by rintro c ⟨⟩, by rintro q ⟨⟩⟩
  · exact batched_dropAborted ..

theorem batched_loopTop : Batched H (loopTop ab q force) := by
  unfold loopTop
  split
  · exact batched_finish
  · exact batched_dropAborted ..

theorem batched_drainNext (hplace : Decided H q.items place) :
    Batched H (drainNextQueueItem q force place) := by
  unfold drainNextQueueItem
  split
  · exact batched_awaiting (by rintro c ⟨⟩) hplace
  next item _ _ => exact batched_awaiting (uniform_call rfl (uniform_singleton item)) trivial

theorem batched_callSummary : Batched H (callSummary ab q force) := by
  unfold callSummary
  split
  · exact batched_awaiting (uniform_call rfl uniform_nil) trivial
  · exact batched_finish

theorem batched_callGroup {group : List Queued} {groups : List (List Queued)}
    {summary : Option Summary} (hgroups : ∀ g ∈ group :: groups, Uniform H g) :
    Batched H (callGroup ab q force group groups summary) := by
  unfold callGroup
  split
  · exact batched_loopTop
  · refine batched_awaiting (uniform_call rfl (hgroups group List.mem_cons_self)) ?_
    intro g hg
    exact hgroups g (List.mem_cons_of_mem _ hg)

theorem batched_callGroups {groups : List (List Queued)}
    (hgroups : ∀ g ∈ groups, Uniform H g) : Batched H (callGroups ab q force groups) := by
  cases groups with
  | nil => exact batched_loopTop
  | cons group groups => exact batched_callGroup hgroups

theorem batched_round : Batched H (round H ab q force) := by
  unfold round
  split
  next =>
    simp only
    split
    next hcheck =>
      simp only [Bool.and_eq_true, Bool.not_eq_true', Bool.or_eq_false_iff] at hcheck
      refine batched_awaiting (by rintro c ⟨⟩) ?_
      refine List.Pairwise.isChain (List.pairwise_of_forall_mem_list ?_)
      intro a ha b hb
      exact not_cross_follows hcheck.2.1 ha hb
    next => exact batched_drainNext trivial
  next =>
    split
    · exact batched_drainNext trivial
    · split
      · exact batched_finish
      · exact batched_awaiting (by rintro c ⟨⟩) trivial
      · exact batched_awaiting (uniform_call rfl uniform_nil) trivial

/-- Neighbours that have one authorization key and one compact key have one route. -/
def Distinguished (H : RouteHost) (a b : Queued) : Prop :=
  a.key = b.key → a.crossKey H = b.crossKey H → a.route H = b.route H

instance (a b : Queued) : Decidable (Distinguished H a b) :=
  inferInstanceAs (Decidable (_ → _ → _))

theorem chain_adjacent (hfollows : items.IsChain (Follows H))
    (hkeys : items.IsChain (Distinguished H)) : items.IsChain (Adjacent H) := by
  induction items with
  | nil => exact List.IsChain.nil
  | cons item items ih =>
    obtain ⟨hnext, hfollows⟩ := List.isChain_cons.1 hfollows
    obtain ⟨hdist, hkeys⟩ := List.isChain_cons.1 hkeys
    refine List.isChain_cons.2 ⟨?_, ih hfollows hkeys⟩
    intro b hb hkey
    rcases hnext b hb hkey with hroute | ⟨hcross, -⟩
    · exact hroute
    · exact hdist b hb hkey hcross

/-- **A stretch makes uniform calls**, if compact keys tell the routes of neighbours apart
where the drain collects. -/
theorem resume_batched (hplace : Decided H q.items place)
    (hkeys : place = .skipped → q.items.IsChain (Distinguished H)) :
    Batched H (resume H ab q force place) := by
  cases place with
  | aborting second index dropped =>
    unfold resume
    simp only
    split
    · exact batched_finish
    · exact batched_dropAborted ..
  | abortsDone second dropped =>
    have hdone : ∀ q' : Queue, Batched H
        (if q'.items = [] ∧ q'.overflow = [] then finish ab q'
        else if second = true then round H ab q' force else awaiting q' force .debounce []) := by
      intro q'
      split
      · exact batched_finish
      · split
        · exact batched_round
        · exact batched_awaiting (by rintro c ⟨⟩) trivial
    exact hdone _
  | debounce => exact batched_dropAborted ..
  | next => exact batched_awaiting (by rintro c ⟨⟩) trivial
  | nextDone => exact batched_loopTop
  | nextNone => exact batched_finish
  | skipped =>
    have hgroups := uniform_split (chain_adjacent hplace (hkeys rfl))
    simp only [resume]
    split
    · exact batched_callSummary
    next group groups hsplit =>
      rw [hsplit] at hgroups
      exact batched_callGroup hgroups
  | empty => exact batched_callSummary
  | group size groups pendingSummary => exact batched_callGroups hplace
  | summaryOnly summary => exact batched_loopTop
  | summaryNext summary => exact batched_awaiting (by rintro c ⟨⟩) trivial
  | summaryNextDone summary => exact batched_loopTop

def World.accepts (w : World) (call : Enqueue) : Bool :=
  !w.isAborted call.run && !call.duplicate &&
    (applyQueueDropPolicy { getFollowupQueue w.queue call.settings with
      lastRun := some call.run.run }).isSome

/-- Between the check for mixed routes and the collection of the items no run joins one of
the same authorization key and another route; and compact keys tell neighbours apart. -/
def Routed (H : RouteHost) (w : World) : Event → Prop
  | .enqueue call => w.accepts call → ∀ q ∈ w.queue, ∀ d ∈ q.drain, d.place = .skipped →
    ∀ last ∈ (q.items.drop (w.dropped call).length).getLast?,
      last.key = resolveFollowupAuthorizationKey call.run.run →
        last.route H = call.run.origin.replyRoute H
  | .resume => ∀ q ∈ w.queue, ∀ d ∈ q.drain, d.place = .skipped →
    q.items.IsChain (Distinguished H)
  | _ => True

instance (w : World) : ∀ e, Decidable (Routed H w e)
  | .enqueue call => inferInstanceAs (Decidable (w.accepts call → ∀ q ∈ w.queue, ∀ d ∈ q.drain, _))
  | .resume => inferInstanceAs (Decidable (∀ q ∈ w.queue, ∀ d ∈ q.drain, _ → _))
  | .abort _ | .schedule => inferInstanceAs (Decidable True)

/-- Every call was uniform, and what the drain has decided of the items holds. -/
structure Uniformly (H : RouteHost) (w : World) : Prop where
  calls : ∀ c ∈ w.calls, Uniform H c.merged
  decided : ∀ q, w.queue = some q → ∀ d, q.drain = some d → Decided H q.items d.place

theorem uniformly_after {st : Stretch} (hw : Uniformly H w) (hst : Batched H st) :
    Uniformly H (w.after st) where
  calls := by
    intro c hc
    rcases List.mem_append.1 hc with hc | hc
    · exact hw.calls c hc
    · exact hst.calls c hc
  decided := hst.decided

theorem uniformly_schedule (hw : Uniformly H w) : Uniformly H w.scheduleFollowupDrain := by
  unfold World.scheduleFollowupDrain
  split
  next q hq =>
    split
    next hd =>
      have hcallback : Uniformly H { w with callback := true } := ⟨hw.calls, hw.decided⟩
      exact uniformly_after hcallback batched_loopTop
    next => exact hw
  next => exact hw

theorem uniformly_resume (hw : Uniformly H w) (hok : Routed H w .resume) :
    Uniformly H (w.step H .resume) := by
  unfold World.step
  simp only
  split
  next q hq =>
    split
    next d hd => exact uniformly_after hw (resume_batched (hw.decided q hq d hd) (hok q hq d hd))
    next => exact hw
  next => exact hw

theorem uniformly_settings {q' : Queue} (hw : Uniformly H w)
    (hitems : q'.items = w.queue.elim [] (·.items)) (hdrain : q'.drain = w.queue.bind (·.drain)) :
    Uniformly H { w with queue := some q' } := by
  refine ⟨hw.calls, ?_⟩
  rintro _ ⟨⟩ d hd
  rw [hdrain] at hd
  obtain ⟨q, hq, hqd⟩ := Option.bind_eq_some_iff.1 hd
  rw [hitems, hq]
  exact hw.decided q hq d hqd

theorem decided_push {dropped : List Queued} {x : Queued}
    (h : Decided H (dropped ++ items) place)
    (hjoin : place = .skipped → ∀ last ∈ items.getLast?, last.key = x.key →
      last.route H = x.route H) : Decided H (items ++ [x]) place := by
  cases place with
  | skipped =>
    have hsuffix : items.IsChain (Follows H) := h.suffix (List.suffix_append _ _)
    refine hsuffix.append (List.isChain_singleton x) ?_
    rintro last hlast _ ⟨⟩ hkey
    exact Or.inl (hjoin rfl last hlast hkey)
  | group size groups pendingSummary => exact h
  | _ => trivial

theorem uniformly_enqueue (hw : Uniformly H w) {call : Enqueue} (hok : Routed H w (.enqueue call)) :
    Uniformly H (w.enqueueFollowupRun call) := by
  obtain ⟨hitems, hdrain, -⟩ := getFollowupQueue_fields w.queue call.settings
  unfold World.enqueueFollowupRun
  by_cases hab : w.isAborted call.run = true
  · rw [if_pos hab]
    exact hw
  · rw [if_neg hab]
    simp only
    by_cases hdup : call.duplicate = true
    · rw [if_pos hdup]
      exact uniformly_settings hw hitems hdrain
    · rw [if_neg hdup]
      have hbefore : Uniformly H { w with
          queue := some { getFollowupQueue w.queue call.settings with
            lastRun := some call.run.run } } := uniformly_settings hw hitems hdrain
      split
      · exact hbefore
      next q' dropped hpolicy =>
        obtain ⟨hsplit, hsame, -⟩ := applyQueueDropPolicy_some hpolicy
        have haccepts : w.accepts call = true := by
          unfold World.accepts
          rw [hpolicy]
          simp [hab, hdup]
        have hdropped : w.dropped call = dropped := by
          unfold World.dropped
          rw [hpolicy]
          simp [hab, hdup]
        have hafter : Uniformly H { w with
            queue := some { q' with items := q'.items ++ [⟨w.accepted.length, call.run⟩] }
            callback := w.callback || call.callback
            accepted := w.accepted ++ [⟨w.accepted.length, call.run⟩]
            discarded := if q'.dropPolicy = .old then w.discarded ++ dropped else w.discarded
            overflowed :=
              if q'.dropPolicy = .old then w.overflowed else w.overflowed ++ dropped } := by
          refine ⟨hw.calls, ?_⟩
          rintro _ ⟨⟩ d hd
          have hd' : (getFollowupQueue w.queue call.settings).drain = some d := hsame.symm.trans hd
          have hdec := hbefore.decided _ rfl d hd'
          rw [hsplit] at hdec
          refine decided_push hdec ?_
          intro hplace
          obtain ⟨q, hq, hqd⟩ := Option.bind_eq_some_iff.1 (hdrain.symm.trans hd')
          have hdrop : q.items.drop dropped.length = q'.items := by
            have hq' : (getFollowupQueue w.queue call.settings).items = q.items := by
              rw [hitems, hq]
              rfl
            change (getFollowupQueue w.queue call.settings).items = _ at hsplit
            rw [← hq', hsplit, List.drop_left]
          have hjoin := hok haccepts q hq d hqd hplace
          rw [hdropped, hdrop] at hjoin
          exact hjoin
        split
        · exact uniformly_schedule hafter
        · exact hafter

def Collectable (H : RouteHost) (w : World) (e : Event) : Prop := Undisturbed w e ∧ Routed H w e

instance (w : World) (e : Event) : Decidable (Collectable H w e) :=
  inferInstanceAs (Decidable (_ ∧ _))

theorem uniformly_step (H : RouteHost) (w : World) (e : Event) (hw : Sound w ∧ Uniformly H w)
    (hok : Collectable H w e) : Sound (w.step H e) ∧ Uniformly H (w.step H e) := by
  refine ⟨sound_step H w e hw.1 hok.1, ?_⟩
  cases e with
  | enqueue call => exact uniformly_enqueue hw.2 hok.2
  | abort signal => exact ⟨hw.2.calls, hw.2.decided⟩
  | schedule => exact uniformly_schedule hw.2
  | resume => exact uniformly_resume hw.2 hok.2

def World.removed (w : World) : List Queued :=
  handed (w.calls.filter fun c => c.aborted) ++ (w.discarded ++ w.overflowed)

/-- The runs of one call have one authorization key and one reply route, and the runs of
the calls and those that wait are, in order, the accepted ones that were not removed. -/
structure Collected (H : RouteHost) (w : World) : Prop where
  keys : ∀ c ∈ w.calls, ∀ a ∈ c.merged, ∀ b ∈ c.merged, a.key = b.key
  routes : ∀ c ∈ w.calls, ∀ a ∈ c.merged, ∀ b ∈ c.merged, a.route H = b.route H
  order : handedInOrder w.calls ++ w.waiting = w.accepted.filter (· ∉ w.removed)

theorem handed_perm (calls : List Call) :
    (handedInOrder calls ++ handed (calls.filter fun c => c.aborted)).Perm (handed calls) := by
  induction calls with
  | nil => exact List.Perm.refl _
  | cons c calls ih =>
    rw [List.perm_iff_count] at ih ⊢
    intro item
    have hcount := ih item
    unfold handedInOrder handed at hcount ⊢
    cases hab : c.aborted <;>
      simp only [List.filter_cons, hab, Bool.not_true, Bool.not_false, if_true, if_false,
        Bool.false_eq_true, List.flatMap_cons, List.count_append] at hcount ⊢ <;> omega

theorem eq_filter_of_perm {l rest all : List Queued} (hsub : l.Sublist all)
    (hperm : (l ++ rest).Perm all) (hnd : all.Nodup) : l = all.filter (· ∉ rest) := by
  have hnd' : (l ++ rest).Nodup := hperm.nodup_iff.2 hnd
  have hdisj := (List.nodup_append.1 hnd').2.2
  have hsub' : l.Sublist (all.filter (· ∉ rest)) := by
    have hfilter := hsub.filter (· ∉ rest)
    rwa [List.filter_eq_self.2] at hfilter
    intro a ha
    exact decide_eq_true fun hrest => hdisj a ha a hrest rfl
  refine hsub'.eq_of_length_le ?_
  refine List.Subperm.length_le (List.subperm_of_subset (hnd.filter _) ?_)
  intro a ha
  obtain ⟨hall, hrest⟩ := List.mem_filter.1 ha
  rcases List.mem_append.1 (hperm.mem_iff.2 hall) with hl | hr
  · exact hl
  · exact absurd hr (of_decide_eq_true hrest)

theorem collected_of_sound (hs : Sound w) (hu : Uniformly H w) : Collected H w := by
  refine ⟨?_, ?_, ?_⟩
  · intro c hc a ha b hb
    exact (hu.calls c hc a ha b hb).1
  · intro c hc a ha b hb
    exact (hu.calls c hc a ha b hb).2
  · have hnd : w.accepted.Nodup := by
      have hrange := hs.tickets ▸ List.nodup_range (n := w.accepted.length)
      exact List.Nodup.of_map Queued.ticket hrange
    refine eq_filter_of_perm hs.order (List.Perm.trans ?_ hs.runs) hnd
    have hsplit := handed_perm w.calls
    unfold World.removed
    rw [List.perm_iff_count] at hsplit ⊢
    intro item
    have hcount := hsplit item
    simp only [List.count_append] at hcount ⊢
    omega

/-- **Every call collects runs of one authorization key and one reply route, and the calls
keep the order of the queue**, in a run in which no run joins another one of its key but
not its route while the drain awaits that it may collect, compact keys tell routes apart,
and no enqueue drops runs under a call. -/
theorem collected_always (H : RouteHost) (events : List Event)
    (hok : Machine.Guarded (World.step H) (Collectable H) {} events) :
    Machine.Always (World.step H) (Collected H) {} events := by
  have hnew : Sound {} ∧ Uniformly H {} := ⟨sound_new, by rintro c ⟨⟩, by rintro q ⟨⟩⟩
  have hall := Machine.always_of_guarded (uniformly_step H) hnew hok
  intro before hbefore
  obtain ⟨hsound, huniform⟩ := hall before hbefore
  exact collected_of_sound hsound huniform

/-- String functions of a process with the channel `telegram`, for words in lower case. -/
def telegramRoutes : RouteHost where
  trim := id
  trim_empty := rfl
  toLowerCase := id
  printed n := toString n
  isRoutableChannel c := c = "telegram"

def enqueueFrom (chat : String) : Event :=
  .enqueue {
    run := {
      run := { senderId := some "ada" }
      origin := { channel := some "telegram", target := some chat } }
    settings := { mode := .collect } }

/-- A run that arrives from a chat while the drain awaits that it may collect one from
another. -/
def lateRun (first late : String) : List Event :=
  [enqueueFrom first, .resume, .resume, .resume, enqueueFrom late, .resume]

theorem same_chat_collected :
    Machine.Always (World.step telegramRoutes) (Collected telegramRoutes) {}
      (lateRun "chat" "chat") :=
  collected_always telegramRoutes (lateRun "chat" "chat") (by decide +kernel)

/-- **A run of another chat is merged if it arrives after the check.** -/
theorem other_chat_merged :
    ¬ ∀ H events, Machine.Always (World.step H) (Collected H) {} events := by
  intro h
  have hroutes := (h telegramRoutes (lateRun "chat" "other") _ List.prefix_rfl).routes
  exact absurd hroutes (by decide +kernel)

end ClawHarder.Followup
