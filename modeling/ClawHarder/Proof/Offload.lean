import Mathlib.Data.List.Nodup
import ClawHarder.Proof.View
import ClawHarder.Spec.ContextEngine

/-!
# The ids of offloaded messages

The window makes up the id that an offloaded message shows, `REF_<turn>_<message>`;
`addReference` draws the id under which it stores the content. The two never agree.

* `Tracked.unresolved`: **no id that was shown resolves.**
-/

namespace ClawHarder

variable {N : Type}

/-- The id that the window shows for the message `i` of the turn `t`. -/
def offloadId (t i : ℕ) : RefId :=
  "REF_" ++ padStart 4 (toString t) ++ "_" ++ padStart 2 (toString i)

theorem padStart_toList (width n : ℕ) :
    (padStart width (toString n)).toList =
      List.replicate (width - (toString n).length) '0' ++ Nat.toDigits 10 n := by
  unfold padStart
  rw [String.toList_ofList, Nat.toString_eq_ofList_toDigits, String.toList_ofList]

theorem padStart_injective {width n m : ℕ}
    (h : padStart width (toString n) = padStart width (toString m)) : n = m := by
  have hread (k : ℕ) :
      Nat.ofDigitChars 10 (padStart width (toString k)).toList 0 = k := by
    rw [padStart_toList, Nat.ofDigitChars_append, Nat.ofDigitChars_replicate_zero, Nat.mul_zero,
      Nat.ofDigitChars_ten_toDigits]
  rw [← hread n, h, hread m]

theorem underscore_not_mem_padStart (width n : ℕ) :
    '_' ∉ (padStart width (toString n)).toList := by
  rw [padStart_toList, List.mem_append, not_or]
  constructor
  · intro h
    have heq := List.eq_of_mem_replicate h
    exact absurd heq (by decide)
  · intro h
    have hdigit := Nat.isDigit_of_mem_toDigits (by decide) (by decide) h
    exact absurd hdigit (by decide)

theorem offloadId_injective {t i t' i' : ℕ} (h : offloadId t i = offloadId t' i') :
    t = t' ∧ i = i' := by
  have hlist := congrArg String.toList h
  simp only [offloadId, String.toList_append, List.append_assoc] at hlist
  have htail := List.append_cancel_left hlist
  have hsep : "_".toList = ['_'] := rfl
  rw [hsep, List.singleton_append, List.singleton_append,
    List.append_cons_inj_of_notMem (underscore_not_mem_padStart 4 t)
      (underscore_not_mem_padStart 2 i)] at htail
  obtain ⟨hturn, -, hmessage⟩ := htail
  exact ⟨padStart_injective (String.toList_inj.1 hturn),
    padStart_injective (String.toList_inj.1 hmessage)⟩

/-- An id as `addReference` draws it: `shortId` gives hexadecimal digits. -/
def Drawn (id : RefId) : Prop := ∃ x : String, '_' ∉ x.toList ∧ id = "REF_" ++ x

/-- **The window's ids are never drawn.** -/
theorem not_drawn_offloadId (t i : ℕ) : ¬ Drawn (offloadId t i) := by
  rintro ⟨x, hx, h⟩
  have hlist := congrArg String.toList h
  simp only [offloadId, String.toList_append, List.append_assoc] at hlist
  have htail := List.append_cancel_left hlist
  apply hx
  rw [← htail]
  exact List.mem_append_right _ (List.mem_append_left _ (by decide))

/-- Every reference, in the manager and on disk, has an id that was drawn. -/
structure View.Drawn (v : View N) : Prop where
  working : ∀ k r, v.references.get? k = some r → ClawHarder.Drawn k
  file : ∀ m : Manifest N, v.file = some (.manifest m) →
    ∀ k r, m.references.get? k = some r → ClawHarder.Drawn k

variable [JsNumber N] {E : Env N}

theorem drawn_edit (hex : ∀ n, '_' ∉ (E.shortId n).toList) {P : Policy N} {v w : View N}
    (he : Edit E P v w) (h : v.Drawn) : w.Drawn := by
  cases he with
  | insertReference r hid =>
    refine ⟨?_, h.file⟩
    intro k r' hr'
    have hset : (v.references.set r.refId r).get? k = some r' := hr'
    rw [OrderedMap.get?_set] at hset
    split at hset
    · rename_i hk
      exact ⟨_, hex v.shortIds, hk.trans hid⟩
    · exact h.working k r' hset
  | write m hf hr hs hp =>
    refine ⟨h.working, ?_⟩
    intro m' hm'
    cases hm'
    rw [hr]
    exact h.working
  | load m hfile => exact ⟨h.file m hfile, h.file⟩
  | _ => exact ⟨h.working, h.file⟩

structure Engine.Kept (E : Env N) (s : Engine N) : Prop where
  filed : s.view.Filed E
  drawn : s.view.Drawn

theorem references_kept (hE : Function.Injective E.shortId) (hex : ∀ n, '_' ∉ (E.shortId n).toList)
    {s : Engine N} (h : s.Kept E) (op : Op N) : (step E s op).Kept E where
  filed := filed_step hE h.filed op
  drawn := (step_edits hE h.filed (allows_any op)).inv (fun _ _ => drawn_edit hex) h.drawn

namespace SlidingWindow

variable {config : SlidingWindowConfig}

theorem mem_detectOffloads {messages : List TurnMessage} {t : ℕ} {o : OffloadCandidate} :
    o ∈ detectOffloads config messages t ↔
      ∃ i msg, messages[i]? = some msg ∧ offloads config msg = true ∧
        o = { turnIndex := t
              messageIndex := i
              originalContent := msg.content
              refId := offloadId t i
              replacement := buildOffloadReplacement (offloadId t i) msg.content } := by
  unfold detectOffloads
  rw [List.mem_filterMap]
  constructor
  · rintro ⟨⟨msg, i⟩, hin, ho⟩
    rw [List.mem_zipIdx_iff_getElem?] at hin
    by_cases hlong : offloads config msg = true
    · simp only [hlong, if_true, Option.some.injEq] at ho
      exact ⟨i, msg, hin, hlong, ho.symm⟩
    · simp [hlong] at ho
  · rintro ⟨i, msg, hget, hlong, rfl⟩
    refine ⟨(msg, i), List.mem_zipIdx_iff_getElem?.2 hget, ?_⟩
    simp only [hlong, if_true]
    rfl

theorem detectOffloads_places_nodup (messages : List TurnMessage) (t : ℕ) :
    ((detectOffloads config messages t).map fun o => (o.turnIndex, o.messageIndex)).Nodup := by
  rw [List.nodup_iff_pairwise_ne, List.pairwise_map]
  unfold detectOffloads
  rw [List.pairwise_filterMap]
  have hplaces : messages.zipIdx.Pairwise fun a b => a.2 ≠ b.2 := by
    rw [← List.pairwise_map (f := Prod.snd) (R := (· ≠ ·)), ← List.nodup_iff_pairwise_ne,
      List.zipIdx_map_snd]
    exact List.nodup_range'
  refine hplaces.imp ?_
  rintro ⟨msg, i⟩ ⟨msg', i'⟩ hne o ho o' ho' heq
  have hplace : ∀ {m : TurnMessage} {j : ℕ} {c : OffloadCandidate},
      (if offloads config m = true then
        some
          { turnIndex := t
            messageIndex := j
            originalContent := m.content
            refId := offloadId t j
            replacement := buildOffloadReplacement (offloadId t j) m.content : OffloadCandidate }
      else none) = some c → c.messageIndex = j := by
    intro m j c hc
    split at hc
    · cases hc
      rfl
    · cases hc
  have hi := hplace ho
  have hi' := hplace ho'
  rw [Prod.mk.injEq] at heq
  exact hne (by omega)

theorem applyOffloads_shown {messages : List TurnMessage} {t : ℕ} {o : OffloadCandidate}
    (ho : o ∈ detectOffloads config messages t) :
    ∃ msg, (applyOffloads messages (detectOffloads config messages t))[o.messageIndex]? = some msg ∧
      msg.content = o.replacement := by
  obtain ⟨i, msg, hget, -, hoi⟩ := mem_detectOffloads.1 ho
  have hplace : o.messageIndex = i := by rw [hoi]
  have hne : detectOffloads config messages t ≠ [] := List.ne_nil_of_mem ho
  unfold applyOffloads
  rw [if_neg hne, hplace, List.getElem?_mapIdx, hget]
  have hsome : ((detectOffloads config messages t).find? fun o => o.messageIndex = i).isSome := by
    rw [List.find?_isSome]
    exact ⟨o, ho, by simpa using hplace⟩
  obtain ⟨o', hfind⟩ := Option.isSome_iff_exists.1 hsome
  -- the candidate that is found is the one of this message
  have hi' : o'.messageIndex = i := by simpa using List.find?_some hfind
  obtain ⟨j, msg', hget', -, hoj⟩ := mem_detectOffloads.1 (List.mem_of_find?_eq_some hfind)
  have hij : j = i := by rw [← hi', hoj]
  rw [hij, hget, Option.some.injEq] at hget'
  refine ⟨{ msg with content := o'.replacement }, ?_, ?_⟩
  · simp only [Option.map_some, hfind]
  · show o'.replacement = o.replacement
    rw [hoj, hoi, hij, hget']

theorem overBudget_append (turns : List Turn) {rest : List Turn}
    (h : overBudget config rest = true) :
    overBudget config (turns ++ rest) = true := by
  unfold overBudget totalTokens at *
  rw [decide_eq_true_eq] at h ⊢
  have hlen : (rest.length : ℚ) ≤ ((turns ++ rest).length : ℚ) := by
    rw [List.length_append]
    exact_mod_cast Nat.le_add_left _ _
  have htokens : ((rest.map Turn.tokenEstimate).sum : ℚ) ≤
      (((turns ++ rest).map Turn.tokenEstimate).sum : ℚ) := by
    rw [List.map_append, List.sum_append]
    exact_mod_cast Nat.le_add_left _ _
  rcases h with h | h
  · exact Or.inl (h.trans_le hlen)
  · exact Or.inr (h.trans_le htokens)

theorem enforceBudget_suffix (config : SlidingWindowConfig) (turns : List Turn) :
    (enforceBudget config turns).2 <:+ turns := by
  induction turns with
  | nil => exact List.suffix_rfl
  | cons turn rest ih =>
    unfold enforceBudget
    split
    · exact ih.trans (List.suffix_cons turn rest)
    · exact List.suffix_rfl

/-- **A pushed turn stays, unless it is over the budget alone**; then nothing stays. -/
theorem enforceBudget_last (config : SlidingWindowConfig) (turns : List Turn) (turn : Turn) :
    if overBudget config [turn] then (enforceBudget config (turns ++ [turn])).2 = []
    else turn ∈ (enforceBudget config (turns ++ [turn])).2 := by
  induction turns with
  | nil =>
    rw [List.nil_append]
    unfold enforceBudget
    split
    · rfl
    · exact List.mem_singleton_self turn
  | cons first rest ih =>
    rw [List.cons_append]
    unfold enforceBudget
    by_cases halone : overBudget config [turn] = true
    · rw [if_pos halone] at ih ⊢
      have hover : overBudget config (first :: (rest ++ [turn])) = true :=
        overBudget_append (first :: rest) halone
      rw [if_pos hover]
      exact ih
    · rw [if_neg halone] at ih ⊢
      split
      · exact ih
      · exact List.mem_cons_of_mem _ (List.mem_append_right _ (List.mem_singleton_self turn))

/-- The turn that `pushTurn` stores. -/
def nextTurn (messages : List TurnMessage) (w : SlidingWindow) : Turn :=
  let offloads := detectOffloads w.config messages w.nextIndex
  let processedMessages := applyOffloads messages offloads
  { index := w.nextIndex
    messages := processedMessages
    tokenEstimate := estimateTokens w.config processedMessages
    hasOffloadedArtifact := offloads ≠ [] }

theorem pushTurn_turns (messages : List TurnMessage) (w : SlidingWindow) :
    (w.pushTurn messages).2.2.turns =
      (enforceBudget w.config (w.turns ++ [w.nextTurn messages])).2 := rfl

end SlidingWindow

namespace ContextEngine

variable {c : ContextEngine N}

theorem storeOffloads_kept (hE : Function.Injective E.shortId)
    (hex : ∀ n, '_' ∉ (E.shortId n).toList) (storeFails : OffloadCandidate → Bool)
    (offloads : List OffloadCandidate) (ids : List RefId)
    (h : c.manager.Kept E) :
    (c.storeOffloads E storeFails offloads ids).2.manager.Kept E ∧
      (c.storeOffloads E storeFails offloads ids).2.window = c.window := by
  induction offloads generalizing ids c with
  | nil => exact ⟨h, rfl⟩
  | cons offload rest ih =>
    have hstored : (c.storeOffload E (storeFails offload) offload ids).2.manager.Kept E :=
      references_kept hE hex h (.addReference (offloadReference offload) (storeFails offload))
    exact ih _ hstored

theorem endTurn_kept (hE : Function.Injective E.shortId)
    (hex : ∀ n, '_' ∉ (E.shortId n).toList) (io : Io) (progress : TurnProgress) (h : c.manager.Kept E) :
    (c.endTurn E io progress).2.manager.Kept E ∧
      (c.endTurn E io progress).2.window = c.window := by
  unfold endTurn
  split
  · exact ⟨references_kept hE hex h (.commit io), rfl⟩
  · exact ⟨h, rfl⟩

/-- **A completed turn** keeps the references drawn and pushes its messages. -/
theorem completeTurn_kept (hE : Function.Injective E.shortId)
    (hex : ∀ n, '_' ∉ (E.shortId n).toList) (io : Io) (storeFails : OffloadCandidate → Bool)
    (messages : List TurnMessage) (factProducing : Bool)
    (h : c.manager.Kept E) :
    (c.completeTurn E io storeFails messages factProducing).2.manager.Kept E ∧
      (c.completeTurn E io storeFails messages factProducing).2.window =
        (c.window.pushTurn messages).2.2 := by
  obtain ⟨hstored, hwindow⟩ := storeOffloads_kept hE hex storeFails
    (c.beginTurn messages factProducing).1.offloads [] (c := (c.beginTurn messages factProducing).2) h
  obtain ⟨hended, hsame⟩ := endTurn_kept hE hex io
    { (c.beginTurn messages factProducing).1 with
      offloads := []
      offloadedIds := ((c.beginTurn messages factProducing).2.storeOffloads E storeFails
        (c.beginTurn messages factProducing).1.offloads []).1 } hstored
  exact ⟨hended, hsame.trans hwindow⟩

end ContextEngine

/-- The id leads through `getReference` to an artifact with this content. -/
def Engine.Resolves (s : Engine N) (refId : RefId) (content : String) : Prop :=
  ∃ ref artifact, s.getReference refId = some ref ∧
    s.disk.artifacts.get? ref.path = some artifact ∧ artifact.text = content

/-- The offloaded message is left in the window: in its turn, at its place, it shows
the replacement. -/
def SlidingWindow.Shows (w : SlidingWindow) (o : OffloadCandidate) : Prop :=
  ∃ turn ∈ w.turns, turn.index = o.turnIndex ∧
    ∃ msg, turn.messages[o.messageIndex]? = some msg ∧ msg.content = o.replacement

namespace Conversation

/-- The round trip of what was offloaded: what is left in the window resolves. -/
structure RoundTrip (c : Conversation N) : Prop where
  resolves : ∀ o ∈ c.offloaded, c.engine.window.Shows o →
    c.engine.manager.Resolves o.refId o.originalContent
  distinct : (c.offloaded.map OffloadCandidate.refId).Nodup

/-- The turn keeps nothing that it offloads: none of its messages is a long tool
result, or with the replacements it is over the budget alone. -/
def KeepsNoOffload (c : Conversation N) : EngineCall N → Prop
  | .completeTurn messages _ _ _ =>
    let w := c.engine.window
    (∀ msg ∈ messages, SlidingWindow.offloads w.config msg = false) ∨
      w.config.maxTurns < 1 ∨
      w.config.maxTokens < (SlidingWindow.estimateTokens w.config (SlidingWindow.applyOffloads messages
        (SlidingWindow.detectOffloads w.config messages w.nextIndex)) : ℚ)
  | .manager _ => True

structure Tracked (E : Env N) (c : Conversation N) : Prop where
  kept : c.engine.manager.Kept E
  counted : ∀ turn ∈ c.engine.window.turns, turn.index < c.engine.window.nextIndex
  earlier : ∀ o ∈ c.offloaded, o.turnIndex < c.engine.window.nextIndex
  named : ∀ o ∈ c.offloaded, o.refId = offloadId o.turnIndex o.messageIndex
  places : (c.offloaded.map fun o => (o.turnIndex, o.messageIndex)).Nodup

variable {c : Conversation N}

omit [JsNumber N] in
/-- **No id that was shown resolves.** -/
theorem Tracked.unresolved (h : c.Tracked E) {o : OffloadCandidate} (ho : o ∈ c.offloaded)
    (content : String) : ¬ c.engine.manager.Resolves o.refId content := by
  rintro ⟨ref, artifact, href, -⟩
  have hdrawn : Drawn o.refId := h.kept.drawn.working o.refId ref href
  rw [h.named o ho] at hdrawn
  exact not_drawn_offloadId _ _ hdrawn

omit [JsNumber N] in
theorem Tracked.distinct (h : c.Tracked E) : (c.offloaded.map OffloadCandidate.refId).Nodup := by
  have hplaces := h.places
  rw [List.nodup_iff_pairwise_ne, List.pairwise_map] at hplaces ⊢
  refine hplaces.imp_of_mem ?_
  intro o o' ho ho' hne heq
  rw [h.named o ho, h.named o' ho'] at heq
  obtain ⟨hturn, hmessage⟩ := offloadId_injective heq
  exact hne (by rw [hturn, hmessage])

omit [JsNumber N] in
theorem Tracked.roundTrip_iff (h : c.Tracked E) :
    c.RoundTrip ↔ ∀ o ∈ c.offloaded, ¬ c.engine.window.Shows o := by
  constructor
  · intro hround o ho hshows
    exact h.unresolved ho o.originalContent (hround.resolves o ho hshows)
  · intro hnone
    refine ⟨?_, h.distinct⟩
    intro o ho hshows
    exact absurd hshows (hnone o ho)

/-- **Every call keeps track of the offloads.** -/
theorem tracked_step (hE : Function.Injective E.shortId)
    (hex : ∀ n, '_' ∉ (E.shortId n).toList) (h : c.Tracked E) (call : EngineCall N) :
    (c.step E call).Tracked E := by
  cases call with
  | manager op =>
    exact ⟨references_kept hE hex h.kept op, h.counted, h.earlier, h.named, h.places⟩
  | completeTurn messages factProducing storeFails io =>
    obtain ⟨hkept, hwindow⟩ := ContextEngine.completeTurn_kept hE hex io storeFails messages
      factProducing h.kept
    have hnext : (c.step E (.completeTurn messages factProducing storeFails io)).engine.window =
        (c.engine.window.pushTurn messages).2.2 := hwindow
    have hindex : (c.engine.window.pushTurn messages).2.2.nextIndex =
        c.engine.window.nextIndex + 1 := rfl
    have hnew : ∀ o ∈ (c.engine.window.pushTurn messages).1,
        o.turnIndex = c.engine.window.nextIndex ∧
          o.refId = offloadId o.turnIndex o.messageIndex := by
      intro o ho
      obtain ⟨i, msg, -, -, rfl⟩ := SlidingWindow.mem_detectOffloads.1 ho
      exact ⟨rfl, rfl⟩
    refine ⟨hkept, ?_, ?_, ?_, ?_⟩
    · intro turn hturn
      rw [hnext, SlidingWindow.pushTurn_turns] at hturn
      rw [hnext, hindex]
      have hin := (SlidingWindow.enforceBudget_suffix _ _).subset hturn
      rcases List.mem_append.1 hin with hold | hlast
      · have hlt := h.counted turn hold
        omega
      · rw [List.mem_singleton] at hlast
        have heq : turn.index = c.engine.window.nextIndex := by rw [hlast]; rfl
        omega
    · intro o ho
      rw [hnext, hindex]
      rcases List.mem_append.1 ho with hold | hlast
      · have hlt := h.earlier o hold
        omega
      · have heq := (hnew o hlast).1
        omega
    · intro o ho
      rcases List.mem_append.1 ho with hold | hlast
      · exact h.named o hold
      · exact (hnew o hlast).2
    · show ((c.offloaded ++ (c.engine.window.pushTurn messages).1).map _).Nodup
      rw [List.map_append, List.nodup_append]
      refine ⟨h.places, SlidingWindow.detectOffloads_places_nodup messages _, ?_⟩
      -- the places of this turn are new, for its index is
      intro place hold place' hlast heq
      obtain ⟨o, ho, rfl⟩ := List.mem_map.1 hold
      obtain ⟨o', ho', rfl⟩ := List.mem_map.1 hlast
      have hlt := h.earlier o ho
      have hidx := (hnew o' ho').1
      have hsame := congrArg Prod.fst heq
      simp only at hsame
      omega

/-- **A call leaves no offloaded message in the window** exactly when it keeps none of
its own. -/
theorem none_shown_step (hE : Function.Injective E.shortId)
    (hex : ∀ n, '_' ∉ (E.shortId n).toList) (h : c.Tracked E)
    (hnone : ∀ o ∈ c.offloaded, ¬ c.engine.window.Shows o) (call : EngineCall N) :
    (∀ o ∈ (c.step E call).offloaded, ¬ (c.step E call).engine.window.Shows o) ↔
      c.KeepsNoOffload call := by
  cases call with
  | manager op => exact iff_of_true hnone trivial
  | completeTurn messages factProducing storeFails io =>
    obtain ⟨-, hwindow⟩ := ContextEngine.completeTurn_kept hE hex io storeFails messages
      factProducing h.kept
    have hlast := SlidingWindow.enforceBudget_last c.engine.window.config
      c.engine.window.turns (c.engine.window.nextTurn messages)
    have hsuffix := SlidingWindow.enforceBudget_suffix c.engine.window.config
      (c.engine.window.turns ++ [c.engine.window.nextTurn messages])
    rw [← SlidingWindow.pushTurn_turns] at hlast hsuffix
    have halone : SlidingWindow.overBudget c.engine.window.config
          [c.engine.window.nextTurn messages] = true ↔
        c.engine.window.config.maxTurns < 1 ∨ c.engine.window.config.maxTokens <
          (SlidingWindow.estimateTokens c.engine.window.config
            (SlidingWindow.applyOffloads messages (SlidingWindow.detectOffloads
              c.engine.window.config messages c.engine.window.nextIndex)) : ℚ) := by
      simp [SlidingWindow.overBudget, SlidingWindow.totalTokens, SlidingWindow.nextTurn]
    show (∀ o ∈ c.offloaded ++ (c.engine.window.pushTurn messages).1,
      ¬ (c.engine.completeTurn E io storeFails messages factProducing).2.window.Shows o) ↔
        ((∀ msg ∈ messages, SlidingWindow.offloads c.engine.window.config msg = false) ∨ _)
    rw [hwindow, ← halone]
    constructor
    · intro hafter
      by_contra hkeeps
      rw [not_or] at hkeeps
      obtain ⟨hlong, hstays⟩ := hkeeps
      rw [if_neg hstays] at hlast
      simp only [not_forall, Bool.not_eq_false] at hlong
      obtain ⟨msg, hmem, hlong⟩ := hlong
      obtain ⟨i, hget⟩ := List.mem_iff_getElem?.1 hmem
      have ho := (SlidingWindow.mem_detectOffloads (t := c.engine.window.nextIndex)).2
        ⟨i, msg, hget, hlong, rfl⟩
      refine hafter _ (List.mem_append_right _ ho) ?_
      exact ⟨c.engine.window.nextTurn messages, hlast, rfl, SlidingWindow.applyOffloads_shown ho⟩
    · rintro hkeeps o ho ⟨turn, hturn, hidx, hshown⟩
      rcases List.mem_append.1 ho with hold | hnew
      · -- an earlier offload is in an earlier turn
        rcases List.mem_append.1 (hsuffix.subset hturn) with hin | hin
        · exact hnone o hold ⟨turn, hin, hidx, hshown⟩
        · rw [List.mem_singleton] at hin
          have heq : turn.index = c.engine.window.nextIndex := by rw [hin]; rfl
          have hlt := h.earlier o hold
          omega
      · obtain ⟨i, msg, hget, hlong, -⟩ := SlidingWindow.mem_detectOffloads.1 hnew
        rcases hkeeps with hshort | hover
        · have hfalse := hshort msg (List.mem_iff_getElem?.2 ⟨i, hget⟩)
          rw [hlong] at hfalse
          cases hfalse
        · rw [if_pos hover] at hlast
          rw [hlast] at hturn
          cases hturn

omit [JsNumber N] in
theorem tracked_start {manager : Engine N} (h : manager.Kept E) (config : ContextEngineConfig) :
    (start manager config).Tracked E where
  kept := h
  counted turn hturn := by cases hturn
  earlier o ho := by cases ho
  named o ho := by cases ho
  places := List.nodup_nil

/-- **The ids that are shown resolve in every state of a run exactly when every
completed turn keeps nothing that it offloads**; they are distinct in any case. -/
theorem round_trip_iff (hex : ∀ n, '_' ∉ (E.shortId n).toList) {manager : Engine N}
    (hs : Started E manager) (hk : manager.working.Keyed) (hid : UniqueIds E manager)
    (hdrawn : ∀ k r, manager.working.references.get? k = some r → Drawn k)
    (config : ContextEngineConfig) (calls : List (EngineCall N)) :
    Machine.Always (step E) RoundTrip (start manager config) calls ↔
      Machine.Guarded (step E) KeepsNoOffload (start manager config) calls := by
  have hkept : manager.Kept E := by
    refine ⟨hs.filed hk hid, hdrawn, ?_⟩
    intro m hm
    have hfile : manager.disk.manifestFile = some (.manifest m) := hm
    rw [hs.loaded.2] at hfile
    cases hfile
    exact hdrawn
  have hstep (c : Conversation N) (call : EngineCall N) (hc : c.Tracked E) :
      (c.step E call).Tracked E := tracked_step hid.injective hex hc call
  refine Machine.always_iff_guarded hstep ?_ (tracked_start hkept config) ?_ calls
  · intro c call hc hround
    rw [(hstep c call hc).roundTrip_iff]
    exact none_shown_step hid.injective hex hc (hc.roundTrip_iff.1 hround) call
  · rw [(tracked_start hkept config).roundTrip_iff]
    intro o ho
    cases ho

def newManager : Engine ℚ := Engine.fresh (Env.plain ℚ) "agent" (Disk.empty ℚ) {}

theorem plain_no_underscore (n : ℕ) : '_' ∉ ((Env.plain ℚ).shortId n).toList := by
  intro h
  have hrep : '_' ∈ List.replicate n 'I' := by
    rwa [Env.plain, String.toList_ofList] at h
  exact absurd (List.eq_of_mem_replicate hrep) (by decide)

def shortTurns : List (EngineCall ℚ) :=
  [.completeTurn [{ role := .tool, content := "ok" }] false (fun _ => false) {},
    .manager (.addReference
      { source := "user", label := "notes", content := { text := "notes", byteSize := 5 } } false)]

theorem shortTurns_round_trip :
    Machine.Always (step (Env.plain ℚ)) RoundTrip (start newManager {}) shortTurns := by
  refine (round_trip_iff plain_no_underscore (started_fresh _ "agent" rfl {})
    (keyed_fresh _ "agent" (Disk.empty ℚ) {})
    (uniqueIds_fresh (Env.plain_injective ℚ) "agent" (Disk.empty ℚ) {}) ?_ {} shortTurns).2 ?_
  · intro k r hr
    cases hr
  · refine ⟨Or.inl ?_, trivial, trivial⟩
    intro msg hmsg
    rw [List.mem_singleton] at hmsg
    rw [hmsg]
    decide

theorem ratio_pos : (0 : ℚ) < 4 := by decide

/-- The first turn of a conversation, where no tool result is short enough. -/
def offloadedResult : Conversation ℚ :=
  (start newManager { slidingWindow := { offloadThresholdChars := 0, charsPerToken_pos := ratio_pos } }).step (Env.plain ℚ)
    (.completeTurn [{ role := .tool, content := "x" }] false (fun _ => false) {})

/-- **The message `x` is left as `REF_0000_00`, an id that no reference has.** -/
theorem shown_id_unknown : ¬ offloadedResult.RoundTrip := by
  intro hround
  have hstarted : Started (Env.plain ℚ) newManager := started_fresh _ "agent" rfl {}
  have hfiled := hstarted.filed
    (keyed_fresh _ "agent" (Disk.empty ℚ) {})
    (uniqueIds_fresh (Env.plain_injective ℚ) "agent" (Disk.empty ℚ) {})
  have hkept : newManager.Kept (Env.plain ℚ) := by
    refine ⟨hfiled, ?_, ?_⟩
    · intro k r hr
      cases hr
    · intro m hm k r hr
      cases hm
      cases hr
  have hstart := tracked_start hkept { slidingWindow := { offloadThresholdChars := 0 } }
  have hstep := tracked_step (Env.plain_injective ℚ) plain_no_underscore hstart
    (.completeTurn [{ role := .tool, content := "x" }] false (fun _ => false) {})
  have hkeeps := (none_shown_step (Env.plain_injective ℚ) plain_no_underscore hstart
    (by intro o ho; cases ho) _).1 (hstep.roundTrip_iff.1 hround)
  -- the message is long, and its turn is within both limits
  rcases hkeeps with hshort | hturns | htokens
  · have hx := hshort { role := .tool, content := "x" } (List.mem_singleton_self _)
    exact absurd hx (by decide)
  · exact absurd hturns (by decide)
  · exact absurd htokens (by decide +kernel)

end Conversation

end ClawHarder
