import Mathlib.Algebra.Order.BigOperators.Group.List
import Mathlib.Algebra.Order.Ring.Nat
import ClawHarder.Lib.Window
import ClawHarder.Spec.SlidingWindow

/-!
# What the sliding window retains

Eviction looks only at the turns that are still there. It has no need of the others: a
part of turns within the limits is within them, so what one eviction dropped cannot be
part of what a later one keeps.

* `held_pushTurn`: a turn is added and the window is again the end of all turns.
* `retains_longest`: **the window is the longest end of all turns that is within both
  limits**, and what was evicted is the rest.
-/

namespace ClawHarder

namespace SlidingWindow

variable {config : SlidingWindowConfig}

def Fits (config : SlidingWindowConfig) (turns : List Turn) : Prop :=
  (turns.length : ℚ) ≤ config.maxTurns ∧ (totalTokens turns : ℚ) ≤ config.maxTokens

instance : DecidablePred (Fits config) := fun _ => inferInstanceAs (Decidable (_ ∧ _))

theorem overBudget_eq_true {turns : List Turn} :
    overBudget config turns = true ↔ ¬ Fits config turns := by
  unfold overBudget Fits
  rw [decide_eq_true_iff, not_and_or, not_le, not_le]

theorem totalTokens_append (xs ys : List Turn) :
    totalTokens (xs ++ ys) = totalTokens xs + totalTokens ys := by
  unfold totalTokens
  rw [List.map_append, List.sum_append]

theorem totalTokens_sublist {xs ys : List Turn} (h : xs.Sublist ys) :
    totalTokens xs ≤ totalTokens ys :=
  (h.map Turn.tokenEstimate).sum_le_sum fun _ _ => Nat.zero_le _

theorem Fits.of_sublist {xs ys : List Turn} (h : xs.Sublist ys) (hfits : Fits config ys) :
    Fits config xs := by
  have hlength : (xs.length : ℚ) ≤ ys.length := by exact_mod_cast h.length_le
  have htokens : (totalTokens xs : ℚ) ≤ totalTokens ys := by exact_mod_cast totalTokens_sublist h
  exact ⟨hlength.trans hfits.1, htokens.trans hfits.2⟩

theorem enforceBudget_kept (turns : List Turn) :
    (enforceBudget config turns).2 = List.dropUntil (Fits config) turns := by
  induction turns with
  | nil => rfl
  | cons turn rest ih =>
    unfold enforceBudget List.dropUntil
    by_cases hfits : Fits config (turn :: rest)
    · have hover : overBudget config (turn :: rest) = false := by
        rw [Bool.eq_false_iff, Ne, overBudget_eq_true, not_not]
        exact hfits
      rw [if_pos hfits, hover]
      rfl
    · rw [if_neg hfits, overBudget_eq_true.2 hfits]
      exact ih

theorem enforceBudget_count (config : SlidingWindowConfig) (turns : List Turn) :
    (enforceBudget config turns).1 + (enforceBudget config turns).2.length = turns.length := by
  induction turns with
  | nil => rfl
  | cons turn rest ih =>
    unfold enforceBudget
    split
    · show (enforceBudget config rest).1 + 1 + (enforceBudget config rest).2.length = _
      rw [List.length_cons]
      omega
    · show 0 + (turn :: rest).length = _
      omega

/-- The turn that a call of `pushTurn` stores, when it is the `n`-th. -/
def turnOf (config : SlidingWindowConfig) (n : ℕ) (messages : List TurnMessage) : Turn :=
  let offloads := detectOffloads config messages n
  let processedMessages := applyOffloads messages offloads
  { index := n
    messages := processedMessages
    tokenEstimate := estimateTokens config processedMessages
    hasOffloadedArtifact := offloads ≠ [] }

structure Held (config : SlidingWindowConfig) (pushed : List Turn) (w : SlidingWindow) : Prop where
  limits : w.config = config
  nextIndex : w.nextIndex = pushed.length
  turns : w.turns = List.dropUntil (Fits config) pushed

theorem held_nil (config : SlidingWindowConfig) : Held config [] { config := config } := ⟨rfl, rfl, rfl⟩

variable {pushed : List Turn} {w : SlidingWindow}

/-- **A turn is added and the window is again the end of all turns.** -/
theorem held_pushTurn (h : Held config pushed w) (messages : List TurnMessage) :
    Held config (pushed ++ [turnOf config pushed.length messages]) (w.pushTurn messages).2.2 where
  limits := h.limits
  nextIndex := by
    show w.nextIndex + 1 = _
    rw [h.nextIndex, List.length_append, List.length_singleton]
  turns := by
    show (enforceBudget w.config (w.turns ++ [turnOf w.config w.nextIndex messages])).2 = _
    rw [h.limits, h.nextIndex, enforceBudget_kept, h.turns]
    exact List.dropUntil_concat _ fun ys zs hsub => Fits.of_sublist hsub

theorem pushTurn_count (messages : List TurnMessage) :
    (w.pushTurn messages).2.1 + (w.pushTurn messages).2.2.turns.length = w.turns.length + 1 := by
  have hcount := enforceBudget_count w.config
    (w.turns ++ [turnOf w.config w.nextIndex messages])
  rw [List.length_append, List.length_singleton] at hcount
  exact hcount

/-- The turns that calls of `pushTurn` store, from the `n`-th on. -/
def turnsFrom (config : SlidingWindowConfig) : ℕ → List (List TurnMessage) → List Turn
  | _, [] => []
  | n, messages :: pushes => turnOf config n messages :: turnsFrom config (n + 1) pushes

/-- Calls of `pushTurn`: the numbers of evicted turns that they report, and the window. -/
def pushAll : List (List TurnMessage) → SlidingWindow → List ℕ × SlidingWindow
  | [], w => ([], w)
  | messages :: pushes, w =>
    let (_, evicted, w) := w.pushTurn messages
    let (reports, w) := pushAll pushes w
    (evicted :: reports, w)

theorem held_pushAll (h : Held config pushed w) (pushes : List (List TurnMessage)) :
    Held config (pushed ++ turnsFrom config pushed.length pushes) (pushAll pushes w).2 := by
  induction pushes generalizing pushed w with
  | nil =>
    show Held config (pushed ++ []) w
    rw [List.append_nil]
    exact h
  | cons messages pushes ih =>
    have hnext := ih (held_pushTurn h messages)
    rw [List.length_append, List.length_singleton, List.append_assoc] at hnext
    exact hnext

theorem pushAll_count (pushes : List (List TurnMessage)) (w : SlidingWindow) :
    (pushAll pushes w).1.sum + (pushAll pushes w).2.turns.length =
      w.turns.length + pushes.length := by
  induction pushes generalizing w with
  | nil =>
    show 0 + w.turns.length = w.turns.length + 0
    omega
  | cons messages pushes ih =>
    have hcall := pushTurn_count (w := w) messages
    have hrest := ih (w.pushTurn messages).2.2
    show ((w.pushTurn messages).2.1 :: (pushAll pushes (w.pushTurn messages).2.2).1).sum +
      (pushAll pushes (w.pushTurn messages).2.2).2.turns.length = _
    rw [List.sum_cons, List.length_cons]
    omega

theorem length_turnsFrom (n : ℕ) (pushes : List (List TurnMessage)) :
    (turnsFrom config n pushes).length = pushes.length := by
  induction pushes generalizing n with
  | nil => rfl
  | cons messages pushes ih => exact congrArg (· + 1) (ih (n + 1))

/-- The window of a history: the longest end within the limits, or nothing where not even
that is within them. -/
def Retains (config : SlidingWindowConfig) (history turns : List Turn) : Prop :=
  List.LongestFitting (Fits config) history turns ∨
    turns = [] ∧ ∀ zs, zs <:+ history → ¬ Fits config zs

theorem retains_of_held (h : Held config pushed w) : Retains config pushed w.turns := by
  rw [h.turns]
  by_cases hnil : Fits config []
  · exact Or.inl (List.longestFitting_dropUntil hnil)
  · -- a limit is negative
    have hnone : ∀ zs, ¬ Fits config zs := fun zs hzs => hnil (hzs.of_sublist zs.nil_sublist)
    refine Or.inr ⟨?_, fun zs _ => hnone zs⟩
    rcases List.fits_dropUntil pushed (Fits config) with hleft | hfits
    · exact hleft
    · exact absurd hfits (hnone _)

/-- **The window is the longest end of all turns that is within both limits; the turns
that the calls report as evicted are those before it, with the tokens that it lacks.** -/
theorem retains_longest (config : SlidingWindowConfig) (pushes : List (List TurnMessage)) :
    let history := turnsFrom config 0 pushes
    let (evicted, w) := pushAll pushes { config := config }
    Retains config history w.turns ∧
      evicted.sum + w.turns.length = history.length ∧
        history.take evicted.sum ++ w.turns = history ∧
          totalTokens (history.take evicted.sum) + totalTokens w.turns = totalTokens history := by
  have hheld := held_pushAll (held_nil config) pushes
  have hcount := pushAll_count pushes { config := config }
  rw [List.nil_append, List.length_nil] at hheld
  obtain ⟨history, hhistory⟩ : ∃ history, history = turnsFrom config 0 pushes := ⟨_, rfl⟩
  have hlength : history.length = pushes.length := by rw [hhistory, length_turnsFrom]
  rw [← hhistory] at hheld
  have hsuffix : (pushAll pushes { config := config }).2.turns <:+ history := by
    rw [hheld.turns]
    exact List.dropUntil_suffix history (Fits config)
  have hevicted : (pushAll pushes { config := config }).1.sum +
      (pushAll pushes { config := config }).2.turns.length = history.length := by
    rw [hcount, hlength]
    exact Nat.zero_add _
  -- the end of this length is what remains after as many turns as were evicted
  have hsplit : history.take (pushAll pushes { config := config }).1.sum ++
      (pushAll pushes { config := config }).2.turns = history := by
    obtain ⟨before, hbefore⟩ := hsuffix
    have htotal := congrArg List.length hbefore
    rw [List.length_append] at htotal
    have hsum : (pushAll pushes { config := config }).1.sum = before.length := by omega
    conv_lhs => rw [← hbefore, hsum, List.take_left]
    exact hbefore
  refine ⟨?_, ?_, ?_, ?_⟩
  · rw [← hhistory]
    exact retains_of_held hheld
  · rw [← hhistory]
    exact hevicted
  · rw [← hhistory]
    exact hsplit
  · rw [← hhistory, ← totalTokens_append, hsplit]

end SlidingWindow

end ClawHarder
