import Mathlib.Algebra.GroupWithZero.Nat
import Mathlib.Data.Rat.Defs
import ClawHarder.Spec.Persistence

/-!
# The sliding window

`sliding-window.ts`: a bounded history of completed turns. `pushTurn` replaces long
tool results by a pointer, stores the turn and evicts the oldest turns until the
window is within its budget. The contents that were replaced are its result: the
context engine stores them as artifacts.
-/

namespace ClawHarder

inductive Role where
  | user
  | assistant
  | tool
  deriving DecidableEq, Repr

structure TurnMessage where
  role : Role
  content : String
  deriving DecidableEq

structure Turn where
  index : ℕ
  messages : List TurnMessage
  tokenEstimate : ℕ
  hasOffloadedArtifact : Bool

structure OffloadCandidate where
  turnIndex : ℕ
  messageIndex : ℕ
  originalContent : String
  refId : String
  replacement : String

/-- The limits are numbers of the caller's; tokens are characters over a positive ratio. -/
structure SlidingWindowConfig where
  maxTokens : ℚ := 6000
  maxTurns : ℚ := 5
  offloadThresholdChars : ℚ := 4000
  charsPerToken : ℚ := 4
  charsPerToken_pos : 0 < charsPerToken := by decide

structure SlidingWindow where
  turns : List Turn := []
  nextIndex : ℕ := 0
  config : SlidingWindowConfig := {}

/-- `s.length`, in UTF-16 code units -/
def jsLength (s : String) : ℕ :=
  (s.toList.map fun c => if c.toNat < 0x10000 then 1 else 2).sum

/-- `s.split("\n").length` -/
def splitLines (s : String) : ℕ := s.toList.count '\n' + 1

def buildOffloadReplacement (refId content : String) : String :=
  let lines := splitLines content
  let bytes := content.utf8ByteSize
  "[Large output offloaded to artifact store]\n" ++
  "REF_ID: " ++ refId ++ "\n" ++
  "Size: " ++ toString bytes ++ " bytes / " ++ toString lines ++ " lines\n" ++
  "Use: recall_evidence(\x7b ref_id: \"" ++ refId ++
    "\", mode: \"summary\" \x7d) to inspect.\n" ++
  "Use: recall_evidence(\x7b ref_id: \"" ++ refId ++
    "\", mode: \"search\", query: \"...\" \x7d) for targeted lookup."

namespace SlidingWindow

/-- Is the message a tool result that is too long to keep? -/
def offloads (config : SlidingWindowConfig) (msg : TurnMessage) : Bool :=
  msg.role = .tool ∧ config.offloadThresholdChars < jsLength msg.content

/-- `detectOffloads`, over the messages with their positions. -/
def detectOffloads (config : SlidingWindowConfig) (messages : List TurnMessage) (turnIndex : ℕ) :
    List OffloadCandidate :=
  messages.zipIdx.filterMap fun (msg, i) =>
    if offloads config msg then
      let refId := "REF_" ++ padStart 4 (toString turnIndex) ++ "_" ++ padStart 2 (toString i)
      some
        { turnIndex
          messageIndex := i
          originalContent := msg.content
          refId
          replacement := buildOffloadReplacement refId msg.content }
    else none

def applyOffloads (messages : List TurnMessage) (offloads : List OffloadCandidate) :
    List TurnMessage :=
  if offloads = [] then messages
  else
    messages.mapIdx fun i msg =>
      match offloads.find? (fun o => o.messageIndex = i) with
      | some offload => { msg with content := offload.replacement }
      | none => msg

/-- `Math.ceil(chars / chars_per_token)` -/
def estimateTokens (config : SlidingWindowConfig) (messages : List TurnMessage) : ℕ :=
  let chars := (messages.map fun m => jsLength m.content).sum
  (Rat.ceil ((chars : ℚ) / config.charsPerToken)).toNat

def totalTokens (turns : List Turn) : ℕ := (turns.map Turn.tokenEstimate).sum

/-- Is the history over one of the limits? -/
def overBudget (config : SlidingWindowConfig) (turns : List Turn) : Bool :=
  config.maxTurns < (turns.length : ℚ) ∨ config.maxTokens < (totalTokens turns : ℚ)

/-- `enforcebudget`: the number of evicted turns and the turns that stay. -/
def enforceBudget (config : SlidingWindowConfig) : List Turn → ℕ × List Turn
  | [] => (0, [])
  | turn :: rest =>
    if overBudget config (turn :: rest) then
      let (evicted, kept) := enforceBudget config rest
      (evicted + 1, kept)
    else (0, turn :: rest)

/-- `pushTurn`: the offloads, the number of evicted turns and the window. -/
def pushTurn (messages : List TurnMessage) (w : SlidingWindow) :
    List OffloadCandidate × ℕ × SlidingWindow :=
  let offloads := detectOffloads w.config messages w.nextIndex
  let processedMessages := applyOffloads messages offloads
  let turn : Turn :=
    { index := w.nextIndex
      messages := processedMessages
      tokenEstimate := estimateTokens w.config processedMessages
      hasOffloadedArtifact := offloads ≠ [] }
  let (evicted, turns) := enforceBudget w.config (w.turns ++ [turn])
  (offloads, evicted, { w with turns, nextIndex := w.nextIndex + 1 })

end SlidingWindow

end ClawHarder
