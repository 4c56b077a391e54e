import ClawHarder.Lib.Replace
import ClawHarder.Spec.PolicyEngine

/-!
# Public claims

`govern_public_claims` of `policy_engine.py`, with `str.lower` on any text: what the letters
outside ASCII become is in `Unicode`, but for the two that have an ASCII letter in their lower
case.
-/

namespace ClawHarder.Policy

open PyText (lit codePoint)

structure Unicode where
  /-- the lower case of a letter, which may depend on the text around it -/
  lowerOther : PyText → PyText → CodePoint → PyText
  nonempty : ∀ before after c, lowerOther before after c ≠ []
  nonAscii : ∀ before after c, ∀ d ∈ lowerOther before after c, 128 ≤ d.val

/-- Lower case in a world where the other letters have none. -/
def asciiOnly : Unicode where
  lowerOther _ _ c := [if c.val < 128 then 128 else c]
  nonempty _ _ _ := List.cons_ne_nil _ _
  nonAscii before after c d hd := by
    rw [List.mem_singleton.1 hd]
    split
    · decide
    · omega

def isUpper (c : CodePoint) : Bool := 65 ≤ c.val && c.val ≤ 90

/-- the capital I with a dot above -/
def dottedI : CodePoint := 0x130

/-- the sign of the unit kelvin -/
def kelvin : CodePoint := 0x212A

variable (U : Unicode)

def lowerChar (before after : PyText) (c : CodePoint) : PyText :=
  if isUpper c then [Fin.ofNat 0x110000 (c.val + 32)]
  else if c.val < 128 then [c]
  else if c = kelvin then [codePoint 'k']
  else if c = dottedI then [codePoint 'i', 0x307]
  else U.lowerOther before after c

def lowerFrom (before : PyText) : PyText → PyText
  | [] => []
  | c :: after => lowerChar U before after c ++ lowerFrom (before ++ [c]) after

/-- `text.lower()` -/
def lower (text : PyText) : PyText := lowerFrom U [] text

/-- `pattern.capitalize()`, of a pattern in small letters -/
def capitalize : PyText → PyText
  | [] => []
  | c :: pattern => Fin.ofNat 0x110000 (c.val - 32) :: pattern

def replacements : List (PyText × PyText) := [
  (lit "i remember", lit "I may have relevant context in this session"),
  (lit "i can access your files",
    lit "I can work with files that are available through the configured runtime"),
  (lit "i already did", lit "I can do that if approved and available in the runtime"),
  (lit "i know your files", lit "I can inspect files available in the runtime workspace"),
  (lit "i am your", lit "I am a governed runtime assisting you as"),
  (lit "i can see your secrets",
    lit "I can only access what is authorized in my current envelope")]

/-- A receipt of a rewritten text. -/
structure ClaimReceipt where
  proposal : RuntimeProposal
  decision : PyText := lit "REWRITE"
  deltaKind : ToolDelta := .fabricateAuthority
  reasons : List PyText
  /-- the `text` of the resolution -/
  resolution : PyText

/-- The governed text and the reasons, after one more item of `replacements`. -/
def applyReplacement (profile : GovernanceProfile) (lowered : PyText)
    (state : PyText × List PyText) (item : PyText × PyText) : PyText × List PyText :=
  if item.1 <:+: lowered then
    let governedText :=
      if profile.rewriteBroadRequests then
        List.replaceAll (capitalize item.1) item.2 (List.replaceAll item.1 item.2 state.1)
      else state.1
    (governedText, state.2 ++ [lit "Text matches overclaim pattern: '" ++ item.1 ++ lit "'."])
  else state

def governPublicClaims (text : PyText) (profile : GovernanceProfile) :
    PyText × Option ClaimReceipt :=
  let (governedText, appliedReasons) :=
    replacements.foldl (applyReplacement profile (lower U text)) (text, [])
  if appliedReasons = [] then (text, none)
  else (governedText, some {
    proposal := {
      kind := lit "text_claim"
      subject := lit "runtime"
      operation := lit "claim_emission"
      scope := lit "public_interface"
      purpose := lit "social_interaction"
      authority := lit "language_model"
      constraints := []
      source := lit "assistant_text"
      targetState := [(lit "original", .str text), (lit "governed", .str governedText)] }
    reasons := appliedReasons
    resolution := governedText })

end ClawHarder.Policy
