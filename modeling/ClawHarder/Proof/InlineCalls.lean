import ClawHarder.Lib.PyJsonRead
import ClawHarder.Spec.ModelText

/-!
# Tool calls in a model's text

`inline_call`: **an encoded call between prose is the one call that is extracted**, under its
normalised name, when its braces nest as they are counted and the text is not read in one of the
two other forms, the imperative one and the constrained channel.
-/

namespace ClawHarder.ModelText

open PyText (lit codePoint strip)
open PyJson

def brace (c : CodePoint) : ℤ :=
  if c = codePoint '\x7b' then 1 else if c = codePoint '\x7d' then -1 else 0

/-- From this depth, all braces are closed at the end of the text and not before. -/
def Nests (depth : ℤ) : PyText → Prop
  | [] => depth = 0
  | c :: s => 0 < depth ∧ Nests (depth + brace c) s

instance decidableNests : (depth : ℤ) → (s : PyText) → Decidable (Nests depth s)
  | depth, [] => inferInstanceAs (Decidable (depth = 0))
  | depth, c :: s =>
    have := decidableNests (depth + brace c) s
    inferInstanceAs (Decidable (0 < depth ∧ Nests (depth + brace c) s))

theorem brace_other {c : CodePoint} (hopening : c ≠ codePoint '\x7b')
    (hclosing : c ≠ codePoint '\x7d') : brace c = 0 := by
  unfold brace
  rw [if_neg hopening, if_neg hclosing]

theorem balancedObjects_nests {s : PyText} {depth : ℕ} (hdepth : 0 < depth)
    (h : Nests depth s) (object r : PyText) :
    balancedObjects depth object (s ++ r) = (object ++ s) :: balancedObjects 0 [] r := by
  induction s generalizing depth object with
  | nil =>
    have hend : (depth : ℤ) = 0 := h
    omega
  | cons c s ih =>
    have htail := h.2
    have happend : object ++ [c] ++ s = object ++ c :: s := by simp
    rw [List.cons_append, balancedObjects]
    split
    next hc =>
      have hrest : Nests ((depth + 1 : ℕ) : ℤ) s := by
        rw [hc] at htail
        exact htail
      rw [if_neg (by omega), ih (by omega) hrest, happend]
    next hopening =>
      split
      next hc =>
        rw [hc] at htail
        rw [if_neg (by omega)]
        split
        next hone =>
          -- the last brace closes the object, so that nothing of it is left
          have hlast : s = [] := by
            cases s with
            | nil => rfl
            | cons d s =>
              have hpos : 0 < (depth : ℤ) + brace (codePoint '\x7d') := htail.1
              have hbrace : brace (codePoint '\x7d') = -1 := rfl
              omega
          rw [hlast]
          rfl
        next hmore =>
          have hrest : Nests ((depth - 1 : ℕ) : ℤ) s := by
            have hcast : ((depth - 1 : ℕ) : ℤ) = depth + brace (codePoint '\x7d') := by
              have hbrace : brace (codePoint '\x7d') = -1 := rfl
              omega
            rwa [hcast]
          rw [ih (by omega) hrest, happend]
      next hclosing =>
        rw [brace_other hopening hclosing, Int.add_zero] at htail
        rw [ih hdepth htail, happend]

def Braceless (t : PyText) : Prop := codePoint '\x7b' ∉ t ∧ codePoint '\x7d' ∉ t

theorem balancedObjects_braceless {t : PyText} (ht : Braceless t) (object r : PyText) :
    ∃ passed, balancedObjects 0 object (t ++ r) = balancedObjects 0 passed r := by
  induction t generalizing object with
  | nil => exact ⟨object, rfl⟩
  | cons c t ih =>
    obtain ⟨hopening, hclosing⟩ := ht
    rw [List.mem_cons, not_or] at hopening hclosing
    obtain ⟨passed, hpassed⟩ := ih ⟨hopening.2, hclosing.2⟩ (object ++ [c])
    refine ⟨passed, ?_⟩
    rw [List.cons_append, balancedObjects, if_neg fun h => hopening.1 h.symm,
      if_neg fun h => hclosing.1 h.symm, hpassed]

theorem extract_nests {before after s : PyText} (hbefore : Braceless before)
    (hafter : Braceless after) (hs : Nests 1 s) :
    extractBalancedJsonObjects (before ++ (codePoint '\x7b' :: s ++ after)) =
      [codePoint '\x7b' :: s] := by
  obtain ⟨passed, hpassed⟩ := balancedObjects_braceless hbefore [] (codePoint '\x7b' :: s ++ after)
  obtain ⟨rest, hrest⟩ := balancedObjects_braceless hafter [] []
  have hopen : balancedObjects 0 passed (codePoint '\x7b' :: s ++ after) =
      balancedObjects 1 [codePoint '\x7b'] (s ++ after) := rfl
  have hnests := balancedObjects_nests Nat.one_pos hs [codePoint '\x7b'] after
  have hnil : balancedObjects 0 [] after = [] := by
    rw [List.append_nil] at hrest
    rw [hrest]
    rfl
  unfold extractBalancedJsonObjects
  rw [hpassed, hopen, hnests, hnil]
  rfl

variable {floatRepr : PyText → PyText} {h : Host}

def payload (name : PyText) (args : PyDict) : PyDict :=
  [(lit "tool", .str name), (lit "arguments", .dict args)]

/-- The text is read neither as an imperative call nor as one of the constrained channel. -/
structure Inline (floatRepr : PyText → PyText) (h : Host) (text : PyText) : Prop where
  imperative : ∀ name args, imperative (strip text) = some (name, args) →
    normalizeToolName name = []
  channel : (recoverConstrained floatRepr h text ⟨[], [], text⟩).calls = []

theorem recoverConstrained_of_no_calls {text : PyText} {r : Recovered} (hr : r.calls = [])
    (hnone : (recoverConstrained floatRepr h text r).calls = []) :
    recoverConstrained floatRepr h text r = r := by
  unfold recoverConstrained at hnone ⊢
  split
  · rfl
  next hthought =>
    rw [if_neg hthought] at hnone
    split
    next members hload =>
      simp only [hload] at hnone ⊢
      split
      · rfl
      next hname =>
        rw [if_neg hname] at hnone
        simp [Recovered.add, hr] at hnone
    next => rfl

theorem encodable_payload {name : PyText} {args : PyDict} (hname : Unsplit name)
    (hargs : Encodable floatRepr (.dict args)) :
    Encodable floatRepr (.dict (payload name args)) := by
  have hkey : ∀ k : PyText, k = lit "tool" ∨ k = lit "arguments" → Unsplit k := by
    rintro k (rfl | rfl) <;> · unfold Unsplit; decide
  refine .dict ?_ (fun m hm => hkey _ ?_) (fun m hm => ?_)
  · simp [payload, lit]
  · simp only [payload, List.mem_cons, List.not_mem_nil, or_false] at hm
    obtain rfl | rfl := hm
    · exact .inl rfl
    · exact .inr rfl
  · simp only [payload, List.mem_cons, List.not_mem_nil, or_false] at hm
    obtain rfl | rfl := hm
    · exact .str hname
    · exact hargs

/-- **An encoded call between prose is the one call that is extracted**, under its normalised
name, when its braces nest and the text has no other form. -/
theorem inline_call (h : Host) {name : PyText} {args : PyDict} {before after : PyText}
    (hname : Unsplit name) (hargs : Encodable floatRepr (.dict args))
    (hbefore : Braceless before) (hafter : Braceless after)
    (hnormal : normalizeToolName name ≠ [])
    (hnests : Nests 1 (dumps (.dict (payload name args))).tail)
    (hinline : Inline floatRepr h (before ++ dumps (.dict (payload name args)) ++ after)) :
    (extractInlineToolCalls floatRepr h
        (before ++ dumps (.dict (payload name args)) ++ after)).calls =
      [⟨normalizeToolName name, args⟩] := by
  have hread := loads_dumps (encodable_payload hname hargs) rfl
  have htool : PyValue.get? (lit "tool") (payload name args) = some (.str name) := rfl
  have harguments : PyValue.get? (lit "arguments") (payload name args) = some (.dict args) := rfl
  have hobjects := extract_nests hbefore hafter hnests
  have hchannel := recoverConstrained_of_no_calls rfl hinline.channel
  have htext : before ++ (codePoint '\x7b' :: (dumps (.dict (payload name args))).tail ++ after) =
      before ++ dumps (.dict (payload name args)) ++ after := (List.append_assoc ..).symm
  have hcandidate : codePoint '\x7b' :: (dumps (.dict (payload name args))).tail =
      dumps (.dict (payload name args)) := rfl
  rw [htext, hcandidate] at hobjects
  have hcalls : ((extractBalancedJsonObjects
      (before ++ dumps (.dict (payload name args)) ++ after)).foldl (recoverInline floatRepr h)
        (recoverConstrained floatRepr h (before ++ dumps (.dict (payload name args)) ++ after)
          ⟨[], [], before ++ dumps (.dict (payload name args)) ++ after⟩)).calls =
      [⟨normalizeToolName name, args⟩] := by
    rw [hobjects, hchannel]
    simp only [List.foldl_cons, List.foldl_nil, recoverInline, hread, htool, PyValue.text,
      if_neg hnormal, harguments, Option.getD_some, Recovered.add, normalizeToolArguments,
      List.nil_append]
  unfold extractInlineToolCalls
  simp only [hcalls]
  split
  next => simp [dedupeToolCalls]
  next n raw himperative =>
    rw [if_pos (hinline.imperative n raw himperative)]
    simp [dedupeToolCalls]

def Extracted (floatRepr : PyText → PyText) (h : Host) (name : PyText) (args : PyDict)
    (before after : PyText) : Prop :=
  (extractInlineToolCalls floatRepr h
    (before ++ dumps (.dict (payload name args)) ++ after)).calls = [⟨name, args⟩]

theorem Extracted.names {name : PyText} {args : PyDict} {before after : PyText}
    (hextracted : Extracted floatRepr h name args before after) :
    (extractInlineToolCalls floatRepr h
      (before ++ dumps (.dict (payload name args)) ++ after)).calls.map ToolCall.name = [name] := by
  rw [hextracted]
  rfl

def quietHost : Host where
  reprOf _ := []
  thought _ := none
  recipient _ := none
  constrained _ := none
  clean text := text

/-- A text with a thought and, in an argument, an empty payload for another tool. -/
def channelHost : Host :=
  { quietHost with
    thought := fun _ => some (lit "hm")
    recipient := fun _ => some (lit "other")
    constrained := fun _ => some (lit "\x7b\x7d") }

def textArgument (text : String) : PyDict := [(lit "a", .str (lit text))]

theorem run_extracted :
    (extractInlineToolCalls id quietHost (lit "Now: " ++
        dumps (.dict (payload (lit "run") (textArgument "\x7bb\x7d"))) ++ lit " Done.")).calls =
      [⟨normalizeToolName (lit "run"), textArgument "\x7bb\x7d"⟩] := by
  refine inline_call quietHost ?_ ?_ ?_ ?_ ?_ ?_ ⟨?_, rfl⟩
  · unfold Unsplit
    decide
  · refine .dict (by simp [textArgument]) (fun m hm => ?_) (fun m hm => ?_)
    · rw [List.mem_singleton.1 hm]
      exact List.isChain_singleton _
    · rw [List.mem_singleton.1 hm]
      refine .str ?_
      unfold Unsplit
      decide
  · unfold Braceless
    decide
  · unfold Braceless
    decide
  · decide
  · decide +kernel
  · intro name args himperative
    have hnone : imperative (strip (lit "Now: " ++
        dumps (.dict (payload (lit "run") (textArgument "\x7bb\x7d"))) ++ lit " Done.")) = none := by
      decide +kernel
    rw [hnone] at himperative
    cases himperative

theorem calls_differ :
    ¬Extracted id quietHost (lit "run") (textArgument "\x7d") [] [] ∧
      ¬Extracted id quietHost (lit "functions.run") [] [] [] ∧
      ¬Extracted id quietHost (lit "run") [] (lit "CALL_TOOL go ") [] ∧
      ¬Extracted id channelHost (lit "run") [] (lit "Thought: hm\n") [] := by
  have hnames :
      ((extractInlineToolCalls id quietHost ([] ++ dumps (.dict (payload (lit "run")
          (textArgument "\x7d"))) ++ [])).calls.map ToolCall.name ≠ [lit "run"] ∧
        (extractInlineToolCalls id quietHost ([] ++ dumps (.dict (payload (lit "functions.run")
          [])) ++ [])).calls.map ToolCall.name ≠ [lit "functions.run"]) ∧
      (extractInlineToolCalls id quietHost (lit "CALL_TOOL go " ++ dumps (.dict (payload
          (lit "run") [])) ++ [])).calls.map ToolCall.name ≠ [lit "run"] ∧
        (extractInlineToolCalls id channelHost (lit "Thought: hm\n" ++ dumps (.dict (payload
          (lit "run") [])) ++ [])).calls.map ToolCall.name ≠ [lit "run"] := by
    decide +kernel
  exact ⟨fun hcall => hnames.1.1 hcall.names, fun hcall => hnames.1.2 hcall.names,
    fun hcall => hnames.2.1 hcall.names, fun hcall => hnames.2.2 hcall.names⟩

end ClawHarder.ModelText
