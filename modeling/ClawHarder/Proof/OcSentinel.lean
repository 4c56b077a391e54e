import ClawHarder.Lib.Avoid
import ClawHarder.Proof.OcPath
import ClawHarder.Spec.OcEdit

/-!
# The redaction sentinel in rendered texts

* `clear_jsonString`: a JSON string has the sentinel exactly when its text has it.
* `renderValue_emits`, `emitJsonl_emits`: **the emitters look at the text leaves and not at the
  keys**: a value is rendered only if its leaves are clear of the sentinel, and then its text is
  clear exactly when its keys are.
-/

namespace ClawHarder.OcPaths

abbrev Clear (t : Units) : Prop := redactedSentinel.Avoids t

abbrev Apart (b : Units) : Prop := redactedSentinel.Foreign b

theorem sentinel_ne_nil : redactedSentinel ≠ [] := by decide +kernel

theorem sentinel_letters : ∀ c ∈ redactedSentinel, c = 0x5F ∨ (0x41 ≤ c ∧ c ≤ 0x5A) := by
  decide +kernel

theorem not_mem_sentinel {c : ℕ} (hc : c ≠ 0x5F) (hcapital : c < 0x41 ∨ 0x5A < c) :
    c ∉ redactedSentinel := by
  intro hmem
  rcases sentinel_letters c hmem with h | h
  · exact hc h
  · omega

theorem clear_nil : Clear [] := List.avoids_nil sentinel_ne_nil

theorem clear_cut {c : ℕ} (hc : c ∉ redactedSentinel) (x y : Units) :
    Clear (x ++ c :: y) ↔ Clear x ∧ Clear y := List.avoids_cut hc x y

section

variable {b : Units} (hb : Apart b)
include hb

theorem clear_around (hne : b ≠ []) (x y : Units) : Clear (x ++ b ++ y) ↔ Clear x ∧ Clear y :=
  List.avoids_around sentinel_ne_nil hb hne x y

theorem clear_apart_append (y : Units) : Clear (b ++ y) ↔ Clear y :=
  List.avoids_foreign_append sentinel_ne_nil hb y

theorem clear_append_apart (x : Units) : Clear (x ++ b) ↔ Clear x :=
  List.avoids_append_foreign sentinel_ne_nil hb x

theorem clear_apart : Clear b := hb.avoids sentinel_ne_nil

theorem clear_intercalate (hne : b ≠ []) (parts : List Units) :
    Clear (b.intercalate parts) ↔ ∀ p ∈ parts, Clear p :=
  List.avoids_intercalate sentinel_ne_nil hb hne parts

end

theorem includes_sentinel {s : Units} : includes s redactedSentinel = false ↔ Clear s := by
  rw [← Bool.not_eq_true, includes_iff]
  rfl

theorem mem_hexDigits (n : ℕ) : ∀ c ∈ Nat.toDigits 16 n, ∃ d < 16, c = Nat.digitChar d := by
  induction n using Nat.strong_induction_on with
  | h n ih =>
    intro c hc
    rw [Nat.toDigits_eq_if (by decide)] at hc
    by_cases hlt : n < 16
    · rw [if_pos hlt, List.mem_singleton] at hc
      exact ⟨n, hlt, hc⟩
    · rw [if_neg hlt, List.mem_append, List.mem_singleton] at hc
      rcases hc with hc | hc
      · exact ih (n / 16) (by omega) c hc
      · exact ⟨n % 16, by omega, hc⟩

theorem apart_hexDigit : ∀ d < 16, Apart (utf16 (String.ofList [Nat.digitChar d])) := by
  decide +kernel

theorem apart_hex4 (c : ℕ) : Apart (hex4 c) := by
  have hzero : 0x30 ∉ redactedSentinel := not_mem_sentinel (by decide) (by decide)
  have hdigits : Apart (utf16 (String.ofList (Nat.toDigits 16 c))) := by
    intro u hu
    unfold utf16 at hu
    rw [String.toList_ofList, List.mem_flatMap] at hu
    obtain ⟨char, hchar, hu⟩ := hu
    obtain ⟨d, hd, rfl⟩ := mem_hexDigits c char hchar
    refine apart_hexDigit d hd u ?_
    unfold utf16
    rw [String.toList_ofList, List.flatMap_singleton]
    exact hu
  refine List.Foreign.append ?_ hdigits
  intro u hu
  rw [(List.mem_replicate.1 hu).2]
  exact hzero

theorem apart_escapes :
    ∀ t ∈ ["\\\"", "\\\\", "\\b", "\\t", "\\n", "\\f", "\\r", "\\u"].map utf16,
      t ≠ [] ∧ Apart t := by
  decide +kernel

theorem escapeUnit_cases (c : ℕ) :
    escapeUnit c = [c] ∨ c ∉ redactedSentinel ∧ escapeUnit c ≠ [] ∧ Apart (escapeUnit c) := by
  have hescape := apart_escapes
  simp only [List.map_cons, List.map_nil, List.forall_mem_cons] at hescape
  obtain ⟨hquote, hbackslash, hb, ht, hn, hf, hr, hu, -⟩ := hescape
  have hnot : c < 0x41 ∨ 0x5F < c ∨ c = 0x5C → c ∉ redactedSentinel :=
    fun hc => not_mem_sentinel (by omega) (by omega)
  unfold escapeUnit
  split_ifs with h₁ h₂ h₃ h₄ h₅ h₆ h₇ h₈
  · have h : c = 0x22 := h₁
    exact .inr ⟨hnot (by omega), hquote⟩
  · have h : c = 0x5C := h₂
    exact .inr ⟨hnot (by omega), hbackslash⟩
  · exact .inr ⟨hnot (by omega), hb⟩
  · exact .inr ⟨hnot (by omega), ht⟩
  · have h : c = 0x0A := h₅
    exact .inr ⟨hnot (by omega), hn⟩
  · exact .inr ⟨hnot (by omega), hf⟩
  · have h : c = 0x0D := h₇
    exact .inr ⟨hnot (by omega), hr⟩
  · have hrange : c < 0x20 ∨ 0xD800 ≤ c := by
      simp only [isHighSurrogate, isLowSurrogate, Bool.or_eq_true, Bool.and_eq_true,
        decide_eq_true_eq] at h₈
      omega
    have hne : utf16 "\\u" ++ hex4 c ≠ [] := List.append_ne_nil_of_left_ne_nil hu.1 _
    exact .inr ⟨hnot (by omega), hne, hu.2.append (apart_hex4 c)⟩
  · exact .inl rfl

/-- **Escaping neither makes the sentinel nor breaks it.** -/
theorem clear_escapeUnits (s pre : Units) : Clear (pre ++ escapeUnits s) ↔ Clear (pre ++ s) := by
  have hkeep : ∀ {c : ℕ} {t u : Units}, (∀ pre, Clear (pre ++ t) ↔ Clear (pre ++ u)) →
      ∀ pre, Clear (pre ++ (escapeUnit c ++ t)) ↔ Clear (pre ++ c :: u) := by
    intro c t u ht pre
    rcases escapeUnit_cases c with hkept | ⟨hc, hne, hapart⟩
    · have hrest := ht (pre ++ [c])
      rw [hkept]
      simpa only [List.append_assoc, List.singleton_append] using hrest
    · rw [← List.append_assoc, clear_around hapart hne, clear_cut hc]
      exact and_congr_right fun _ => ht []
  induction s using escapeUnits.induct generalizing pre with
  | case1 => rfl
  | case2 c =>
    have h := hkeep (c := c) (t := []) (u := []) (fun _ => Iff.rfl) pre
    rwa [List.append_nil] at h
  | case3 c d s hpair ih =>
    -- no half of a pair is a letter of the sentinel
    have hhalves := hpair
    simp only [isHighSurrogate, isLowSurrogate, Bool.and_eq_true, decide_eq_true_eq] at hhalves
    have hc : c ∉ redactedSentinel := not_mem_sentinel (by omega) (by omega)
    have hd : d ∉ redactedSentinel := not_mem_sentinel (by omega) (by omega)
    have hrest := ih []
    rw [escapeUnits, if_pos hpair, clear_cut hc, clear_cut hc]
    refine and_congr_right fun _ => ?_
    have hskip : ∀ t, Clear (d :: t) ↔ Clear t := by
      intro t
      have hcut := clear_cut hd [] t
      exact hcut.trans (and_iff_right clear_nil)
    rw [hskip, hskip]
    exact hrest
  | case4 c d s hpair ih =>
    rw [escapeUnits, if_neg hpair]
    exact hkeep ih pre

theorem clear_jsonString (s : Units) : Clear (jsonString s) ↔ Clear s := by
  have hquote : Apart [quote] := by decide +kernel
  have hescape := clear_escapeUnits s []
  unfold jsonString
  rw [← List.singleton_append, clear_apart_append hquote, clear_append_apart hquote]
  exact hescape

section Texts

variable {N : Type} (ofKey ofString : Units → List Units)

mutual

/-- What is taken of the keys and of the text leaves of a value, at every depth. -/
def JsoncValue.texts : JsoncValue N → List Units
  | .object entries _ => entryTexts entries
  | .array items _ => itemTexts items
  | .string v _ => ofString v
  | _ => []

def entryTexts : List (JsoncEntry (JsoncValue N)) → List Units
  | [] => []
  | ⟨key, v, _⟩ :: entries => ofKey key ++ (v.texts ++ entryTexts entries)

def itemTexts : List (JsoncValue N) → List Units
  | [] => []
  | v :: items => v.texts ++ itemTexts items

end

def noTexts : Units → List Units := fun _ => []

def oneText : Units → List Units := fun t => [t]

def JsoncValue.strings (v : JsoncValue N) : List Units := v.texts noTexts oneText

def JsoncValue.keys (v : JsoncValue N) : List Units := v.texts oneText noTexts

end Texts

/-- A text is emitted only if the leaves are clear, and then it is clear if the keys are. -/
def Emits {A : Type} (strings keys : List Units) (P : A → Prop) (r : Except Thrown A) : Prop :=
  match r with
  | .ok a => (∀ s ∈ strings, Clear s) ∧ (P a ↔ ∀ k ∈ keys, Clear k)
  | .error _ => ∃ s ∈ strings, ¬Clear s

section Emits

variable {A B C : Type} {P : A → Prop} {Q : B → Prop} {R : C → Prop} {x : Except Thrown A}
  {y : Except Thrown B} {strings strings' keys keys' : List Units}

theorem emits_ok {a : A} (h : P a ↔ ∀ k ∈ keys, Clear k) : Emits [] keys P (.ok a) :=
  ⟨by simp, h⟩

theorem Emits.map {f : A → B} (h : Emits strings keys P x) (hf : ∀ a, Q (f a) ↔ P a) :
    Emits strings keys Q (do let a ← x; return f a) := by
  cases x with
  | error e => exact h
  | ok a => exact ⟨h.1, (hf a).trans h.2⟩

/-- **One text after another**, with keys that are put around them. -/
theorem Emits.bind {f : A → B → C} (around : List Units) (hx : Emits strings keys P x)
    (hy : Emits strings' keys' Q y)
    (hf : ∀ a b, R (f a b) ↔ (∀ k ∈ around, Clear k) ∧ P a ∧ Q b) :
    Emits (strings ++ strings') (around ++ (keys ++ keys')) R
      (do let a ← x; let b ← y; return f a b) := by
  cases x with
  | error e =>
    obtain ⟨s, hs, hclear⟩ := hx
    exact ⟨s, List.mem_append_left _ hs, hclear⟩
  | ok a =>
    cases y with
    | error e =>
      obtain ⟨s, hs, hclear⟩ := hy
      exact ⟨s, List.mem_append_right _ hs, hclear⟩
    | ok b =>
      obtain ⟨hstrings, hkeys⟩ := hx
      obtain ⟨hstrings', hkeys'⟩ := hy
      refine ⟨List.forall_mem_append.2 ⟨hstrings, hstrings'⟩, ?_⟩
      rw [hf, hkeys, hkeys', List.forall_mem_append, List.forall_mem_append]

end Emits

section Render

variable {J : Js}

structure Spacing.Apart (spacing : Spacing) : Prop where
  pad : OcPaths.Apart spacing.pad
  colon : OcPaths.Apart spacing.colon
  colon_ne : spacing.colon ≠ []
  comma : OcPaths.Apart spacing.comma
  comma_ne : spacing.comma ≠ []

theorem jsonc_apart : jsoncSpacing.Apart := by
  constructor <;> decide +kernel

theorem jsonl_apart : jsonlSpacing.Apart := by
  constructor <;> decide +kernel

theorem clear_enclosed {spacing : Spacing} (h : spacing.Apart) {left right : ℕ}
    (hleft : left ∉ redactedSentinel) (hright : right ∉ redactedSentinel) (parts : List Units) :
    Clear (left :: (spacing.pad ++ spacing.comma.intercalate parts ++ spacing.pad ++ [right])) ↔
      ∀ p ∈ parts, Clear p := by
  have hclose : Apart (spacing.pad ++ [right]) := by
    refine h.pad.append ?_
    intro c hc
    rwa [List.mem_singleton.1 hc]
  have hopen : Apart (left :: spacing.pad) := by
    intro c hc
    rcases List.mem_cons.1 hc with rfl | hc
    · exact hleft
    · exact h.pad c hc
  have hsplit : left :: (spacing.pad ++ spacing.comma.intercalate parts ++ spacing.pad ++ [right]) =
      (left :: spacing.pad) ++ (spacing.comma.intercalate parts ++ (spacing.pad ++ [right])) := by
    simp only [List.cons_append, List.append_assoc]
  rw [hsplit, clear_apart_append hopen, clear_append_apart hclose,
    clear_intercalate h.comma h.comma_ne]

theorem clear_text (n : J.Num) : Clear (J.text n) := by
  intro hinfix
  have hunderscore : underscore ∈ redactedSentinel := by decide +kernel
  have hmem := hinfix.subset hunderscore
  exact J.text_plain n hmem

theorem clear_words : ∀ t ∈ ["true", "false", "null"].map utf16, t ≠ [] ∧ Apart t := by
  decide +kernel

variable {spacing : Spacing}

mutual

/-- **What the emitters look at**: the leaves, and not the keys. -/
theorem renderValue_emits (h : spacing.Apart) (guardPath : Units) (walked : List Units)
    (v : JsoncValue J.Num) :
    Emits v.strings v.keys Clear (renderValue J spacing guardPath walked v) := by
  cases v with
  | object entries line =>
    exact (renderEntries_emits h guardPath walked entries).map fun parts =>
      clear_enclosed h (not_mem_sentinel (by decide) (by decide))
        (not_mem_sentinel (by decide) (by decide)) parts
  | array items line =>
    exact (renderItems_emits h guardPath walked 0 items).map fun parts =>
      clear_enclosed h (not_mem_sentinel (by decide) (by decide))
        (not_mem_sentinel (by decide) (by decide)) parts
  | string s line =>
    unfold renderValue
    by_cases hs : includes s redactedSentinel = true
    · rw [if_pos hs]
      exact ⟨s, List.mem_singleton_self s, fun hclear => hclear (includes_iff.1 hs)⟩
    · rw [if_neg hs]
      have hclear : Clear s := includes_sentinel.1 (Bool.not_eq_true _ ▸ hs)
      refine ⟨fun t ht => (List.mem_singleton.1 ht) ▸ hclear, ?_⟩
      simp [JsoncValue.keys, JsoncValue.texts, noTexts, (clear_jsonString s).2 hclear]
  | number n line => exact emits_ok (by simp [JsoncValue.keys, JsoncValue.texts, clear_text n])
  | boolean b line =>
    have hwords := clear_words
    have hclear : Clear (utf16 (toString b)) := by
      cases b with
      | false => exact clear_apart (hwords _ (by decide)).2
      | true => exact clear_apart (hwords _ (by decide)).2
    exact emits_ok (by simp [JsoncValue.keys, JsoncValue.texts, hclear])
  | null line =>
    have hclear : Clear (utf16 "null") := clear_apart (clear_words _ (by decide)).2
    exact emits_ok (by simp [JsoncValue.keys, JsoncValue.texts, hclear])

theorem renderEntries_emits (h : spacing.Apart) (guardPath : Units) (walked : List Units)
    (entries : List (JsoncEntry (JsoncValue J.Num))) :
    Emits (entryTexts noTexts oneText entries) (entryTexts oneText noTexts entries)
      (fun parts => ∀ p ∈ parts, Clear p) (renderEntries J spacing guardPath walked entries) := by
  cases entries with
  | nil => exact emits_ok (by simp [entryTexts])
  | cons e entries =>
    obtain ⟨key, v, line⟩ := e
    have hvalue := renderValue_emits h guardPath (walked ++ [key]) v
    have hrest := renderEntries_emits h guardPath walked entries
    refine hvalue.bind [key] hrest fun text parts => ?_
    rw [List.forall_mem_cons, clear_around h.colon h.colon_ne, clear_jsonString, and_assoc,
      List.forall_mem_singleton]

theorem renderItems_emits (h : spacing.Apart) (guardPath : Units) (walked : List Units) (i : ℕ)
    (items : List (JsoncValue J.Num)) :
    Emits (itemTexts noTexts oneText items) (itemTexts oneText noTexts items)
      (fun parts => ∀ p ∈ parts, Clear p) (renderItems J spacing guardPath walked i items) := by
  cases items with
  | nil => exact emits_ok (by simp [itemTexts])
  | cons v items =>
    have hvalue := renderValue_emits h guardPath (walked ++ [utf16 (toString i)]) v
    have hrest := renderItems_emits h guardPath walked (i + 1) items
    refine hvalue.bind [] hrest fun text parts => ?_
    rw [List.forall_mem_cons]
    simp

end

theorem emitJsonc_emits (root : JsoncValue J.Num) (fileName? : Option Units) :
    Emits root.strings root.keys Clear (emitJsonc J (some root) fileName?) :=
  renderValue_emits jsonc_apart (guardPathOf fileName?) [] root

end Render

section Lines

variable {J : Js}

def JsonlLine.strings : JsonlLine J.Num → List Units
  | .value _ v _ => v.strings
  | _ => []

def JsonlLine.texts : JsonlLine J.Num → List Units
  | .value _ v _ => v.keys
  | .blank _ raw | .malformed _ raw => [raw]

theorem renderLine_emits (guardPath : Units) (line : JsonlLine J.Num) :
    Emits line.strings line.texts Clear (renderLine J guardPath line) := by
  cases line with
  | value line value raw => exact renderValue_emits jsonl_apart _ [] value
  | blank line raw => exact emits_ok (by simp [JsonlLine.texts])
  | malformed line raw => exact emits_ok (by simp [JsonlLine.texts])

theorem renderLines_emits (guardPath : Units) (lines : List (JsonlLine J.Num)) :
    Emits (lines.flatMap JsonlLine.strings) (lines.flatMap JsonlLine.texts)
      (fun out => ∀ t ∈ out, Clear t) (lines.mapM (renderLine J guardPath)) := by
  induction lines with
  | nil => exact emits_ok (by simp)
  | cons line lines ih =>
    rw [List.mapM_cons]
    refine (renderLine_emits guardPath line).bind [] ih fun text out => ?_
    rw [List.forall_mem_cons]
    simp

theorem emitJsonl_emits (ast : JsonlAst J.Num) (fileName? : Option Units) :
    Emits (ast.lines.flatMap JsonlLine.strings) (ast.lines.flatMap JsonlLine.texts) Clear
      (emitJsonl J ast fileName?) := by
  have hending : ∀ ending : LineEnding, Apart ending.text ∧ ending.text ≠ [] := by
    intro ending
    cases ending <;> decide +kernel
  obtain ⟨hapart, hne⟩ := hending (ast.lineEnding?.getD .lf)
  exact (renderLines_emits (guardPathOf fileName?) ast.lines).map fun out =>
    clear_intercalate hapart hne out

end Lines

end ClawHarder.OcPaths
