import Mathlib.Algebra.Order.Floor.Ring
import Mathlib.Tactic.Linarith
import ClawHarder.Spec.Injection
import ClawHarder.Proof.Redaction

/-!
# The length of the injected context

`compile` compares the joined sections with `max_chars`. It cuts what is longer and
adds a note, for which 120 units are kept; it puts a heading before what is not longer,
for which none are kept.

* `within_budget_iff`: **the context is within the budget just in case the sections are
  longer than it or leave room for the heading.**
-/

namespace ClawHarder

namespace Limit

/-- `k ≤ limit` -/
def atLeast (k : ℚ) : Limit → Bool
  | .finite q => k ≤ q
  | .infinity => true
  | .negInfinity => false
  | .nan => false

theorem position_finite_le {q : ℚ} (hq : 0 ≤ q) (length : ℕ) :
    ((Limit.finite q).position length : ℚ) ≤ q := by
  have htrunc : trunc q = q.floor := by
    unfold trunc
    rw [if_neg (not_lt.mpr hq)]
  have hfloor : 0 ≤ q.floor := Rat.le_floor_iff.mpr (by simpa using hq)
  have hle : ((q.floor : ℤ) : ℚ) ≤ q := Rat.floor_le q
  simp only [position, htrunc, if_neg (not_lt.mpr hfloor)]
  have hmin : min q.floor.toNat length ≤ q.floor.toNat := min_le_left _ _
  have hcast : ((q.floor.toNat : ℤ) : ℚ) = (q.floor : ℚ) := by rw [Int.toNat_of_nonneg hfloor]
  have hnat : ((min q.floor.toNat length : ℕ) : ℚ) ≤ (q.floor.toNat : ℚ) := by exact_mod_cast hmin
  have hint : (q.floor.toNat : ℚ) = ((q.floor.toNat : ℤ) : ℚ) := by norm_cast
  linarith

end Limit

theorem utf16_append (s t : String) : utf16 (s ++ t) = utf16 s ++ utf16 t := by
  unfold utf16
  rw [String.toList_append, List.flatMap_append]

namespace Injection

variable {N : Type} [JsNumber N]

def joinedLength : List (List ℕ) → ℕ
  | [] => 0
  | [text] => text.length
  | text :: next :: rest => text.length + 2 + joinedLength (next :: rest)

theorem length_joinUnits (texts : List (List ℕ)) :
    (joinUnits "\n\n" texts).length = joinedLength texts := by
  have hsep : (utf16 "\n\n").length = 2 := by decide +kernel
  unfold joinUnits
  induction texts with
  | nil => rfl
  | cons text rest ih =>
    cases rest with
    | nil => simp [List.intercalate, joinedLength]
    | cons next rest =>
      rw [List.intercalate_cons_cons, List.length_append, List.length_append, ih, hsep,
        joinedLength]

def truncationNote (P : Printer N) (limit : Limit) : List ℕ :=
  utf16 ("\n\n[Operational context truncated at " ++ P.limit limit ++
    " chars. Use recall_evidence for full state.]")

omit [JsNumber N] in
theorem length_truncationNote (P : Printer N) (limit : Limit) :
    (truncationNote P limit).length = 80 + (utf16 (P.limit limit)).length := by
  have hbefore : (utf16 "\n\n[Operational context truncated at ").length = 36 := by decide +kernel
  have hafter : (utf16 " chars. Use recall_evidence for full state.]").length = 44 := by
    decide +kernel
  rw [truncationNote, utf16_append, utf16_append, List.length_append, List.length_append, hbefore,
    hafter]
  omega

theorem compile_eq (P : Printer N) (config : InjectionConfig) {manifest : Manifest N}
    {texts : List (List ℕ)} (htexts : sections P config manifest = some texts) :
    compile P config manifest = some
      (if config.maxChars.exceededBy (joinedLength texts) then
        sliceTo (config.maxChars.minus 120) (joinUnits "\n\n" texts) ++
          truncationNote P config.maxChars
      else utf16 "# Current Operational Memory\n\n" ++ joinUnits "\n\n" texts) := by
  unfold compile
  rw [htexts]
  simp only [Option.bind_eq_bind, Option.bind_some, length_joinUnits]
  split <;> rfl

/-- **What is cut ends within the budget**: the note takes no more than the units that
are kept for it. -/
theorem compile_cut {limit : Limit} (hleast : limit.atLeast 120) {note : List ℕ}
    (hnote : note.length ≤ 120) (body : List ℕ) :
    limit.exceededBy (sliceTo (limit.minus 120) body ++ note).length = false := by
  cases limit with
  | finite q =>
    have hq : (120 : ℚ) ≤ q := by simpa [Limit.atLeast] using hleast
    have hplace := Limit.position_finite_le (sub_nonneg.mpr hq) body.length
    have htake : (sliceTo (Limit.minus 120 (.finite q)) body).length ≤
        (Limit.finite (q - 120)).position body.length := List.length_take_le _ _
    have hcut : ((sliceTo (Limit.minus 120 (.finite q)) body).length : ℚ) ≤ q - 120 :=
      (Nat.cast_le.mpr htake).trans hplace
    have hnote' : (note.length : ℚ) ≤ 120 := by exact_mod_cast hnote
    have hsum : ((sliceTo (Limit.minus 120 (.finite q)) body ++ note).length : ℚ) ≤ q := by
      rw [List.length_append, Nat.cast_add]
      linarith
    simpa [Limit.exceededBy] using hsum
  | infinity => rfl
  | negInfinity => cases hleast
  | nan => cases hleast

/-- The sections are longer than the budget, or leave room for the heading. -/
def LeavesRoom (P : Printer N) (config : InjectionConfig) (manifest : Manifest N) : Prop :=
  ∀ texts, sections P config manifest = some texts →
    config.maxChars.exceededBy (joinedLength texts) = true ∨
      config.maxChars.exceededBy (30 + joinedLength texts) = false

/-- **The context is within the budget just in case the sections are longer than the
budget or leave room for the heading.** A number takes at most 40 units as a text. -/
theorem within_budget_iff (P : Printer N) (config : InjectionConfig) (manifest : Manifest N)
    (hleast : config.maxChars.atLeast 120)
    (hprint : (utf16 (P.limit config.maxChars)).length ≤ 40) :
    (∀ context, compile P config manifest = some context →
      config.maxChars.exceededBy context.length = false) ↔ LeavesRoom P config manifest := by
  have hheading : (utf16 "# Current Operational Memory\n\n").length = 30 := by decide +kernel
  constructor
  · intro h texts htexts
    have hcontext := h _ (compile_eq P config htexts)
    by_cases hlong : config.maxChars.exceededBy (joinedLength texts) = true
    · exact Or.inl hlong
    · rw [if_neg hlong, List.length_append, hheading, length_joinUnits] at hcontext
      exact Or.inr hcontext
  · intro h context hcontext
    cases htexts : sections P config manifest with
    | none =>
      unfold compile at hcontext
      rw [htexts] at hcontext
      cases hcontext
    | some texts =>
      rw [compile_eq P config htexts] at hcontext
      obtain rfl := Option.some.inj hcontext
      by_cases hlong : config.maxChars.exceededBy (joinedLength texts) = true
      · rw [if_pos hlong]
        have hnote : (truncationNote P config.maxChars).length ≤ 120 := by
          rw [length_truncationNote]
          omega
        exact compile_cut hleast hnote _
      · rw [if_neg hlong, List.length_append, hheading, length_joinUnits]
        exact (h texts htexts).resolve_left hlong

def blankManifest : Manifest ℚ where
  revision := 0
  integrityHash := ""
  createdAt := "1970-01-01T00:00:00.000Z"
  updatedAt := "1970-01-01T00:00:00.000Z"
  facts := .empty
  references := .empty
  summaries := .empty
  operations := []
  lastFactIndex := 0

theorem blank_within_budget_iff :
    (∀ context, compile plainHost { maxChars := .finite 120 } blankManifest = some context →
      Limit.exceededBy context.length (.finite 120) = false) ↔
        LeavesRoom plainHost { maxChars := .finite 120 } blankManifest :=
  within_budget_iff plainHost { maxChars := .finite 120 } blankManifest (by decide +kernel)
    (by decide +kernel)

theorem blank_over_budget :
    ∃ context, compile plainHost { maxChars := .finite 120 } blankManifest = some context ∧
      Limit.atLeast 120 (.finite 120) = true ∧
        Limit.exceededBy context.length (.finite 120) = true := by
  refine ⟨(compile plainHost { maxChars := .finite 120 } blankManifest).getD [], ?_, ?_, ?_⟩ <;>
    decide +kernel

end Injection

end ClawHarder
