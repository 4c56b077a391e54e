import Mathlib.Algebra.GroupWithZero.Nat
import Mathlib.Data.List.DropRight
import Mathlib.Data.List.Infix
import Mathlib.Data.List.Lex
import Mathlib.Order.Fin.Basic

/-!
# Python strings

A Python string is a list of code points, lone surrogates included. `strip` is
`str.strip()`; `Stripped` is a text that it leaves alone.

* `strip_strip`: stripping twice is stripping once.
-/

abbrev CodePoint := Fin 0x110000

abbrev PyText := List CodePoint

instance CodePoint.neZero : NeZero 0x110000 := ⟨by decide⟩

instance CodePoint.lawfulBEq : LawfulBEq CodePoint := inferInstance

instance PyText.lawfulBEq : LawfulBEq PyText := inferInstance

namespace PyText

def codePoint (c : Char) : CodePoint :=
  ⟨c.toNat, by
    have hvalid : Nat.isValidChar c.toNat := c.valid
    rcases hvalid with h | h <;> omega⟩

def lit (s : String) : PyText := s.toList.map codePoint

/-- `str.isspace()` of one character. -/
def isSpace (c : CodePoint) : Bool :=
  let n := c.val
  (9 ≤ n && n ≤ 13) || (28 ≤ n && n ≤ 32) || n = 0x85 || n = 0xA0 || n = 0x1680 ||
    (0x2000 ≤ n && n ≤ 0x200A) || n = 0x2028 || n = 0x2029 || n = 0x202F || n = 0x205F ||
    n = 0x3000

/-- `str.strip()` -/
def strip (t : PyText) : PyText := (t.dropWhile isSpace).rdropWhile isSpace

/-- `str.lower()` of ASCII letters. The source compares lowered texts with ASCII words
without a `k` only, and no other character lowers to such a letter alone. -/
def lower (t : PyText) : PyText :=
  t.map fun c => if h : 65 ≤ c.val ∧ c.val ≤ 90 then ⟨c.val + 32, by omega⟩ else c

/-- A number in decimal, with zeros up to a width: `f"{n:03d}"`. -/
def padded (width n : ℕ) : PyText :=
  let digits := lit (toString n)
  List.replicate (width - digits.length) (codePoint '0') ++ digits

/-- `sep.join(parts)` -/
def join (sep : PyText) (parts : List PyText) : PyText := sep.intercalate parts

theorem dropWhile_initial {p : CodePoint → Bool} {t u : PyText} (hpre : u <+: t)
    (ht : t.dropWhile p = t) : u.dropWhile p = u := by
  cases u with
  | nil => rfl
  | cons c u =>
    obtain ⟨v, rfl⟩ := hpre
    have hc : p c = false := by
      by_contra h
      have htrue : p c = true := by simpa using h
      rw [List.cons_append, List.dropWhile_cons_of_pos htrue] at ht
      have hlen := congrArg List.length ht
      have hle := (List.dropWhile_sublist p (l := u ++ v)).length_le
      simp only [List.length_cons] at hlen
      omega
    rw [List.dropWhile_cons_of_neg (by rw [hc]; exact Bool.false_ne_true)]

/-- **Stripping twice is stripping once.** -/
theorem strip_strip (t : PyText) : strip (strip t) = strip t := by
  unfold strip
  have hpre : (t.dropWhile isSpace).rdropWhile isSpace <+: t.dropWhile isSpace :=
    List.rdropWhile_prefix isSpace _
  rw [dropWhile_initial hpre (List.dropWhile_idempotent _ _), List.rdropWhile_idempotent]

theorem strip_map {f : CodePoint → CodePoint} (hf : ∀ c, isSpace (f c) = isSpace c) (t : PyText) :
    strip (t.map f) = (strip t).map f := by
  have hcomp : isSpace ∘ f = isSpace := funext hf
  unfold strip
  rw [List.dropWhile_map, hcomp]
  unfold List.rdropWhile
  rw [← List.map_reverse, List.dropWhile_map, hcomp, List.map_reverse]

theorem strip_of_no_space {t : PyText} (h : ∀ c ∈ t, isSpace c = false) : strip t = t := by
  unfold strip
  have hdrop : t.dropWhile isSpace = t := by
    cases t with
    | nil => rfl
    | cons c rest => rw [List.dropWhile_cons_of_neg (by rw [h c (by simp)]; exact Bool.false_ne_true)]
  rw [hdrop]
  refine List.rdropWhile_eq_self_iff.2 fun hne hlast => ?_
  rw [h _ (List.getLast_mem hne)] at hlast
  cases hlast

end PyText

structure Stripped where
  text : PyText
  trim : PyText.strip text = text
deriving DecidableEq

namespace Stripped

def empty : Stripped := ⟨[], rfl⟩

instance : Inhabited Stripped := ⟨empty⟩

/-- `str(x).strip()` -/
def of (t : PyText) : Stripped := ⟨PyText.strip t, PyText.strip_strip t⟩

@[simp] theorem of_text (s : Stripped) : of s.text = s := by
  cases s with
  | mk text trim =>
    simp only [of, Stripped.mk.injEq]
    exact trim

end Stripped
