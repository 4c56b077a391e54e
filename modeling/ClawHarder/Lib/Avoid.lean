import ClawHarder.Lib.Separable

/-!
# Words that a text avoids

A text avoids a word that it does not contain. A block is foreign to a word when it has no
letter of it: the word is not found across such a block.

* `avoids_around`: a text with a foreign block in it avoids the word when both sides do.
* `avoids_intercalate`: **texts with foreign blocks between them avoid the word together when
  each of them does.**
-/

namespace List

variable {α : Type*} {w b x y : List α}

def Avoids (w s : List α) : Prop := ¬w <:+: s

def Foreign (w b : List α) : Prop := ∀ c ∈ b, c ∉ w

instance [DecidableEq α] (w s : List α) : Decidable (w.Avoids s) :=
  inferInstanceAs (Decidable (¬w <:+: s))

instance [DecidableEq α] (w b : List α) : Decidable (w.Foreign b) :=
  inferInstanceAs (Decidable (∀ c ∈ b, c ∉ w))

theorem Foreign.of_cons {c : α} (h : w.Foreign (c :: b)) : c ∉ w ∧ w.Foreign b := by
  unfold Foreign at h
  rwa [forall_mem_cons] at h

theorem Foreign.append {b' : List α} (h : w.Foreign b) (h' : w.Foreign b') :
    w.Foreign (b ++ b') := by
  intro c hc
  rcases mem_append.1 hc with hc | hc
  · exact h c hc
  · exact h' c hc

theorem Foreign.subset {b' : List α} (h : w.Foreign b) (hsub : b' ⊆ b) : w.Foreign b' :=
  fun c hc => h c (hsub hc)

theorem Avoids.of_infix {s t : List α} (h : w.Avoids t) (hs : s <:+: t) : w.Avoids s :=
  fun hw => h (hw.trans hs)

theorem avoids_nil (hw : w ≠ []) : w.Avoids [] := fun h => hw (eq_nil_of_infix_nil h)

theorem avoids_cut {c : α} (hc : c ∉ w) (x y : List α) :
    w.Avoids (x ++ c :: y) ↔ w.Avoids x ∧ w.Avoids y := by
  have hseps : ∀ d ∈ [c], d ∉ w := by
    intro d hd
    rwa [mem_singleton.1 hd]
  exact CutAt.not_infix hseps c (mem_singleton_self c) x y

variable (hw : w ≠ [])
include hw

theorem avoids_foreign_append (hb : w.Foreign b) (y : List α) :
    w.Avoids (b ++ y) ↔ w.Avoids y := by
  induction b with
  | nil => rfl
  | cons c b ih =>
    obtain ⟨hc, hb⟩ := hb.of_cons
    have hcut := avoids_cut hc [] (b ++ y)
    rw [cons_append, ← ih hb]
    exact hcut.trans (and_iff_right (avoids_nil hw))

/-- **The word is not found across a foreign block.** -/
theorem avoids_around (hb : w.Foreign b) (hne : b ≠ []) (x y : List α) :
    w.Avoids (x ++ b ++ y) ↔ w.Avoids x ∧ w.Avoids y := by
  cases b with
  | nil => exact absurd rfl hne
  | cons c b =>
    obtain ⟨hc, hb⟩ := hb.of_cons
    rw [append_assoc, cons_append, avoids_cut hc, avoids_foreign_append hw hb]

theorem avoids_append_foreign (hb : w.Foreign b) (x : List α) :
    w.Avoids (x ++ b) ↔ w.Avoids x := by
  cases b with
  | nil => rw [append_nil]
  | cons c b =>
    have haround := avoids_around hw hb (cons_ne_nil c b) x []
    rw [append_nil] at haround
    exact haround.trans (and_iff_left (avoids_nil hw))

theorem Foreign.avoids (hb : w.Foreign b) : w.Avoids b := by
  have h := (avoids_foreign_append hw hb []).2 (avoids_nil hw)
  rwa [append_nil] at h

theorem avoids_intercalate (hb : w.Foreign b) (hne : b ≠ []) (parts : List (List α)) :
    w.Avoids (b.intercalate parts) ↔ ∀ p ∈ parts, w.Avoids p := by
  induction parts with
  | nil => simpa using avoids_nil hw
  | cons p parts ih =>
    cases parts with
    | nil => simp
    | cons q parts =>
      rw [intercalate_cons_cons, avoids_around hw hb hne, ih, forall_mem_cons (a := p)]

end List
