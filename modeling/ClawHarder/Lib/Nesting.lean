import Mathlib.Data.List.Basic
import Mathlib.Data.List.Infix

/-!
# Splitting at the top level

A nesting is an automaton that reads a text from left to right, tells for each element
whether it stands at the top level, and refuses what closes more than was opened. A text is
`Closed` when the automaton is back at its start at the end, and a `Piece` for a delimiter
when it is closed and has no delimiter at the top level.

* `split_eq_some_iff`: splitting at the top level gives the pieces whose `intercalate` the
  text is, and no others.
* `index_eq_some_iff`, `index_eq_none_iff`: the first delimiter at the top level ends a piece.
* `piece_intercalate`: pieces for one delimiter, joined by another, are such a piece.
-/

theorem List.length_le_intercalate {α : Type*} {b part : List α} {parts : List (List α)}
    (h : part ∈ parts) : part.length ≤ (b.intercalate parts).length := by
  induction parts with
  | nil => cases h
  | cons first parts ih =>
    have hcons : first.length ≤ (b.intercalate (first :: parts)).length ∧
        (b.intercalate parts).length ≤ (b.intercalate (first :: parts)).length := by
      cases parts with
      | nil => simp
      | cons second parts =>
        rw [List.intercalate_cons_cons, List.length_append, List.length_append]
        omega
    rcases List.mem_cons.1 h with rfl | h
    · exact hcons.1
    · exact (ih h).trans hcons.2

structure Nesting (α δ : Type*) where
  start : δ
  /-- the next state, and whether the element stands at the top level -/
  next : δ → α → Option (δ × Bool)

namespace Nesting

variable {α δ : Type*} (N : Nesting α δ)

def run : δ → List α → Option δ
  | q, [] => some q
  | q, c :: s => (N.next q c).bind fun r => run r.1 s

def Closed (s : List α) : Prop := N.run N.start s = some N.start

/-- No `d` stands at the top level. -/
def Clear (d : α) : δ → List α → Prop
  | _, [] => True
  | q, c :: s => ∀ r, N.next q c = some r → ¬(r.2 = true ∧ c = d) ∧ Clear d r.1 s

def Piece (d : α) (s : List α) : Prop := N.Closed s ∧ N.Clear d N.start s

/-- An element that may stand at the top level, and only with nothing open. -/
structure Delimiter (d : α) : Prop where
  next_start : N.next N.start d = some (N.start, true)
  start_of_top : ∀ q q', N.next q d = some (q', true) → q = N.start

variable {N} {d : α} {q q' : δ}

theorem run_append (x y : List α) :
    N.run q (x ++ y) = (N.run q x).bind fun q' => N.run q' y := by
  induction x generalizing q with
  | nil => rfl
  | cons c x ih =>
    cases hnext : N.next q c with
    | none => simp [run, hnext]
    | some r => simp [run, hnext, ih]

theorem clear_append {x y : List α} (hrun : N.run q x = some q') :
    N.Clear d q (x ++ y) ↔ N.Clear d q x ∧ N.Clear d q' y := by
  induction x generalizing q with
  | nil =>
    obtain rfl : q = q' := Option.some.inj hrun
    simp [Clear]
  | cons c x ih =>
    cases hnext : N.next q c with
    | none => simp [run, hnext] at hrun
    | some r =>
      have hrest : N.run r.1 x = some q' := by simpa [run, hnext] using hrun
      simp only [List.cons_append, Clear, hnext, Option.some.injEq, forall_eq', ih hrest, and_assoc]

theorem closed_nil : N.Closed [] := rfl

theorem piece_nil : N.Piece d [] := ⟨rfl, trivial⟩

theorem Closed.append {x y : List α} (hx : N.Closed x) : N.Closed (x ++ y) ↔ N.Closed y := by
  unfold Closed at *
  rw [run_append, hx]
  rfl

theorem Piece.append {x y : List α} (hx : N.Piece d x) : N.Piece d (x ++ y) ↔ N.Piece d y := by
  unfold Piece
  rw [hx.1.append, clear_append hx.1]
  exact ⟨fun h => ⟨h.1, h.2.2⟩, fun h => ⟨h.1, hx.2, h.2⟩⟩

variable {s : List α}

theorem Delimiter.piece_cons (hd : N.Delimiter d) {e : α} (hne : d ≠ e) :
    N.Piece e (d :: s) ↔ N.Piece e s := by
  unfold Piece Closed
  simp only [run, Clear, hd.next_start, Option.bind_some, Option.some.injEq, forall_eq']
  exact ⟨fun h => ⟨h.1, h.2.2⟩, fun h => ⟨h.1, fun heq => hne heq.2, h.2⟩⟩

theorem Delimiter.closed_cons (hd : N.Delimiter d) :
    N.Closed (d :: s) ↔ N.Closed s := by
  unfold Closed
  simp only [run, hd.next_start, Option.bind_some]

variable {pieces : List (List α)}

theorem piece_intercalate (hd : N.Delimiter d) {e : α} (hne : d ≠ e) :
    (∀ x ∈ pieces, N.Closed x) →
      (N.Piece e ([d].intercalate pieces) ↔ ∀ x ∈ pieces, N.Piece e x) := by
  intro hclosed
  induction pieces with
  | nil => simpa using piece_nil
  | cons x pieces ih =>
    cases pieces with
    | nil => simp
    | cons y pieces =>
      have hrest := ih fun z hz => hclosed z (List.mem_cons_of_mem x hz)
      have hx : N.Closed x := hclosed x List.mem_cons_self
      rw [List.intercalate_cons_cons, List.append_assoc, List.forall_mem_cons, ← hrest]
      constructor
      · intro h
        have hclear := (clear_append hx).1 h.2
        have hpiece : N.Piece e x := ⟨hx, hclear.1⟩
        exact ⟨hpiece, (hd.piece_cons hne).1 (hpiece.append.1 h)⟩
      · rintro ⟨hpiece, h⟩
        exact hpiece.append.2 ((hd.piece_cons hne).2 h)

theorem closed_intercalate (hd : N.Delimiter d)
    (hclosed : ∀ x ∈ pieces, N.Closed x) : N.Closed ([d].intercalate pieces) := by
  induction pieces with
  | nil => exact closed_nil
  | cons x pieces ih =>
    cases pieces with
    | nil => simpa using hclosed x List.mem_cons_self
    | cons y pieces =>
      rw [List.intercalate_cons_cons, List.append_assoc, (hclosed x List.mem_cons_self).append]
      exact hd.closed_cons.2 (ih fun z hz => hclosed z (List.mem_cons_of_mem x hz))

variable [DecidableEq α] [DecidableEq δ]

section

variable (N)

def split (d : α) : δ → List α → List α → Option (List (List α))
  | q, buf, [] => if q = N.start then some [buf] else none
  | q, buf, c :: s =>
    match N.next q c with
    | none => none
    | some (q', top) =>
      if top = true ∧ c = d then (split d q' [] s).map (buf :: ·)
      else split d q' (buf ++ [c]) s

def index (d : α) : δ → ℕ → List α → Option (Option ℕ)
  | q, _, [] => if q = N.start then some none else none
  | q, i, c :: s =>
    match N.next q c with
    | none => none
    | some (q', top) => if top = true ∧ c = d then some (some i) else index d q' (i + 1) s

end

theorem split_append {x : List α} (buf y : List α) (hrun : N.run q x = some q') (hclear : N.Clear d q x) :
    N.split d q buf (x ++ y) = N.split d q' (buf ++ x) y := by
  induction x generalizing q buf with
  | nil =>
    obtain rfl : q = q' := Option.some.inj hrun
    simp
  | cons c x ih =>
    cases hnext : N.next q c with
    | none => simp [run, hnext] at hrun
    | some r =>
      have hrest : N.run r.1 x = some q' := by simpa [run, hnext] using hrun
      obtain ⟨hnot, hclear⟩ := hclear r hnext
      rw [List.cons_append, split, hnext]
      simp only [if_neg hnot]
      rw [ih (buf ++ [c]) hrest hclear, List.append_assoc, List.singleton_append]

theorem split_intercalate (hd : N.Delimiter d) (hne : pieces ≠ [])
    (hpieces : ∀ x ∈ pieces, N.Piece d x) :
    N.split d N.start [] ([d].intercalate pieces) = some pieces := by
  induction pieces with
  | nil => exact absurd rfl hne
  | cons x pieces ih =>
    obtain ⟨hclosed, hclear⟩ := hpieces x List.mem_cons_self
    cases pieces with
    | nil =>
      have hsplit := split_append [] [] hclosed hclear
      rw [List.append_nil] at hsplit
      simp [hsplit, split]
    | cons y pieces =>
      have hrest := ih (List.cons_ne_nil y pieces) fun z hz => hpieces z (List.mem_cons_of_mem x hz)
      rw [List.intercalate_cons_cons, List.append_assoc, split_append [] _ hclosed hclear,
        List.singleton_append, split, hd.next_start]
      simp [hrest]

theorem intercalate_inj (hd : N.Delimiter d) {pieces' : List (List α)} (hne : pieces ≠ [])
    (hpieces : ∀ x ∈ pieces, N.Piece d x) (hne' : pieces' ≠ [])
    (hpieces' : ∀ x ∈ pieces', N.Piece d x)
    (heq : [d].intercalate pieces = [d].intercalate pieces') : pieces = pieces' := by
  have hsplit := split_intercalate hd hne hpieces
  rw [heq, split_intercalate hd hne' hpieces'] at hsplit
  exact (Option.some.inj hsplit).symm

theorem pieces_of_split (hd : N.Delimiter d) {buf : List α}
    (hrun : N.run N.start buf = some q) (hclear : N.Clear d N.start buf)
    (h : N.split d q buf s = some pieces) :
    pieces ≠ [] ∧ buf ++ s = [d].intercalate pieces ∧ ∀ x ∈ pieces, N.Piece d x := by
  induction s generalizing q buf pieces with
  | nil =>
    unfold split at h
    split at h
    next hq =>
      subst hq
      obtain rfl : [buf] = pieces := Option.some.inj h
      simpa using ⟨hrun, hclear⟩
    · simp at h
  | cons c s ih =>
    unfold split at h
    split at h
    · simp at h
    next q' top hnext =>
      split at h
      next htop =>
        obtain ⟨rfl, rfl⟩ := htop
        have hq : q = N.start := hd.start_of_top q q' hnext
        subst hq
        rw [hd.next_start] at hnext
        obtain ⟨rfl, -⟩ := Prod.mk.inj (Option.some.inj hnext)
        obtain ⟨rest, hrest, rfl⟩ := Option.map_eq_some_iff.1 h
        have hstart : N.Clear c N.start [] := trivial
        obtain ⟨hne, htext, hpieces⟩ := ih rfl hstart hrest
        refine ⟨List.cons_ne_nil _ _, ?_, ?_⟩
        · obtain ⟨y, rest, rfl⟩ := List.exists_cons_of_ne_nil hne
          rw [List.intercalate_cons_cons, ← htext]
          simp
        · exact List.forall_mem_cons.2 ⟨⟨hrun, hclear⟩, hpieces⟩
      next htop =>
        have hrun' : N.run N.start (buf ++ [c]) = some q' := by
          rw [run_append, hrun]
          simp [run, hnext]
        have hclear' : N.Clear d N.start (buf ++ [c]) := by
          rw [clear_append hrun]
          refine ⟨hclear, ?_⟩
          intro r hr
          obtain rfl : (q', top) = r := Option.some.inj (hnext.symm.trans hr)
          exact ⟨htop, trivial⟩
        obtain ⟨hne, htext, hpieces⟩ := ih hrun' hclear' h
        refine ⟨hne, ?_, hpieces⟩
        rw [← htext]
        simp

/-- **Splitting at the top level** finds the pieces that make up the text. -/
theorem split_eq_some_iff (hd : N.Delimiter d) :
    N.split d N.start [] s = some pieces ↔
      pieces ≠ [] ∧ s = [d].intercalate pieces ∧ ∀ x ∈ pieces, N.Piece d x := by
  constructor
  · exact pieces_of_split hd rfl trivial
  · rintro ⟨hne, rfl, hpieces⟩
    exact split_intercalate hd hne hpieces

theorem index_append {x y : List α} {i : ℕ} (hrun : N.run q x = some q')
    (hclear : N.Clear d q x) :
    N.index d q i (x ++ y) = N.index d q' (i + x.length) y := by
  induction x generalizing q i with
  | nil =>
    obtain rfl : q = q' := Option.some.inj hrun
    rfl
  | cons c x ih =>
    cases hnext : N.next q c with
    | none => simp [run, hnext] at hrun
    | some r =>
      have hrest : N.run r.1 x = some q' := by simpa [run, hnext] using hrun
      obtain ⟨hnot, hclear⟩ := hclear r hnext
      rw [List.cons_append, index, hnext]
      simp only [if_neg hnot]
      rw [ih hrest hclear, List.length_cons, Nat.add_right_comm, Nat.add_assoc]

theorem index_of_piece (h : N.Piece d s) :
    N.index d N.start 0 s = some none := by
  have hindex := index_append (y := []) (i := 0) h.1 h.2
  rw [List.append_nil] at hindex
  simp [hindex, index]

theorem index_of_cons (hd : N.Delimiter d) {x y : List α} (h : N.Piece d x) :
    N.index d N.start 0 (x ++ d :: y) = some (some x.length) := by
  rw [index_append h.1 h.2, index, hd.next_start]
  simp

theorem of_index (hd : N.Delimiter d) (buf : List α) {o : Option ℕ}
    (hrun : N.run N.start buf = some q) (hclear : N.Clear d N.start buf)
    (h : N.index d q buf.length s = some o) :
    (o = none ∧ N.Piece d (buf ++ s)) ∨
      ∃ x y, buf ++ s = x ++ d :: y ∧ N.Piece d x ∧ o = some x.length := by
  induction s generalizing q buf with
  | nil =>
    unfold index at h
    split at h
    next hq =>
      subst hq
      rw [List.append_nil]
      exact Or.inl ⟨(Option.some.inj h).symm, hrun, hclear⟩
    · simp at h
  | cons c s ih =>
    unfold index at h
    split at h
    · simp at h
    next q' top hnext =>
      split at h
      next htop =>
        obtain ⟨rfl, rfl⟩ := htop
        have hq : q = N.start := hd.start_of_top q q' hnext
        subst hq
        exact Or.inr ⟨buf, s, rfl, ⟨hrun, hclear⟩, (Option.some.inj h).symm⟩
      next htop =>
        have hrun' : N.run N.start (buf ++ [c]) = some q' := by
          rw [run_append, hrun]
          simp [run, hnext]
        have hclear' : N.Clear d N.start (buf ++ [c]) := by
          rw [clear_append hrun]
          refine ⟨hclear, ?_⟩
          intro r hr
          obtain rfl : (q', top) = r := Option.some.inj (hnext.symm.trans hr)
          exact ⟨htop, trivial⟩
        have hrest := ih (buf ++ [c]) hrun' hclear' (by simpa using h)
        simpa using hrest

/-- **The search for the first delimiter** ends at the end of a piece. -/
theorem index_eq_some_iff (hd : N.Delimiter d) {o : Option ℕ} :
    N.index d N.start 0 s = some o ↔
      (o = none ∧ N.Piece d s) ∨ ∃ x y, s = x ++ d :: y ∧ N.Piece d x ∧ o = some x.length := by
  constructor
  · intro h
    have hfound := of_index hd [] rfl trivial h
    simpa using hfound
  · rintro (⟨rfl, h⟩ | ⟨x, y, rfl, h, rfl⟩)
    · exact index_of_piece h
    · exact index_of_cons hd h

end Nesting
