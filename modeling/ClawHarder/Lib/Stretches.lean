import Mathlib.Data.List.Chain
import Mathlib.Data.List.Forall2

/-!
# Stretches between kept items

A list whose items are kept or not falls into parts: each kept item, and each stretch of others
between them. `pass` is a loop over the items with a buffer that is flushed before a kept item
and at the end.

* `items_parts`, `chain_parts`: the parts hold the items in order, and no two stretches are
  neighbours.
* `parts_items`, `marks_unique`: there is one way to fall into parts, and one way to mark the items
  by a rule about what is before and behind them.
* `pass_iff`: **the loop gives one result for each part, in order.**
-/

namespace Stretches

variable {α β : Type*}

inductive Piece (α : Type*) where
  | kept (a : α)
  | stretch (first : α) (rest : List α)

def Piece.items : Piece α → List (α × Bool)
  | .kept a => [(a, true)]
  | .stretch a l => (a :: l).map fun b => (b, false)

def Piece.isKept : Piece α → Bool
  | .kept _ => true
  | .stretch _ _ => false

def before (a : α) : List (Piece α) → List (Piece α)
  | .stretch b l :: ps => .stretch a (b :: l) :: ps
  | ps => .stretch a [] :: ps

def parts : List (α × Bool) → List (Piece α)
  | [] => []
  | (a, true) :: l => .kept a :: parts l
  | (a, false) :: l => before a (parts l)

theorem items_before (a : α) (ps : List (Piece α)) :
    (before a ps).flatMap Piece.items = (a, false) :: ps.flatMap Piece.items := by
  unfold before
  split <;> simp [Piece.items]

theorem items_parts (l : List (α × Bool)) : (parts l).flatMap Piece.items = l := by
  induction l with
  | nil => rfl
  | cons e l ih =>
    obtain ⟨a, kept⟩ := e
    cases kept with
    | true => simp [parts, Piece.items, ih]
    | false => rw [parts, items_before, ih]

def Apart (p q : Piece α) : Prop := p.isKept = true ∨ q.isKept = true

variable {ps : List (Piece α)}

theorem chain_before (a : α) (h : ps.IsChain Apart) :
    (before a ps).IsChain Apart := by
  unfold before
  split
  next b l ps =>
    cases ps with
    | nil => exact .singleton _
    | cons q ps =>
      obtain ⟨hq, hps⟩ := List.isChain_cons_cons.1 h
      exact List.isChain_cons_cons.2 ⟨hq, hps⟩
  next hno =>
    cases ps with
    | nil => exact .singleton _
    | cons q ps =>
      cases q with
      | kept b => exact List.isChain_cons_cons.2 ⟨.inr rfl, h⟩
      | stretch b l => exact absurd rfl (hno b l ps)

theorem chain_parts (l : List (α × Bool)) : (parts l).IsChain Apart := by
  induction l with
  | nil => exact .nil
  | cons e l ih =>
    obtain ⟨a, kept⟩ := e
    cases kept with
    | false => exact chain_before a ih
    | true =>
      rw [parts]
      cases hparts : parts l with
      | nil => exact .singleton _
      | cons q ps => exact List.isChain_cons_cons.2 ⟨.inl rfl, hparts ▸ ih⟩

theorem before_apart (a : α) (h : (Piece.stretch a [] :: ps).IsChain Apart) :
    before a ps = .stretch a [] :: ps := by
  unfold before
  split
  next b l ps =>
    obtain ⟨hapart, -⟩ := List.isChain_cons_cons.1 h
    exact absurd hapart (by simp [Apart, Piece.isKept])
  next => rfl

theorem parts_items (h : ps.IsChain Apart) :
    parts (ps.flatMap Piece.items) = ps := by
  induction ps with
  | nil => rfl
  | cons p ps ih =>
    have hrest := ih h.tail
    cases p with
    | kept a => simp [Piece.items, parts, hrest]
    | stretch a l =>
      have hstretch : ∀ (a : α) (l : List α), parts (Piece.items (.stretch a l) ++
          ps.flatMap Piece.items) = .stretch a l :: ps := by
        intro a l
        induction l generalizing a with
        | nil =>
          have hone : (Piece.stretch a [] :: ps).IsChain Apart := by
            cases ps with
            | nil => exact .singleton _
            | cons q ps =>
              obtain ⟨hapart, hps⟩ := List.isChain_cons_cons.1 h
              exact List.isChain_cons_cons.2 ⟨hapart, hps⟩
          simp only [Piece.items, List.map_cons, List.map_nil, List.cons_append, List.nil_append,
            parts]
          rw [hrest, before_apart a hone]
        | cons b l ihl =>
          have hnext : parts (Piece.items (.stretch a (b :: l)) ++ ps.flatMap Piece.items) =
              before a (parts (Piece.items (.stretch b l) ++ ps.flatMap Piece.items)) := rfl
          rw [hnext, ihl b]
          rfl
      rw [List.flatMap_cons, hstretch]

theorem marks_unique {rule : List α → α → List α → Prop} {l l' : List (α × Bool)}
    (hitems : l.map Prod.fst = l'.map Prod.fst) (front : List α)
    (hl : ∀ b m a, l = b ++ m :: a →
      (m.2 = true ↔ rule (front ++ b.map Prod.fst) m.1 (a.map Prod.fst)))
    (hl' : ∀ b m a, l' = b ++ m :: a →
      (m.2 = true ↔ rule (front ++ b.map Prod.fst) m.1 (a.map Prod.fst))) : l = l' := by
  induction l generalizing l' front with
  | nil => exact (List.map_eq_nil_iff.1 hitems.symm).symm
  | cons m l ih =>
    cases l' with
    | nil => cases hitems
    | cons m' l' =>
      rw [List.map_cons, List.map_cons] at hitems
      obtain ⟨hfst, hrest⟩ := List.cons.inj hitems
      have hmark := hl [] m l rfl
      have hmark' := hl' [] m' l' rfl
      rw [hfst, hrest, ← hmark'] at hmark
      have heq : m = m' := Prod.ext hfst (Bool.eq_iff_iff.2 hmark)
      subst heq
      refine congrArg _ (ih hrest (front ++ [m.1]) (fun b n a h => ?_) fun b n a h => ?_)
      · have hnext := hl (m :: b) n a (by rw [h]; rfl)
        rwa [List.map_cons, List.append_cons] at hnext
      · have hnext := hl' (m :: b) n a (by rw [h]; rfl)
        rwa [List.map_cons, List.append_cons] at hnext

variable (one : Piece α → Option β)

def flush (out : List β) : List α → Option (List β)
  | [] => some out
  | a :: l => (one (.stretch a l)).map fun b => out ++ [b]

def pass (out : List β) (buffer : List α) : List (α × Bool) → Option (List β)
  | [] => flush one out buffer
  | (a, true) :: l => do
    let out ← flush one out buffer
    let b ← one (.kept a)
    pass (out ++ [b]) [] l
  | (a, false) :: l => pass out (buffer ++ [a]) l

def ofBuffer : List α → List (Piece α)
  | [] => []
  | a :: l => [.stretch a l]

theorem parts_buffer (buffer : List α) :
    parts (buffer.map fun b => (b, false)) = ofBuffer buffer := by
  induction buffer with
  | nil => rfl
  | cons a l ih =>
    rw [List.map_cons, parts, ih]
    cases l <;> rfl

theorem parts_kept (buffer : List α) (a : α) (l : List (α × Bool)) :
    parts ((buffer.map fun b => (b, false)) ++ (a, true) :: l) =
      ofBuffer buffer ++ .kept a :: parts l := by
  induction buffer with
  | nil => rfl
  | cons b buffer ih =>
    rw [List.map_cons, List.cons_append, parts, ih]
    cases buffer <;> rfl

theorem flush_iff {out result : List β} {buffer : List α} :
    flush one out buffer = some result ↔
      ∃ more, result = out ++ more ∧
        List.Forall₂ (fun p b => one p = some b) (ofBuffer buffer) more := by
  cases buffer with
  | nil =>
    constructor
    · intro h
      exact ⟨[], by simpa [flush, eq_comm] using h, .nil⟩
    · rintro ⟨more, rfl, hmore⟩
      cases hmore
      simp [flush]
  | cons a l =>
    constructor
    · intro h
      obtain ⟨b, hb, rfl⟩ := Option.map_eq_some_iff.1 h
      exact ⟨[b], rfl, .cons hb .nil⟩
    · rintro ⟨more, rfl, hmore⟩
      cases hmore with
      | cons hb hnil =>
        cases hnil
        exact Option.map_eq_some_iff.2 ⟨_, hb, rfl⟩

theorem split_forall₂ {R : α → β → Prop} {l₁ l₂ : List α} {l : List β}
    (h : List.Forall₂ R (l₁ ++ l₂) l) :
    ∃ m₁ m₂, l = m₁ ++ m₂ ∧ List.Forall₂ R l₁ m₁ ∧ List.Forall₂ R l₂ m₂ := by
  induction l₁ generalizing l with
  | nil => exact ⟨[], l, rfl, .nil, h⟩
  | cons a l₁ ih =>
    cases h with
    | cons hab h =>
      obtain ⟨m₁, m₂, rfl, h₁, h₂⟩ := ih h
      exact ⟨_ :: m₁, m₂, rfl, .cons hab h₁, h₂⟩

/-- **The loop gives one result for each part, in order.** -/
theorem pass_iff {out result : List β} {buffer : List α} {l : List (α × Bool)} :
    pass one out buffer l = some result ↔
      ∃ more, result = out ++ more ∧
        List.Forall₂ (fun p b => one p = some b)
          (parts ((buffer.map fun b => (b, false)) ++ l)) more := by
  induction l generalizing out buffer with
  | nil => rw [pass, List.append_nil, parts_buffer, flush_iff]
  | cons e l ih =>
    obtain ⟨a, kept⟩ := e
    cases kept with
    | false =>
      have hbuffer : (buffer.map fun b => (b, false)) ++ (a, false) :: l =
          ((buffer ++ [a]).map fun b => (b, false)) ++ l := by
        simp
      rw [pass, ih, hbuffer]
    | true =>
      rw [pass, parts_kept]
      constructor
      · intro h
        obtain ⟨flushed, hflushed, h⟩ := Option.bind_eq_some_iff.1 h
        obtain ⟨b, hb, h⟩ := Option.bind_eq_some_iff.1 h
        obtain ⟨first, rfl, hfirst⟩ := (flush_iff one).1 hflushed
        obtain ⟨more, rfl, hmore⟩ := ih.1 h
        exact ⟨first ++ b :: more, by simp, List.rel_append hfirst (.cons hb hmore)⟩
      · rintro ⟨all, rfl, hall⟩
        obtain ⟨first, rest, rfl, hfirst, hrest⟩ := split_forall₂ hall
        cases hrest with
        | @cons _ b _ more hb hmore =>
          have hflushed : flush one out buffer = some (out ++ first) :=
            (flush_iff one).2 ⟨first, rfl, hfirst⟩
          have hpass : pass one (out ++ first ++ [b]) [] l = some (out ++ (first ++ b :: more)) :=
            ih.2 ⟨more, by simp, hmore⟩
          rw [hflushed, Option.bind_eq_bind, Option.bind_some, hb, Option.bind_eq_bind,
            Option.bind_some, hpass]

end Stretches
