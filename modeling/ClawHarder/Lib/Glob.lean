import Mathlib.Data.List.Nodup

/-!
# Patterns over a tree

A pattern goes down a tree: each of its parts has alternatives, and an alternative takes one step
to selected parts of a node, or goes down by any number of steps. `find` is a search that goes down
with an alternative for any number of steps both kept and consumed at each step, so that it misses
what lies at no step at all and comes twice to what lies below the end of a pattern.

* `find_exact`: **where the pattern is exact at a node, the search finds the matches, each once.**
-/

namespace Glob

/-- How a node is taken apart: its parts, with a label on the way to each. -/
structure Forest (T L : Type*) where
  parts : T → List (L × T)
  size : T → ℕ
  size_lt : ∀ n, ∀ p ∈ parts n, size p.2 < size n

inductive Alt (T L : Type*) where
  | step (select : T → List (L × T))
  | deep

structure Sub (S T L : Type*) where
  tag : S
  alts : List (Alt T L)

variable {S T L E : Type*} (F : Forest T L)

def Forest.below (n : T) : List (List L × T) :=
  (F.parts n).attach.flatMap fun p =>
    ([p.1.1], p.1.2) :: (Forest.below p.1.2).map fun q => (p.1.1 :: q.1, q.2)
termination_by F.size n
decreasing_by exact F.size_lt n _ p.2

theorem below_eq (n : T) : F.below n = (F.parts n).flatMap fun p =>
    ([p.1], p.2) :: (F.below p.2).map fun q => (p.1 :: q.1, q.2) := by
  conv_lhs => unfold Forest.below
  rw [List.flatMap_subtype (g := fun p => ([p.1], p.2) ::
    (F.below p.2).map fun q => (p.1 :: q.1, q.2)) fun p _ => rfl, List.unattach_attach]

theorem flatMap_below {A : Type*} (n : T) (h : List L × T → List A) :
    (F.below n).flatMap h = (F.parts n).flatMap fun p =>
      h ([p.1], p.2) ++ (F.below p.2).flatMap fun q => h (p.1 :: q.1, q.2) := by
  rw [below_eq, List.flatMap_assoc]
  simp only [List.flatMap_cons, List.flatMap_map]

/-- What an alternative finds, with what the rest of the pattern finds. -/
def Forest.findAlt (s : S) (last : Bool) (rest : T → List (List (S × L))) (n : T) :
    Alt T L → List (List (S × L))
  | .step select => (select n).flatMap fun p => (rest p.2).map ((s, p.1) :: ·)
  | .deep => (if last then [[]] else []) ++ (F.below n).flatMap fun p =>
      (rest p.2 ++ if last then [[]] else []).map (p.1.map (s, ·) ++ ·)

def Forest.find : List (Sub S T L) → T → List (List (S × L))
  | [], _ => [[]]
  | sub :: g, n => sub.alts.flatMap (F.findAlt sub.tag g.isEmpty (Forest.find g) n)

def Forest.visitedAlt (s : S) (rest : T → List (List (S × L))) (n : T) :
    Alt T L → List (List (S × L))
  | .step select => (select n).flatMap fun p => [(s, p.1)] :: (rest p.2).map ((s, p.1) :: ·)
  | .deep => (F.below n).flatMap fun p =>
      p.1.map (s, ·) :: (rest p.2).map (p.1.map (s, ·) ++ ·)

def Forest.visited : List (Sub S T L) → T → List (List (S × L))
  | [], _ => []
  | sub :: g, n => sub.alts.flatMap (F.visitedAlt sub.tag (Forest.visited g) n)

theorem find_single (s : S) (alt : Alt T L) (g : List (Sub S T L)) (n : T) :
    F.find (⟨s, [alt]⟩ :: g) n = F.findAlt s g.isEmpty (F.find g) n alt := List.flatMap_singleton _ alt

theorem visited_single (s : S) (alt : Alt T L) (g : List (Sub S T L)) (n : T) :
    F.visited (⟨s, [alt]⟩ :: g) n = F.visitedAlt s (F.visited g) n alt := List.flatMap_singleton _ alt

/-- Any number of steps are taken by one step, behind which the rest of the pattern and any number
of steps again are tried. -/
theorem find_deep (s : S) (g : List (Sub S T L)) (n : T) :
    F.find (⟨s, [.deep]⟩ :: g) n = (if g.isEmpty then [[]] else []) ++
      (F.parts n).flatMap fun p =>
        (F.find g p.2 ++ F.find (⟨s, [.deep]⟩ :: g) p.2).map ((s, p.1) :: ·) := by
  simp only [find_single]
  conv_lhs => rw [Forest.findAlt, flatMap_below]
  congr 1
  refine List.flatMap_congr fun p _ => ?_
  simp [Forest.findAlt, List.map_flatMap, Function.comp_def]

theorem visited_deep (s : S) (g : List (Sub S T L)) (n : T) :
    F.visited (⟨s, [.deep]⟩ :: g) n = (F.parts n).flatMap fun p =>
      [(s, p.1)] :: (F.visited g p.2 ++ F.visited (⟨s, [.deep]⟩ :: g) p.2).map ((s, p.1) :: ·) := by
  simp only [visited_single]
  conv_lhs => rw [Forest.visitedAlt, flatMap_below]
  refine List.flatMap_congr fun p _ => ?_
  simp [Forest.visitedAlt, List.map_flatMap, Function.comp_def]

/-- The alternative matches on a way down, with the rest of the pattern behind it. -/
def Forest.MatchesAlt (s : S) (rest : T → List (S × L) → Prop) (n : T) (way : List (S × L)) :
    Alt T L → Prop
  | .step select => ∃ p ∈ select n, ∃ way', rest p.2 way' ∧ (s, p.1) :: way' = way
  | .deep => rest n way ∨
      ∃ p ∈ F.below n, ∃ way', rest p.2 way' ∧ p.1.map (s, ·) ++ way' = way

/-- The pattern matches on the way down from a node: an alternative for any number of steps takes
none, one or more. -/
def Forest.Matches : List (Sub S T L) → T → List (S × L) → Prop
  | [], _, way => way = []
  | sub :: g, n, way => ∃ alt ∈ sub.alts, F.MatchesAlt sub.tag (Forest.Matches g) n way alt

variable {g : List (Sub S T L)} {way : List (S × L)}

theorem tag_of_matches {n : T}
    (h : F.Matches g n way) : ∀ l ∈ way, ∃ sub ∈ g, sub.tag = l.1 := by
  induction g generalizing n way with
  | nil =>
    obtain rfl := h
    simp
  | cons sub g ih =>
    obtain ⟨alt, -, h⟩ := h
    have hrest : ∀ {m way'}, F.Matches g m way' → ∀ l ∈ way', ∃ sub' ∈ sub :: g, sub'.tag = l.1 := by
      intro m way' hway' l hl
      obtain ⟨sub', hsub', htag⟩ := ih hway' l hl
      exact ⟨sub', List.mem_cons_of_mem sub hsub', htag⟩
    intro l hl
    cases alt with
    | step select =>
      obtain ⟨p, -, way', hway', rfl⟩ := h
      rcases List.mem_cons.1 hl with rfl | hl
      · exact ⟨sub, List.mem_cons_self, rfl⟩
      · exact hrest hway' l hl
    | deep =>
      rcases h with h | ⟨p, -, way', hway', rfl⟩
      · exact hrest h l hl
      · rcases List.mem_append.1 hl with hl | hl
        · obtain ⟨label, -, rfl⟩ := List.mem_map.1 hl
          exact ⟨sub, List.mem_cons_self, rfl⟩
        · exact hrest hway' l hl

theorem pairwise_of_matches {r : S → S → Prop} (hr : ∀ s, r s s)
    (hg : g.Pairwise fun a b => r a.tag b.tag) {n : T}
    (h : F.Matches g n way) : way.Pairwise fun a b => r a.1 b.1 := by
  induction g generalizing n way with
  | nil =>
    obtain rfl := h
    exact List.Pairwise.nil
  | cons sub g ih =>
    rw [List.pairwise_cons] at hg
    obtain ⟨alt, -, h⟩ := h
    have hbehind : ∀ {m way'}, F.Matches g m way' → ∀ l ∈ way', r sub.tag l.1 := by
      intro m way' hway' l hl
      obtain ⟨sub', hsub', htag⟩ := tag_of_matches F hway' l hl
      exact htag ▸ hg.1 sub' hsub'
    cases alt with
    | step select =>
      obtain ⟨p, -, way', hway', rfl⟩ := h
      exact List.pairwise_cons.2 ⟨hbehind hway', ih hg.2 hway'⟩
    | deep =>
      rcases h with h | ⟨p, -, way', hway', rfl⟩
      · exact ih hg.2 h
      · refine List.pairwise_append.2 ⟨?_, ih hg.2 hway', ?_⟩
        · rw [List.pairwise_map]
          exact List.pairwise_of_forall fun _ _ => hr sub.tag
        · intro a ha b hb
          obtain ⟨label, -, rfl⟩ := List.mem_map.1 ha
          exact hbehind hway' b hb

theorem of_matches {D : T → Prop} {R : T → List L → Prop} (hnil : ∀ n, D n → R n [])
    (hparts : ∀ n, D n → ∀ p ∈ F.parts n, D p.2 ∧ ∀ way, R p.2 way → R n (p.1 :: way))
    (hg : ∀ sub ∈ g, ∀ select, .step select ∈ sub.alts →
      ∀ n, D n → ∀ p ∈ select n, D p.2 ∧ ∀ way, R p.2 way → R n (p.1 :: way))
    {n : T} (hn : D n) (h : F.Matches g n way) : R n (way.map Prod.snd) := by
  have hbelow : ∀ (n : T), D n → ∀ p ∈ F.below n,
      D p.2 ∧ ∀ way, R p.2 way → R n (p.1 ++ way) := by
    intro n hn
    induction hsize : F.size n using Nat.strongRecOn generalizing n with
    | ind size ih =>
      subst hsize
      intro p hp
      rw [below_eq, List.mem_flatMap] at hp
      obtain ⟨q, hq, hp⟩ := hp
      obtain ⟨hkept, hstep⟩ := hparts n hn q hq
      rcases List.mem_cons.1 hp with rfl | hp
      · exact ⟨hkept, hstep⟩
      · obtain ⟨r, hr, rfl⟩ := List.mem_map.1 hp
        obtain ⟨hlower, hdown⟩ := ih _ (F.size_lt n q hq) q.2 hkept rfl r hr
        exact ⟨hlower, fun way hway => hstep _ (hdown way hway)⟩
  induction g generalizing n way with
  | nil =>
    obtain rfl := h
    exact hnil n hn
  | cons sub g ih =>
    rw [List.forall_mem_cons] at hg
    obtain ⟨alt, halt, h⟩ := h
    cases alt with
    | step select =>
      obtain ⟨p, hp, way', hway', rfl⟩ := h
      obtain ⟨hkept, hstep⟩ := hg.1 select halt n hn p hp
      exact hstep _ (ih hg.2 hkept hway')
    | deep =>
      rcases h with h | ⟨p, hp, way', hway', rfl⟩
      · exact ih hg.2 hn h
      · obtain ⟨hkept, hdown⟩ := hbelow n hn p hp
        have hplaces := hdown _ (ih hg.2 hkept hway')
        simpa [Function.comp_def] using hplaces

variable (edge : L → E)

def edges (way : List (S × L)) : List E := way.map fun l => edge l.2

def Apart (P Q : List (S × L) → Prop) : Prop :=
  ∀ way way', P way → Q way' → edges edge way ≠ edges edge way'

/-- The alternative is tried where the search neither misses nor repeats a match. -/
def Forest.ExactAlt (s : S) (last : Prop) (rest : T → List (S × L) → Prop) (exact : T → Prop)
    (n : T) : Alt T L → Prop
  | .step select => ∀ p ∈ select n, exact p.2
  | .deep => (last → F.parts n = []) ∧ (¬last →
      (∀ way, ¬rest n way) ∧ (∀ p ∈ F.below n, exact p.2) ∧
      (F.below n).Pairwise fun p q =>
        Apart edge (fun way => ∃ way', rest p.2 way' ∧ p.1.map (s, ·) ++ way' = way)
          fun way => ∃ way', rest q.2 way' ∧ q.1.map (s, ·) ++ way' = way)

/-- Each alternative of the pattern is exact where it is tried, and no two of one part match the
same. -/
def Forest.Exact : List (Sub S T L) → T → Prop
  | [], _ => True
  | sub :: g, n =>
    (∀ alt ∈ sub.alts,
      F.ExactAlt edge sub.tag (g = []) (F.Matches g) (Forest.Exact g) n alt) ∧
    sub.alts.Pairwise fun a b =>
      Apart edge (fun way => F.MatchesAlt sub.tag (F.Matches g) n way a)
        fun way => F.MatchesAlt sub.tag (F.Matches g) n way b

/-- The selected parts are at distinct places, and again nodes of the kind. -/
structure Proper (D : T → Prop) (select : T → List (L × T)) : Prop where
  distinct : ∀ n, D n → (select n).Pairwise fun p q => edge p.1 ≠ edge q.1
  kept : ∀ n, D n → ∀ p ∈ select n, D p.2

variable {F} {edge} {D : T → Prop}

theorem below_kept (hparts : Proper edge D F.parts) {n : T} (hn : D n) :
    ∀ p ∈ F.below n, D p.2 := by
  induction hsize : F.size n using Nat.strongRecOn generalizing n with
  | ind size ih =>
    subst hsize
    intro p hp
    rw [below_eq, List.mem_flatMap] at hp
    obtain ⟨q, hq, hp⟩ := hp
    have hkept := hparts.kept n hn q hq
    rcases List.mem_cons.1 hp with rfl | hp
    · exact hkept
    · obtain ⟨r, hr, rfl⟩ := List.mem_map.1 hp
      exact ih _ (F.size_lt n q hq) hkept rfl r hr

/-- The ways that are found are those of `P`, and lead to distinct places. -/
structure Finds (edge : L → E) (found : List (List (S × L))) (P : List (S × L) → Prop) : Prop where
  nodup : (found.map (edges edge)).Nodup
  mem : ∀ way, way ∈ found ↔ P way

theorem finds_flatMap {A : Type*} {as : List A} {f : A → List (List (S × L))}
    {P : A → List (S × L) → Prop} (hf : ∀ a ∈ as, Finds edge (f a) (P a))
    (happart : as.Pairwise fun a b => Apart edge (P a) (P b)) :
    Finds edge (as.flatMap f) fun way => ∃ a ∈ as, P a way := by
  constructor
  · rw [List.map_flatMap, List.nodup_flatMap]
    refine ⟨fun a ha => (hf a ha).nodup, happart.imp_of_mem ?_⟩
    intro a b ha hb hab places hplaces hplaces'
    obtain ⟨way, hway, rfl⟩ := List.mem_map.1 hplaces
    obtain ⟨way', hway', heq⟩ := List.mem_map.1 hplaces'
    exact hab way way' (((hf a ha).mem way).1 hway) (((hf b hb).mem way').1 hway') heq.symm
  · intro way
    rw [List.mem_flatMap]
    exact exists_congr fun a => and_congr_right fun ha => (hf a ha).mem way

theorem Finds.behind {found : List (List (S × L))} {P : List (S × L) → Prop}
    (h : Finds edge found P) (front : List (S × L)) :
    Finds edge (found.map (front ++ ·)) fun way => ∃ way', P way' ∧ front ++ way' = way := by
  constructor
  · have hplaces : (found.map (front ++ ·)).map (edges edge) =
        (found.map (edges edge)).map (edges edge front ++ ·) := by
      simp [edges, Function.comp_def]
    rw [hplaces]
    exact h.nodup.map (List.append_right_injective _)
  · intro way
    rw [List.mem_map]
    exact exists_congr fun way' => and_congr_left fun _ => h.mem way'

/-- **Where the pattern is exact at a node, the search finds the matches, each once.** -/
theorem find_exact (hparts : Proper edge D F.parts)
    (hg : ∀ sub ∈ g, ∀ select, .step select ∈ sub.alts → Proper edge D select) {n : T} (hn : D n)
    (h : F.Exact edge g n) : Finds edge (F.find g n) (F.Matches g n) := by
  induction g generalizing n with
  | nil => exact ⟨List.nodup_singleton _, fun way => List.mem_singleton⟩
  | cons sub g ih =>
    rw [List.forall_mem_cons] at hg
    obtain ⟨halts, happart⟩ := h
    refine finds_flatMap (fun alt halt => ?_) happart
    have hexact := halts alt halt
    cases alt with
    | step select =>
      -- the selected parts are at distinct places
      have hselect := hg.1 select halt
      refine finds_flatMap (fun p hp => ?_) ?_
      · have hrest := ih hg.2 (hselect.kept n hn p hp) (hexact p hp)
        exact hrest.behind [(sub.tag, p.1)]
      · refine (hselect.distinct n hn).imp ?_
        rintro p q hne way way' ⟨rest, -, rfl⟩ ⟨rest', -, rfl⟩ heq
        exact hne (List.cons.inj heq).1
    | deep =>
      obtain ⟨hlast, hinner⟩ := hexact
      by_cases hempty : g = []
      · subst hempty
        have hbelow : F.below n = [] := by
          rw [below_eq, hlast rfl]
          rfl
        refine ⟨by simp [Forest.findAlt, hbelow], fun way => ?_⟩
        simp [Forest.findAlt, Forest.MatchesAlt, Forest.Matches, hbelow]
      · obtain ⟨hnone, hexact, happart⟩ := hinner hempty
        have hbelow : Finds edge ((F.below n).flatMap fun p =>
            (F.find g p.2).map (p.1.map (sub.tag, ·) ++ ·)) fun way => ∃ p ∈ F.below n,
              ∃ way', F.Matches g p.2 way' ∧ p.1.map (sub.tag, ·) ++ way' = way := by
          refine finds_flatMap (fun p hp => ?_) happart
          exact (ih hg.2 (below_kept hparts hn p hp) (hexact p hp)).behind _
        have hfound : F.findAlt sub.tag g.isEmpty (F.find g) n .deep =
            (F.below n).flatMap fun p => (F.find g p.2).map (p.1.map (sub.tag, ·) ++ ·) := by
          simp [Forest.findAlt, hempty]
        rw [hfound]
        refine ⟨hbelow.nodup, fun way => (hbelow.mem way).trans ?_⟩
        exact (or_iff_right (hnone way)).symm

end Glob
