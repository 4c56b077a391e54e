import ClawHarder.Proof.View
import ClawHarder.Proof.Indexing

/-!
# One live belief for each identity key

The abstract state of the facts is `Beliefs`: for each id, the key and the state of
its fact. `SingleAt` says that an active fact of a key is the only one that is
active or conflicted.

* `decision_eq`: the verdict of `addFact` is the contest with the spokesman.
* `addFact_single`, `proposeRefinement_single`, `proposeConsolidation_single`:
  **a safe call keeps a single belief.**
-/

namespace ClawHarder

open Engine (candidate refinementInput)

variable {N : Type}

def FactState.live (st : FactState) : Bool := st = .active || st = .conflicted

abbrev Beliefs := FactId → Option (String × FactState)

namespace Beliefs

def put (B : Beliefs) (id : FactId) (key : String) (st : FactState) : Beliefs := fun x =>
  if x = id then some (key, st) else B x

def move (B : Beliefs) (id : FactId) (st : FactState) : Beliefs := fun x =>
  if x = id then (B id).map fun p => (p.1, st) else B x

def SingleAt (B : Beliefs) (key : String) : Prop :=
  ∀ a b st, B a = some (key, .active) → B b = some (key, st) → st.live = true → a = b

def OnlyLive (B : Beliefs) (key : String) (id : FactId) : Prop :=
  ∀ x st, B x = some (key, st) → st.live = true → x = id

def NoLive (B : Beliefs) (key : String) : Prop :=
  ∀ x st, B x = some (key, st) → st.live = false

variable {B B' : Beliefs} {key key' : String} {n a : FactId} {st sa : FactState}

theorem SingleAt.shrink (h : B.SingleAt key)
    (hs : ∀ x st, B' x = some (key, st) → st.live = true → B x = some (key, st)) :
    B'.SingleAt key := by
  intro x y st hx hy hl
  exact h x y st (hs x _ hx rfl) (hs y st hy hl) hl

variable {x : FactId}

theorem put_other (hk : key' ≠ key) (hn : B n = none) :
    B.put n key' st x = some (key, sa) ↔ B x = some (key, sa) := by
  unfold put
  by_cases hx : x = n
  · subst hx
    simp [hn, hk]
  · rw [if_neg hx]

theorem move_ne (hst : st ≠ sa) (h : B.move n st x = some (key, sa)) :
    B x = some (key, sa) ∧ x ≠ n := by
  unfold move at h
  by_cases hx : x = n
  · subst hx
    rw [if_pos rfl] at h
    cases hB : B x with
    | none => rw [hB] at h; cases h
    | some p =>
      rw [hB] at h
      simp only [Option.map_some, Option.some.injEq, Prod.mk.injEq] at h
      exact absurd h.2 hst
  · rw [if_neg hx] at h
    exact ⟨h, hx⟩

theorem move_live (hst : st.live = false) (hl : sa.live = true)
    (h : B.move n st x = some (key, sa)) : B x = some (key, sa) ∧ x ≠ n :=
  move_ne (fun heq => by rw [heq, hl] at hst; cases hst) h

theorem move_cases (h : B.move n st x = some (key, sa)) :
    x = n ∨ B x = some (key, sa) := by
  unfold move at h
  by_cases hx : x = n
  · exact Or.inl hx
  · rw [if_neg hx] at h
    exact Or.inr h

theorem put_cases (h : B.put n key' st x = some (key, sa)) :
    (x = n ∧ st = sa) ∨ B x = some (key, sa) := by
  unfold put at h
  by_cases hx : x = n
  · rw [if_pos hx] at h
    simp only [Option.some.injEq, Prod.mk.injEq] at h
    exact Or.inl ⟨hx, h.2⟩
  · rw [if_neg hx] at h
    exact Or.inr h

theorem OnlyLive.single (h : B.OnlyLive key a) : B.SingleAt key := by
  intro x y st hx hy hl
  rw [h x _ hx rfl, h y st hy hl]

theorem move_other (hB : B n = some (key', sa)) (hk : key' ≠ key) {s : FactState} :
    B.move n st x = some (key, s) ↔ B x = some (key, s) := by
  unfold move
  by_cases hx : x = n
  · subst hx
    simp [hB, hk]
  · rw [if_neg hx]

theorem SingleAt.move_out (h : B.SingleAt key) (id : FactId) (hst : st.live = false) :
    (B.move id st).SingleAt key :=
  h.shrink fun _ _ hx hl => (move_live hst hl hx).1

theorem SingleAt.put_dead (h : B.SingleAt key) (hst : st.live = false) :
    (B.put n key' st).SingleAt key := by
  refine h.shrink ?_
  intro x st' hx hl
  rcases put_cases hx with ⟨-, heq⟩ | hB
  · rw [← heq, hst] at hl
    cases hl
  · exact hB

theorem SingleAt.put_active (hno : B.NoLive key) : (B.put n key .active).SingleAt key := by
  have hone : (B.put n key .active).OnlyLive key n := by
    intro z st hz hlive
    rcases put_cases hz with ⟨hzn, -⟩ | hB
    · exact hzn
    · rw [hno z st hB] at hlive
      cases hlive
  exact hone.single

theorem SingleAt.supersede (hn : n ≠ a) (honly : B.OnlyLive key a) :
    ((B.put n key .active).move a .superseded).SingleAt key := by
  have hswap : (B.put n key .active).move a .superseded =
      (B.move a .superseded).put n key .active := by
    funext x
    unfold put move
    by_cases hx : x = a
    · subst hx; simp [hn.symm]
    · simp [hx]
  rw [hswap]
  apply SingleAt.put_active
  intro x st hx
  by_contra hl
  have hlive : st.live = true := by simpa using hl
  obtain ⟨hB, hne⟩ := move_live rfl hlive hx
  exact hne (honly x st hB hlive)

theorem SingleAt.of_inactive (h : ∀ x, B x ≠ some (key, .active)) : B.SingleAt key :=
  fun x _ _ hx _ _ => absurd hx (h x)

theorem SingleAt.conflict (hactive : ∀ x, B x = some (key, .active) → x = a) :
    ((B.put n key .conflicted).move a .conflicted).SingleAt key := by
  apply SingleAt.of_inactive
  intro x hx
  obtain ⟨hput, hxa⟩ := move_ne (by decide) hx
  rcases put_cases hput with ⟨-, heq⟩ | hB
  · cases heq
  · exact hxa (hactive x hB)

end Beliefs

def beliefs (facts : OrderedMap FactId (Fact N)) : Beliefs := fun id =>
  (facts.get? id).map fun f => (f.identityKey, f.state)

section Store

variable {facts : OrderedMap FactId (Fact N)}

theorem beliefs_eq_some {id : FactId} {key : String} {st : FactState} :
    beliefs facts id = some (key, st) ↔
      ∃ f, facts.get? id = some f ∧ f.identityKey = key ∧ f.state = st := by
  simp [beliefs, Option.map_eq_some_iff]

theorem beliefs_set (id : FactId) (f : Fact N) :
    beliefs (facts.set id f) = (beliefs facts).put id f.identityKey f.state := by
  funext x
  unfold beliefs Beliefs.put
  rw [OrderedMap.get?_set]
  split <;> rfl

theorem beliefs_moveIn (id : FactId) (st : FactState) (now : String) :
    beliefs (moveIn id st now facts) = (beliefs facts).move id st := by
  funext x
  simp only [beliefs, Beliefs.move, get?_moveIn]
  split
  · cases facts.get? id <;> rfl
  · rfl

theorem beliefs_observeIn [JsNumber N] {id : FactId} (source now : String)
    (hid : ∀ f, facts.get? id = some f → f.factId = id) :
    beliefs (observeIn id source now facts) = beliefs facts := by
  funext x
  unfold beliefs
  rw [get?_observeIn hid]
  split
  · rename_i h
    rw [h]
    cases facts.get? id <;> rfl
  · rfl

end Store

def keyFacts (facts : OrderedMap FactId (Fact N)) (key : String) : List (Fact N) :=
  facts.values.filter fun f => f.identityKey = key

/-- The identity-key index lists the facts of each key in order, and the conflicted
facts are listed. -/
structure View.Booked (v : View N) : Prop where
  order : ∀ key, v.indexes.factsByIdentityKey.bucket key = (keyFacts v.facts key).map (·.factId)
  conflicted : ∀ id f, v.facts.get? id = some f → f.state = .conflicted →
    id ∈ v.indexes.conflictedFacts

theorem booked_build {m : Manifest N} (hk : m.Keyed) (key : String) :
    (buildIndexes m).factsByIdentityKey.bucket key = (keyFacts m.facts key).map (·.factId) := by
  obtain ⟨-, hkey, -⟩ := foldl_indexFact m.facts.values .empty
  rw [buildIndexes_eq]
  simp only [hkey]
  exact listed_foldl (·.identityKey) hk.facts key

variable [JsNumber N] {E : Env N} {P : Policy N}

/-- **Every edit keeps the books.** -/
theorem booked_edit {v w : View N} (he : Edit E P v w) (hF : v.Filed E) (h : v.Booked) :
    w.Booked := by
  cases he with
  | insertFact f hid hp =>
    have hnew : v.facts.get? f.factId = none := by
      rw [hid]; exact hF.working.newFact _ le_rfl
    refine ⟨?_, ?_⟩
    · exact Listed.insert (·.identityKey) h.order hF.working.factId hnew
    · intro id g hg hst
      rw [OrderedMap.get?_set] at hg
      split at hg
      · rename_i hidf
        cases hg
        simp [indexFact, hst, hidf]
      · have hin := h.conflicted id g hg hst
        by_cases hfst : f.state = .conflicted <;> simp [indexFact, hfst, hin]
  | observe id f source now hget =>
    refine ⟨Listed.rewrite (·.identityKey) h.order hget rfl rfl, ?_⟩
    intro x g hg hst
    rw [OrderedMap.get?_set] at hg
    split at hg
    · rename_i hx
      cases hg
      exact h.conflicted x f (hx ▸ hget) hst
    · exact h.conflicted x g hg hst
  | move id f st now hget =>
    refine ⟨Listed.rewrite (·.identityKey) h.order hget rfl rfl, ?_⟩
    intro x g hg hst
    rw [OrderedMap.get?_set] at hg
    rw [mem_align_conflicted]
    split at hg
    · rename_i hx
      cases hg
      rw [if_pos hx]
      exact Or.inl hst
    · rename_i hx
      rw [if_neg hx]
      exact h.conflicted x g hg hst
  | force id f hget hp =>
    refine ⟨Listed.rewrite (·.identityKey) h.order hget rfl rfl, ?_⟩
    intro x g hg hst
    rw [OrderedMap.get?_set] at hg
    split at hg
    · cases hg
      cases hst
    · exact h.conflicted x g hg hst
  | retire id f now hget hp =>
    refine ⟨Listed.rewrite (·.identityKey) h.order hget rfl rfl, ?_⟩
    intro x g hg hst
    rw [OrderedMap.get?_set] at hg
    rw [mem_align_conflicted]
    split at hg
    · cases hg
      cases hst
    · rename_i hx
      rw [if_neg hx]
      exact h.conflicted x g hg hst
  | unlist id f hget hst =>
    refine ⟨h.order, ?_⟩
    intro x g hg hcon
    refine OrderedSet.mem_delete.2 ⟨h.conflicted x g hg hcon, ?_⟩
    rintro rfl
    rw [hget] at hg
    cases hg
    rw [hst] at hcon
    cases hcon
  | load m hfile =>
    have hm := hF.file m hfile
    have hk : m.Keyed := ⟨hm.factId, hm.summaryId⟩
    refine ⟨booked_build hk, ?_⟩
    intro id f hget hst
    exact ((indexLaw_buildIndexes hk).facts.conflicted id).2 ⟨f, hget, hst⟩
  | stale sid sm hget => exact ⟨h.order, h.conflicted⟩
  | replace sid sm hget hp => exact ⟨h.order, h.conflicted⟩
  | insertSummary sm hid hp => exact ⟨h.order, h.conflicted⟩
  | insertReference r hid => exact ⟨h.order, h.conflicted⟩
  | skipId => exact ⟨h.order, h.conflicted⟩
  | write m hf hr hs hp => exact ⟨h.order, h.conflicted⟩

section AddFact

variable {s : Engine N} {key : String} {a : Fact N}

omit [JsNumber N] in
theorem keyFacts_get (hF : s.view.Filed E) {f : Fact N}
    (hf : f ∈ keyFacts s.working.facts key) :
    s.working.facts.get? f.factId = some f ∧ f.identityKey = key := by
  obtain ⟨hv, hk⟩ := List.mem_filter.1 hf
  obtain ⟨id, hid⟩ := OrderedMap.mem_values.1 hv
  have heq : f.factId = id := hF.working.factId id f hid
  exact ⟨by rw [heq]; exact hid, by simpa using hk⟩

omit [JsNumber N] in
theorem mem_keyFacts {facts : OrderedMap FactId (Fact N)} {id : FactId} {st : FactState}
    (h : beliefs facts id = some (key, st)) :
    ∃ f ∈ keyFacts facts key, facts.get? id = some f ∧ f.state = st := by
  obtain ⟨f, hget, hk, hst⟩ := beliefs_eq_some.1 h
  have hv : f ∈ facts.values := OrderedMap.mem_values.2 ⟨id, hget⟩
  exact ⟨f, List.mem_filter.2 ⟨hv, by simpa using hk⟩, hget, hst⟩

theorem authority_eq (hF : s.view.Filed E) (hB : s.view.Booked) :
    findAuthoritativeFact (s.indexes.factsByIdentityKey.bucket key) s.working =
      spokesman (keyFacts s.working.facts key) := by
  have horder : s.indexes.factsByIdentityKey.bucket key =
    (keyFacts s.working.facts key).map (·.factId) := hB.order key
  rw [findAuthoritativeFact_eq, horder, List.filterMap_map]
  have hall : (keyFacts s.working.facts key).filterMap
      (s.working.facts.get? ∘ fun f => f.factId) =
      (keyFacts s.working.facts key).filterMap some := by
    apply List.filterMap_congr
    intro f hf
    exact (keyFacts_get hF hf).1
  rw [hall, List.filterMap_some]

def speaker (E : Env N) (s : Engine N) (input : AddFactInput N) : Option (Fact N) :=
  spokesman (keyFacts s.working.facts (candidate E input).identityKey)

/-- **The verdict of `addFact` is the contest with the spokesman.** -/
theorem decision_eq (hF : s.view.Filed E) (hB : s.view.Booked) (input : AddFactInput N) :
    (s.decision E input).outcome =
      ((speaker E s input).map (contest (candidate E input))).getD .new ∧
    (s.decision E input).existingId? = (speaker E s input).map (·.factId) := by
  unfold Engine.decision speaker
  rw [← authority_eq hF hB]
  exact arbitrate_eq

variable {input : AddFactInput N}

theorem speaker_get (hF : s.view.Filed E)
    (h : speaker E s input = some a) :
    s.working.facts.get? a.factId = some a ∧
      beliefs s.working.facts a.factId = some ((candidate E input).identityKey, a.state) := by
  have hin := (spokesman_mem h).1
  obtain ⟨hget, hk⟩ := keyFacts_get hF hin
  exact ⟨hget, beliefs_eq_some.2 ⟨a, hget, hk, rfl⟩⟩

theorem speaker_active (hF : s.view.Filed E)
    (hS : (beliefs s.working.facts).SingleAt (candidate E input).identityKey)
    (h : speaker E s input = some a) {x : FactId}
    (hx : beliefs s.working.facts x = some ((candidate E input).identityKey, .active)) :
    x = a.factId ∧ a.state = .active := by
  obtain ⟨f, hf, -, hst⟩ := mem_keyFacts hx
  have hact : a.state = .active := spokesman_active h hf hst
  refine ⟨hS x a.factId .active hx ?_ rfl, hact⟩
  rw [(speaker_get hF h).2, hact]

theorem speaker_none (h : speaker E s input = none) :
    (beliefs s.working.facts).NoLive (candidate E input).identityKey := by
  intro x st hx
  obtain ⟨f, hf, -, hst⟩ := mem_keyFacts hx
  have hr := spokesman_eq_none.1 h f hf
  subst hst
  cases hfs : f.state <;> rw [hfs] at hr <;> simp_all [FactState.retired, FactState.live]

/-- The beliefs after a new fact with no rival, or after a contest with a rival. -/
def Beliefs.settle (B : Beliefs) (n : FactId) (key : String) (a : FactId) : Outcome → Beliefs
  | .new => B.put n key .active
  | .converge => B
  | .supersede => (B.put n key .active).move a .superseded
  | .reject => B.put n key .superseded
  | .conflict => (B.put n key .conflicted).move a .conflicted

/-- **The beliefs after `addFact`**: the verdict settles them. -/
theorem beliefs_addFact (hF : s.view.Filed E) (input : AddFactInput N) :
    beliefs (s.addFact E input).2.2.working.facts =
      (beliefs s.working.facts).settle (s.nextFactId E) (candidate E input).identityKey
        ((s.decision E input).existingId?.getD "") (s.decision E input).outcome := by
  have hput (st : FactState) :
      beliefs (s.working.facts.set (s.newFact E input st).factId (s.newFact E input st)) =
        (beliefs s.working.facts).put (s.nextFactId E) (candidate E input).identityKey st :=
    beliefs_set _ _
  rw [facts_addFact]
  cases s.decision E input with
  | new reason => exact hput .active
  | converge id reason => exact beliefs_observeIn _ _ (hF.working.factId id)
  | supersede id reason => exact (beliefs_moveIn _ _ _).trans (by rw [hput]; rfl)
  | reject id reason =>
    exact (beliefs_observeIn _ _ (hF.working.factId_set _ id)).trans (hput .superseded)
  | conflict id reason => exact (beliefs_moveIn _ _ _).trans (by rw [hput]; rfl)

theorem beliefs_addFact_none (hF : s.view.Filed E) (hB : s.view.Booked)
    (h : speaker E s input = none) :
    beliefs (s.addFact E input).2.2.working.facts =
      (beliefs s.working.facts).put (s.nextFactId E) (candidate E input).identityKey .active := by
  have hout := (decision_eq hF hB input).1
  rw [h] at hout
  rw [beliefs_addFact hF, hout]
  rfl

theorem beliefs_addFact_some (hF : s.view.Filed E) (hB : s.view.Booked)
    (h : speaker E s input = some a) :
    beliefs (s.addFact E input).2.2.working.facts =
      (beliefs s.working.facts).settle (s.nextFactId E) (candidate E input).identityKey a.factId
        (contest (candidate E input) a) := by
  obtain ⟨hout, hex⟩ := decision_eq hF hB input
  rw [h] at hout hex
  rw [beliefs_addFact hF, hout, hex]
  rfl

/-- The calls of `addFact` that keep a single belief: the spokesman of the key, if
there is one, is live, and when it loses it is the only live fact. -/
def AddSafe (E : Env N) (s : Engine N) (input : AddFactInput N) : Prop :=
  ∀ a, speaker E s input = some a → a.state.live = true ∧
    (contest (candidate E input) a = .supersede →
      (beliefs s.working.facts).OnlyLive (candidate E input).identityKey a.factId)

omit [JsNumber N] in
theorem nextFactId_new (hF : s.view.Filed E) : beliefs s.working.facts (s.nextFactId E) = none := by
  have hnone : s.working.facts.get? (s.nextFactId E) = none := hF.working.newFact _ le_rfl
  simp [beliefs, hnone]

theorem nextFactId_ne_speaker (hF : s.view.Filed E)
    (h : speaker E s input = some a) : s.nextFactId E ≠ a.factId := by
  intro heq
  have hnone := nextFactId_new hF
  rw [heq, (speaker_get hF h).2] at hnone
  cases hnone

theorem contest_ne_new (incoming : Incoming N) (a : Fact N) : contest incoming a ≠ .new := by
  intro h
  unfold contest at h
  simp only at h
  split_ifs at h

theorem beliefs_addFact_other (hF : s.view.Filed E) (hB : s.view.Booked)
    (hk : (candidate E input).identityKey ≠ key) (x : FactId) (st : FactState) :
    beliefs (s.addFact E input).2.2.working.facts x = some (key, st) ↔
      beliefs s.working.facts x = some (key, st) := by
  have hn := nextFactId_new hF
  cases hsp : speaker E s input with
  | none => rw [beliefs_addFact_none hF hB hsp]; exact Beliefs.put_other hk hn
  | some a =>
    have hne := nextFactId_ne_speaker hF hsp
    have hmove (st' : FactState) : (beliefs s.working.facts).put (s.nextFactId E)
        (candidate E input).identityKey st' a.factId =
        some ((candidate E input).identityKey, a.state) := by
      unfold Beliefs.put
      rw [if_neg hne.symm, (speaker_get hF hsp).2]
    rw [beliefs_addFact_some hF hB hsp]
    cases contest (candidate E input) a with
    | new => exact Beliefs.put_other hk hn
    | converge => exact Iff.rfl
    | reject => exact Beliefs.put_other hk hn
    | supersede => exact (Beliefs.move_other (hmove .active) hk).trans (Beliefs.put_other hk hn)
    | conflict => exact (Beliefs.move_other (hmove .conflicted) hk).trans (Beliefs.put_other hk hn)

/-- **A safe `addFact` keeps a single belief.** -/
theorem addFact_single (hF : s.view.Filed E) (hB : s.view.Booked)
    (hS : ∀ key, (beliefs s.working.facts).SingleAt key) (hsafe : AddSafe E s input)
    (key : String) : (beliefs (s.addFact E input).2.2.working.facts).SingleAt key := by
  by_cases hk : (candidate E input).identityKey = key
  · subst hk
    cases hsp : speaker E s input with
    | none =>
      rw [beliefs_addFact_none hF hB hsp]
      exact Beliefs.SingleAt.put_active (speaker_none hsp)
    | some a =>
      have hne := nextFactId_ne_speaker hF hsp
      rw [beliefs_addFact_some hF hB hsp]
      cases hc : contest (candidate E input) a with
      | new => exact absurd hc (contest_ne_new _ _)
      | converge => exact hS _
      | supersede => exact Beliefs.SingleAt.supersede hne ((hsafe a hsp).2 hc)
      | reject => exact (hS _).put_dead rfl
      | conflict =>
        exact Beliefs.SingleAt.conflict fun x hx => (speaker_active hF (hS _) hsp hx).1
  · exact (hS key).shrink fun x st hx _ => (beliefs_addFact_other hF hB hk x st).1 hx

/-- **A safe `addFact` answers `new` exactly when its key has no live fact, and
otherwise names a live one.** -/
theorem addFact_choice (hF : s.view.Filed E) (hB : s.view.Booked)
    (hlive : ∀ a, speaker E s input = some a → a.state.live = true) :
    ((s.decision E input).outcome = .new ↔
      (beliefs s.working.facts).NoLive (candidate E input).identityKey) ∧
    ∀ id, (s.decision E input).existingId? = some id →
      ∃ f, s.working.facts.get? id = some f ∧ f.state.live = true := by
  obtain ⟨hout, hex⟩ := decision_eq hF hB input
  cases hsp : speaker E s input with
  | none =>
    rw [hsp] at hout hex
    refine ⟨⟨fun _ => speaker_none hsp, fun _ => hout⟩, ?_⟩
    intro id hid
    rw [hex] at hid
    cases hid
  | some a =>
    rw [hsp] at hout hex
    have hl := hlive a hsp
    refine ⟨⟨?_, ?_⟩, ?_⟩
    · intro hnew
      rw [hnew] at hout
      exact absurd hout.symm (contest_ne_new _ _)
    · intro hno
      have hcon := hno a.factId a.state (speaker_get hF hsp).2
      rw [hl] at hcon
      cases hcon
    · intro id hid
      rw [hex] at hid
      cases hid
      exact ⟨a, (speaker_get hF hsp).1, hl⟩

theorem id_of_contest (hF : s.view.Filed E) (hB : s.view.Booked) (input : AddFactInput N) :
    (∀ b, speaker E s input = some b → contest (candidate E input) b = .converge →
      (s.addFact E input).2.1 = b.factId) ∧
    ((s.decision E input).outcome ≠ .converge → (s.addFact E input).2.1 = s.nextFactId E) := by
  obtain ⟨hout, hex⟩ := decision_eq hF hB input
  rw [id_addFact]
  refine ⟨?_, ?_⟩
  · intro b hsp hc
    rw [hsp] at hout hex
    have hcon : (s.decision E input).outcome = .converge := hout.trans hc
    cases hd : s.decision E input with
    | converge id reason =>
      rw [hd] at hex
      cases hex
      simp [(speaker_get hF hsp).1]
    | _ => rw [hd] at hcon; cases hcon
  · intro hne
    cases hd : s.decision E input with
    | converge id reason => rw [hd] at hne; exact absurd rfl hne
    | _ => rfl

end AddFact

section Refinement

variable {s : Engine N} {key : String} {a t : Fact N} {target id : FactId}

omit [JsNumber N] in
theorem beliefs_force {f : Fact N} (hget : s.working.facts.get? id = some f) :
    beliefs (s.forceRefinement E target id).working.facts =
      ((beliefs s.working.facts).move id .active).move target .superseded := by
  have hactive : beliefs (s.setFact id { f with state := .active }).working.facts =
      (beliefs s.working.facts).move id .active := by
    have hset : beliefs (s.working.facts.set id { f with state := .active }) =
        (beliefs s.working.facts).put id f.identityKey .active := beliefs_set _ _
    rw [Engine.setFact, hset]
    funext x
    unfold Beliefs.put Beliefs.move
    have hid : beliefs s.working.facts id = some (f.identityKey, f.state) :=
      beliefs_eq_some.2 ⟨f, hget, rfl, rfl⟩
    rw [hid]
    rfl
  unfold Engine.forceRefinement
  simp only [hget]
  rw [← hactive]
  generalize s.setFact id { f with state := .active } = s1
  cases htar : s1.working.facts.get? target with
  | none =>
    funext x
    unfold Beliefs.move
    by_cases hx : x = target
    · subst hx
      simp [Engine.recordOp, beliefs, htar]
    · rw [if_neg hx]
      rfl
  | some g =>
    rw [← beliefs_moveIn target .superseded (s1.now E).1]
    simp only [Engine.recordOp, Engine.facts_propagateStaleness, Engine.facts_transitionFact]
    rfl

omit [JsNumber N] in
theorem beliefs_sweepConflict (id : FactId) (key now : String) (fid : FactId) (s : Engine N) :
    beliefs (s.sweepConflict E id key now fid).working.facts =
      if fid ≠ id ∧ (beliefs s.working.facts fid).map Prod.fst = some key then
        (beliefs s.working.facts).move fid .superseded
      else beliefs s.working.facts := by
  unfold Engine.sweepConflict
  by_cases hid : fid = id
  · simp [hid]
  · rw [if_neg hid]
    cases hget : s.working.facts.get? fid with
    | none =>
      have hnone : beliefs s.working.facts fid = none := by simp [beliefs, hget]
      simp [hnone]
    | some f =>
      have hB : beliefs s.working.facts fid = some (f.identityKey, f.state) :=
        beliefs_eq_some.2 ⟨f, hget, rfl, rfl⟩
      by_cases hk : f.identityKey = key
      · rw [if_pos ⟨hid, by rw [hB, hk]; rfl⟩, ← beliefs_moveIn fid .superseded now]
        simp only [hk, if_true, Engine.recordOp, Engine.facts_propagateStaleness,
          Engine.facts_transitionFact]
      · have hother : (beliefs s.working.facts fid).map Prod.fst ≠ some key := by
          rw [hB]
          exact fun h => hk (Option.some.inj h)
        rw [if_neg (fun h => hother h.2)]
        simp only [hk, if_false]

omit [JsNumber N] in
/-- **The sweep** only supersedes, and leaves no live fact of the key among those it
visits, but for the new one. -/
theorem sweep_spec (id : FactId) (key now : String) (L : List FactId) (s : Engine N) :
    (∀ x k st, beliefs (L.foldl (Engine.sweepConflict E id key now) s).working.facts x =
      some (k, st) → st.live = true → beliefs s.working.facts x = some (k, st)) ∧
    (∀ x ∈ L, x ≠ id → ∀ st, beliefs (L.foldl (Engine.sweepConflict E id key now) s).working.facts x =
      some (key, st) → st.live = false) := by
  induction L generalizing s with
  | nil => exact ⟨fun _ _ _ h _ => h, fun x hx => by cases hx⟩
  | cons fid L ih =>
    obtain ⟨hrest, hgone⟩ := ih (s.sweepConflict E id key now fid)
    have hturn := beliefs_sweepConflict (E := E) id key now fid s
    rw [List.foldl_cons]
    have hshrink : ∀ x k st, beliefs (s.sweepConflict E id key now fid).working.facts x =
        some (k, st) → st.live = true → beliefs s.working.facts x = some (k, st) := by
      intro x k st hx hl
      rw [hturn] at hx
      split at hx
      · exact (Beliefs.move_live rfl hl hx).1
      · exact hx
    refine ⟨fun x k st hx hl => hshrink x k st (hrest x k st hx hl) hl, ?_⟩
    intro x hx hne st hst
    rcases List.mem_cons.1 hx with rfl | hx
    · -- a live fact here would have been moved by this turn
      by_contra hl
      have hlive : st.live = true := by simpa using hl
      have h1 := hrest x key st hst hlive
      have h0 := hshrink x key st h1 hlive
      rw [hturn, if_pos ⟨hne, by rw [h0]; rfl⟩] at h1
      exact (Beliefs.move_live rfl hlive h1).2 rfl
    · exact hgone x hx hne st hst

/-- The calls of `proposeRefinement` that keep a single belief. Within the target's
key the new fact must not be forced beside another active one; under another key,
where nothing is swept, it must join or beat the only live fact. -/
def RefineSafe (E : Env N) (s : Engine N) (target : FactId) (t : Fact N) (input : AddFactInput N) :
    Prop :=
  ∀ a, speaker E s input = some a → a.state.live = true ∧
    if (candidate E input).identityKey = t.identityKey then
      ¬ (a.state = .active ∧ a.factId ≠ target ∧ contest (candidate E input) a = .reject)
    else
      (contest (candidate E input) a = .converge ∨ contest (candidate E input) a = .supersede) ∧
        (beliefs s.working.facts).OnlyLive (candidate E input).identityKey a.factId

/-- The engine after `addFact` and the override. -/
def refined (E : Env N) (s : Engine N) (target : FactId) (input : AddFactInput N) : Engine N :=
  if (s.decision E input).outcome.forced then
    (s.addFact E input).2.2.forceRefinement E target (s.addFact E input).2.1
  else (s.addFact E input).2.2

theorem addFact_names (hF : s.view.Filed E) (hB : s.view.Booked) (input : AddFactInput N) :
    ∃ st, beliefs (s.addFact E input).2.2.working.facts (s.addFact E input).2.1 =
      some ((candidate E input).identityKey, st) := by
  obtain ⟨hjoin, hnew⟩ := id_of_contest hF hB input
  have hout := (decision_eq hF hB input).1
  cases hsp : speaker E s input with
  | none =>
    rw [hsp] at hout
    rw [hnew (by rw [hout]; exact Outcome.noConfusion), beliefs_addFact_none hF hB hsp]
    exact ⟨.active, by simp [Beliefs.put]⟩
  | some a =>
    rw [hsp] at hout
    have hne := nextFactId_ne_speaker hF hsp
    rw [beliefs_addFact_some hF hB hsp]
    have hout' : (s.decision E input).outcome = contest (candidate E input) a := hout
    cases hc : contest (candidate E input) a with
    | new => exact absurd hc (contest_ne_new _ _)
    | converge =>
      rw [hjoin a hsp hc]
      exact ⟨a.state, (speaker_get hF hsp).2⟩
    | supersede =>
      rw [hnew (by rw [hout', hc]; decide)]
      exact ⟨.active, by simp [Beliefs.settle, Beliefs.move, Beliefs.put, hne]⟩
    | reject =>
      rw [hnew (by rw [hout', hc]; decide)]
      exact ⟨.superseded, by simp [Beliefs.settle, Beliefs.put]⟩
    | conflict =>
      rw [hnew (by rw [hout', hc]; decide)]
      exact ⟨.conflicted, by simp [Beliefs.settle, Beliefs.move, Beliefs.put, hne]⟩

theorem beliefs_refined (hF : s.view.Filed E) (hB : s.view.Booked) (input : AddFactInput N) :
    beliefs (refined E s target input).working.facts =
      if (s.decision E input).outcome.forced then
        ((beliefs (s.addFact E input).2.2.working.facts).move (s.addFact E input).2.1
          .active).move target .superseded
      else beliefs (s.addFact E input).2.2.working.facts := by
  unfold refined
  split
  · obtain ⟨st, hst⟩ := addFact_names hF hB input
    obtain ⟨f, hget, -⟩ := beliefs_eq_some.1 hst
    exact beliefs_force hget
  · rfl

variable {input : AddFactInput N}

theorem refined_frame (hF : s.view.Filed E) (hB : s.view.Booked)
    (hk : (candidate E input).identityKey ≠ key) {x : FactId} {st : FactState}
    (hx : beliefs (refined E s target input).working.facts x = some (key, st))
    (hl : st.live = true) : beliefs s.working.facts x = some (key, st) := by
  rw [beliefs_refined hF hB] at hx
  split at hx
  · obtain ⟨st', hnamed⟩ := addFact_names hF hB input
    have h1 := (Beliefs.move_live rfl hl hx).1
    exact (beliefs_addFact_other hF hB hk x st).1 ((Beliefs.move_other hnamed hk).1 h1)
  · exact (beliefs_addFact_other hF hB hk x st).1 hx

theorem refined_active (hF : s.view.Filed E) (hB : s.view.Booked)
    (hS : (beliefs s.working.facts).SingleAt (candidate E input).identityKey)
    (hk : (candidate E input).identityKey = t.identityKey) (hsafe : RefineSafe E s target t input)
    {x : FactId} (hx : beliefs (refined E s target input).working.facts x =
      some ((candidate E input).identityKey, .active)) : x = (s.addFact E input).2.1 := by
  obtain ⟨hjoin, hnew⟩ := id_of_contest hF hB input
  have hout := (decision_eq hF hB input).1
  rw [beliefs_refined hF hB] at hx
  cases hsp : speaker E s input with
  | none =>
    rw [hsp] at hout
    have hout' : (s.decision E input).outcome = .new := hout
    rw [hout'] at hx
    rw [hnew (by rw [hout']; exact Outcome.noConfusion)]
    have hx' : beliefs (s.addFact E input).2.2.working.facts x =
      some ((candidate E input).identityKey, .active) := hx
    rw [beliefs_addFact_none hF hB hsp] at hx'
    rcases Beliefs.put_cases hx' with ⟨hxn, -⟩ | hold
    · exact hxn
    · exact absurd (speaker_none hsp x .active hold) (by decide)
  | some a =>
    rw [hsp] at hout
    have hout' : (s.decision E input).outcome = contest (candidate E input) a := hout
    have hactive : ∀ {y}, beliefs s.working.facts y =
        some ((candidate E input).identityKey, .active) → y = a.factId ∧ a.state = .active :=
      fun hy => speaker_active hF hS hsp hy
    have hguard := (hsafe a hsp).2
    rw [if_pos hk] at hguard
    rw [hout', beliefs_addFact_some hF hB hsp] at hx
    cases hc : contest (candidate E input) a with
    | new => exact absurd hc (contest_ne_new _ _)
    | supersede =>
      rw [hc] at hx hout'
      rw [hnew (by rw [hout']; exact Outcome.noConfusion)]
      have hx' : (((beliefs s.working.facts).put (s.nextFactId E)
        (candidate E input).identityKey .active).move a.factId .superseded) x =
        some ((candidate E input).identityKey, .active) := hx
      obtain ⟨hput, hne⟩ := Beliefs.move_live rfl rfl hx'
      rcases Beliefs.put_cases hput with ⟨hxn, -⟩ | hold
      · exact hxn
      · exact absurd (hactive hold).1 hne
    | converge =>
      rw [hc, hjoin a hsp hc] at hx
      rw [hjoin a hsp hc]
      obtain ⟨h1, -⟩ := Beliefs.move_live rfl rfl (if_pos rfl ▸ hx)
      rcases Beliefs.move_cases h1 with hxa | hold
      · exact hxa
      · exact (hactive hold).1
    | reject =>
      rw [hc] at hx hout'
      have hid := hnew (by rw [hout']; exact Outcome.noConfusion)
      rw [hid] at hx ⊢
      obtain ⟨h1, hne⟩ := Beliefs.move_live rfl rfl (if_pos rfl ▸ hx)
      rcases Beliefs.move_cases h1 with hxn | hput
      · exact hxn
      rcases Beliefs.put_cases hput with ⟨-, hst⟩ | hold
      · cases hst
      · -- the spokesman stays active unless it is the target
        obtain ⟨hxa, hact⟩ := hactive hold
        exact absurd ⟨hact, fun heq => hne (hxa.trans heq), hc⟩ hguard
    | conflict =>
      rw [hc] at hx hout'
      have hid := hnew (by rw [hout']; exact Outcome.noConfusion)
      rw [hid] at hx ⊢
      obtain ⟨h1, -⟩ := Beliefs.move_live rfl rfl (if_pos rfl ▸ hx)
      rcases Beliefs.move_cases h1 with hxn | hmove
      · exact hxn
      obtain ⟨hput, hne⟩ := Beliefs.move_ne (by decide) hmove
      rcases Beliefs.put_cases hput with ⟨-, hst⟩ | hold
      · cases hst
      · exact absurd (hactive hold).1 hne

/-- Under another key than the target's the named fact joins or beats the only live
one. -/
theorem refined_single_other (hF : s.view.Filed E) (hB : s.view.Booked)
    (hS : ∀ key, (beliefs s.working.facts).SingleAt key)
    (hk : (candidate E input).identityKey ≠ t.identityKey) (hsafe : RefineSafe E s target t input) :
    (beliefs (refined E s target input).working.facts).SingleAt (candidate E input).identityKey := by
  have hout := (decision_eq hF hB input).1
  have hadd : AddSafe E s input := by
    intro a hsp
    have hguard := hsafe a hsp
    rw [if_neg hk] at hguard
    exact ⟨hguard.1, fun _ => hguard.2.2⟩
  have hsingle := addFact_single hF hB hS hadd (candidate E input).identityKey
  rw [beliefs_refined hF hB]
  split
  · rename_i hforced
    refine Beliefs.SingleAt.move_out ?_ target rfl
    cases hsp : speaker E s input with
    | none =>
      rw [hsp] at hout
      have hout' : (s.decision E input).outcome = .new := hout
      rw [hout'] at hforced
      cases hforced
    | some a =>
      rw [hsp] at hout
      have hout' : (s.decision E input).outcome = contest (candidate E input) a := hout
      have hguard := (hsafe a hsp).2
      rw [if_neg hk] at hguard
      rcases hguard.1 with hc | hc
      · rw [beliefs_addFact_some hF hB hsp, hc, (id_of_contest hF hB input).1 a hsp hc]
        -- it was the only live fact, and still is
        have honly : ((beliefs s.working.facts).move a.factId .active).OnlyLive
            (candidate E input).identityKey a.factId := by
          intro x st hx hl
          rcases Beliefs.move_cases hx with hxa | hold
          · exact hxa
          · exact hguard.2 x st hold hl
        exact honly.single
      · rw [hout', hc] at hforced
        cases hforced
  · exact hsingle

theorem proposeRefinement_eq (ht : s.working.facts.get? target = some t)
    (hst : t.state ≠ .invalidated) (refinement : AddFactInput N) :
    (s.proposeRefinement E target refinement).2 =
      ((refined E s target (refinementInput target refinement)).indexes.conflictedFacts).foldl
        (Engine.sweepConflict E (s.addFact E (refinementInput target refinement)).2.1 t.identityKey
          ((refined E s target (refinementInput target refinement)).now E).1)
        ((refined E s target (refinementInput target refinement)).now E).2 := by
  unfold Engine.proposeRefinement
  rw [ht]
  simp only [hst, if_false, addFact_decision]
  rfl

theorem proposeRefinement_cases (s : Engine N) (target : FactId) (refinement : AddFactInput N) :
    (s.proposeRefinement E target refinement).2 = s ∨
      ∃ t, s.working.facts.get? target = some t ∧ t.state ≠ .invalidated := by
  unfold Engine.proposeRefinement
  cases ht : s.working.facts.get? target with
  | none => exact .inl rfl
  | some t =>
    by_cases hst : t.state = .invalidated
    · exact .inl (by simp only [hst, if_true])
    · exact .inr ⟨t, rfl, hst⟩

theorem booked_refined (hE : Function.Injective E.shortId) (hF : s.view.Filed E)
    (hB : s.view.Booked) (ht : s.working.facts.get? target = some t) (hst : t.state ≠ .invalidated)
    (refinement : AddFactInput N) :
    (refined E s target (refinementInput target refinement)).view.Booked := by
  have hedits : Edits E Policy.any s.view
      (refined E s target (refinementInput target refinement)).view := by
    obtain ⟨hfact, hforce⟩ := allows_any (s := s) (E := E)
      (.proposeRefinement target refinement) t ht hst
    unfold refined
    split
    · rename_i hf
      exact (addFact_edits hE hF hfact).trans (addFact_force_edits hF ht hforce hf)
    · exact addFact_edits hE hF hfact
  exact (Edits.inv (I := fun v => v.Filed E ∧ v.Booked)
    (fun _ _ he hv => ⟨filed_edit hE he hv.1, booked_edit he hv.1 hv.2⟩) hedits ⟨hF, hB⟩).2

/-- **A safe `proposeRefinement` keeps a single belief.** -/
theorem proposeRefinement_single (hE : Function.Injective E.shortId) (hF : s.view.Filed E)
    (hB : s.view.Booked) (hS : ∀ key, (beliefs s.working.facts).SingleAt key)
    {refinement : AddFactInput N}
    (hsafe : ∀ t, s.working.facts.get? target = some t → t.state ≠ .invalidated →
      RefineSafe E s target t (refinementInput target refinement)) (key : String) :
    (beliefs (s.proposeRefinement E target refinement).2.working.facts).SingleAt key := by
  rcases proposeRefinement_cases (E := E) s target refinement with hsame | ⟨t, ht, hst⟩
  · rw [hsame]
    exact hS key
  · have hguard := hsafe t ht hst
    have hbook := booked_refined hE hF hB ht hst refinement
    rw [proposeRefinement_eq ht hst]
    obtain ⟨hshrink, hgone⟩ := sweep_spec (E := E)
      (s.addFact E (refinementInput target refinement)).2.1 t.identityKey
      ((refined E s target (refinementInput target refinement)).now E).1
      (refined E s target (refinementInput target refinement)).indexes.conflictedFacts
      ((refined E s target (refinementInput target refinement)).now E).2
    by_cases hkey : (candidate E (refinementInput target refinement)).identityKey = key
    · subst hkey
      by_cases hk : (candidate E (refinementInput target refinement)).identityKey = t.identityKey
      · -- swept: whatever is live is the named fact
        refine Beliefs.OnlyLive.single
          (a := (s.addFact E (refinementInput target refinement)).2.1) ?_
        intro x st hx hl
        have hbefore := hshrink x _ st hx hl
        by_contra hne
        cases st with
        | active => exact hne (refined_active hF hB (hS _) hk hguard hbefore)
        | conflicted =>
          obtain ⟨f, hget, -, hcon⟩ := beliefs_eq_some.1 hbefore
          have hin := hbook.conflicted x f hget hcon
          have hdead := hgone x hin hne .conflicted (hx.trans (by rw [hk]))
          cases hdead
        | _ => cases hl
      · exact (refined_single_other hF hB hS hk hguard).shrink
          fun x st hx hl => hshrink x _ st hx hl
    · exact (hS key).shrink
        fun x st hx hl => refined_frame hF hB hkey (hshrink x _ st hx hl) hl

end Refinement

section Calls

variable {s : Engine N} {key : String}

omit [JsNumber N] in
theorem beliefs_retire (s : Engine N) (id : FactId) (st : FactState) (now : String) :
    beliefs ((s.transitionFact id st now).propagateStaleness E id).working.facts =
      (beliefs s.working.facts).move id st := by
  rw [Engine.facts_propagateStaleness, Engine.facts_transitionFact, beliefs_moveIn]

omit [JsNumber N] in
theorem supersedeSources_live (now : String) (sources : List FactId) (s : Engine N) {x : FactId}
    {k : String} {st : FactState}
    (hx : beliefs (sources.foldl (Engine.supersedeSource E now) s).working.facts x = some (k, st))
    (hl : st.live = true) : beliefs s.working.facts x = some (k, st) ∧ x ∉ sources := by
  induction sources generalizing s with
  | nil => exact ⟨hx, by simp⟩
  | cons fid sources ih =>
    obtain ⟨h1, hnot⟩ := ih (s.supersedeSource E now fid) hx
    have hturn : beliefs (s.supersedeSource E now fid).working.facts =
        (beliefs s.working.facts).move fid .superseded := beliefs_retire s fid .superseded now
    rw [hturn] at h1
    obtain ⟨h0, hne⟩ := Beliefs.move_live rfl hl h1
    refine ⟨h0, ?_⟩
    rw [List.mem_cons]
    rintro (heq | hin)
    · exact hne heq
    · exact hnot hin

theorem beliefs_consolidated (s : Engine N) (sources : List FactId) (consolidated : AddFactInput N) :
    beliefs (s.consolidated E sources consolidated).working.facts =
      (beliefs s.working.facts).put (s.nextFactId E) (candidate E consolidated).identityKey
        .active := beliefs_set _ _

/-- **A consolidation that covers the live facts of its key keeps a single belief.** -/
theorem proposeConsolidation_single {sources : List FactId} {consolidated : AddFactInput N}
    (hS : ∀ key, (beliefs s.working.facts).SingleAt key)
    (hsafe : 2 ≤ sources.length → (∀ fid ∈ sources, s.working.facts.contains fid = true) →
      ∀ x st, beliefs s.working.facts x = some ((candidate E consolidated).identityKey, st) →
        st.live = true → x ∈ sources) (key : String) :
    (beliefs (s.proposeConsolidation E sources consolidated).2.working.facts).SingleAt key := by
  rcases proposeConsolidation_cases E sources consolidated s with hsame | ⟨hlen, hall, heq⟩
  · rw [hsame]
    exact hS key
  · have hcover := hsafe hlen hall
    have hput := beliefs_consolidated (E := E) s sources consolidated
    rw [heq]
    simp only [Engine.recordOp]
    revert hput
    generalize s.consolidated E sources consolidated = s1
    intro hput
    by_cases hk : (candidate E consolidated).identityKey = key
    · subst hk
      refine Beliefs.OnlyLive.single (a := s.nextFactId E) ?_
      intro x st hx hl
      obtain ⟨h1, hnot⟩ := supersedeSources_live _ _ _ hx hl
      rw [hput] at h1
      rcases Beliefs.put_cases h1 with ⟨hxn, -⟩ | hold
      · exact hxn
      · exact absurd (hcover x st hold hl) hnot
    · refine (hS key).shrink ?_
      intro x st hx hl
      obtain ⟨h1, -⟩ := supersedeSources_live _ _ _ hx hl
      rw [hput] at h1
      unfold Beliefs.put at h1
      split at h1
      · simp only [Option.some.injEq, Prod.mk.injEq] at h1
        exact absurd h1.1 hk
      · exact h1

end Calls

end ClawHarder
