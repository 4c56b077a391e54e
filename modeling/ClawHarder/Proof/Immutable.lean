import ClawHarder.Proof.Change

/-!
# Facts are immutable

Between reloads the store of facts only grows: the calls rewrite the state, the
confidence, the observations and the supporting sources of a fact, and nothing
else.

* `kept_run`: every fact stays, with its core.
* `facts_immutable`: **both, for a session from an empty manifest.**
-/

namespace ClawHarder

variable {N : Type} [JsNumber N] {E : Env N} {s : Engine N}

theorem numbered_step (hE : Function.Injective E.shortId) (hF : s.view.Filed E)
    (hn : s.scene.Numbered E) {op : Op N} (hop : op.reloads = false) :
    (step E s op).view.Filed E ∧ (step E s op).scene.Numbered E := by
  refine ⟨filed_step hE hF op, ?_⟩
  have hch := step_changes hF hop
  have hnumbered : ∀ w, Changes E s.scene w → w.Numbered E := by
    intro w hw
    induction hw with
    | refl => exact hn
    | tail _ hlast ih => exact numbered_change hlast ih
  exact hnumbered _ hch

/-- **The facts stay numbered over a session.** -/
theorem numbered_run (hE : Function.Injective E.shortId) (hF : s.view.Filed E)
    (hn : s.scene.Numbered E) {ops : List (Op N)} (hno : ∀ op ∈ ops, op.reloads = false) :
    (Machine.run (step E) s ops).view.Filed E ∧ (Machine.run (step E) s ops).scene.Numbered E := by
  induction ops generalizing s with
  | nil => exact ⟨hF, hn⟩
  | cons op ops ih =>
    obtain ⟨hF', hn'⟩ := numbered_step hE hF hn (hno op List.mem_cons_self)
    exact ih hF' hn' fun o ho => hno o (List.mem_cons_of_mem op ho)

theorem kept_step (hF : s.view.Filed E) {op : Op N} (hop : op.reloads = false) {id : FactId}
    {f : Fact N} (hf : s.working.facts.get? id = some f) :
    ∃ g, (step E s op).working.facts.get? id = some g ∧ g.core = f.core :=
  (step_changes hF hop).kept hF.working.factId hf

/-- **Every fact stays, with its core, over a session.** -/
theorem kept_run (hE : Function.Injective E.shortId) (hF : s.view.Filed E) {ops : List (Op N)}
    (hno : ∀ op ∈ ops, op.reloads = false)
    {id : FactId} {f : Fact N} (hf : s.working.facts.get? id = some f) :
    ∃ g, (Machine.run (step E) s ops).working.facts.get? id = some g ∧ g.core = f.core := by
  induction ops generalizing s f with
  | nil => exact ⟨f, hf, rfl⟩
  | cons op ops ih =>
    have hop := hno op List.mem_cons_self
    obtain ⟨g, hg, hcore⟩ := kept_step hF hop hf
    obtain ⟨g', hg', hcore'⟩ := ih (filed_step hE hF op)
      (fun o ho => hno o (List.mem_cons_of_mem op ho)) hg
    exact ⟨g', hg', hcore'.trans hcore⟩

theorem numbered_fresh (actor : String) (disk : Disk N) (sys : Sys) :
    (Engine.fresh E actor disk sys).scene.Numbered E where
  keyed k f h := by cases h
  apart k k' f f' h := by cases h
  counted k f h := by cases h
  derived k f h := by cases h

/-- **Facts are immutable**: in a session from an empty manifest without a reload, a
fact of any moment is there at every later one with the same core, and the facts
are numbered. -/
theorem facts_immutable (hE : Function.Injective E.shortId) (actor : String) {disk : Disk N}
    (hdisk : disk.manifestFile = none) (sys : Sys) {before after : List (Op N)}
    (hno : ∀ op ∈ before ++ after, op.reloads = false) :
    let s := Machine.run (step E) (Engine.fresh E actor disk sys) before
    let s' := Machine.run (step E) s after
    (∀ id f, s.working.facts.get? id = some f →
      ∃ g, s'.working.facts.get? id = some g ∧ g.core = f.core) ∧
    s'.scene.Numbered E := by
  intro s s'
  have hF := (started_fresh E actor hdisk sys).filed (keyed_fresh E actor disk sys)
    (uniqueIds_fresh hE actor disk sys)
  have hbefore := numbered_run hE hF (numbered_fresh actor disk sys)
    (fun op ho => hno op (List.mem_append_left after ho))
  have hafter : ∀ op ∈ after, op.reloads = false :=
    fun op ho => hno op (List.mem_append_right before ho)
  refine ⟨?_, (numbered_run hE hbefore.1 hbefore.2 hafter).2⟩
  intro id f hf
  exact kept_run hE hbefore.1 hafter hf

theorem facts_immutable_city :
    let s := afterSession [.addFact (cityInput "Rome" 0.5)]
    let s' := Machine.run (step (Env.plain ℚ)) s
      [.addFact (cityInput "Oslo" 0.9), .invalidateFact "FACT_" "retracted"]
    (∀ id f, s.working.facts.get? id = some f →
      ∃ g, s'.working.facts.get? id = some g ∧ g.core = f.core) ∧
    s'.scene.Numbered (Env.plain ℚ) :=
  facts_immutable (Env.plain_injective ℚ) "agent" rfl {} (by decide)

end ClawHarder
