import ClawHarder.Proof.Change

/-!
# The chronicle of a session

`Chronicle` keeps beside an engine what happened to the manifest it holds, as the
events that a `log` reads off each call. A commit saves the trail with the manifest,
a reload takes it back with it, so the trail tells nothing of what was discarded.

* `chronicle_run`: the chronicle follows the session.
* `Chronicle.run_inv`: **what each call keeps of scene and trail, a session keeps.**
-/

namespace ClawHarder

variable {N : Type} {α : Type}

/-- An engine, what happened to its manifest, and what had happened to the one on
disk when it was saved. -/
structure Chronicle (N α : Type) where
  engine : Engine N
  trail : List α
  saved : List α

def Chronicle.start (s : Engine N) : Chronicle N α where
  engine := s
  trail := []
  saved := []

variable [JsNumber N] {E : Env N} {log : Engine N → Op N → List α}

/-- A call, chronicled: a commit saves the trail and a reload takes it back. -/
def chronicle (E : Env N) (log : Engine N → Op N → List α) (c : Chronicle N α) :
    Op N → Chronicle N α
  | .commit io =>
    match c.engine.dirty, c.engine.commit E io with
    | true, (.ok _ _, s) => { engine := s, trail := c.trail, saved := c.trail }
    | _, (_, s) => { c with engine := s }
  | .reload io =>
    match c.engine.reload E io with
    | .ok s => { engine := s, trail := c.saved, saved := c.saved }
    | .error _ => c
  | op => { c with engine := step E c.engine op, trail := c.trail ++ log c.engine op }

variable (E log)

theorem chronicle_commit (c : Chronicle N α) (io : Io) :
    (∃ s : Engine N, chronicle E log c (.commit io) = { c with engine := s } ∧
      s.scene = c.engine.scene ∧ s.disk.manifestFile = c.engine.disk.manifestFile) ∨
    (∃ (s : Engine N) (m : Manifest N),
      chronicle E log c (.commit io) = { engine := s, trail := c.trail, saved := c.trail } ∧
      s.scene = c.engine.scene ∧ s.disk.manifestFile = some (.manifest m) ∧
      m.facts = c.engine.working.facts ∧ m.summaries = c.engine.working.summaries) := by
  cases hd : c.engine.dirty with
  | false =>
    left
    have hclean : c.engine.commit E io =
        (.ok c.engine.working.revision c.engine.working.integrityHash, c.engine) := by
      unfold Engine.commit
      simp [hd]
    refine ⟨c.engine, ?_, rfl, rfl⟩
    simp only [chronicle, hd, hclean]
  | true =>
    rcases commit_cases E io c.engine.actor c.engine.working c.engine.expectedRevision
      c.engine.disk c.engine.sys with ⟨reason, detail, sys, h, -⟩ | ⟨-, h⟩
    · left
      refine ⟨(c.engine.commit E io).2, ?_, scene_commit io, ?_⟩ <;>
        simp only [chronicle, Engine.commit, hd, h, if_true]
    · right
      refine ⟨(c.engine.commit E io).2, (nextManifest E c.engine.sys c.engine.actor
        c.engine.working c.engine.expectedRevision).1, ?_, scene_commit io, ?_, rfl, rfl⟩ <;>
        simp only [chronicle, Engine.commit, hd, h, if_true]

/-- A chronicled reload changes nothing, or takes back the manifest on disk with its
trail. -/
theorem chronicle_reload (c : Chronicle N α) (io : Io) :
    chronicle E log c (.reload io) = c ∨
    ∃ (s : Engine N) (m : Manifest N),
      chronicle E log c (.reload io) = { engine := s, trail := c.saved, saved := c.saved } ∧
      c.engine.disk.manifestFile = some (.manifest m) ∧ s.disk = c.engine.disk ∧
      s.scene = m.scene := by
  cases h : load E io c.engine.disk with
  | failed reason detail =>
    left
    simp only [chronicle, Engine.reload, h]
  | ok m ix =>
    right
    obtain ⟨hfile, -, rfl, -⟩ := load_ok_iff.1 h
    have hok : ∃ s : Engine N, c.engine.reload E io = .ok s ∧ s.disk = c.engine.disk ∧
        s.scene = m.scene := by
      unfold Engine.reload
      rw [h]
      exact ⟨_, rfl, rfl, rfl⟩
    obtain ⟨s, hs, hdisk, hscene⟩ := hok
    exact ⟨s, m, by simp only [chronicle, hs], hfile, hdisk, hscene⟩

theorem chronicle_engine (c : Chronicle N α) (op : Op N) :
    (chronicle E log c op).engine = step E c.engine op := by
  cases op with
  | commit io =>
    show (match c.engine.dirty, c.engine.commit E io with
      | true, (.ok _ _, s) => ({ engine := s, trail := c.trail, saved := c.trail } : Chronicle N α)
      | _, (_, s) => { c with engine := s }).engine = (c.engine.commit E io).2
    rcases c.engine.commit E io with ⟨r, s⟩
    cases c.engine.dirty <;> cases r <;> rfl
  | reload io =>
    show (match c.engine.reload E io with
      | .ok s => ({ engine := s, trail := c.saved, saved := c.saved } : Chronicle N α)
      | .error _ => c).engine = (c.engine.reload E io).toOption.getD c.engine
    cases c.engine.reload E io <;> rfl
  | _ => rfl

variable {E log}

theorem chronicle_run (c : Chronicle N α) (ops : List (Op N)) :
    (Machine.run (chronicle E log) c ops).engine = Machine.run (step E) c.engine ops := by
  induction ops generalizing c with
  | nil => rfl
  | cons op ops ih => rw [Machine.run_cons, Machine.run_cons, ih, chronicle_engine E log]

theorem chronicle_call (c : Chronicle N α) {op : Op N} (hr : op.reloads = false)
    (hc : op.commits = false) : chronicle E log c op =
      { c with engine := step E c.engine op, trail := c.trail ++ log c.engine op } := by
  cases op with
  | commit io => cases hc
  | reload io => cases hr
  | _ => rfl

/-- **What each call keeps of scene and trail, a session keeps.** `J` holds of every
engine of the session, `W` ties the working manifest to its trail and `F` the manifest
on disk to the trail saved with it. -/
theorem Chronicle.run_inv {J : Engine N → Prop} {G : Engine N → Op N → Prop}
    {W : Scene N → List α → Prop} {F : Manifest N → List α → Prop}
    (hE : Function.Injective E.shortId) (hfiled : ∀ s, J s → s.view.Filed E)
    (hstep : ∀ s op, J s → J (step E s op))
    (hcall : ∀ s t op, J s → op.reloads = false → G s op → W s.scene t →
      W (step E s op).scene (t ++ log s op))
    (hsave : ∀ s t (m : Manifest N), J s → W s.scene t → m.facts = s.working.facts →
      m.summaries = s.working.summaries → F m t)
    (hload : ∀ m t, m.Keyed → F m t → W m.scene t)
    {s : Engine N} (hJ : J s) (hW : W s.scene [])
    (hF : ∀ m : Manifest N, s.disk.manifestFile = some (.manifest m) → F m [])
    {ops : List (Op N)} (hg : Machine.Guarded (step E) G s ops) :
    W (Machine.run (chronicle E log) (Chronicle.start s) ops).engine.scene
      (Machine.run (chronicle E log) (Chronicle.start s) ops).trail := by
  have hall : ∀ (ops : List (Op N)) (c : Chronicle N α), J c.engine →
      W c.engine.scene c.trail →
      (∀ m : Manifest N, c.engine.disk.manifestFile = some (.manifest m) → F m c.saved) →
      Machine.Guarded (step E) G c.engine ops →
      W (Machine.run (chronicle E log) c ops).engine.scene
        (Machine.run (chronicle E log) c ops).trail := by
    intro ops
    induction ops with
    | nil => exact fun c _ hW _ _ => hW
    | cons op ops ih =>
      intro c hJ hW hF hg
      have hJ' := hstep c.engine op hJ
      rw [Machine.run_cons]
      have heng := chronicle_engine E log c op
      refine ih (chronicle E log c op) (heng ▸ hJ') ?_ ?_ (heng ▸ hg.2)
      · cases hr : op.reloads with
        | false =>
          cases hc : op.commits with
          | false =>
            rw [chronicle_call c hr hc]
            exact hcall c.engine c.trail op hJ hr hg.1 hW
          | true =>
            cases op with
            | commit io =>
              rcases chronicle_commit E log c io with
                ⟨s, heq, hscene, -⟩ | ⟨s, m, heq, hscene, -⟩
              · rw [heq, hscene]
                exact hW
              · rw [heq, hscene]
                exact hW
            | _ => cases hc
        | true =>
          cases op with
          | reload io =>
            rcases chronicle_reload E log c io with heq | ⟨s, m, heq, hfile, -, hscene⟩
            · rw [heq]
              exact hW
            · have hk := (hfiled c.engine hJ).file m hfile
              rw [heq, hscene]
              exact hload m c.saved ⟨hk.factId, hk.summaryId⟩ (hF m hfile)
          | _ => cases hr
      · intro m hm
        cases hc : op.commits with
        | false =>
          -- only a commit writes the disk
          have hfile : c.engine.disk.manifestFile = some (.manifest m) := by
            rw [heng] at hm
            exact (file_step hE (hfiled c.engine hJ) hc).symm.trans hm
          cases hr : op.reloads with
          | false =>
            rw [chronicle_call c hr hc]
            exact hF m hfile
          | true =>
            cases op with
            | reload io =>
              rcases chronicle_reload E log c io with heq | ⟨s, m', heq, -⟩
              · rw [heq]
                exact hF m hfile
              · rw [heq]
                exact hF m hfile
            | _ => cases hr
        | true =>
          cases op with
          | commit io =>
            rcases chronicle_commit E log c io with
              ⟨s, heq, -, hdisk⟩ | ⟨s, m', heq, -, hdisk, hfacts, hsums⟩
            · rw [heq] at hm ⊢
              exact hF m (hdisk.symm.trans hm)
            · rw [heq] at hm ⊢
              have hm' : s.disk.manifestFile = some (.manifest m) := hm
              rw [hdisk] at hm'
              cases hm'
              exact hsave c.engine c.trail m hJ hW hfacts hsums
          | _ => cases hc
  exact hall ops (Chronicle.start s) hJ hW hF hg

end ClawHarder
