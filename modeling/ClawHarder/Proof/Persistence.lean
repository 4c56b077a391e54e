import ClawHarder.Spec.Persistence

/-!
# What load accepts and commit writes

* `load_ok_iff`: **the manifests that `load` accepts.**
* `nextManifest_hash`: what a commit writes carries its own integrity hash.
-/

namespace ClawHarder

variable {N : Type} [JsNumber N] {E : Env N}

/-- The checks of `load` on the manifest on disk. -/
structure Loadable (E : Env N) (disk : Disk N) (m : Manifest N) : Prop where
  hash : computeIntegrityHash E m = m.integrityHash
  lineage : validateLineage m = []
  refs : validateRefs disk m = []
  indexes : validateIndexes m (buildIndexes m) = []

/-- **The manifests that `load` accepts.** -/
theorem load_ok_iff {io : Io} {disk : Disk N} {m : Manifest N} {ix : ManifestIndexes} :
    load E io disk = .ok m ix ↔
      disk.manifestFile = some (.manifest m) ∧ io.readFails = false ∧ ix = buildIndexes m ∧
        Loadable E disk m := by
  unfold load
  cases hf : disk.manifestFile with
  | none => simp
  | some file =>
    cases hr : io.readFails with
    | true => simp
    | false =>
      cases file with
      | garbled => simp
      | other v r => simp
      | manifest m' =>
        simp only [loadManifest, Bool.false_eq_true, if_false, Option.some.injEq,
          ManifestFile.manifest.injEq, true_and]
        constructor
        · intro h
          split_ifs at h with h1 h2 h3 h4
          cases h
          exact ⟨rfl, rfl, not_not.1 h1, not_not.1 h2, not_not.1 h3, not_not.1 h4⟩
        · rintro ⟨rfl, rfl, h⟩
          rw [if_neg (not_not.2 h.hash), if_neg (not_not.2 h.lineage), if_neg (not_not.2 h.refs),
            if_neg (not_not.2 h.indexes)]

theorem nextManifest_hash (sys : Sys) (actor : String) (m : Manifest N) (r : ℤ) :
    computeIntegrityHash E (nextManifest E sys actor m r).1 =
      (nextManifest E sys actor m r).1.integrityHash := rfl

/-- **A commit fails and leaves the disk as it was, or writes the next manifest.** -/
theorem commit_cases (E : Env N) (io : Io) (actor : String) (m : Manifest N) (expected : ℤ)
    (disk : Disk N) (sys : Sys) :
    (∃ reason detail sys', commit E io actor m expected disk sys =
        (.failed reason detail, disk, sys') ∧ sys'.shortIds = sys.shortIds) ∨
    ((readRevision io disk = some expected ∧ io.writeFails = false) ∧
      commit E io actor m expected disk sys =
        (.ok (nextManifest E sys actor m expected).1.revision
          (nextManifest E sys actor m expected).1.integrityHash,
          { disk with
            manifestFile := some (.manifest (nextManifest E sys actor m expected).1) },
          (nextManifest E sys actor m expected).2)) := by
  unfold commit
  cases hr : readRevision io disk with
  | none => exact Or.inl ⟨_, _, _, rfl, rfl⟩
  | some r =>
    by_cases hne : r = expected
    · subst hne
      simp only [ne_eq, not_true_eq_false, if_false]
      by_cases hw : io.writeFails = true
      · simp only [hw, if_true]
        exact Or.inl ⟨_, _, _, rfl, rfl⟩
      · rw [if_neg hw]
        exact Or.inr ⟨⟨trivial, by simpa using hw⟩, rfl⟩
    · simp only [ne_eq, hne, not_false_eq_true, if_true]
      exact Or.inl ⟨_, _, _, rfl, rfl⟩

end ClawHarder
