import ClawHarder.Spec.StateFile
import Mathlib.Tactic.Tauto

/-!
# A crash during a save

Between two steps of a save the files are in one of five phases (`SavePhase`): what a
crash leaves at `path` and at `.bak` is read off the phase (`crashed_main`,
`crashed_backup`). After the current file has moved aside, and until another one
takes its place, there is no file at `path`; `load` then starts afresh without a
look at the backup (`load_aside`).

* `recovers_iff`: **`load` gives the old or the new payload exactly outside of this
  window**, as far as the file that it reads decodes.
-/

namespace ClawHarder.Runtime

open Machine

variable {β S : Type*} {decode : List β → Decoded S} {r : RenameFaults} {chunks : List (List β)}
  {old : List β} {bak tmp : Option (List β)} {k : ℕ}

/-- Where a save has come to, by what is at `path` and at `.bak`. -/
inductive SavePhase where
  /-- the old file, and the backup from before -/
  | untouched
  /-- nothing, and the old file -/
  | aside
  /-- the new file, and the old one -/
  | replaced
  /-- the new file, and the backup from before -/
  | overwritten
  /-- the old file, and nothing -/
  | restored

/-- The phase before step `k`, of a payload that is written in `n` chunks. -/
def RenameFaults.phase (r : RenameFaults) (n k : ℕ) : SavePhase :=
  if k ≤ n + 1 then .untouched
  else if r.aside then (if r.into then .untouched else .overwritten)
  else if k = n + 2 then .aside
  else if !r.into then .replaced
  else if r.back then .aside else .restored

def SavePhase.main (old new : List β) : SavePhase → Option (List β)
  | .untouched | .restored => some old
  | .aside => none
  | .replaced | .overwritten => some new

def SavePhase.backup (old : List β) (bak : Option (List β)) : SavePhase → Option (List β)
  | .untouched | .overwritten => bak
  | .aside | .replaced => some old
  | .restored => none

namespace StateFiles

theorem run_writeTemp (f : StateFiles β) (t : List β) (chunks : List (List β)) :
    run step { f with temp := some t } (chunks.map .writeTemp) =
      { f with temp := some (t ++ chunks.flatten) } := by
  induction chunks generalizing t with
  | nil => simp
  | cons c chunks ih => simpa [step] using ih (t ++ c)

theorem run_written (f : StateFiles β) (chunks : List (List β)) (k : ℕ) :
    ∃ t, run step f ((.openTemp :: chunks.map .writeTemp).take k) = { f with temp := t } := by
  cases k with
  | zero => exact ⟨f.temp, rfl⟩
  | succ k =>
    refine ⟨some ([] ++ (chunks.take k).flatten), ?_⟩
    rw [List.take_succ_cons, ← List.map_take]
    exact run_writeTemp f [] (chunks.take k)

theorem run_written_all (f : StateFiles β) (chunks : List (List β)) :
    run step f (.openTemp :: chunks.map .writeTemp) = { f with temp := some chunks.flatten } := by
  have := run_writeTemp f [] chunks
  rwa [List.nil_append] at this

/-- The renames of a save, with a file at `path`. -/
def renames (β : Type*) (r : RenameFaults) : List (SaveStep β) :=
  if r.aside then (if r.into then [] else [.moveInto])
  else .moveAside :: (if r.into then (if r.back then [] else [.moveBack]) else [.moveInto])

theorem save_eq : save r chunks ⟨some old, bak, tmp⟩ =
    (.openTemp :: chunks.map .writeTemp) ++ renames β r := by
  have hwritten : ∀ steps : List (SaveStep β),
      run step ⟨some old, bak, tmp⟩ ((.openTemp :: chunks.map .writeTemp) ++ steps) =
        run step ⟨some old, bak, some chunks.flatten⟩ steps := by
    intro steps
    rw [run_append, run_written_all]
  unfold save renames
  simp only [hwritten, List.append_assoc]
  obtain ⟨aside, into, back⟩ := r
  cases aside <;> cases into <;> cases back <;> simp [step]

/-- **What a crash leaves** is read off the phase. -/
theorem crashed_files (r : RenameFaults) (chunks : List (List β)) (old : List β)
    (bak tmp : Option (List β)) (k : ℕ) :
    (crashed r chunks ⟨some old, bak, tmp⟩ k).main =
        (r.phase chunks.length k).main old chunks.flatten ∧
      (crashed r chunks ⟨some old, bak, tmp⟩ k).backup =
        (r.phase chunks.length k).backup old bak := by
  unfold crashed
  rw [save_eq, List.take_append, run_append]
  by_cases hk : k ≤ chunks.length + 1
  · obtain ⟨t, ht⟩ := run_written ⟨some old, bak, tmp⟩ chunks k
    have hnone : k - (SaveStep.openTemp :: chunks.map SaveStep.writeTemp).length = 0 := by
      simp only [List.length_cons, List.length_map]
      omega
    rw [ht, hnone]
    simp [RenameFaults.phase, hk, SavePhase.main, SavePhase.backup]
  · obtain ⟨j, rfl⟩ : ∃ j, k = chunks.length + 1 + (j + 1) := ⟨k - chunks.length - 2, by omega⟩
    have hall : (SaveStep.openTemp :: chunks.map SaveStep.writeTemp).take
        (chunks.length + 1 + (j + 1)) = .openTemp :: chunks.map .writeTemp := by
      apply List.take_of_length_le
      simp only [List.length_cons, List.length_map]
      omega
    have hrest : chunks.length + 1 + (j + 1) -
        (SaveStep.openTemp :: chunks.map SaveStep.writeTemp).length = j + 1 := by
      simp only [List.length_cons, List.length_map]
      omega
    have hwin : chunks.length + 1 + (j + 1) = chunks.length + 2 ↔ j = 0 := by omega
    rw [hall, hrest, run_written_all]
    obtain ⟨aside, into, back⟩ := r
    cases aside <;> cases into <;> cases back <;> cases j <;>
      simp [RenameFaults.phase, hk, hwin, renames, step, SavePhase.main, SavePhase.backup]

end StateFiles

def Recovers (decode : List β → Decoded S) (old new : List β) (l : Loaded S) : Prop :=
  ∃ s, l = .decoded s ∧ (decode old = .state s ∨ decode new = .state s)

/-- The file at `path` decodes; or it makes `load` turn to the backup, and the backup
decodes to what the other payload is. -/
def Serves (decode : List β → Decoded S) (main other : List β) (backup : Option (List β)) : Prop :=
  (∃ s, decode main = .state s) ∨
    decode main = .caught ∧ ∃ text s, backup = some text ∧ decode text = .state s ∧
      decode other = .state s

def SavePhase.Safe (decode : List β → Decoded S) (old new : List β) (bak : Option (List β)) :
    SavePhase → Prop
  | .untouched => Serves decode old new bak
  | .aside => False
  | .replaced => Serves decode new old (some old)
  | .overwritten => Serves decode new old bak
  | .restored => Serves decode old new none

variable {f : StateFiles β}

theorem load_missing (h : f.main = none) : f.load decode = .fresh := by
  unfold StateFiles.load
  rw [h]

theorem loadBackup_decoded {s : S} :
    f.loadBackup decode = .decoded s ↔ ∃ text, f.backup = some text ∧ decode text = .state s := by
  unfold StateFiles.loadBackup
  cases hb : f.backup with
  | none => simp
  | some text => cases hd : decode text <;> simp [hd]

theorem load_decoded {main : List β} (h : f.main = some main) {s : S} :
    f.load decode = .decoded s ↔ decode main = .state s ∨
      decode main = .caught ∧ ∃ text, f.backup = some text ∧ decode text = .state s := by
  unfold StateFiles.load
  rw [h]
  cases hd : decode main with
  | state s' => simp [hd]
  | caught => simp [hd, loadBackup_decoded]
  | escaped => simp [hd]

theorem recovers_serves {main other old new : List β} (h : f.main = some main)
    (ho : old = main ∧ new = other ∨ old = other ∧ new = main) :
    Recovers decode old new (f.load decode) ↔ Serves decode main other f.backup := by
  have hone : ∀ s, decode old = .state s ∨ decode new = .state s ↔
      decode main = .state s ∨ decode other = .state s := by
    intro s
    rcases ho with ⟨rfl, rfl⟩ | ⟨rfl, rfl⟩ <;> tauto
  constructor
  · rintro ⟨s, hl, hs⟩
    rcases (load_decoded h).1 hl with hm | ⟨hm, text, hb, ht⟩
    · exact .inl ⟨s, hm⟩
    · have hother : decode other = .state s := by
        rcases (hone s).1 hs with hs | hs
        · rw [hm] at hs
          cases hs
        · exact hs
      exact .inr ⟨hm, text, s, hb, ht, hother⟩
  · rintro (⟨s, hm⟩ | ⟨hm, text, s, hb, ht, hother⟩)
    · exact ⟨s, (load_decoded h).2 (.inl hm), (hone s).2 (.inl hm)⟩
    · exact ⟨s, (load_decoded h).2 (.inr ⟨hm, text, hb, ht⟩), (hone s).2 (.inr hother)⟩

/-- **A crash before step `k` of a save loses neither payload exactly when its phase is
safe.** -/
theorem recovers_iff (decode : List β → Decoded S) (r : RenameFaults) (old : List β)
    (chunks : List (List β)) (bak tmp : Option (List β)) (k : ℕ) :
    Recovers decode old chunks.flatten
        ((StateFiles.crashed r chunks ⟨some old, bak, tmp⟩ k).load decode) ↔
      (r.phase chunks.length k).Safe decode old chunks.flatten bak := by
  obtain ⟨hmain, hbackup⟩ := StateFiles.crashed_files r chunks old bak tmp k
  cases hp : r.phase chunks.length k <;>
    simp only [hp, SavePhase.main, SavePhase.backup] at hmain hbackup
  case aside =>
    rw [load_missing hmain]
    simp [Recovers, SavePhase.Safe]
  case untouched | restored =>
    rw [recovers_serves hmain (.inl ⟨rfl, rfl⟩), hbackup]
    rfl
  case replaced | overwritten =>
    rw [recovers_serves hmain (.inr ⟨rfl, rfl⟩), hbackup]
    rfl

/-- A crash right after the current file has moved aside resets the state, with both payloads
on the disk. -/
theorem window_resets :
    StateFiles.load (fun text => .state text)
        (StateFiles.crashed ⟨false, false, false⟩ [['n']] ⟨some ['o'], none, none⟩ 3) = .fresh ∧
      ¬ Recovers (fun text : List Char => .state text) ['o'] ['n']
        (StateFiles.load (fun text => .state text)
          (StateFiles.crashed ⟨false, false, false⟩ [['n']] ⟨some ['o'], none, none⟩ 3)) := by
  have hload : StateFiles.load (fun text : List Char => .state text)
      (StateFiles.crashed ⟨false, false, false⟩ [['n']] ⟨some ['o'], none, none⟩ 3) =
        .fresh := rfl
  refine ⟨hload, ?_⟩
  rw [hload]
  rintro ⟨s, hs, -⟩
  cases hs

end ClawHarder.Runtime
