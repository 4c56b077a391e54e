import ClawHarder.Spec.Diagnosis

/-!
# Diagnosing a fault

`diagnosed_iff`: **a diagnosis returns with the rows of the case law exactly when there are
none to be read**: no file, or a file that can be decoded and of which no line is JSON. Every
line that parses raises, whatever the row (`weighRow_raises`).
-/

namespace ClawHarder.Diagnosis

open PyText (lit)

variable {h : Host}

def caseLawRows (h : Host) : Option Bytes → List PyDict
  | none => []
  | some bytes =>
    (readLines h bytes).1.filterMap fun line =>
      (PyJson.loads h.floatRepr line).bind PyValue.asDict?

/-- A diagnosis that returns with the rows of the case law, the most relevant first. -/
def Diagnosed (h : Host) (exc : Fault) (runtime : RuntimeView) (phase : PyText) : Prop :=
  ∃ artifact, diagnose h exc runtime phase = .ok artifact ∧
    (artifact.precedents.map Precedent.row).Perm (caseLawRows h runtime.caseLaw) ∧
    artifact.precedents.Pairwise fun p q => q.relevanceWeight ≤ p.relevanceWeight

def NoRows (h : Host) (caseLaw : Option Bytes) : Prop :=
  ∀ bytes, caseLaw = some bytes → ∃ t, PyText.decodeUtf8 bytes = some t ∧
    ∀ line ∈ fileLines (PyText.universalNewlines t), PyJson.loads h.floatRepr line = none

theorem weighRow_raises (currentHash : PyText) (repairClass : RepairClass) (value : PyValue) :
    ∃ raised, weighRow h currentHash repairClass value = .error raised := by
  cases value with
  | dict row => exact ⟨_, rfl⟩
  | _ => exact ⟨_, rfl⟩

theorem weighLines_ok_iff {currentHash : PyText} {repairClass : RepairClass}
    {lines : List PyText} {history : List Precedent} :
    weighLines h currentHash repairClass lines = .ok history ↔
      history = [] ∧ ∀ line ∈ lines, PyJson.loads h.floatRepr line = none := by
  induction lines with
  | nil =>
    have hnil : weighLines h currentHash repairClass [] = .ok [] := rfl
    rw [hnil, Except.ok.injEq]
    simp [eq_comm]
  | cons line lines ih =>
    unfold weighLines
    cases hload : PyJson.loads h.floatRepr line with
    | none =>
      simp only [ih, List.forall_mem_cons, hload, true_and]
    | some value =>
      obtain ⟨raised, hraised⟩ := weighRow_raises (h := h) currentHash repairClass value
      refine iff_of_false ?_ fun hall => ?_
      · simp only [hraised, bind, Except.bind]
        exact fun hok => by cases hok
      · have hnone := hall.2 line (List.mem_cons_self ..)
        rw [hload] at hnone
        cases hnone

theorem getPrecedent_ok_iff {caseLaw : Option Bytes} {artifact : DiagnosticArtifact}
    {precedents : List Precedent} :
    getPrecedent h caseLaw artifact = .ok precedents ↔ precedents = [] ∧ NoRows h caseLaw := by
  cases caseLaw with
  | none =>
    have hnil : getPrecedent h none artifact = .ok [] := rfl
    rw [hnil, Except.ok.injEq]
    simp [NoRows, eq_comm]
  | some bytes =>
    have hrows : NoRows h (some bytes) ↔ ∃ t, PyText.decodeUtf8 bytes = some t ∧
        ∀ line ∈ fileLines (PyText.universalNewlines t), PyJson.loads h.floatRepr line = none :=
      ⟨fun hall => hall bytes rfl, fun hex b hb => Option.some.inj hb ▸ hex⟩
    rw [hrows]
    unfold getPrecedent
    cases hdecode : PyText.decodeUtf8 bytes with
    | none =>
      have hread : readLines h bytes = (h.linesBefore bytes, true) := by
        unfold readLines
        rw [hdecode]
      refine iff_of_false (fun hok => ?_) (by simp)
      simp only [hread, bind, Except.bind, if_true] at hok
      split at hok
      · cases hok
      · cases hok
    | some t =>
      have hread : readLines h bytes = (fileLines (PyText.universalNewlines t), false) := by
        unfold readLines
        rw [hdecode]
      simp only [hread, Option.some.injEq, exists_eq_left', bind, Except.bind, Bool.false_eq_true,
        if_false]
      cases hweigh : weighLines h (h.sha256 (contextText artifact.tracebackSummary))
          artifact.repairClass (fileLines (PyText.universalNewlines t)) with
      | error raised =>
        refine iff_of_false (fun hok => by cases hok) ?_
        rintro ⟨-, hall⟩
        rw [weighLines_ok_iff.2 ⟨rfl, hall⟩] at hweigh
        cases hweigh
      | ok history =>
        obtain ⟨rfl, hall⟩ := weighLines_ok_iff.1 hweigh
        simp only [List.mergeSort_nil, pure, Except.pure, Except.ok.injEq]
        exact ⟨fun heq => ⟨heq.symm, hall⟩, fun hnil => hnil.1.symm⟩

theorem diagnose_ok_iff {exc : Fault} {runtime : RuntimeView} {phase : PyText}
    {artifact : DiagnosticArtifact} :
    diagnose h exc runtime phase = .ok artifact ↔
      NoRows h runtime.caseLaw ∧ artifact = { buildArtifact h exc runtime phase with
        precedents := []
        precedentSummary :=
          lit "No relevant precedents found. This case is architecturally novel." } := by
  unfold diagnose
  cases hprecedents : getPrecedent h runtime.caseLaw (buildArtifact h exc runtime phase) with
  | error raised =>
    simp only [hprecedents, bind, Except.bind]
    refine iff_of_false (fun hok => by cases hok) ?_
    rintro ⟨hrows, -⟩
    rw [getPrecedent_ok_iff.2 ⟨rfl, hrows⟩] at hprecedents
    cases hprecedents
  | ok precedents =>
    obtain ⟨rfl, hrows⟩ := getPrecedent_ok_iff.1 hprecedents
    have hsummary : summarizePrecedents h [] =
        .ok (lit "No relevant precedents found. This case is architecturally novel.") := rfl
    simp only [hprecedents, bind, Except.bind, hsummary, pure, Except.pure, Except.ok.injEq]
    exact ⟨fun heq => ⟨hrows, heq.symm⟩, fun hall => hall.2.symm⟩

theorem caseLawRows_of_noRows {caseLaw : Option Bytes} (hrows : NoRows h caseLaw) :
    caseLawRows h caseLaw = [] := by
  cases caseLaw with
  | none => rfl
  | some bytes =>
    obtain ⟨t, hdecode, hall⟩ := hrows bytes rfl
    unfold caseLawRows readLines
    simp only [hdecode]
    refine List.filterMap_eq_nil_iff.2 fun line hline => ?_
    rw [hall line hline]
    rfl

/-- **A diagnosis returns with the rows of the case law exactly when there are none to be
read.** -/
theorem diagnosed_iff (h : Host) (exc : Fault) (runtime : RuntimeView) (phase : PyText) :
    Diagnosed h exc runtime phase ↔ NoRows h runtime.caseLaw := by
  constructor
  · rintro ⟨artifact, hok, -⟩
    exact (diagnose_ok_iff.1 hok).1
  · intro hrows
    refine ⟨_, diagnose_ok_iff.2 ⟨hrows, rfl⟩, ?_, List.Pairwise.nil⟩
    rw [caseLawRows_of_noRows hrows]
    exact List.Perm.refl _

def sampleHost : Host where
  sha256 t := t
  floatRepr t := t
  missingName _ := none
  newId := lit "00000000"
  setOrder ts := ts
  reprOf _ := []
  number
    | .int n => .ok n
    | _ => .error .type
  linesBefore _ := []

def sampleFault : Fault := ⟨lit "ValueError", lit "bad value", false, false, []⟩

def verdictRow : PyDict := [
  (lit "timestamp", .int 0), (lit "artifact_id", .str (lit "diag_1_00000000")),
  (lit "decision", .str (lit "reject")), (lit "reason", .str (lit "unsafe")),
  (lit "charge", .str (lit "ValueError")), (lit "repair_class", .str (lit "unknown")),
  (lit "file", .none), (lit "context_hash", .str []),
  (lit "failure_mode", .str (lit "unknown")), (lit "alternative_pattern", .str (lit "none"))]

def judgedRuntime : RuntimeView where
  cycle := 2
  executionMode := lit "execute"
  governanceMode := lit "standard"
  permissionMode := lit "default"
  killswitched := false
  statusSnapshot := []
  stateHash := lit "missing"
  persistedState := none
  caseLaw := PyText.encodeUtf8 (PyJson.dumps (.dict verdictRow) ++ lit "\n")

theorem verdict_raises :
    ¬Diagnosed sampleHost sampleFault judgedRuntime (lit "execution") := by
  rintro ⟨artifact, hok, -⟩
  have hraised : (match diagnose sampleHost sampleFault judgedRuntime (lit "execution") with
      | .error raised => decide (raised = .name (lit "time"))
      | .ok _ => false) = true := by
    decide +kernel
  rw [hok] at hraised
  cases hraised

end ClawHarder.Diagnosis
