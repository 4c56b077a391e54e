import ClawHarder.Lib.Run
import ClawHarder.Spec.LtmArchive
import ClawHarder.Proof.StateRoundTrip

/-!
# The table of contents of the archive

`compress_session` appends the artifact before it reads and extends the table, and
`_load_toc` puts an empty table in the place of one that it cannot parse. So an
artifact whose call did not reach the table is never listed, and those listed in a
table that was lost are not either.

* `toc_agrees_step`: the table agrees with the artifacts after a step just in case it did
  before and the step is harmless.
* `toc_faithful_iff`: **the table lists the artifacts after each successful close just
  in case all that happened before it is harmless.**
-/

namespace ClawHarder.RuntimeCore

open PyText (lit)

/-- The table of contents lists the artifacts, one entry each, in order. -/
def LtmArchive.Listed (a : LtmArchive) : Prop :=
  ∃ d, a.toc = .json (.dict d) ∧ PyValue.get? (lit "episodes") d =
    some (.list (a.episodes.map fun artifact => .dict artifact.tocEntry))

/-- The tables that were written list dictionaries, no more than there are artifacts. -/
def LtmArchive.Sound (a : LtmArchive) : Prop :=
  ∀ d, a.toc = .json (.dict d) → ∃ es : List PyDict,
    PyValue.get? (lit "episodes") d = some (.list (es.map .dict)) ∧ es.length ≤ a.episodes.length

/-- The entries that the next close starts from, `none` when it cannot read them. -/
def TocFile.entries : TocFile → Option (List PyDict)
  | .undecodable => none
  | .json (.dict d) =>
    match PyValue.get? (lit "episodes") d with
    | some (.list es) => some (es.filterMap PyValue.asDict?)
    | _ => some []
  | _ => some []

theorem filterMap_dict (es : List PyDict) :
    (es.map PyValue.dict).filterMap PyValue.asDict? = es := by
  rw [List.filterMap_map]
  exact List.filterMap_some

theorem UnreadableToc.entries_eq (f : UnreadableToc) :
    f.1.entries = none ∨ f.1.entries = some [] := by
  obtain ⟨f, hf⟩ := f
  cases f with
  | undecodable => exact Or.inl rfl
  | json v =>
    cases v with
    | dict d => cases hf
    | _ => exact Or.inr rfl
  | _ => exact Or.inr rfl

theorem LtmArchive.Sound.entries_length {a : LtmArchive} (hs : a.Sound) {es : List PyDict}
    (h : a.toc.entries = some es) : es.length ≤ a.episodes.length := by
  cases hf : a.toc with
  | json v =>
    rw [hf] at h
    cases v with
    | dict d =>
      obtain ⟨es', hes', hle⟩ := hs d hf
      simp only [TocFile.entries, hes', filterMap_dict, Option.some.injEq] at h
      rw [← h]
      exact hle
    | _ => cases h; exact Nat.zero_le _
  | undecodable =>
    rw [hf] at h
    cases h
  | _ =>
    rw [hf] at h
    cases h
    exact Nat.zero_le _

theorem loadToc_eq {a : LtmArchive} (hs : a.Sound) (hread : a.toc ≠ .undecodable) :
    ∃ toc es, loadToc a.toc = .ok toc ∧ a.toc.entries = some es ∧
      tocEntries a.toc = .ok (es.map .dict) := by
  have hempty : PyValue.get? (lit "episodes") emptyToc = some (.list []) :=
    PyValue.get?_of_mem (by decide +kernel) (by simp [emptyToc, entry])
  have hfresh (h : loadToc a.toc = .ok emptyToc) : tocEntries a.toc = .ok ([].map .dict) := by
    unfold tocEntries
    rw [h]
    show Py.items ((PyValue.get? (lit "episodes") emptyToc).getD (.list [])) = _
    rw [hempty]
    rfl
  cases hf : a.toc with
  | missing => exact ⟨emptyToc, [], rfl, rfl, by rw [← hf]; exact hfresh (by rw [hf]; rfl)⟩
  | undecodable => exact absurd hf hread
  | garbled => exact ⟨emptyToc, [], rfl, rfl, by rw [← hf]; exact hfresh (by rw [hf]; rfl)⟩
  | json v =>
    cases v with
    | dict d =>
      obtain ⟨es, hes, -⟩ := hs d hf
      have hload : loadToc (.json (.dict d)) = .ok d := by
        unfold loadToc withEpisodes
        simp only [hes]
      refine ⟨d, es, hload, ?_, ?_⟩
      · simp only [TocFile.entries, hes, filterMap_dict]
      · unfold tocEntries
        rw [hload]
        show Py.items ((PyValue.get? (lit "episodes") d).getD (.list [])) = _
        rw [hes]
        rfl
    | _ => exact ⟨emptyToc, [], rfl, rfl, by rw [← hf]; exact hfresh (by rw [hf]; rfl)⟩

theorem extendToc_eq {a : LtmArchive} (hs : a.Sound) (hread : a.toc ≠ .undecodable)
    (artifact : LtmEpisodeArtifact) :
    ∃ toc es, extendToc a.toc artifact = .ok toc ∧ a.toc.entries = some es ∧
      PyValue.get? (lit "episodes") toc = some (.list ((es ++ [artifact.tocEntry]).map .dict)) := by
  obtain ⟨toc, es, hload, hes, hentries⟩ := loadToc_eq hs hread
  have hne : lit "episodes" ≠ lit "version" := by decide +kernel
  refine ⟨PyValue.set (lit "version") (.str (lit "ltm-toc-v1")) (PyValue.set (lit "episodes")
    (.list (es.map .dict ++ [.dict artifact.tocEntry])) toc), es, ?_, hes, ?_⟩
  · unfold extendToc
    rw [hload, hentries]
    rfl
  · rw [PyValue.get?_set, if_neg hne, PyValue.get?_set, if_pos rfl, List.map_append]
    rfl

section Events

variable (b : PyBuiltins) (clock : ℤ → PyText)

def CloseCall.Succeeds (call : CloseCall) (a : LtmArchive) : Prop :=
  ∃ result, (call.memory.closeSession b clock call.draws call.sessionId a).1 = .ok result

variable {b clock} {a : LtmArchive}

theorem ltmStep_close (b : PyBuiltins) (clock : ℤ → PyText) (hs : a.Sound)
    (hread : a.toc ≠ .undecodable) (call : CloseCall) :
    call.Succeeds b clock a ∧ ∃ toc es, a.toc.entries = some es ∧
      ltmStep b clock a (.close call) =
        ⟨a.episodes ++ [call.artifact clock], .json (.dict toc)⟩ ∧
      PyValue.get? (lit "episodes") toc =
        some (.list ((es ++ [(call.artifact clock).tocEntry]).map .dict)) := by
  obtain ⟨toc, es, hextend, hes, hget⟩ := extendToc_eq hs hread (call.artifact clock)
  have hcompress : a.compressSession call.draws call.sessionId
      (call.memory.beforeCompression clock call.sessionId).mtm
      (call.memory.beforeCompression clock call.sessionId).stm =
      (.ok (call.artifact clock),
        ⟨a.episodes ++ [call.artifact clock], .json (.dict toc)⟩) := by
    have hextend' : extendToc (a.append (call.artifact clock)).toc (call.artifact clock) =
      .ok toc := hextend
    unfold LtmArchive.compressSession
    simp only
    rw [show artifactOf call.draws call.sessionId
      (call.memory.beforeCompression clock call.sessionId).mtm
      (call.memory.beforeCompression clock call.sessionId).stm = call.artifact clock from rfl,
      hextend']
    rfl
  have htail : ∃ tail, tocTail b (.json (.dict toc)) = .ok tail := by
    have hload : loadToc (.json (.dict toc)) = .ok toc := by
      unfold loadToc withEpisodes
      simp only [hget]
    have hdicts (l : List PyDict) : (l.map PyValue.dict).mapM (Py.dict b) = .ok l := by
      induction l with
      | nil => rfl
      | cons d l ih =>
        rw [List.map_cons, List.mapM_cons, ih]
        rfl
    refine ⟨(es ++ [(call.artifact clock).tocEntry]).drop
      ((es ++ [(call.artifact clock).tocEntry]).length - 24), ?_⟩
    unfold tocTail
    rw [hload]
    simp only [bind, Except.bind, hget, Option.getD_some, List.length_map]
    rw [← List.map_drop, hdicts]
  obtain ⟨tail, htail⟩ := htail
  refine ⟨⟨(call.artifact clock, (call.memory.beforeCompression clock
    call.sessionId).afterCompression clock (call.artifact clock) tail), ?_⟩,
    toc, es, hes, ?_, hget⟩
  · unfold MemoryStore.closeSession
    simp only [hcompress]
    rw [htail]
    rfl
  · unfold ltmStep MemoryStore.closeSession
    simp only [hcompress]

theorem ltmStep_close_undecodable (hread : a.toc = .undecodable) (call : CloseCall) :
    ¬ call.Succeeds b clock a ∧
      ltmStep b clock a (.close call) = a.append (call.artifact clock) := by
  have hcompress : a.compressSession call.draws call.sessionId
      (call.memory.beforeCompression clock call.sessionId).mtm
      (call.memory.beforeCompression clock call.sessionId).stm =
      (.error .valueError, a.append (call.artifact clock)) := by
    unfold LtmArchive.compressSession extendToc
    simp only [LtmArchive.append, hread, loadToc]
    rfl
  refine ⟨?_, ?_⟩
  · rintro ⟨result, h⟩
    unfold MemoryStore.closeSession at h
    simp only [hcompress] at h
    cases h
  · unfold ltmStep MemoryStore.closeSession
    simp only [hcompress]

theorem sound_step (a : LtmArchive) (e : LtmEvent) (hs : a.Sound) :
    (ltmStep b clock a e).Sound := by
  cases e with
  | close call =>
    by_cases hread : a.toc = .undecodable
    · rw [(ltmStep_close_undecodable hread call).2]
      intro d hd
      have hd' : a.toc = .json (.dict d) := hd
      rw [hread] at hd'
      cases hd'
    · obtain ⟨-, toc, es, hes, hstep, hget⟩ := ltmStep_close b clock hs hread call
      rw [hstep]
      rintro d ⟨⟩
      refine ⟨es ++ [(call.artifact clock).tocEntry], hget, ?_⟩
      have hlen := hs.entries_length hes
      simp only [List.length_append, List.length_singleton]
      omega
  | interrupted call =>
    intro d hd
    obtain ⟨es, hes, hle⟩ := hs d hd
    refine ⟨es, hes, ?_⟩
    have happend : (ltmStep b clock a (.interrupted call)).episodes.length =
      a.episodes.length + 1 := List.length_append
    omega
  | spoil f =>
    intro d hd
    have hf := f.2
    have hd' : f.1 = .json (.dict d) := hd
    rw [hd'] at hf
    cases hf

def LtmArchive.Agrees (a : LtmArchive) : Prop :=
  match a.toc.entries with
  | some es => es = a.episodes.map (·.tocEntry)
  | none => a.episodes = []

theorem agrees_some {es : List PyDict} (h : a.toc.entries = some es) :
    a.Agrees ↔ es = a.episodes.map (·.tocEntry) := by
  unfold LtmArchive.Agrees
  rw [h]

theorem agrees_none (h : a.toc.entries = none) : a.Agrees ↔ a.episodes = [] := by
  unfold LtmArchive.Agrees
  rw [h]

/-- The events that take no artifact out of the table: no call is interrupted or
raises, and no table is spoilt once there are artifacts. -/
def Harmless (a : LtmArchive) : LtmEvent → Prop
  | .close _ => a.toc ≠ .undecodable
  | .interrupted _ => False
  | .spoil _ => a.episodes = []

/-- **An event leaves the table in agreement** just in case it was and the event is
harmless. -/
theorem toc_agrees_step (a : LtmArchive) (e : LtmEvent) (hs : a.Sound) :
    (ltmStep b clock a e).Agrees ↔ a.Agrees ∧ Harmless a e := by
  cases e with
  | close call =>
    by_cases hread : a.toc = .undecodable
    · -- the artifact stays without an entry
      rw [(ltmStep_close_undecodable hread call).2]
      refine iff_of_false ?_ (fun h => h.2 hread)
      intro h
      have hnone : (a.append (call.artifact clock)).toc.entries = none := by
        unfold LtmArchive.append
        rw [hread]
        rfl
      rw [agrees_none hnone] at h
      exact List.append_ne_nil_of_right_ne_nil a.episodes (by simp) h
    · obtain ⟨-, toc, es, hes, hstep, hget⟩ := ltmStep_close b clock hs hread call
      have hafter : (TocFile.json (.dict toc)).entries =
          some (es ++ [(call.artifact clock).tocEntry]) := by
        simp only [TocFile.entries, hget, filterMap_dict]
      rw [hstep, agrees_some hafter, agrees_some hes, List.map_append]
      simp only [List.map_cons, List.map_nil, List.append_cancel_right_eq]
      exact (and_iff_left hread).symm
  | interrupted call =>
    refine iff_of_false ?_ (fun h => h.2)
    intro h
    have htoc : (ltmStep b clock a (.interrupted call)).toc.entries = a.toc.entries := rfl
    have happend : (ltmStep b clock a (.interrupted call)).episodes =
      a.episodes ++ [call.artifact clock] := rfl
    cases hes : a.toc.entries with
    | none =>
      rw [agrees_none (htoc.trans hes), happend] at h
      exact List.append_ne_nil_of_right_ne_nil a.episodes (by simp) h
    | some es =>
      rw [agrees_some (htoc.trans hes), happend] at h
      have hlen := congrArg List.length h
      have hle := hs.entries_length hes
      simp only [List.length_map, List.length_append, List.length_singleton] at hlen
      omega
  | spoil f =>
    have hafter : (ltmStep b clock a (.spoil f)).Agrees ↔ a.episodes = [] := by
      have htoc : (ltmStep b clock a (.spoil f)).toc.entries = f.1.entries := rfl
      have hkept : (ltmStep b clock a (.spoil f)).episodes = a.episodes := rfl
      rcases f.entries_eq with hnone | hempty
      · rw [agrees_none (htoc.trans hnone), hkept]
      · rw [agrees_some (htoc.trans hempty), hkept]
        exact eq_comm.trans List.map_eq_nil_iff
    rw [hafter]
    refine ⟨fun hnil => ⟨?_, hnil⟩, fun h => h.2⟩
    cases hes : a.toc.entries with
    | none => exact (agrees_none hes).2 hnil
    | some es =>
      have hle := hs.entries_length hes
      rw [agrees_some hes]
      rw [hnil] at hle ⊢
      exact List.eq_nil_of_length_eq_zero (Nat.le_zero.1 hle)

theorem listed_close (hs : a.Sound) {call : CloseCall} (hok : call.Succeeds b clock a) :
    (ltmStep b clock a (.close call)).Listed ↔ a.Agrees := by
  have hread : a.toc ≠ .undecodable := fun hread => (ltmStep_close_undecodable hread call).1 hok
  obtain ⟨-, toc, es, hes, hstep, hget⟩ := ltmStep_close b clock hs hread call
  rw [hstep, agrees_some hes]
  have hmap : (a.episodes ++ [call.artifact clock]).map
      (fun artifact => PyValue.dict artifact.tocEntry) =
      (a.episodes.map (·.tocEntry) ++ [(call.artifact clock).tocEntry]).map .dict := by
    simp
  have hinj : Function.Injective PyValue.dict := fun _ _ h => PyValue.dict.inj h
  have hsame : (es ++ [(call.artifact clock).tocEntry]).map PyValue.dict =
      (a.episodes ++ [call.artifact clock]).map (fun artifact => .dict artifact.tocEntry) ↔
      es = a.episodes.map (·.tocEntry) := by
    rw [hmap, hinj.list_map.eq_iff, List.append_cancel_right_eq]
  constructor
  · rintro ⟨d, hd, hlist⟩
    cases hd
    rw [hget] at hlist
    exact hsame.1 (PyValue.list.inj (Option.some.inj hlist))
  · intro h
    exact ⟨toc, rfl, by rw [hget, hsame.2 h]⟩

/-- **The table lists exactly one entry for each artifact, in order, after each close
that returns, just in case everything that happened before it is harmless.** -/
theorem toc_faithful_iff (b : PyBuiltins) (clock : ℤ → PyText) (events : List LtmEvent) :
    (∀ before call, before ++ [.close call] <+: events →
      call.Succeeds b clock (Machine.run (ltmStep b clock) .empty before) →
      (Machine.run (ltmStep b clock) .empty (before ++ [.close call])).Listed) ↔
    ∀ before call, before ++ [.close call] <+: events →
      call.Succeeds b clock (Machine.run (ltmStep b clock) .empty before) →
      Machine.Guarded (ltmStep b clock) Harmless .empty before := by
  have hempty : LtmArchive.empty.Sound := by
    rintro d ⟨⟩
  have hagrees : LtmArchive.empty.Agrees := rfl
  refine forall_congr' fun before => forall_congr' fun call => imp_congr_right fun _ => ?_
  refine imp_congr_right fun hok => ?_
  have hs : (Machine.run (ltmStep b clock) .empty before).Sound :=
    Machine.run_inv_all sound_step hempty before
  rw [Machine.run_concat, listed_close hs hok,
    Machine.run_iff_guarded sound_step toc_agrees_step hempty]
  exact and_iff_right hagrees

end Events

def quietClose (hex : String) : CloseCall where
  memory := StmConfig.default.newMemory
  draws := ⟨lit hex, lit "1700000000.0"⟩
  sessionId := lit "main"

/-- **An interrupted close is never listed**: the next one returns, and its table has one
entry for two artifacts. -/
theorem interrupted_unlisted :
    ¬ ∀ events before call, before ++ [.close call] <+: events →
      call.Succeeds plainBuiltins (fun _ => lit "1700000000.0")
        (Machine.run (ltmStep plainBuiltins fun _ => lit "1700000000.0") .empty before) →
      (Machine.run (ltmStep plainBuiltins fun _ => lit "1700000000.0") .empty
        (before ++ [.close call])).Listed := by
  intro h
  have hsound : (ltmStep plainBuiltins (fun _ => lit "1700000000.0") .empty
      (.interrupted (quietClose "0123456789"))).Sound := by
    rintro d ⟨⟩
  have hread : (ltmStep plainBuiltins (fun _ => lit "1700000000.0") .empty
      (.interrupted (quietClose "0123456789"))).toc ≠ .undecodable := TocFile.noConfusion
  have hok := (ltmStep_close plainBuiltins (fun _ => lit "1700000000.0") hsound hread
    (quietClose "abcdef0123")).1
  have hlisted := h _ [.interrupted (quietClose "0123456789")] (quietClose "abcdef0123")
    List.prefix_rfl hok
  rw [Machine.run_concat] at hlisted
  have hagrees := (listed_close hsound hok).1 hlisted
  -- the table is still missing, and there is an artifact
  cases hagrees

end ClawHarder.RuntimeCore
