import ClawHarder.Lib.PyJsonRead
import ClawHarder.Lib.Register
import ClawHarder.Spec.StreamText
import Mathlib.Data.List.Dedup

/-!
# Streamed tool calls

A response gives the calls in fragments, each with the index of its call. `Streams` says which
fragments the lines of a response give; `SplitsInto` says which calls they are fragments of.

* `readResponse_assembled`: the accumulator has the texts of each call, in the order in which
  the calls start.
* `reassembled_iff`: **the calls are collected in the order of their indices exactly when their
  ids are in that order**, each has a usable name, and calls with one id start in that order.
-/

namespace ClawHarder.Streaming

open PyText (lit)

structure Call where
  index : ℤ
  texts : Fragment
deriving DecidableEq

/-- What the fragments of a call add up to, in the order of arrival. -/
def textsOf (fragments : List Call) (i : ℤ) : Fragment :=
  ((fragments.filter fun c => c.index = i).map Call.texts).foldl Fragment.add {}

def starts (fragments : List Call) : List ℤ := (fragments.map Call.index).reverse.dedup.reverse

def started (fragments : List Call) : List Call :=
  (starts fragments).map fun i => ⟨i, textsOf fragments i⟩

/-- The calls, in the order of their indices, that a stream of fragments is split from. -/
structure SplitsInto (calls fragments : List Call) : Prop where
  ordered : calls.Pairwise fun c d => c.index < d.index
  indices : ∀ i, i ∈ calls.map Call.index ↔ i ∈ fragments.map Call.index
  whole : ∀ c ∈ calls, textsOf fragments c.index = c.texts

variable (h : Host)

def Carries (tcChunk : PyValue) (c : Call) : Prop :=
  readToolCallChunk tcChunk = .ok (.int c.index, c.texts)

/-- The fragments that a response gives, up to its end or to `[DONE]`. -/
inductive Streams : List Bytes → List Call → Prop
  | closed : Streams [] []
  | done {rawLine : Bytes} {response : List Bytes} (hline : readLine h rawLine = .ok .done) :
      Streams (rawLine :: response) []
  | other {rawLine : Bytes} {response : List Bytes} {fragments : List Call}
      (hline : readLine h rawLine = .ok .other) (hrest : Streams response fragments) :
      Streams (rawLine :: response) fragments
  | chunk {rawLine : Bytes} {response : List Bytes} {value : PyValue}
      {content tcChunks : List PyValue} {now fragments : List Call}
      (hline : readLine h rawLine = .ok (.chunk value))
      (hchunk : readChunk value = .ok (content, tcChunks))
      (hcarries : List.Forall₂ Carries tcChunks now) (hrest : Streams response fragments) :
      Streams (rawLine :: response) (now ++ fragments)

theorem starts_concat (fragments : List Call) (c : Call) :
    starts (fragments ++ [c]) =
      if c.index ∈ starts fragments then starts fragments else starts fragments ++ [c.index] := by
  have hmem : c.index ∈ starts fragments ↔ c.index ∈ (fragments.map Call.index).reverse := by
    unfold starts
    rw [List.mem_reverse, List.mem_dedup]
  have hreverse : ((fragments ++ [c]).map Call.index).reverse =
      c.index :: (fragments.map Call.index).reverse := by
    rw [List.map_append, List.reverse_append]
    rfl
  by_cases hc : c.index ∈ starts fragments
  · rw [if_pos hc]
    unfold starts
    rw [hreverse, List.dedup_cons_of_mem (hmem.1 hc)]
  · rw [if_neg hc]
    unfold starts
    rw [hreverse, List.dedup_cons_of_notMem fun hin => hc (hmem.2 hin), List.reverse_cons]

theorem nodup_starts (fragments : List Call) : (starts fragments).Nodup :=
  List.nodup_reverse.2 (List.nodup_dedup _)

theorem mem_starts {fragments : List Call} {i : ℤ} :
    i ∈ starts fragments ↔ i ∈ fragments.map Call.index := by
  unfold starts
  rw [List.mem_reverse, List.mem_dedup, List.mem_reverse]

theorem textsOf_concat (fragments : List Call) (c : Call) (i : ℤ) :
    textsOf (fragments ++ [c]) i =
      if c.index = i then (textsOf fragments i).add c.texts else textsOf fragments i := by
  unfold textsOf
  rw [List.filter_append]
  by_cases hc : c.index = i
  · rw [if_pos hc, List.filter_cons_of_pos (by simp [hc]), List.filter_nil, List.map_append,
      List.foldl_append]
    rfl
  · rw [if_neg hc, List.filter_cons_of_neg (by simp [hc]), List.filter_nil, List.append_nil]

theorem textsOf_of_not_mem {fragments : List Call} {i : ℤ} (hi : i ∉ starts fragments) :
    textsOf fragments i = {} := by
  have hnone : fragments.filter (fun c => c.index = i) = [] := by
    refine List.filter_eq_nil_iff.2 fun c hc hindex => hi (mem_starts.2 ?_)
    have heq : c.index = i := by simpa using hindex
    rw [← heq]
    exact List.mem_map_of_mem hc
  unfold textsOf
  rw [hnone]
  rfl

theorem accumulate_map {ids : List ℤ} (hnodup : ids.Nodup) (g : ℤ → Fragment) (i : ℤ)
    (texts : Fragment) :
    accumulate (sameKey h) (.int i) texts (ids.map fun j => (PyValue.int j, g j)) =
      if i ∈ ids then
        ids.map fun j => (PyValue.int j, if j = i then (g j).add texts else g j)
      else ids.map (fun j => (PyValue.int j, g j)) ++ [(.int i, texts)] := by
  induction ids with
  | nil => rfl
  | cons j ids ih =>
    obtain ⟨hj, hnodup⟩ := List.nodup_cons.1 hnodup
    have hsame : sameKey h (.int j) (.int i) = decide (j = i) := rfl
    simp only [List.map_cons, accumulate, hsame, decide_eq_true_eq]
    by_cases hji : j = i
    · subst hji
      -- the index does not come again
      have hrest : ids.map (fun k => (PyValue.int k, if k = j then (g k).add texts else g k)) =
          ids.map fun k => (PyValue.int k, g k) := by
        refine List.map_congr_left fun k hk => ?_
        have hne : k ≠ j := fun hkj => hj (hkj ▸ hk)
        rw [if_neg hne]
      rw [if_pos rfl, if_pos List.mem_cons_self, if_pos rfl, hrest]
    · have hmem : i ∈ j :: ids ↔ i ∈ ids := by
        rw [List.mem_cons]
        exact or_iff_right fun heq => hji heq.symm
      rw [if_neg hji, ih hnodup, if_neg hji]
      by_cases hi : i ∈ ids
      · rw [if_pos hi, if_pos (hmem.2 hi)]
      · rw [if_neg hi, if_neg fun hin => hi (hmem.1 hin), List.cons_append]

def assembled (fragments : List Call) : Fragments :=
  (starts fragments).map fun i => (PyValue.int i, textsOf fragments i)

theorem assembled_concat (fragments : List Call) (c : Call) :
    assembled (fragments ++ [c]) =
      accumulate (sameKey h) (.int c.index) c.texts (assembled fragments) := by
  unfold assembled
  rw [accumulate_map h (nodup_starts fragments), starts_concat]
  by_cases hc : c.index ∈ starts fragments
  · rw [if_pos hc, if_pos hc]
    refine List.map_congr_left fun i _ => ?_
    rw [textsOf_concat]
    by_cases hi : i = c.index
    · rw [if_pos hi.symm, if_pos hi]
    · rw [if_neg hi, if_neg fun heq => hi heq.symm]
  · rw [if_neg hc, if_neg hc, List.map_append]
    congr 1
    · refine List.map_congr_left fun i hi => ?_
      have hne : c.index ≠ i := fun heq => hc (heq ▸ hi)
      rw [textsOf_concat, if_neg hne]
    · rw [List.map_singleton, textsOf_concat, if_pos rfl, textsOf_of_not_mem hc]
      rfl

theorem foldlM_carries {tcChunks : List PyValue} {now : List Call}
    (hcarries : List.Forall₂ Carries tcChunks now) (fragments : List Call) :
    tcChunks.foldlM (addToolCallChunk h) (assembled fragments) =
      .ok (assembled (fragments ++ now)) := by
  induction hcarries generalizing fragments with
  | nil => rw [List.append_nil]; rfl
  | @cons tcChunk c tcChunks now hc _ ih =>
    have hadd : addToolCallChunk h (assembled fragments) tcChunk =
        .ok (assembled (fragments ++ [c])) := by
      unfold addToolCallChunk
      rw [show readToolCallChunk tcChunk = _ from hc, assembled_concat h]
      rfl
    have hrest := ih (fragments ++ [c])
    rw [List.append_assoc] at hrest
    rw [List.foldlM_cons, hadd]
    exact hrest

/-- **The accumulator has the texts of each call, in the order in which the calls start.** -/
theorem readResponse_assembled {response : List Bytes} {fragments : List Call}
    (hstream : Streams h response fragments) (before : List Call) :
    ∃ contents, readResponse h (assembled before) response =
      .ok (contents, assembled (before ++ fragments)) := by
  induction hstream generalizing before with
  | closed => exact ⟨[], by rw [List.append_nil]; rfl⟩
  | done hline =>
    refine ⟨[], ?_⟩
    rw [List.append_nil]
    simp only [readResponse, hline, bind, Except.bind, pure, Except.pure]
  | other hline _ ih =>
    obtain ⟨contents, hread⟩ := ih before
    refine ⟨contents, ?_⟩
    simp only [readResponse, hline, bind, Except.bind]
    exact hread
  | @chunk rawLine response value content tcChunks now fragments hline hchunk hcarries _ ih =>
    obtain ⟨contents, hread⟩ := ih (before ++ now)
    refine ⟨content ++ contents, ?_⟩
    have hfold := foldlM_carries h hcarries before
    simp only [readResponse, hline, hchunk, hfold, hread, bind, Except.bind, pure, Except.pure,
      List.append_assoc]

variable {h} {calls fragments : List Call}

theorem started_perm (hsplit : SplitsInto calls fragments) : (started fragments).Perm calls := by
  have hindices : (calls.map Call.index).Nodup :=
    List.pairwise_map.2 (hsplit.ordered.imp fun hlt => hlt.ne)
  have hperm : (starts fragments).Perm (calls.map Call.index) :=
    (List.perm_ext_iff_of_nodup (nodup_starts fragments) hindices).2 fun i => by
      rw [mem_starts, hsplit.indices]
  have hcalls : (calls.map Call.index).map (fun i => (⟨i, textsOf fragments i⟩ : Call)) = calls := by
    rw [List.map_map]
    refine (List.map_congr_left fun c hc => ?_).trans (List.map_id calls)
    change (⟨c.index, textsOf fragments c.index⟩ : Call) = c
    rw [hsplit.whole c hc]
  have hmapped := hperm.map fun i => (⟨i, textsOf fragments i⟩ : Call)
  rwa [hcalls] at hmapped

theorem map_snd_assembled (fragments : List Call) :
    (assembled fragments).map Prod.snd = (started fragments).map Call.texts := by
  unfold assembled started
  rw [List.map_map, List.map_map]
  rfl

def idOf (call : ToolCall) : PyText := call.callId.getD []

theorem idOf_toolCallOf (frag : Fragment) : idOf (toolCallOf h frag) = frag.id := by
  unfold idOf toolCallOf callIdOf
  by_cases hid : frag.id = []
  · simp [hid]
  · simp [hid]

def toolCall (h : Host) (c : Call) : ToolCall := toolCallOf h c.texts

structure InOrder (h : Host) (calls fragments : List Call) : Prop where
  usable : ∀ c ∈ calls, ModelText.normalizeToolName c.texts.name ≠ []
  ids : calls.Pairwise fun c d => c.texts.id ≤ d.texts.id
  /-- calls with one id start in the order of their indices, or cannot be told apart -/
  ties : ∀ id, ((started fragments).filter fun c => c.texts.id = id).map (toolCall h) =
    (calls.filter fun c => c.texts.id = id).map (toolCall h)

/-- Every call is collected, in the order of the indices and with the arguments that its
fragments add up to. -/
def Reassembled (h : Host) (calls : List Call) (before : List ToolCall) (response : List Bytes) :
    Prop :=
  ∃ contents, streamText h (some before) response =
    .ok (contents, some (before ++ calls.map (toolCall h)))

theorem filter_toolCall (cs : List Call) (id : PyText) :
    (cs.map (toolCall h)).filter (fun t => idOf t = id) =
      (cs.filter fun c => c.texts.id = id).map (toolCall h) := by
  rw [List.filter_map]
  congr 1
  refine List.filter_congr fun c _ => ?_
  change decide (idOf (toolCallOf h c.texts) = id) = _
  rw [idOf_toolCallOf]

theorem sorted_toolCalls (cs : List Call) :
    ((cs.map Call.texts).insertionSort fun f g => f.id ≤ g.id).map (toolCallOf h) =
      (cs.map (toolCall h)).insertionSort fun t u => idOf t ≤ idOf u := by
  rw [List.map_insertionSort (r := fun f g : Fragment => f.id ≤ g.id)
    (s := fun t u => idOf t ≤ idOf u), List.map_map]
  · rfl
  · intro f _ g _
    rw [idOf_toolCallOf, idOf_toolCallOf]

/-- What is collected is every call in the order of the indices exactly when all names are
usable and the sort gives that order. -/
theorem collected_iff (hsplit : SplitsInto calls fragments) :
    (sortedFragments (assembled fragments)).filterMap (collectCall h) = calls.map (toolCall h) ↔
      (∀ c ∈ calls, ModelText.normalizeToolName c.texts.name ≠ []) ∧
        (sortedFragments (assembled fragments)).map (toolCallOf h) = calls.map (toolCall h) := by
  have hperm : (sortedFragments (assembled fragments)).Perm (calls.map Call.texts) := by
    unfold sortedFragments
    rw [map_snd_assembled]
    exact (List.perm_insertionSort _ _).trans ((started_perm hsplit).map _)
  have hsome : ∀ f, (collectCall h f).isSome ↔ ModelText.normalizeToolName f.name ≠ [] := by
    intro f
    unfold collectCall
    by_cases hname : ModelText.normalizeToolName f.name = []
    · simp [hname]
    · simp [hname]
  have husable : (∀ f ∈ sortedFragments (assembled fragments), (collectCall h f).isSome) ↔
      ∀ c ∈ calls, ModelText.normalizeToolName c.texts.name ≠ [] := by
    simp only [hsome, hperm.mem_iff, List.forall_mem_map]
  have hmap : (∀ f ∈ sortedFragments (assembled fragments), (collectCall h f).isSome) →
      (sortedFragments (assembled fragments)).filterMap (collectCall h) =
        (sortedFragments (assembled fragments)).map (toolCallOf h) := by
    intro hall
    rw [← List.filterMap_eq_map]
    refine List.filterMap_congr fun f hf => ?_
    have hname := (hsome f).1 (hall f hf)
    exact if_neg hname
  constructor
  · intro hcollected
    have hlength : ((sortedFragments (assembled fragments)).filterMap (collectCall h)).length =
        (sortedFragments (assembled fragments)).length := by
      rw [hcollected, hperm.length_eq, List.length_map, List.length_map]
    have hall := List.filterMap_length_eq_length.1 hlength
    exact ⟨husable.1 hall, (hmap hall).symm.trans hcollected⟩
  · rintro ⟨hnames, hsorted⟩
    exact (hmap (husable.2 hnames)).trans hsorted

theorem reassembled_iff_collected {response : List Bytes} (hstream : Streams h response fragments)
    (before : List ToolCall) :
    Reassembled h calls before response ↔
      (sortedFragments (assembled fragments)).filterMap (collectCall h) =
        calls.map (toolCall h) := by
  obtain ⟨contents, hread⟩ := readResponse_assembled h hstream []
  have hstreamed : streamText h (some before) response = .ok (contents,
      some (before ++ (sortedFragments (assembled fragments)).filterMap (collectCall h))) := by
    have hread' : readResponse h [] response = .ok (contents, assembled fragments) := hread
    simp only [streamText, hread', bind, Except.bind, pure, Except.pure, Option.map_some]
  unfold Reassembled
  rw [hstreamed]
  simp only [Except.ok.injEq, Prod.mk.injEq, Option.some.injEq, List.append_cancel_left_eq,
    exists_eq_left']

/-- **The calls are collected in the order of their indices exactly when their ids are in that
order.** -/
theorem reassembled_iff {response : List Bytes} (hstream : Streams h response fragments)
    (hsplit : SplitsInto calls fragments) (before : List ToolCall) :
    Reassembled h calls before response ↔ InOrder h calls fragments := by
  have hsorted : (sortedFragments (assembled fragments)).map (toolCallOf h) =
      ((started fragments).map (toolCall h)).insertionSort fun t u => idOf t ≤ idOf u := by
    unfold sortedFragments
    rw [map_snd_assembled, sorted_toolCalls]
  have hids : (calls.Pairwise fun c d => idOf (toolCall h c) ≤ idOf (toolCall h d)) ↔
      calls.Pairwise fun c d => c.texts.id ≤ d.texts.id := by
    refine iff_of_eq (congrArg (List.Pairwise · calls) ?_)
    funext c d
    change (idOf (toolCallOf h c.texts) ≤ idOf (toolCallOf h d.texts)) = _
    rw [idOf_toolCallOf, idOf_toolCallOf]
  rw [reassembled_iff_collected hstream, collected_iff hsplit, hsorted,
    List.insertionSort_key_eq_iff, List.pairwise_map, hids]
  simp only [filter_toolCall]
  exact ⟨fun ⟨hnames, hpair, hties⟩ => ⟨hnames, hpair, hties⟩,
    fun ⟨hnames, hpair, hties⟩ => ⟨hnames, hpair, hties⟩⟩

def sampleHost : Host := ⟨id, fun _ _ => false⟩

/-- The call with the index 0 and the id `first`, and the one with the index 1 and the id
`second`. -/
def sampleCalls (first second : PyText) : List Call := [
  ⟨0, ⟨first, lit "read_file", lit "\x7b\x7d"⟩⟩,
  ⟨1, ⟨second, lit "write_file", lit "\x7b\x7d"⟩⟩]

def sampleToolCallChunk (index : ℤ) (id name : PyText) : PyValue :=
  .dict [(lit "index", .int index), (lit "id", .str id),
    (lit "function", .dict [(lit "name", .str name), (lit "arguments", .str (lit "\x7b\x7d"))])]

def sampleChunk (first second : PyText) : PyValue :=
  .dict [(lit "choices", .list [.dict [(lit "delta", .dict [(lit "tool_calls", .list [
    sampleToolCallChunk 0 first (lit "read_file"),
    sampleToolCallChunk 1 second (lit "write_file")])])]])]

def sampleLine (first second : PyText) : Bytes :=
  (PyText.encodeUtf8 (lit "data: " ++ PyJson.dumps (sampleChunk first second))).getD []

theorem encodable_dict {members : PyDict} (keys : List PyText) (hkeys : members.map Prod.fst = keys)
    (hnodup : keys.Nodup) (hunsplit : ∀ k ∈ keys, PyJson.Unsplit k)
    (hvalues : ∀ v ∈ members.map Prod.snd, PyJson.Encodable sampleHost.floatRepr v) :
    PyJson.Encodable sampleHost.floatRepr (.dict members) := by
  subst hkeys
  exact .dict hnodup (fun m hm => hunsplit _ (List.mem_map_of_mem hm))
    fun m hm => hvalues _ (List.mem_map_of_mem hm)

theorem encodable_sampleToolCallChunk (index : ℤ) {id name : PyText} (hid : PyJson.Unsplit id)
    (hname : PyJson.Unsplit name) :
    PyJson.Encodable sampleHost.floatRepr (sampleToolCallChunk index id name) := by
  have hfunction : PyJson.Encodable sampleHost.floatRepr
      (.dict [(lit "name", .str name), (lit "arguments", .str (lit "\x7b\x7d"))]) := by
    refine encodable_dict [lit "name", lit "arguments"] rfl (by decide) (by decide) ?_
    exact List.forall_mem_cons.2 ⟨.str hname, List.forall_mem_singleton.2 (.str (by decide))⟩
  refine encodable_dict [lit "index", lit "id", lit "function"] rfl (by decide)
    (by decide) ?_
  exact List.forall_mem_cons.2 ⟨.int _, List.forall_mem_cons.2
    ⟨.str hid, List.forall_mem_singleton.2 hfunction⟩⟩

theorem encodable_sample {first second : PyText} (hfirst : PyJson.Unsplit first)
    (hsecond : PyJson.Unsplit second) :
    PyJson.Encodable sampleHost.floatRepr (sampleChunk first second) := by
  have hsingle : ∀ {key : PyText} {v : PyValue}, PyJson.Unsplit key →
      PyJson.Encodable sampleHost.floatRepr v →
      PyJson.Encodable sampleHost.floatRepr (.dict [(key, v)]) := fun hkey hv =>
    encodable_dict _ rfl (List.nodup_singleton _) (List.forall_mem_singleton.2 hkey)
      (List.forall_mem_singleton.2 hv)
  have hread : PyJson.Unsplit (lit "read_file") := by decide
  have hwrite : PyJson.Unsplit (lit "write_file") := by decide
  have hcalls := List.forall_mem_cons.2 ⟨encodable_sampleToolCallChunk 0 hfirst hread,
    List.forall_mem_singleton.2 (encodable_sampleToolCallChunk 1 hsecond hwrite)⟩
  have hkeys : PyJson.Unsplit (lit "tool_calls") ∧ PyJson.Unsplit (lit "delta") ∧
      PyJson.Unsplit (lit "choices") := by decide
  have hdelta := hsingle hkeys.1 (.list hcalls)
  have hchoice := hsingle hkeys.2.1 hdelta
  exact hsingle hkeys.2.2 (.list (List.forall_mem_singleton.2 hchoice))

theorem streams_sample {first second : PyText} (hfirst : PyJson.Unsplit first)
    (hsecond : PyJson.Unsplit second)
    (hdata : (PyText.decodeUtf8 (sampleLine first second)).bind
      (fun text => ModelText.behind (lit "data: ") (PyText.strip text)) =
        some (PyJson.dumps (sampleChunk first second)))
    (hmore : PyJson.dumps (sampleChunk first second) ≠ lit "[DONE]")
    (hid : first ≠ [] ∧ second ≠ []) :
    Streams sampleHost [sampleLine first second] (sampleCalls first second) := by
  have hload := PyJson.loads_dumps (encodable_sample hfirst hsecond) rfl
  obtain ⟨text, hdecode, hbehind⟩ := Option.bind_eq_some_iff.1 hdata
  have hline : readLine sampleHost (sampleLine first second) =
      .ok (.chunk (sampleChunk first second)) := by
    unfold readLine
    simp only [hdecode, hbehind, if_neg hmore, hload]
  have hcarries : ∀ (index : ℤ) {id name : PyText}, id ≠ [] → name ≠ [] →
      Carries (sampleToolCallChunk index id name) ⟨index, ⟨id, name, lit "\x7b\x7d"⟩⟩ := by
    intro index id name hid hname
    cases id with
    | nil => exact absurd rfl hid
    | cons c id =>
      cases name with
      | nil => exact absurd rfl hname
      | cons d name => rfl
  have hcalls : List.Forall₂ Carries _ (sampleCalls first second) :=
    .cons (hcarries 0 hid.1 (by decide)) (.cons (hcarries 1 hid.2 (by decide)) .nil)
  have hstream := Streams.chunk hline rfl hcalls .closed
  rwa [List.append_nil] at hstream

theorem sample_in_order :
    Reassembled sampleHost (sampleCalls (lit "a") (lit "b")) [] [sampleLine (lit "a") (lit "b")] ↔
      InOrder sampleHost (sampleCalls (lit "a") (lit "b")) (sampleCalls (lit "a") (lit "b")) :=
  reassembled_iff
    (streams_sample (by decide) (by decide) (by decide +kernel) (by decide +kernel) (by decide))
    ⟨by decide, fun i => Iff.rfl, by decide⟩ []

theorem sample_swapped :
    SplitsInto (sampleCalls (lit "b") (lit "a")) (sampleCalls (lit "b") (lit "a")) ∧
      Streams sampleHost [sampleLine (lit "b") (lit "a")] (sampleCalls (lit "b") (lit "a")) ∧
      ¬Reassembled sampleHost (sampleCalls (lit "b") (lit "a")) []
        [sampleLine (lit "b") (lit "a")] := by
  have hstream : Streams sampleHost [sampleLine (lit "b") (lit "a")]
      (sampleCalls (lit "b") (lit "a")) :=
    streams_sample (by decide) (by decide) (by decide +kernel) (by decide +kernel) (by decide)
  refine ⟨⟨by decide, fun i => Iff.rfl, by decide⟩, hstream, fun hreassembled => ?_⟩
  have hcollected := (reassembled_iff_collected hstream []).1 hreassembled
  have hids := congrArg (List.map ToolCall.callId) hcollected
  revert hids
  decide +kernel

end ClawHarder.Streaming
