import ClawHarder.Spec.HitlChain

/-!
# What the chain of the human-in-the-loop log binds

A row is hashed as its fields with a delimiter between them that the fields may have
themselves. So the chain binds the joined texts of the rows, and not the fields.

* `chain_binds_iff`: **the final hash determines the rows exactly when no two different
  rows in one place join to the same text.**
* `not_shifted_of_plain`: rows whose prompts, outputs and times have no bar are such.
-/

namespace ClawHarder.Hitl

open PyText (lit)

variable {sha256 : PyText → PyText} {genesis hash : PyText} {rows rows' : List Row} {r r' : Row}

theorem finalHash_cons : finalHash sha256 hash (r :: rows) =
    finalHash sha256 (sha256 (chainMaterial sha256 hash r)) rows := rfl

def chainMaterials (sha256 : PyText → PyText) : PyText → List Row → List PyText
  | _, [] => []
  | hash, r :: rows =>
    chainMaterial sha256 hash r ::
      chainMaterials sha256 (sha256 (chainMaterial sha256 hash r)) rows

/-- The digests have 64 digits, and of the texts that are hashed no two have one digest. -/
structure CollisionFree (sha256 : PyText → PyText) (hash hash' : PyText) (rows rows' : List Row) :
    Prop where
  length : ∀ t, (sha256 t).length = 64
  materials : ∀ r ∈ rows, ∀ r' ∈ rows', sha256 (rowMaterial r) = sha256 (rowMaterial r') →
    rowMaterial r = rowMaterial r'
  chain : ∀ t ∈ chainMaterials sha256 hash rows, ∀ t' ∈ chainMaterials sha256 hash' rows',
    sha256 t = sha256 t' → t = t'

def SameMaterials (rows rows' : List Row) : Prop :=
  List.Forall₂ (fun r r' => rowMaterial r = rowMaterial r') rows rows'

theorem chainMaterial_inj {hash' : PyText} (hlen : hash.length = hash'.length)
    (h : chainMaterial sha256 hash r = chainMaterial sha256 hash' r') :
    hash = hash' ∧ sha256 (rowMaterial r) = sha256 (rowMaterial r') := by
  unfold chainMaterial at h
  rw [List.append_assoc, List.append_assoc] at h
  obtain ⟨hhash, hrest⟩ := List.append_inj h hlen
  exact ⟨hhash, List.append_cancel_left hrest⟩

/-- **Equal final hashes come from equal texts.** -/
theorem sameMaterials_of_finalHash {hash' : PyText} (hlen : hash.length = hash'.length)
    (hrows : rows.length = rows'.length) (hfree : CollisionFree sha256 hash hash' rows rows')
    (h : finalHash sha256 hash rows = finalHash sha256 hash' rows') :
    hash = hash' ∧ SameMaterials rows rows' := by
  induction rows generalizing hash hash' rows' with
  | nil =>
    obtain rfl := List.length_eq_zero_iff.1 hrows.symm
    exact ⟨h, .nil⟩
  | cons r rows ih =>
    cases rows' with
    | nil => cases hrows
    | cons r' rows' =>
      have hlater : CollisionFree sha256 (sha256 (chainMaterial sha256 hash r))
          (sha256 (chainMaterial sha256 hash' r')) rows rows' :=
        ⟨hfree.length,
          fun q hq q' hq' => hfree.materials q (List.mem_cons_of_mem r hq) q'
            (List.mem_cons_of_mem r' hq'),
          fun t ht t' ht' => hfree.chain t (List.mem_cons_of_mem _ ht) t'
            (List.mem_cons_of_mem _ ht')⟩
      -- the rows behind it agree already, and so do the hashes that they start from
      obtain ⟨hnext, hsame⟩ := ih ((hfree.length _).trans (hfree.length _).symm)
        (Nat.succ.inj hrows) hlater h
      have hmaterial := hfree.chain _ List.mem_cons_self _ List.mem_cons_self hnext
      obtain ⟨hhash, hrow⟩ := chainMaterial_inj hlen hmaterial
      exact ⟨hhash, .cons (hfree.materials r List.mem_cons_self r' List.mem_cons_self hrow) hsame⟩

theorem finalHash_of_sameMaterials (h : SameMaterials rows rows') :
    finalHash sha256 hash rows = finalHash sha256 hash rows' := by
  induction h generalizing hash with
  | nil => rfl
  | cons hr _ ih =>
    rw [finalHash_cons, finalHash_cons]
    unfold chainMaterial
    rw [hr]
    exact ih

def Binds (sha256 : PyText → PyText) (genesis : PyText) (rows rows' : List Row) : Prop :=
  finalHash sha256 genesis rows = finalHash sha256 genesis rows' → rows = rows'

/-- Different rows that join to the same texts: what one has in a field, the other has on
the other side of a delimiter. -/
def Shifted (rows rows' : List Row) : Prop := rows ≠ rows' ∧ SameMaterials rows rows'

/-- **The chain binds the rows exactly when none is shifted.** -/
theorem chain_binds_iff (sha256 : PyText → PyText) (genesis : PyText) (rows rows' : List Row)
    (hrows : rows.length = rows'.length)
    (hfree : CollisionFree sha256 genesis genesis rows rows') :
    Binds sha256 genesis rows rows' ↔ ¬ Shifted rows rows' := by
  constructor
  · rintro hbinds ⟨hne, hsame⟩
    exact hne (hbinds (finalHash_of_sameMaterials hsame))
  · intro hshift hhash
    by_contra hne
    exact hshift ⟨hne, (sameMaterials_of_finalHash rfl hrows hfree hhash).2⟩

def Plain (t : PyText) : Prop := PyText.codePoint '|' ∉ t

instance (t : PyText) : Decidable (Plain t) := inferInstanceAs (Decidable (_ ∉ _))

theorem delimited_inj {a a' rest rest' : PyText} (ha : Plain a) (ha' : Plain a')
    (h : a ++ (delimiter ++ rest) = a' ++ (delimiter ++ rest')) : a = a' ∧ rest = rest' := by
  induction a generalizing a' with
  | nil =>
    cases a' with
    | nil => exact ⟨rfl, List.append_cancel_left h⟩
    | cons c a' =>
      obtain ⟨rfl, -⟩ := List.cons.inj h
      exact absurd List.mem_cons_self ha'
  | cons c a ih =>
    cases a' with
    | nil =>
      obtain ⟨rfl, -⟩ := List.cons.inj h
      exact absurd List.mem_cons_self ha
    | cons c' a' =>
      obtain ⟨rfl, hrest⟩ := List.cons.inj h
      obtain ⟨rfl, hsame⟩ := ih (fun hm => ha (List.mem_cons_of_mem c hm))
        (fun hm => ha' (List.mem_cons_of_mem c hm)) hrest
      exact ⟨rfl, hsame⟩

theorem token_plain (failure : Option FailureClass) : Plain (FailureClass.token failure) := by
  cases failure with
  | none => decide
  | some failure => cases failure <;> decide

theorem token_injective : Function.Injective FailureClass.token := by
  have hall : ∀ failure failure' : Option FailureClass,
      FailureClass.token failure = FailureClass.token failure' → failure = failure' := by
    rintro (_ | _ | _ | _) (_ | _ | _ | _) h
    all_goals first | rfl | exact absurd h (by decide)
  exact hall

def Row.Plain (r : Row) : Prop :=
  Hitl.Plain r.prompt ∧ Hitl.Plain r.rawOutput ∧ Hitl.Plain r.timestamp

/-- **The joined text of a plain row determines it.** -/
theorem rowMaterial_inj (hr : r.Plain) (hr' : r'.Plain) (h : rowMaterial r = rowMaterial r') :
    r = r' := by
  unfold rowMaterial at h
  simp only [List.append_assoc] at h
  obtain ⟨hprompt, h⟩ := delimited_inj hr.1 hr'.1 h
  obtain ⟨houtput, h⟩ := delimited_inj hr.2.1 hr'.2.1 h
  -- the names of the failures have no bar
  obtain ⟨htoken, h⟩ := delimited_inj (token_plain _) (token_plain _) h
  obtain ⟨htime, hversion⟩ := delimited_inj hr.2.2 hr'.2.2 h
  exact Row.ext hprompt houtput (token_injective htoken) htime hversion

/-- **Plain rows are not shifted.** -/
theorem not_shifted_of_plain (hrows : ∀ r ∈ rows, r.Plain) (hrows' : ∀ r ∈ rows', r.Plain) :
    ¬ Shifted rows rows' := by
  rintro ⟨hne, hsame⟩
  refine hne ?_
  clear hne
  induction hsame with
  | nil => rfl
  | cons hr _ ih =>
    rw [List.forall_mem_cons] at hrows hrows'
    rw [rowMaterial_inj hrows.1 hrows'.1 hr, ih hrows.2 hrows'.2]

def rowOf (prompt output : String) : Row where
  prompt := lit prompt
  rawOutput := lit output
  failureClass := none
  timestamp := lit "2026-01-01T00:00:00+00:00"
  runtimeVersion := lit "local:model"
  output_of_failure := fun _ h => by cases h

def paddedDigest (t : PyText) : PyText :=
  (List.replicate 64 (PyText.codePoint '0') ++ t).drop t.length

theorem rowOf_binds : Binds paddedDigest [] [rowOf "a" "b"] [rowOf "c" "b"] := by
  have hlength : ∀ t, (paddedDigest t).length = 64 := by
    intro t
    unfold paddedDigest
    rw [List.length_drop, List.length_append, List.length_replicate]
    omega
  have hfree : CollisionFree paddedDigest [] [] [rowOf "a" "b"] [rowOf "c" "b"] := by
    refine ⟨hlength, ?_, ?_⟩
    · intro r hr r' hr' h
      rw [List.mem_singleton.1 hr, List.mem_singleton.1 hr'] at h
      exact absurd h (by decide)
    · intro t ht t' ht' h
      rw [List.mem_singleton.1 ht, List.mem_singleton.1 ht'] at h
      exact absurd h (by decide)
  refine (chain_binds_iff paddedDigest [] [rowOf "a" "b"] [rowOf "c" "b"] rfl hfree).2
    (not_shifted_of_plain ?_ ?_)
  · intro r hr
    rw [List.mem_singleton.1 hr]
    exact ⟨by decide, by decide, by decide⟩
  · intro r hr
    rw [List.mem_singleton.1 hr]
    exact ⟨by decide, by decide, by decide⟩

/-- A delimiter in the prompt or in the output: two records with one chain, whatever the
hash is. -/
theorem delimiter_shifts :
    rowOf "a||b" "c" ≠ rowOf "a" "b||c" ∧
      ∀ sha256 genesis, finalHash sha256 genesis [rowOf "a||b" "c"] =
        finalHash sha256 genesis [rowOf "a" "b||c"] := by
  constructor
  · intro h
    exact absurd (congrArg Row.prompt h) (by decide)
  · intro sha256 genesis
    exact finalHash_of_sameMaterials (.cons (by decide) .nil)

end ClawHarder.Hitl
