import Mathlib.Data.List.Sort
import ClawHarder.Spec.Ledger

/-!
# What a client may propose

The checks of `/api/ide/execute` on its body: `_validate_patch_ops`,
`_validate_patch_requests` and those of the other fields. A refused body gives the
text of the error.
-/

namespace ClawHarder.Comms

open PyText (lit)

/-- A patch request as `_validate_patch_requests` returns it. -/
structure PatchRequest where
  requestId : Stripped
  patchIds : List Stripped
  reason : Stripped
  risk : Risk
  requiresApproval : Bool

section Validate

variable (reprOf : PyValue → PyText)

/-- `str(d.get(key, "")).strip()` -/
def field (d : PyDict) (key : String) : Stripped :=
  match PyValue.get? (lit key) d with
  | none => .empty
  | some v => .of (v.text reprOf)

/-- `d.get(key)`; an explicit `None` is the same as none. -/
def given (d : PyDict) (key : String) : Option PyValue :=
  match PyValue.get? (lit key) d with
  | some .none => none
  | found => found

/-- A value that has to be there; otherwise `raise ValueError(complaint)`. -/
def require {α : Type} (complaint : PyText) : Option α → Except PyText α
  | some a => .ok a
  | none => .error complaint

/-- A text that must not be empty. -/
def requireText (complaint : PyText) (s : Stripped) : Except PyText Stripped :=
  if s.text = [] then .error complaint else .ok s

/-- `d.get(key) or default` -/
def givenOr (d : PyDict) (key : String) (default : PyValue) : PyValue :=
  match given d key with
  | none => default
  | some v => if v.falsy then default else v

/-- `patches[3].file must be …` -/
def patchError (index : ℕ) (rest : PyText) : PyText :=
  lit "patches[" ++ PyText.padded 0 index ++ lit "]" ++ rest

/-- `", ".join(sorted(keys))` -/
def listKeys (keys : List PyText) : PyText :=
  PyText.join (lit ", ") (keys.dedup.insertionSort (· ≤ ·))

/-- The complaint about missing and unknown fields of a patch, if there is one. -/
def checkKeys (index : ℕ) (raw : PyDict) (required : List String) : Except PyText Unit :=
  let required := required.map lit
  let keys := raw.map Prod.fst
  let missing := required.filter (· ∉ keys)
  let extra := keys.filter fun k => k ∉ required ∧ k ≠ lit "patch_id"
  if missing ≠ [] then
    .error (patchError index (lit " missing required fields: " ++ listKeys missing))
  else if extra ≠ [] then
    .error (patchError index (lit " has unknown fields: " ++ listKeys extra))
  else .ok ()

/-- `raw.get("file")` as a non-empty string. -/
def checkFile (index : ℕ) (raw : PyDict) : Except PyText Stripped :=
  requireText (patchError index (lit ".file must be a non-empty string")) (field reprOf raw "file")

/-- `raw.get("content")` as a string. -/
def checkContent (index : ℕ) (raw : PyDict) : Except PyText PyText :=
  require (patchError index (lit ".content must be a string"))
    ((PyValue.get? (lit "content") raw).bind PyValue.asStr?)

/-- `raw.get(key)` as an integer that is at least `low`. -/
def checkLine (index : ℕ) (raw : PyDict) (key : String) (low : ℤ) (bound : String) :
    Except PyText ℤ :=
  let complaint := patchError index (lit ("." ++ key ++ " must be an integer >= " ++ bound))
  match (PyValue.get? (lit key) raw).bind PyValue.asInt? with
  | none => .error complaint
  | some n => if n < low then .error complaint else .ok n

/-- One turn of the loop of `_validate_patch_ops`, for a patch of this id. -/
def validatePatchOp (index : ℕ) (patchId : Stripped) (raw : PyDict) : Except PyText Patch := do
  let op := (field reprOf raw "op").text
  if op = lit "replace_range" then
    checkKeys index raw ["op", "file", "start_line", "end_line", "content"]
    let file ← checkFile reprOf index raw
    let startLine ← checkLine index raw "start_line" 1 "1"
    let endLine ← checkLine index raw "end_line" startLine "start_line"
    let content ← checkContent index raw
    return { patchId, file, op := .replaceRange startLine endLine content }
  else if op = lit "create_file" then
    checkKeys index raw ["op", "file", "content"]
    let file ← checkFile reprOf index raw
    let content ← checkContent index raw
    return { patchId, file, op := .createFile content }
  else if op = lit "delete_file" then
    checkKeys index raw ["op", "file"]
    let file ← checkFile reprOf index raw
    return { patchId, file, op := .deleteFile }
  else
    throw (patchError index (lit ".op must be one of: replace_range, create_file, delete_file"))

/-- The id of a patch: its own, or one made from its place. -/
def patchIdOf (index : ℕ) (raw : PyDict) : Stripped :=
  let own :=
    match given raw "patch_id" with
    | none => Stripped.empty
    | some v => .of (v.text reprOf)
  if own.text = [] then .of (lit "PATCH_" ++ PyText.padded 3 (index + 1)) else own

/-- The loop of `_validate_patch_ops`. -/
def validateOps (index : ℕ) (seen : List Stripped) : List PyValue → Except PyText (List Patch)
  | [] => .ok []
  | raw :: rest =>
    match raw.asDict? with
    | none => .error (patchError index (lit " must be an object"))
    | some raw =>
      let patchId := patchIdOf reprOf index raw
      if patchId ∈ seen then .error (patchError index (lit ".patch_id must be unique"))
      else do
        let patch ← validatePatchOp reprOf index patchId raw
        let patches ← validateOps (index + 1) (patchId :: seen) rest
        return patch :: patches

def validatePatchOps (rawOps : Option PyValue) : Except PyText (List Patch) :=
  match rawOps with
  | none => .ok []
  | some v =>
    match v.asList? with
    | none => .error (lit "patches must be a list")
    | some items => validateOps reprOf 0 [] items

/-- `patch_requests[3].reason must be …` -/
def requestError (index : ℕ) (rest : PyText) : PyText :=
  lit "patch_requests[" ++ PyText.padded 0 index ++ lit "]" ++ rest

/-- The patch ids of a request: known ones, each once. -/
def validatePatchIds (index : ℕ) (known : List Stripped) (chosen : List Stripped) :
    List PyValue → Except PyText (List Stripped)
  | [] => .ok chosen
  | candidate :: rest =>
    let patchId := Stripped.of (candidate.text reprOf)
    if patchId.text = [] then
      .error (requestError index (lit ".patch_ids contains an empty patch_id"))
    else if patchId ∈ chosen then validatePatchIds index known chosen rest
    else if patchId ∉ known then
      .error (requestError index (lit ".patch_ids references unknown patch_id: " ++ patchId.text))
    else validatePatchIds index known (chosen ++ [patchId]) rest

/-- The risk of a request: `low`, `medium` or `high`, in any case. -/
def riskOf (raw : PyDict) : Option Risk :=
  let risk := PyText.lower (field reprOf raw "risk").text
  if risk = lit "low" then some .low
  else if risk = lit "medium" then some .medium
  else if risk = lit "high" then some .high
  else none

/-- The id of a patch request: its own, or one made from its place. -/
def requestIdOf (index : ℕ) (raw : PyDict) : Stripped :=
  let own := field reprOf raw "request_id"
  if own.text = [] then .of (lit "PATCH_REQ_" ++ PyText.padded 3 (index + 1)) else own

/-- One turn of the loop of `_validate_patch_requests`, for a request of this id. -/
def validatePatchRequest (index : ℕ) (known : List Stripped) (requestId : Stripped)
    (raw : PyDict) : Except PyText PatchRequest := do
  let rawPatchIds ← require (requestError index (lit ".patch_ids must be a non-empty list"))
    (((PyValue.get? (lit "patch_ids") raw).bind PyValue.asList?).filter (!·.isEmpty))
  let patchIds ← validatePatchIds reprOf index known [] rawPatchIds
  let rawReason ← require (requestError index (lit ".reason must be a non-empty string"))
    ((PyValue.get? (lit "reason") raw).bind PyValue.asStr?)
  let reason ← requireText (requestError index (lit ".reason must be a non-empty string"))
    (.of rawReason)
  let risk ← require (requestError index (lit ".risk must be one of: low, medium, high"))
    (riskOf reprOf raw)
  let requiresApproval ← require
    (requestError index (lit ".requires_approval must be a boolean"))
    ((PyValue.get? (lit "requires_approval") raw).bind PyValue.asBool?)
  return { requestId, patchIds, reason, risk, requiresApproval }

/-- The loop of `_validate_patch_requests`. -/
def validateRequests (index : ℕ) (known seen : List Stripped) :
    List PyValue → Except PyText (List PatchRequest)
  | [] => .ok []
  | raw :: rest =>
    match raw.asDict? with
    | none => .error (requestError index (lit " must be an object"))
    | some raw =>
      let allowed :=
        ["request_id", "patch_ids", "reason", "risk", "requires_approval"].map lit
      let extra := (raw.map Prod.fst).filter (· ∉ allowed)
      if extra ≠ [] then
        .error (requestError index (lit " has unknown fields: " ++ listKeys extra))
      else
        let requestId := requestIdOf reprOf index raw
        if requestId ∈ seen then .error (requestError index (lit ".request_id must be unique"))
        else do
          let request ← validatePatchRequest reprOf index known requestId raw
          let requests ← validateRequests (index + 1) known (requestId :: seen) rest
          return request :: requests

/-- `_validate_patch_requests`; with no requests given, one for all patches. -/
def validatePatchRequests (rawRequests : Option PyValue) (patchIds : List Stripped) :
    Except PyText (List PatchRequest) :=
  match rawRequests with
  | none =>
    if patchIds = [] then .ok []
    else
      let reason := lit "Apply " ++ PyText.padded 0 patchIds.length ++
        lit " proposed patch(es) from IDE request."
      .ok
        [{ requestId := .of (lit "PATCH_REQ_001")
           patchIds
           reason := .of reason
           risk := .low
           requiresApproval := true }]
  | some v =>
    match v.asList? with
    | none => .error (lit "patch_requests must be a list")
    | some items => validateRequests reprOf 0 patchIds [] items

/-- The body of `/api/ide/execute`, checked. -/
structure IdeRequest where
  instruction : Stripped
  execute : Bool
  metadata : PyDict
  selectedFiles : List PyText
  allowedTools : List PyText
  cursorContext : PyDict
  patches : List Patch
  patchRequests : List PatchRequest
  projectRoot : Stripped

/-- `[str(item) for item in raw if str(item).strip()]` -/
def textsOf (items : List PyValue) : List PyText :=
  (items.map (·.text reprOf)).filter (PyText.strip · ≠ [])

/-- `str(body.get("instruction", body.get("message", ""))).strip()` -/
def instructionOf (body : PyDict) : Stripped :=
  match PyValue.get? (lit "instruction") body with
  | some v => .of (v.text reprOf)
  | none => field reprOf body "message"

/-- The checks of `/api/ide/execute` on its body, in order. -/
def parseIdeRequest (body : PyDict) : Except PyText IdeRequest := do
  let instruction ← requireText (lit "instruction is required") (instructionOf reprOf body)
  let execute ← require (lit "execute must be a boolean")
    ((PyValue.get? (lit "execute") body).getD (.bool true)).asBool?
  let metadata ← require (lit "metadata must be an object")
    (givenOr body "metadata" (.dict [])).asDict?
  let rawSelected ← require (lit "selected_files must be a list")
    (givenOr body "selected_files" (.list [])).asList?
  let rawAllowedTools ← require (lit "allowed_tools must be a list")
    (givenOr body "allowed_tools" (.list [])).asList?
  let cursorContext ← require (lit "cursor_context must be an object")
    (givenOr body "cursor_context" (.dict [])).asDict?
  let patches ← validatePatchOps reprOf (given body "patches")
  let patchRequests ←
    validatePatchRequests reprOf (given body "patch_requests") (patches.map (·.patchId))
  return {
    instruction, execute, metadata, cursorContext, patches, patchRequests
    selectedFiles := textsOf reprOf rawSelected
    allowedTools := textsOf reprOf rawAllowedTools
    projectRoot := field reprOf body "project_root" }

end Validate

end ClawHarder.Comms
