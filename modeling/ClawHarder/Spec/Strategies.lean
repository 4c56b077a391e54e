import ClawHarder.Lib.JsonText
import ClawHarder.Spec.CommandQueue
import ClawHarder.Spec.Identity

/-!
# The registered strategies

From `identity.ts`: how a field is normalized, and the key that each of the strategies makes
which the module registers when it is loaded. `lower` is `toLowerCase`, of which nothing is
assumed. A strategy throws (`none`) where `String` cannot convert a field.

`identify` is what the keys are for: the normalized fields that identify a fact, or its whole
value where there are none. `KeysAgree` says that two keys do what the fields do.
-/

namespace ClawHarder.Strategies

open CommandQueue (isBlank)

variable {N : Type} [JsNumber N]

mutual

/-- `String(v)`. A member `toString` hides the inherited function, and the conversion throws. -/
def stringOf : Json N → Option String
  | .null => some "null"
  | .bool true => some "true"
  | .bool false => some "false"
  | .num n => some (JsNumber.toText n)
  | .str s => some s
  | .arr items => (elementTexts items).map (String.intercalate ",")
  | .obj members =>
    if (Json.member? "toString" members).isSome then none else some "[object Object]"

/-- What `join` puts together; `null` gives nothing. -/
def elementTexts : List (Json N) → Option (List String)
  | [] => some []
  | .null :: rest => (elementTexts rest).map ("" :: ·)
  | v :: rest => do
    let text ← stringOf v
    let texts ← elementTexts rest
    return text :: texts

end

/-- `.replace(/\s+/g, " ")`, inside a run of white space or not -/
def collapse (inside : Bool) : List Char → List Char
  | [] => []
  | c :: cs =>
    if isBlank c then (if inside then collapse true cs else ' ' :: collapse true cs)
    else c :: collapse false cs

variable (lower : String → String)

def normText (text : String) : String :=
  let trimmed := ((lower text).toList.dropWhile isBlank).rdropWhile isBlank
  String.ofList ((collapse false trimmed).filter fun c => 0x1F < c.toNat)

/-- `norm`; a member that is not there is `undefined`. -/
def norm : Option (Json N) → Option String
  | none => some ""
  | some .null => some ""
  | some v => (stringOf v).map (normText lower)

def first : List (Option (Json N)) → Option String
  | [] => some "unknown"
  | c :: candidates => do
    let n ← norm lower c
    if n = "" then first candidates else return n

/-- A candidate for a part of a key: a member of the value, or a text. -/
inductive Candidate where
  | member (key : String)
  | text (s : String)

def Candidate.get (value : List (String × Json N)) : Candidate → Option (Json N)
  | .member key => Json.member? key value
  | .text s => some (.str s)

def members (keys : List String) : List Candidate := keys.map .member

/-- The texts with the separator between them. -/
def joined (separator : Char) (texts : List String) : String :=
  (String.singleton separator).intercalate texts

/-- A strategy that joins the first candidates there are. -/
structure Rule where
  type : String
  separator : Char
  parts : List (List Candidate)

namespace Rule

def fields (r : Rule) (value : List (String × Json N)) : Option (List String) :=
  r.parts.mapM fun candidates => first lower (candidates.map (Candidate.get value))

def strategy (r : Rule) (value : List (String × Json N)) : Option String :=
  (r.fields lower value).map fun texts => r.type ++ ":" ++ joined r.separator texts

end Rule

def preference : Rule := ⟨"preference", ':', [members ["key", "topic", "name", "category"]]⟩

def contact : Rule := ⟨"contact", ':', [members ["email", "id", "username", "handle", "name"]]⟩

def task : Rule := ⟨"task", ':', [members ["id", "task_id", "title"]]⟩

def context : Rule := ⟨"context", ':', [members ["scope", "domain"], members ["key", "name"]]⟩

def credential : Rule := ⟨"credential", '@', [
  members ["username", "account", "principal"],
  members ["service", "host", "realm", "provider"]]⟩

def service (value : List (String × Json N)) : Option String := do
  let name ← first lower ((members ["name", "service_name", "id"]).map (Candidate.get value))
  let endpoint ← first lower
    ((members ["endpoint", "host", "url", "provider_id"] ++ [Candidate.text ""]).map (Candidate.get value))
  if endpoint ≠ "" then return "service:" ++ name ++ ":" ++ endpoint
  else return "service:" ++ name

def knowledge : Rule := ⟨"knowledge", ':', [
  members ["domain", "category"] ++ [.text "general"],
  members ["key", "topic", "subject"]]⟩

def constraint : Rule := ⟨"constraint", ':', [
  members ["scope", "agent"] ++ [.text "global"],
  members ["key", "constraint_id", "name"]]⟩

/-- `a ?? b` -/
def orElse (a b : Option (Json N)) : Option (Json N) :=
  match a with
  | none => b
  | some .null => b
  | some v => some v

/-- `norm(v["id"] ?? v["event_id"] ?? "")` -/
def eventId (value : List (String × Json N)) : Option String :=
  norm lower (orElse (Json.member? "id" value)
    (orElse (Json.member? "event_id" value) (some (.str ""))))

/-- `first(v["type"], "unknown")` -/
def eventKind (value : List (String × Json N)) : Option String :=
  first lower ([Candidate.member "type", .text "unknown"].map (Candidate.get value))

def event (E : Env N) (value : List (String × Json N)) : Option String := do
  let id ← eventId lower value
  let kind ← eventKind lower value
  if id ≠ "" then return "event:" ++ kind ++ ":" ++ id
  else return "event:" ++ kind ++ ":" ++ shortHash E (canonicalJson (.obj value))

/-- `registry`, as the module leaves it. -/
def registry (E : Env N) : List (String × (List (String × Json N) → Option String)) := [
  ("preference", preference.strategy lower),
  ("contact", contact.strategy lower),
  ("task", task.strategy lower),
  ("context", context.strategy lower),
  ("credential", credential.strategy lower),
  ("service", service lower),
  ("knowledge", knowledge.strategy lower),
  ("constraint", constraint.strategy lower),
  ("event", event lower E)]

/-- The surroundings with this registry. -/
def withRegistry (E : Env N) : Env N :=
  { E with strategy := fun type => (registry lower E).lookup type }

/-- The part of a fact that its keys are made of. -/
structure FactContent (N : Type) where
  type : String
  value : List (String × Json N)
  plain : Json.Plain (.obj value)

/-- Some normalized fields, or fields and the whole value. -/
inductive Identity (N : Type) where
  | fields (texts : List String)
  | whole (texts : List String) (value : List (String × Json N))

/-- The same fields; values are the same up to the order of members. -/
def Identity.Same : Identity N → Identity N → Prop
  | .fields texts, .fields others => texts = others
  | .whole texts v, .whole others w =>
    texts = others ∧ Json.Alike (fun _ => False) (.obj v) (.obj w)
  | _, _ => False

/-- A service is identified by its name and its endpoint. -/
def serviceFields : Rule := ⟨"service", ':', [
  members ["name", "service_name", "id"],
  members ["endpoint", "host", "url", "provider_id"] ++ [.text ""]]⟩

def rules : List Rule :=
  [preference, contact, task, context, credential, serviceFields, knowledge, constraint]

def coreTypes : List String := "event" :: rules.map (·.type)

/-- An event is identified by its kind and its id, or else by its whole value. -/
def identifyEvent (value : List (String × Json N)) : Identity N :=
  match eventId lower value, eventKind lower value with
  | some id, some kind => if id ≠ "" then .fields [kind, id] else .whole [kind] value
  | _, _ => .whole [] value

/-- What identifies a fact; a value that cannot be converted stands for itself. -/
def identify (x : FactContent N) : Identity N :=
  if x.type = "event" then identifyEvent lower x.value
  else
    match rules.find? (·.type = x.type) with
    | none => .whole [] x.value
    | some r =>
      match r.fields lower x.value with
      | some texts => .fields texts
      | none => .whole [] x.value

variable (E : Env N)

/-- `identity_key` -/
def key (x : FactContent N) : String := deriveIdentityKey (withRegistry lower E) x.type x.value

/-- Equal keys come from facts of one type, with the same identity if the type is built in; and
facts of one type with the same identity have equal keys. -/
structure KeysAgree (x y : FactContent N) : Prop where
  same : key lower E x = key lower E y →
    x.type = y.type ∧ (x.type ∈ coreTypes → (identify lower x).Same (identify lower y))
  equal : x.type = y.type → (identify lower x).Same (identify lower y) →
    key lower E x = key lower E y

/-- The parts that the key of an identity joins. -/
def Identity.parts : Identity N → List String
  | .fields texts => texts
  | .whole texts v => texts ++ [shortHash E (canonicalJson (.obj v))]

def separatorOf (type : String) : Char := if type = "credential" then '@' else ':'

/-- One of the texts has a separator that the other one takes for its own. -/
inductive Shifted (separator : Char) : List String → List String → Prop
  | right (a m b : String) :
    Shifted separator [joined separator [a, m], b] [a, joined separator [m, b]]
  | left (a m b : String) :
    Shifted separator [a, joined separator [m, b]] [joined separator [a, m], b]
  | merged (a b : String) : Shifted separator [joined separator [a, b]] [a, b]
  | cut (a b : String) : Shifted separator [a, b] [joined separator [a, b]]

/-- Different identities that a key of their type does not tell apart. -/
inductive Blurred (separator : Char) : Identity N → Identity N → Prop
  /-- the parts meet elsewhere -/
  | shifted {i j : Identity N} : Shifted separator (i.parts E) (j.parts E) →
    Blurred separator i j
  /-- a field spells the hash of the other value -/
  | spells (texts : List String) (v : List (String × Json N)) :
    Blurred separator (.fields (texts ++ [shortHash E (canonicalJson (.obj v))])) (.whole texts v)
  | spelled (texts : List String) (v : List (String × Json N)) :
    Blurred separator (.whole texts v) (.fields (texts ++ [shortHash E (canonicalJson (.obj v))]))
  /-- eight digits of two hashes agree -/
  | clash (texts : List String) {v w : List (String × Json N)} :
    ¬Json.Alike (fun _ => False) (.obj v) (.obj w) →
    shortHash E (canonicalJson (.obj v)) = shortHash E (canonicalJson (.obj w)) →
    Blurred separator (.whole texts v) (.whole texts w)

/-- Facts that their keys confuse: the type of one goes on where the other's fields begin, or
the identities of one built-in type are blurred. -/
inductive Confusable (x y : FactContent N) : Prop
  | types : Shifted ':' [x.type, joined (separatorOf x.type) ((identify lower x).parts E)]
      [y.type, joined (separatorOf y.type) ((identify lower y).parts E)] → Confusable x y
  | fields : x.type = y.type → x.type ∈ coreTypes →
      Blurred E (separatorOf x.type) (identify lower x) (identify lower y) → Confusable x y

end ClawHarder.Strategies
