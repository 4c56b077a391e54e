import Mathlib.Algebra.Group.Nat.Defs
import ClawHarder.Spec.Manifest

/-!
# Canonical JSON, identity keys and fact hashes

`serialization.ts` and the public part of `identity.ts`. The registry of
strategies is open (`registerStrategy`), so it is a field of `Env`, with the
other things the engine takes from its surroundings: SHA-256, the readings of the
clock and the identifiers that `randomUUID` gives.
-/

namespace ClawHarder

/-- One reading of the clock. -/
structure Instant where
  /-- `Date.now()` -/
  millis : ℕ
  /-- `new Date().toISOString()` -/
  iso : String

/-- What the engine takes from its surroundings. -/
structure Env (N : Type) where
  /-- The strategy registered for a type; a strategy may throw (`none`). -/
  strategy : String → Option (List (String × Json N) → Option String)
  /-- The hexadecimal SHA-256 of a text. -/
  sha256 : String → String
  /-- The `n`-th reading of the clock. -/
  clock : ℕ → Instant
  /-- The `n`-th `shortId()`. -/
  shortId : ℕ → String

variable {N : Type} [JsNumber N]

/-- The UTF-16 code units of a text, which JavaScript's `sort` compares. -/
def utf16 (s : String) : List ℕ :=
  s.toList.flatMap fun c =>
    if c.toNat < 0x10000 then [c.toNat]
    else [0xD800 + (c.toNat - 0x10000) / 0x400, 0xDC00 + (c.toNat - 0x10000) % 0x400]

/-- The lexicographic order on code units. -/
def unitsLe : List ℕ → List ℕ → Bool
  | [], _ => true
  | _ :: _, [] => false
  | a :: as, b :: bs => a < b || (a = b && unitsLe as bs)

/-- The array index that a key spells, if it spells one. -/
def arrayIndex? (key : String) : Option ℕ :=
  let digits := key.toList
  if digits.isEmpty || digits.any (fun c => !c.isDigit) then none
  else
    let n := digits.foldl (fun acc c => 10 * acc + (c.toNat - '0'.toNat)) 0
    if Nat.toDigits 10 n = digits ∧ n < 2 ^ 32 - 1 then some n else none

/-- The order in which an object's own keys are enumerated: array indices first,
in increasing order, then the other keys as they were added. -/
def enumerate {V : Type} (members : List (String × V)) : List (String × V) :=
  let index := fun (e : String × V) => (arrayIndex? e.1).getD 0
  (members.filter fun e => (arrayIndex? e.1).isSome).insertionSort (fun a b => index a ≤ index b) ++
    members.filter fun e => (arrayIndex? e.1).isNone

mutual

/-- The sorted copy of a value. `sorted["__proto__"] = v` sets the copy's prototype
and adds no member. -/
def sortedReplacer : Json N → Json N
  | .arr items => .arr (sortedItems items)
  | .obj members =>
    .obj (enumerate
      (((sortedMembers members).filter fun e => e.1 ≠ "__proto__").insertionSort
        fun a b => unitsLe (utf16 a.1) (utf16 b.1) = true))
  | v => v

def sortedItems : List (Json N) → List (Json N)
  | [] => []
  | v :: rest => sortedReplacer v :: sortedItems rest

def sortedMembers : List (String × Json N) → List (String × Json N)
  | [] => []
  | (k, v) :: rest => (k, sortedReplacer v) :: sortedMembers rest

end

def canonicalJson (value : Json N) : String :=
  (sortedReplacer value).stringify JsNumber.toText

def shortHash (E : Env N) (input : String) : String :=
  String.ofList ((E.sha256 input).toList.take 8)

/-- The identity key of a fact: its type's strategy, or the hash of its value when
the type has none or the strategy throws. -/
def deriveIdentityKey (E : Env N) (type : String) (value : List (String × Json N)) : String :=
  let fallback := type ++ ":" ++ shortHash E (canonicalJson (.obj value))
  match E.strategy type with
  | some strategy => (strategy value).getD fallback
  | none => fallback

def deriveFactHash (E : Env N) (type : String) (value : List (String × Json N)) : String :=
  E.sha256 (type ++ ":" ++ canonicalJson (.obj value))

end ClawHarder
