import Mathlib.Data.List.Sort
import WorkflowBoard.Native.CodeUnits

/-!
# Canonical JSON (`common/marketing/budget.ts`)

`canonicalJson` writes a value with the keys of its objects in order. The SHA-256 of the canonical
JSON of a spend request is what an approver agrees to.

A value of the runtime is one that JSON can hold, or `undefined`. The numbers are a type of their
own: how a finite double is written is left to the runtime.
-/

namespace WorkflowBoard.Marketing

/-- What `canonicalJson` is given. The fields of an object come in the order of `Object.entries`. -/
inductive JsValue (ν : Type*) where
  | undefined
  | null
  | bool (b : Bool)
  | num (x : ν)
  | str (s : CodeUnits)
  | arr (items : List (JsValue ν))
  | obj (fields : List (CodeUnits × JsValue ν))

namespace JsValue

variable {ν : Type*}

def isUndefined : JsValue ν → Bool
  | .undefined => true
  | _ => false

mutual

/-- An object has each key once, at every depth. -/
def uniqueKeys : JsValue ν → Bool
  | .arr items => uniqueItems items
  | .obj fields => decide (fields.map Prod.fst).Nodup && uniqueFields fields
  | _ => true

def uniqueItems : List (JsValue ν) → Bool
  | [] => true
  | v :: items => uniqueKeys v && uniqueItems items

def uniqueFields : List (CodeUnits × JsValue ν) → Bool
  | [] => true
  | (_, v) :: fields => uniqueKeys v && uniqueFields fields

end

end JsValue

/-- A value as the runtime builds them. -/
def JsonValue (ν : Type*) := { v : JsValue ν // v.uniqueKeys = true }

/-! ## `JSON.stringify` of what has no parts -/

def isNumeralUnit (u : UInt16) : Bool :=
  (0x30 ≤ u && u ≤ 0x39) || u == 0x2B || u == 0x2D || u == 0x2E || u == 0x65

/-- How the runtime writes the numbers of a type: each with a text of its own, made of digits, a
    sign, a point and an exponent. -/
structure NumberText (ν : Type*) where
  text : ν → CodeUnits
  inj : Function.Injective text
  ne_nil : ∀ x, text x ≠ []
  numeral : ∀ x, ∀ u ∈ text x, isNumeralUnit u = true

def quoteMark : UInt16 := 0x22

def backslash : UInt16 := 0x5C

/-- The units that are written as a backslash and a letter. -/
def shortEscapes : List (UInt16 × UInt16) :=
  [(0x08, 0x62), (0x09, 0x74), (0x0A, 0x6E), (0x0C, 0x66), (0x0D, 0x72), (quoteMark, quoteMark),
    (backslash, backslash)]

def isLead (u : UInt16) : Bool := 0xD800 ≤ u && u ≤ 0xDBFF

def isTrail (u : UInt16) : Bool := 0xDC00 ≤ u && u ≤ 0xDFFF

def hexUnit (n : Nat) : UInt16 := if n < 10 then (0x30 + n).toUInt16 else (0x57 + n).toUInt16

/-- `\uXXXX`. -/
def unicodeEscape (u : UInt16) : CodeUnits :=
  [backslash, 0x75, hexUnit (u.toNat / 4096), hexUnit (u.toNat / 256 % 16),
    hexUnit (u.toNat / 16 % 16), hexUnit (u.toNat % 16)]

/-- A unit that is not half of a pair. -/
def quoteUnit (u : UInt16) : CodeUnits :=
  match shortEscapes.lookup u with
  | some letter => [backslash, letter]
  | none => if u < 0x20 || isLead u || isTrail u then unicodeEscape u else [u]

def quoteBody : CodeUnits → CodeUnits
  | [] => []
  | [u] => quoteUnit u
  | u :: v :: rest =>
    if isLead u && isTrail v then u :: v :: quoteBody rest else quoteUnit u ++ quoteBody (v :: rest)

/-- `JSON.stringify(s)`. -/
def quoted (s : CodeUnits) : CodeUnits := quoteMark :: (quoteBody s ++ [quoteMark])

/-! ## `canonicalJson` -/

/-- `a <= b` on strings: by code units. -/
def notAfter : CodeUnits → CodeUnits → Bool
  | [], _ => true
  | _ :: _, [] => false
  | u :: a, v :: b => u < v || (u == v && notAfter a b)

/-- The order of entries by their keys. -/
def KeyLe {β : Type*} (p q : CodeUnits × β) : Prop := notAfter p.1 q.1 = true

instance {β : Type*} : DecidableRel (KeyLe (β := β)) :=
  fun _ _ => inferInstanceAs (Decidable (_ = true))

def comma : UInt16 := 0x2C

def colon : UInt16 := 0x3A

def bracketed (opening closing : UInt16) (texts : List CodeUnits) : CodeUnits :=
  opening :: ([comma].intercalate texts ++ [closing])

/-- `{…}` of the entries in the order of their keys. -/
def objectText (entries : List (CodeUnits × CodeUnits)) : CodeUnits :=
  bracketed 0x7B 0x7D
    ((entries.insertionSort KeyLe).map fun e => quoted e.1 ++ colon :: e.2)

mutual

/-- The values are written before their entries are sorted, which looks at the keys alone. -/
def canonicalJson {ν : Type*} (number : NumberText ν) : JsValue ν → CodeUnits
  | .undefined => units "null"
  | .null => units "null"
  | .bool true => units "true"
  | .bool false => units "false"
  | .num x => number.text x
  | .str s => quoted s
  | .arr items => bracketed 0x5B 0x5D (canonicalItems number items)
  | .obj fields => objectText (canonicalEntries number fields)

def canonicalItems {ν : Type*} (number : NumberText ν) : List (JsValue ν) → List CodeUnits
  | [] => []
  | v :: items => canonicalJson number v :: canonicalItems number items

/-- The fields that are not `undefined`. -/
def canonicalEntries {ν : Type*} (number : NumberText ν) :
    List (CodeUnits × JsValue ν) → List (CodeUnits × CodeUnits)
  | [] => []
  | (key, v) :: fields =>
    if v.isUndefined then canonicalEntries number fields
    else (key, canonicalJson number v) :: canonicalEntries number fields

end

/-! ## The hash of a spend request -/

/-- The request that `spendPayloadHash` is given. -/
structure HashedSpend (ν : Type*) where
  campaign_id : CodeUnits
  channel_id : CodeUnits
  amount_minor : ν
  currency : CodeUnits
  payee : CodeUnits
  payee_ref : Option CodeUnits
  purpose : CodeUnits
  provider : CodeUnits
  provider_credential_id : Option CodeUnits
  payload : JsonValue ν

namespace HashedSpend

variable {ν : Type*} (request : HashedSpend ν)

/-- `request.payee_ref || ''`. -/
def payeeRef : CodeUnits := request.payee_ref.getD []

/-- `request.provider_credential_id`, if it counts as true. -/
def credential : Option CodeUnits := request.provider_credential_id.filter (· ≠ [])

/-- `request.payload ?? {}`. -/
def payloadOrEmpty : JsValue ν :=
  match request.payload.1 with
  | .undefined => .obj []
  | .null => .obj []
  | payload => payload

/-- `request.provider_credential_id || null`, as a value. -/
def credentialValue : JsValue ν :=
  match request.credential with
  | some id => .str id
  | none => .null

/-- The fields of the object that is hashed. -/
def entries : List (CodeUnits × JsValue ν) :=
  [(units "campaign_id", .str request.campaign_id),
    (units "channel_id", .str request.channel_id),
    (units "amount_minor", .num request.amount_minor),
    (units "currency", .str request.currency),
    (units "payee", .str request.payee),
    (units "payee_ref", .str request.payeeRef),
    (units "purpose", .str request.purpose),
    (units "provider", .str request.provider),
    (units "provider_credential_id", request.credentialValue),
    (units "payload", request.payloadOrEmpty)]

def hashed : JsValue ν := .obj request.entries

end HashedSpend

/-- `sha256` is the digest of a text in UTF-8, as hex. -/
def spendPayloadHash {ν : Type*} (number : NumberText ν) (sha256 : CodeUnits → String)
    (request : HashedSpend ν) : String :=
  sha256 (canonicalJson number request.hashed)

end WorkflowBoard.Marketing
