import SelectorExplain.Json.Skip

set_option autoImplicit false

/-! # Reading values of a given type

Readers for strings, numbers and options, and for the three ways in which JSON builds larger values:
lists, records and variants. A record may be written as an object, with its members in any order and
unknown ones among them, or as the list of its fields in order. A variant is written as an object
with one member, or as a mere word if it carries nothing.

Lists and objects may be nested up to a limit, which is passed down as the number of levels that may
still be opened. When something is wrong inside a list or a record, reading still goes on to where
its end should be, and a fault that has no place yet is placed there. -/

namespace SelectorExplain

namespace Json

variable {α β σ : Type}

/-! ## Values of another type -/

/-- Reads just enough of a value to say what stands here instead of what was expected. -/
def reject (expected : String) : Decoder α := do
  let misfit (found : Found) : Decoder α := Decoder.failHere (.shape (.wrongType found expected))
  let misfitNumber (n : Number) : Decoder α := match n with
    | .integer i => misfit (.integer i)
    | .float x => misfit (.float (.ofFloat .even x))
  match ← Decoder.token with
  | none => Decoder.failNext .expectedValue
  | some c =>
    match c with
    | 'n' => do Decoder.eat; word ['u', 'l', 'l']; misfit .null
    | 't' => do Decoder.eat; word ['r', 'u', 'e']; misfit (.bool true)
    | 'f' => do Decoder.eat; word ['a', 'l', 's', 'e']; misfit (.bool false)
    | '-' => do Decoder.eat; misfitNumber (← number true)
    | '"' => do Decoder.eat; misfit (.string (← stringRest))
    | '[' => misfit .sequence
    | '\x7b' => misfit .map
    | c => if c.isDigit then do misfitNumber (← number false) else Decoder.failNext .expectedValue

/-! ## Scalars -/

def string : Decoder String := do
  match ← Decoder.token with
  | none => Decoder.failNext .eofValue
  | some '"' => do
    Decoder.eat
    stringRest
  | some _ => reject "a string"

def boolean : Decoder Bool := do
  match ← Decoder.token with
  | none => Decoder.failNext .eofValue
  | some 't' => do Decoder.eat; word ['r', 'u', 'e']; return true
  | some 'f' => do Decoder.eat; word ['a', 'l', 's', 'e']; return false
  | some _ => reject "a boolean"

/-- A natural number below `bound`; `expected` names the range. -/
def natural (bound : Nat) (expected : String) : Decoder Nat := do
  let accept (n : Number) : Decoder Nat := match n with
    | .integer i =>
      if 0 ≤ i ∧ i < bound then pure i.toNat
      else Decoder.failHere (.shape (.wrongValue (.integer i) expected))
    | .float x => Decoder.failHere (.shape (.wrongType (.float (.ofFloat .even x)) expected))
  match ← Decoder.token with
  | none => Decoder.failNext .eofValue
  | some c =>
    if c = '-' then do
      Decoder.eat
      accept (← number true)
    else if c.isDigit then do accept (← number false)
    else reject expected

/-- Nothing but `null`. -/
def unit : Decoder Unit := do
  match ← Decoder.token with
  | none => Decoder.failNext .eofValue
  | some 'n' => do Decoder.eat; word ['u', 'l', 'l']
  | some _ => reject "unit"

/-- A value, or `null` for its absence. -/
def option (value : Decoder α) : Decoder (Option α) := do
  match ← Decoder.token with
  | some 'n' => do Decoder.eat; word ['u', 'l', 'l']; return none
  | _ => return some (← value)

/-! ## Brackets -/

/-- Reads the end of a list behind its last item. -/
def endList : Decoder Unit := do
  match ← Decoder.token with
  | none => Decoder.failNext .eofList
  | some ']' => Decoder.eat
  | some ',' => do
    Decoder.eat
    match ← Decoder.token with
    | some ']' => Decoder.failNext .trailingComma
    | _ => Decoder.failNext .trailingCharacters
  | some _ => Decoder.failNext .trailingCharacters

/-- Where the attempt to read the end of a list leaves the cursor. -/
def Cursor.pastListEnd (c : Cursor) : Cursor :=
  match c.trim.rest.head? with
  | some ']' => c.trim.skip
  | some ',' => c.trim.skip.trim
  | _ => c.trim

/-- Reads the end of an object behind its last member. -/
def endObject : Decoder Unit := do
  match ← Decoder.token with
  | none => Decoder.failNext .eofObject
  | some '\x7d' => Decoder.eat
  | some ',' => Decoder.failNext .trailingComma
  | some _ => Decoder.failNext .trailingCharacters

/-- Where the attempt to read the end of an object leaves the cursor. -/
def Cursor.pastObjectEnd (c : Cursor) : Cursor :=
  match c.trim.rest.head? with
  | some '\x7d' => c.trim.skip
  | _ => c.trim

/-- Reads the inside of a bracket and then its end. A fault without a place is placed where the
    attempt to read the end has led. -/
def closedBy (ending : Decoder Unit) (past : Cursor → Cursor) (inside : Decoder α) : Decoder α :=
  fun c =>
    match inside c with
    | .error (.loose problem here) => .error (.placed problem (past here).position)
    | .error f => .error f
    | .ok (a, here) =>
      match ending here with
      | .error f => .error f
      | .ok ((), here) => .ok (a, here)

/-- Reads a list from its opening bracket on; `room` says whether another level may be opened. -/
def inList (room : Bool) (inside : Decoder α) : Decoder α :=
  if room then do
    Decoder.eat
    closedBy endList Cursor.pastListEnd inside
  else Decoder.failNext .nestedTooDeeply

/-- Reads an object from its opening bracket on; `room` says whether another level may be opened. -/
def inObject (room : Bool) (inside : Decoder α) : Decoder α :=
  if room then do
    Decoder.eat
    closedBy endObject Cursor.pastObjectEnd inside
  else Decoder.failNext .nestedTooDeeply

/-! ## Lists -/

/-- Whether another item follows; a comma in front of it is passed over. -/
def moreItems (first : Bool) : Decoder Bool := do
  match ← Decoder.token with
  | none => Decoder.failNext .eofList
  | some ']' => return false
  | some c =>
    if first then return true
    else if c = ',' then do
      Decoder.eat
      match ← Decoder.token with
      | none => Decoder.failNext .eofValue
      | some ']' => Decoder.failNext .trailingComma
      | some _ => return true
    else Decoder.failNext .expectedListEnd

/-- Reads items up to the closing bracket. Each takes at least one character, so the text that was
    left at the start bounds their number. -/
def items (item : Decoder α) : (budget : List Char) → (first : Bool) → Decoder (List α)
  | [], _ => Decoder.failNext .eofList
  | _ :: budget, first => do
    if ← moreItems first then
      let a ← item
      let more ← items item budget false
      return a :: more
    else return []

/-- A list of values. -/
def list (room : Bool) (item : Decoder α) : Decoder (List α) := do
  match ← Decoder.token with
  | none => Decoder.failNext .eofValue
  | some '[' => inList room fun c => items item c.rest true c
  | some _ => reject "a sequence"

/-! ## Records -/

/-- A field of a record that is gathered in a value of type `σ`. -/
structure FieldReader (σ : Type) where
  name : String
  /-- Whether a record without the field is refused. -/
  required : Bool
  /-- Whether the field has been read. -/
  seen : σ → Bool
  /-- Reads the field's value. -/
  read : σ → Decoder σ

/-- A field kept as an option, which is `none` until the field has been read. -/
def FieldReader.of (name : String) (required : Bool) (get : σ → Option β) (set : σ → β → σ)
    (value : Decoder β) : FieldReader σ where
  name
  required
  seen := fun s => (get s).isSome
  read := fun s => do return set s (← value)

/-- The form of a record: its fields, in the order in which a list gives them, and what to make of
    them. -/
structure Record (σ α : Type) where
  name : String
  fields : List (FieldReader σ)
  start : σ
  finish : σ → Except Mismatch α

namespace Record

/-- The record as it is expected when there are too few fields. -/
def sized (r : Record σ α) : String :=
  "struct " ++ r.name ++ " with " ++ toString r.fields.length ++
    (if r.fields.length = 1 then " element" else " elements")

/-- The outcome of gathering, as a reader. -/
def finished (r : Record σ α) (s : σ) : Decoder α :=
  match r.finish s with
  | .ok a => pure a
  | .error m => Decoder.fail (.shape m)

/-- Reads the given fields from a list. A field that may be absent may also be missing at the
    end. -/
def positional (r : Record σ α) : (index : Nat) → List (FieldReader σ) → σ → Decoder σ
  | _, [], s => pure s
  | index, f :: more, s => do
    if ← moreItems (index == 0) then
      let s ← f.read s
      r.positional (index + 1) more s
    else if f.required then Decoder.fail (.shape (.wrongLength index r.sized))
    else r.positional (index + 1) more s

/-- Whether another member follows; a comma in front of it is passed over. -/
def moreMembers (first : Bool) : Decoder Bool := do
  let atKey : Decoder Bool := do
    match ← Decoder.token with
    | none => Decoder.failNext .eofValue
    | some '"' => return true
    | some '\x7d' => Decoder.failNext .trailingComma
    | some _ => Decoder.failNext .keyNotString
  match ← Decoder.token with
  | none => Decoder.failNext .eofObject
  | some '\x7d' => return false
  | some c =>
    if first then (if c = '"' then return true else Decoder.failNext .keyNotString)
    else if c = ',' then do
      Decoder.eat
      atKey
    else Decoder.failNext .expectedObjectEnd

/-- Reads one member from its key on. -/
def member (r : Record σ α) (s : σ) : Decoder σ := do
  Decoder.eat
  let key ← stringRest
  match r.fields.find? (·.name == key) with
  | none => do
    colon
    skipValue
    return s
  | some f =>
    if f.seen s then Decoder.fail (.shape (.duplicateField key))
    else do
      colon
      f.read s

/-- Reads members up to the closing bracket. Each takes at least one character, so the text that was
    left at the start bounds their number. -/
def members (r : Record σ α) : (budget : List Char) → (first : Bool) → σ → Decoder σ
  | [], _, _ => Decoder.failNext .eofObject
  | _ :: budget, first, s => do
    if ← moreMembers first then
      let s ← r.member s
      r.members budget false s
    else return s

/-- Reads a record, as an object or as a list. -/
def read (room : Bool) (r : Record σ α) : Decoder α := do
  match ← Decoder.token with
  | none => Decoder.failNext .eofValue
  | some '[' => inList room do r.finished (← r.positional 0 r.fields r.start)
  | some '\x7b' =>
    inObject room do r.finished (← fun c => r.members c.rest true r.start c)
  | some _ => reject ("struct " ++ r.name)

end Record

/-- Turns a value that has been read into another, or refuses it. -/
def checked (check : β → Except TreeError α) (d : Decoder β) : Decoder α := do
  match check (← d) with
  | .ok a => return a
  | .error e => Decoder.fail (.tree e)

/-! ## Variants -/

/-- Reads the opening bracket of a variant and its word. -/
def variantKey (room : Bool) : Decoder String :=
  if room then do
    Decoder.eat
    match ← Decoder.token with
    | none => Decoder.failNext .eofObject
    | some '"' => do
      Decoder.eat
      stringRest
    | some '\x7d' => Decoder.failNext .expectedValue
    | some _ => Decoder.failNext .keyNotString
  else Decoder.failNext .nestedTooDeeply

/-- Reads what a variant carries and its closing bracket. -/
def variantBody (body : Decoder α) : Decoder α := do
  colon
  let a ← body
  match ← Decoder.token with
  | none => Decoder.failHere .eofObject
  | some '\x7d' => do
    Decoder.eat
    return a
  | some _ => Decoder.failHere .expectedValue

/-- Reads a variant. Each known word comes with the value it has when it stands alone, if it may,
    and with the reader of what it carries. -/
def variant (room : Bool) (known : List (String × Option α × Decoder α)) : Decoder α := do
  let lookup (key : String) : Decoder (Option α × Decoder α) :=
    match known.find? (·.1 == key) with
    | some entry => pure entry.2
    | none => Decoder.failHere (.shape (.unknownVariant key (known.map (·.1))))
  match ← Decoder.token with
  | none => Decoder.failNext .eofValue
  | some '"' => do
    Decoder.eat
    match (← lookup (← stringRest)).1 with
    | some a => return a
    | none => Decoder.fail (.shape (.wrongType .unitVariant "newtype variant"))
  | some '\x7b' => do
    let key ← variantKey room
    variantBody (← lookup key).2
  | some _ => Decoder.failNext .expectedValue

/-- A value that is one of a few words. -/
def oneOf (room : Bool) (words : List (String × α)) : Decoder α :=
  variant room <| words.map fun w => (w.1, some w.2, do unit; return w.2)

/-! ## Whole texts -/

/-- The number of levels of lists and objects that a text may have. -/
def maxDepth : Nat := 127

/-- Reads a text that consists of one value. -/
def whole (d : Decoder α) : Decoder α := do
  let a ← d
  match ← Decoder.token with
  | none => return a
  | some _ => Decoder.failNext .trailingCharacters

/-- Reads a text with a reader that is told the number of levels it may open. -/
def decode (d : (depth : Nat) → Decoder α) (text : String) : Except Fault α :=
  match whole (d maxDepth) (.ofString text) with
  | .ok (a, _) => .ok a
  | .error f => .error f

end Json

end SelectorExplain
