import SelectorExplain.Json.Decoder

set_option autoImplicit false

/-! # Reading selector trees from JSON

Readers for every type of `Selector/Basic.lean`. They accept the canonical spelling of
`Selector/Json.lean` and all the freedom that `Json/Decoder.lean` gives. Sequences and attribute
selectors are read part by part and then checked, so whatever is read is a well-formed tree.

`depth` is the number of levels of brackets that may still be opened. A sequence takes one and its
combinator another, so it also bounds the chain. -/

namespace SelectorExplain

open Json (Decoder Record)

/-! ## Words -/

def Operator.decoder (depth : Nat) : Decoder Operator :=
  Json.oneOf (0 < depth) (all.map fun op => (op.name, op))

def CombinatorKind.decoder (depth : Nat) : Decoder CombinatorKind :=
  Json.oneOf (0 < depth) (all.map fun kind => (kind.name, kind))

/-! ## Simple selectors -/

/-- What has been read of a universal selector. -/
abbrev UniversalFields := Option (Option String)

def universalRecord : Record UniversalFields (Option String) where
  name := "UniversalSelector"
  fields := [.of "namespace_prefix" false id (fun _ v => some v) (Json.option Json.string)]
  start := none
  finish := fun s => .ok s.join

/-- What has been read of a type selector. -/
structure TypeFields where
  name : Option String := none
  space : Option (Option String) := none

def typeRecord : Record TypeFields (String × Option String) where
  name := "TypeSelector"
  fields :=
    [.of "element_name" true (·.name) (fun s v => { s with name := some v }) Json.string,
      .of "namespace_prefix" false (·.space) (fun s v => { s with space := some v })
        (Json.option Json.string)]
  start := {}
  finish := fun s => match s.name with
    | none => .error (.missingField "element_name")
    | some name => .ok (name, s.space.join)

/-- A record with one name in it. -/
def nameRecord (record field : String) : Record (Option String) String where
  name := record
  fields := [.of field true id (fun _ v => some v) Json.string]
  start := none
  finish := fun s => match s with
    | none => .error (.missingField field)
    | some name => .ok name

/-- What has been read of an attribute selector. -/
structure AttributeFields where
  name : Option String := none
  operator : Option Operator := none
  literal : Option (Option String) := none

def attributeRecord (depth : Nat) : Record AttributeFields (String × Operator × Option String) where
  name := "RawAttribute"
  fields :=
    [.of "name" true (·.name) (fun s v => { s with name := some v }) Json.string,
      .of "operator" true (·.operator) (fun s v => { s with operator := some v })
        (Operator.decoder depth),
      .of "literal" false (·.literal) (fun s v => { s with literal := some v })
        (Json.option Json.string)]
  start := {}
  finish := fun s => match s.name, s.operator with
    | none, _ => .error (.missingField "name")
    | _, none => .error (.missingField "operator")
    | some name, some operator => .ok (name, operator, s.literal.join)

namespace Simple

def universalDecoder (depth : Nat) : Decoder Simple :=
  universal <$> universalRecord.read (0 < depth)

def typeDecoder (depth : Nat) : Decoder Simple :=
  (fun t => type t.1 t.2) <$> typeRecord.read (0 < depth)

def idDecoder (depth : Nat) : Decoder Simple :=
  id <$> (nameRecord "IdSelector" "id").read (0 < depth)

def classDecoder (depth : Nat) : Decoder Simple :=
  className <$> (nameRecord "ClassSelector" "class_name").read (0 < depth)

end Simple

def Attribute.decoder (depth : Nat) : Decoder Attribute :=
  Json.checked (fun a => Attribute.ofParts a.1 a.2.1 a.2.2)
    ((attributeRecord (depth - 1)).read (0 < depth))

/-- A simple selector is a variant, which takes one level for itself. -/
def Simple.decoder (depth : Nat) : Decoder Simple :=
  let inner := depth - 1
  Json.variant (0 < depth)
    [("universal", none, universalDecoder inner),
      ("type", none, typeDecoder inner),
      ("id", none, idDecoder inner),
      ("class_name", none, classDecoder inner),
      ("attribute", none, attr <$> Attribute.decoder inner)]

/-! ## Sequences and combinators -/

/-- What has been read of a sequence. -/
structure SequenceFields where
  simples : Option (List Simple) := none
  combinator : Option (Option Combinator) := none

/-- The record of a sequence, given how a combinator inside it is read. -/
def sequenceRecord (depth : Nat) (combinator : Decoder Combinator) :
    Record SequenceFields (List Simple × Option Combinator) where
  name := "RawSequence"
  fields :=
    [.of "simples" true (·.simples) (fun s v => { s with simples := some v })
        (Json.list (0 < depth) (Simple.decoder (depth - 1))),
      .of "combinator" false (·.combinator) (fun s v => { s with combinator := some v })
        (Json.option combinator)]
  start := {}
  finish := fun s => match s.simples with
    | none => .error (.missingField "simples")
    | some simples => .ok (simples, s.combinator.join)

/-- What has been read of a combinator. -/
structure CombinatorFields where
  kind : Option CombinatorKind := none
  target : Option Sequence := none

/-- The record of a combinator, given how the sequence inside it is read. -/
def combinatorRecord (depth : Nat) (target : Decoder Sequence) :
    Record CombinatorFields Combinator where
  name := "Combinator"
  fields :=
    [.of "kind" true (·.kind) (fun s v => { s with kind := some v })
        (CombinatorKind.decoder depth),
      .of "sequence" true (·.target) (fun s v => { s with target := some v }) target]
  start := {}
  finish := fun s => match s.kind, s.target with
    | none, _ => .error (.missingField "kind")
    | _, none => .error (.missingField "sequence")
    | some kind, some target => .ok ⟨kind, target⟩

/-- Reads a sequence, given how a combinator inside it is read. -/
def Sequence.decoderWith (room : Bool) (depth : Nat) (combinator : Decoder Combinator) :
    Decoder Sequence :=
  Json.checked (fun s => Sequence.checkParts s.1 s.2) ((sequenceRecord depth combinator).read room)

mutual

/-- Reads a sequence. At the limit there is no room for its brackets, so nothing is read inside. -/
def Sequence.decoder : (depth : Nat) → Decoder Sequence
  | 0 => Sequence.decoderWith false 0 (Decoder.fail .nestedTooDeeply)
  | depth + 1 => Sequence.decoderWith true depth (Combinator.decoder depth)

/-- Reads a combinator. At the limit there is no room for its brackets either. -/
def Combinator.decoder : (depth : Nat) → Decoder Combinator
  | 0 => (combinatorRecord 0 (Decoder.fail .nestedTooDeeply)).read false
  | depth + 1 => (combinatorRecord depth (Sequence.decoder depth)).read true

end

/-- A sequence is read as a record. Inside it there is room for a combinator, unless there is not
    even room for its own brackets. -/
theorem Sequence.decoder_eq (depth : Nat) :
    ∃ combinator, decoder depth = decoderWith (0 < depth) (depth - 1) combinator ∧
      (0 < depth → combinator = Combinator.decoder (depth - 1)) := by
  cases depth with
  | zero => exact ⟨_, rfl, fun h => absurd h (Nat.lt_irrefl 0)⟩
  | succ depth => exact ⟨Combinator.decoder depth, rfl, fun _ => rfl⟩

/-- A combinator is read as a record, and so is the sequence inside it. -/
theorem Combinator.decoder_eq (depth : Nat) :
    ∃ target, decoder depth = (combinatorRecord (depth - 1) target).read (0 < depth) ∧
      (0 < depth → target = Sequence.decoder (depth - 1)) := by
  cases depth with
  | zero => exact ⟨_, rfl, fun h => absurd h (Nat.lt_irrefl 0)⟩
  | succ depth => exact ⟨Sequence.decoder depth, rfl, fun _ => rfl⟩

/-! ## Groups -/

def groupRecord (depth : Nat) : Record (Option (List Sequence)) Group where
  name := "SelectorGroup"
  fields :=
    [.of "sequences" true id (fun _ v => some v)
      (Json.list (0 < depth) (Sequence.decoder (depth - 1)))]
  start := none
  finish := fun s => match s with
    | none => .error (.missingField "sequences")
    | some sequences => .ok ⟨sequences⟩

def Group.decoder (depth : Nat) : Decoder Group := (groupRecord (depth - 1)).read (0 < depth)

/-- Reads a group from a JSON text. -/
def Group.ofJson (text : String) : Except Json.Fault Group := Json.decode Group.decoder text

end SelectorExplain
