import SelectorExplain.Document.Xml

set_option autoImplicit false

/-! # Reading XML

A reader for documents that have been written as XML. It goes from characters to marks (`scan`),
from marks to nested items (`nest`), and from items to the elements they stand for (`elements`). The
last step keeps the character data inside text elements and drops all other.

`nest` keeps a stack of open elements and refuses an end tag that does not close the innermost one,
so the tags of whatever it accepts are balanced (`balanced_of_nest`). -/

namespace SelectorExplain

namespace Xml

/-! ## Characters -/

/-- Replaces entities by what they stand for. -/
def unescape : List Char → Option (List Char)
  | [] => some []
  | '&' :: 'a' :: 'm' :: 'p' :: ';' :: rest => (unescape rest).map ('&' :: ·)
  | '&' :: 'l' :: 't' :: ';' :: rest => (unescape rest).map ('<' :: ·)
  | '&' :: 'g' :: 't' :: ';' :: rest => (unescape rest).map ('>' :: ·)
  | '&' :: 'a' :: 'p' :: 'o' :: 's' :: ';' :: rest => (unescape rest).map ('\'' :: ·)
  | '&' :: 'q' :: 'u' :: 'o' :: 't' :: ';' :: rest => (unescape rest).map ('"' :: ·)
  | '&' :: _ => none
  | c :: rest => (unescape rest).map (c :: ·)

/-- The characters that names are made of. -/
def isNameChar (c : Char) : Bool := c.isAlphanum || c ∈ ['-', '_', ':', '.']

/-- The characters that may stand between the parts of a tag. -/
def isBlank (c : Char) : Bool := c ∈ [' ', '\n', '\t', '\r']

/-! ## Tags -/

/-- Reads a name. -/
def name (text : List Char) : Option (String × List Char) :=
  match text.takeWhile isNameChar with
  | [] => none
  | run => some (.ofList run, text.dropWhile isNameChar)

/-- Reads a name and the value that is given to it. -/
def assignment (text : List Char) : Option ((String × String) × List Char) := do
  let (name, rest) ← name text
  match rest with
  | '=' :: '"' :: rest => do
    let value ← unescape (rest.takeWhile (· != '"'))
    match rest.dropWhile (· != '"') with
    | [] => none
    | _ :: rest => some ((name, .ofList value), rest)
  | _ => none

/-- Reads attributes up to the end of a tag and says whether the tag is an empty one. Each attribute
    takes at least one character, so the text bounds their number. -/
def attributesWithin : (budget : List Char) → (text : List Char) →
    Option (List (String × String) × Bool × List Char)
  | [], _ => none
  | _ :: budget, text =>
    match text.dropWhile isBlank with
    | '>' :: rest => some ([], false, rest)
    | '/' :: '>' :: rest => some ([], true, rest)
    | start => do
      let (a, rest) ← assignment start
      let (more, isVoid, rest) ← attributesWithin budget rest
      return (a :: more, isVoid, rest)

/-- Passes over a declaration. -/
def pastDeclaration : List Char → Option (List Char)
  | [] => none
  | '?' :: '>' :: rest => some rest
  | _ :: rest => pastDeclaration rest

/-- Reads a tag or a declaration from behind its opening bracket. -/
def tag (text : List Char) : Option (Mark × List Char) :=
  match text with
  | '?' :: rest => (pastDeclaration rest).map (Mark.declaration, ·)
  | '/' :: rest => do
    let (name, rest) ← name rest
    match rest.dropWhile isBlank with
    | '>' :: rest => some (.closing name, rest)
    | _ => none
  | text => do
    let (name, rest) ← name text
    let (attributes, isVoid, rest) ← attributesWithin rest rest
    return (if isVoid then .void name attributes else .opening name attributes, rest)

/-- Reads marks: tags, and the character data between them. Each mark takes at least one character,
    so the text bounds their number. -/
def scanWithin : (budget : List Char) → (text : List Char) → Option (List Mark)
  | _, [] => some []
  | [], _ :: _ => none
  | _ :: budget, '<' :: text => do
    let (mark, rest) ← tag text
    return mark :: (← scanWithin budget rest)
  | _ :: budget, text => do
    let content ← unescape (text.takeWhile (· != '<'))
    return .text (.ofList content) :: (← scanWithin budget (text.dropWhile (· != '<')))

/-- The marks of a text. -/
def scan (text : String) : Option (List Mark) := scanWithin text.toList text.toList

/-! ## Nesting -/

/-- Character data, or an element with what is inside. -/
inductive Item where
  | data (content : String)
  | element (name : String) (attributes : List (String × String)) (content : List Item)
  deriving Repr

/-- An element whose end has not been read, and what stands before it. -/
structure Open where
  name : String
  attributes : List (String × String)
  before : List Item

/-- Reads items up to the end of the marks, given the open elements, the innermost first, and what
    has been read inside that one. -/
def nest : (stack : List Open) → (inside : List Item) → List Mark → Option (List Item)
  | [], inside, [] => some inside
  | _ :: _, _, [] => none
  | stack, inside, .text content :: rest => nest stack (inside ++ [.data content]) rest
  | stack, inside, .void name attributes :: rest =>
    nest stack (inside ++ [.element name attributes []]) rest
  | stack, inside, .opening name attributes :: rest =>
    nest (⟨name, attributes, inside⟩ :: stack) [] rest
  | o :: stack, inside, .closing name :: rest =>
    if o.name = name then nest stack (o.before ++ [.element name o.attributes inside]) rest
    else none
  | [], _, .closing _ :: _ => none
  | _, _, .declaration :: _ => none

/-- Marks without the declaration that may come first. -/
def body : List Mark → List Mark
  | .declaration :: rest => rest
  | marks => marks

/-- Tags are balanced and properly nested. -/
inductive Balanced : List Mark → Prop
  | nil : Balanced []
  | text (content : String) {rest : List Mark} (hrest : Balanced rest) :
      Balanced (.text content :: rest)
  | void (name : String) (attributes : List (String × String)) {rest : List Mark}
      (hrest : Balanced rest) : Balanced (.void name attributes :: rest)
  | element (name : String) (attributes : List (String × String)) {inside rest : List Mark}
      (hinside : Balanced inside) (hrest : Balanced rest) :
      Balanced (.opening name attributes :: (inside ++ .closing name :: rest))

/-- Marks that close the open elements one after the other. -/
def Closes : (stack : List Open) → List Mark → Prop
  | [], marks => Balanced marks
  | o :: stack, marks => ∃ inside rest, marks = inside ++ .closing o.name :: rest ∧
      Balanced inside ∧ Closes stack rest

/-- Balanced marks may come first. -/
theorem Closes.behind {stack : List Open} {marks : List Mark} (h : Closes stack marks)
    (before : List Mark) (hbefore : ∀ {rest}, Balanced rest → Balanced (before ++ rest)) :
    Closes stack (before ++ marks) := by
  cases stack with
  | nil => exact hbefore h
  | cons o stack =>
      obtain ⟨inside, rest, rfl, hinside, hrest⟩ := h
      exact ⟨before ++ inside, rest, by simp, hbefore hinside, hrest⟩

theorem closes_of_nest {marks : List Mark} {stack : List Open} {inside items : List Item}
    (h : nest stack inside marks = some items) : Closes stack marks := by
  induction marks generalizing stack inside with
  | nil =>
      cases stack with
      | nil => exact .nil
      | cons o stack => cases h
  | cons m marks ih =>
      cases m with
      | declaration => simp [nest] at h
      | text content =>
          rw [nest] at h
          exact (ih h).behind [.text content] (Balanced.text content)
      | void name attributes =>
          rw [nest] at h
          exact (ih h).behind [.void name attributes] (Balanced.void name attributes)
      | opening name attributes =>
          rw [nest] at h
          -- the new element is closed first, and what is behind its end closes the others
          obtain ⟨inside, rest, rfl, hinside, hrest⟩ := ih h
          have hbehind := hrest.behind (.opening name attributes :: (inside ++ [.closing name]))
            fun hmore => by simpa using Balanced.element name attributes hinside hmore
          simpa using hbehind
      | closing name =>
          cases stack with
          | nil => simp [nest] at h
          | cons o stack =>
              rw [nest] at h
              split at h
              · next hname => exact ⟨[], marks, by rw [hname]; rfl, .nil, ih h⟩
              · cases h

/-- Only balanced tags make items. -/
theorem balanced_of_nest {marks : List Mark} {items : List Item}
    (h : nest [] [] marks = some items) : Balanced marks :=
  closes_of_nest h

/-! ## Elements -/

/-- A tree whose elements say which namespace they declare. -/
inductive Declared where
  | node (space : Option String) (tag : Tag) (operator : Option Operator) (text : Option String)
    (children : List Declared)
  deriving Repr

/-- The operator that an element's attributes name, if they name one. -/
def operator? (attributes : List (String × String)) : Option (Option Operator) :=
  match attributes.lookup "operator" with
  | none => some none
  | some word => (Operator.ofName? word).map some

/-- The character data that stands directly inside an element. -/
def dataOf (content : List Item) : String :=
  String.join <| content.map fun item => match item with
    | .data s => s
    | .element .. => ""

mutual

/-- The element that an item stands for. Character data on its own is dropped. -/
def element : Item → Option (List Declared)
  | .data _ => some []
  | .element name attributes content => do
    let tag ← Tag.ofLabel? name
    let operator ← operator? attributes
    let children ← elements content
    let text := if tag = .text then some (dataOf content) else none
    return [.node (attributes.lookup "xmlns") tag operator text children]

/-- The elements that items stand for. -/
def elements : List Item → Option (List Declared)
  | [] => some []
  | item :: rest => do return (← element item) ++ (← elements rest)

end

/-- The elements in a text. -/
def read (text : String) : Option (List Declared) := do
  let marks ← scan text
  let items ← nest [] [] (body marks)
  elements items

mutual

/-- A tree whose root declares a namespace, or none, and nothing below it does. -/
def declare (space : Option String) : Tree → Declared
  | .node tag operator text children => .node space tag operator text (declareForest none children)

/-- Trees whose roots all declare a namespace, or none. -/
def declareForest (space : Option String) : List Tree → List Declared
  | [] => []
  | t :: rest => declare space t :: declareForest space rest

end

end Xml

end SelectorExplain
