import SelectorExplain.Proofs.Document.Views

set_option autoImplicit false

/-! # Where characters stand in XML

XML is character data, markup, and attribute values, and reading it from the left tells in which of
them a character stands (`Region.next`). The first two end at brackets and the last one at its
quote, and no escaped string has what would end it. So in rendered marks the character data is that
of the texts, and the values are those of the tags (`dataIn_eq`, `valuesIn_eq`). -/

namespace SelectorExplain

namespace Xml

/-! ## Regions -/

/-- Where in a document the next character stands. -/
inductive Region where
  | data
  | markup
  /-- In the value of an attribute, up to the quote that it began with. -/
  | value (quote : Char)
  deriving DecidableEq, Repr

namespace Region

/-- Where the character behind `c` stands. -/
def next : Region → Char → Region
  | data, c => if c = '<' then markup else data
  | markup, c => if c = '>' then data else if c = '"' ∨ c = '\'' then value c else markup
  | value quote, c => if c = quote then markup else value quote

def isData : Region → Bool
  | data => true
  | _ => false

def isValue : Region → Bool
  | value _ => true
  | _ => false

end Region

/-- The characters of a text inside of some regions. Brackets and quotes at their ends are not
    inside. -/
def inside (p : Region → Bool) : Region → List Char → List Char
  | _, [] => []
  | r, c :: rest => (if p r && p (r.next c) then [c] else []) ++ inside p (r.next c) rest

/-- The character data of a text, as it stands there. -/
def dataIn (text : String) : List Char := inside Region.isData .data text.toList

/-- The attribute values of a text, as they stand there. -/
def valuesIn (text : String) : List Char := inside Region.isValue .data text.toList

/-- A run of characters that stays in its region. -/
theorem inside_run (p : Region → Bool) {r : Region} {run : List Char}
    (h : ∀ c ∈ run, r.next c = r) (rest : List Char) :
    inside p r (run ++ rest) = (if p r then run else []) ++ inside p r rest := by
  induction run with
  | nil => simp
  | cons c run ih =>
      have hc : r.next c = r := h c (by simp)
      have hrun := ih fun x hx => h x (by simp [hx])
      rw [List.cons_append, inside, hc, hrun]
      cases p r <;> rfl

/-! ## Marks -/

/-- The attribute values in a mark. -/
def Mark.values : Mark → List String
  | opening _ attributes | void _ attributes => attributes.map (·.2)
  | declaration => ["1.0"]
  | closing _ | text _ => []

theorem data_next_escapeText (s : String) :
    ∀ c ∈ (escapeText s).toList, Region.data.next c = .data := by
  intro c hc
  have hbracket : c ≠ '<' := ne_of_mem_of_not_mem hc (bracket_notMem_escapeText s)
  simp [Region.next, hbracket]

theorem value_next_escapeValue (s : String) :
    ∀ c ∈ (escapeValue s).toList, (Region.value '"').next c = .value '"' := by
  intro c hc
  have hquote : c ≠ '"' := ne_of_mem_of_not_mem hc (quote_notMem_escapeValue s)
  simp [Region.next, hquote]

theorem markup_next_name {s : String} (h : IsName s) :
    ∀ c ∈ s.toList, Region.markup.next c = .markup := by
  intro c hc
  have hname := h.chars c hc
  have hend : c ≠ '>' := by rintro rfl; cases hname
  have hdouble : c ≠ '"' := by rintro rfl; cases hname
  have hsingle : c ≠ '\'' := by rintro rfl; cases hname
  simp [Region.next, hend, hdouble, hsingle]

section

variable {p : Region → Bool} (hp : p .markup = false)

include hp

/-- No character of markup is inside. -/
theorem inside_markup_cons (c : Char) (rest : List Char) :
    inside p .markup (c :: rest) = inside p (Region.markup.next c) rest := by
  simp [inside, hp]

theorem inside_bracket (rest : List Char) :
    inside p .data ('<' :: rest) = inside p .markup rest := by
  simp [inside, Region.next, hp]

theorem inside_quote (rest : List Char) :
    inside p (.value '"') ('"' :: rest) = inside p .markup rest := by
  simp [inside, Region.next, hp]

theorem inside_name {s : String} (h : IsName s) (rest : List Char) :
    inside p .markup (s.toList ++ rest) = inside p .markup rest := by
  rw [inside_run p (markup_next_name h), hp]
  rfl

theorem inside_attributesText {attributes : List (String × String)}
    (h : ∀ a ∈ attributes, IsName a.1) (rest : List Char) :
    inside p .markup ((attributesText attributes).toList ++ rest) =
      (if p (.value '"') then attributes.flatMap fun a => (escapeValue a.2).toList else []) ++
        inside p .markup rest := by
  induction attributes with
  | nil => simp [attributesText]
  | cons a attributes ih =>
      have hmore := ih fun a ha => h a (by simp [ha])
      have hvalue : inside p (.value '"') ((escapeValue a.2).toList ++
          '"' :: ((attributesText attributes).toList ++ rest)) =
          (if p (.value '"') then (escapeValue a.2).toList else []) ++
            inside p .markup ((attributesText attributes).toList ++ rest) := by
        rw [inside_run p (value_next_escapeValue a.2), inside_quote hp]
      calc inside p .markup ((attributesText (a :: attributes)).toList ++ rest)
          = inside p .markup (a.1.toList ++ '=' :: '"' :: ((escapeValue a.2).toList ++
              '"' :: ((attributesText attributes).toList ++ rest))) := by
            rw [toList_attributesText_cons, inside_markup_cons hp]
            rfl
        _ = inside p (.value '"') ((escapeValue a.2).toList ++
              '"' :: ((attributesText attributes).toList ++ rest)) := by
            rw [inside_name hp (h a (by simp)), inside_markup_cons hp]
            show inside p .markup ('"' :: _) = _
            rw [inside_markup_cons hp]
            rfl
        _ = _ := by
            rw [hvalue, hmore]
            cases p (.value '"') <;> simp

/-- Data is that of the texts, and values are those of the tags. -/
theorem inside_mark {m : Mark} (h : m.HasNames) (rest : List Char) :
    inside p .data (m.render.toList ++ rest) =
      (if p .data then (escapeText m.data).toList else []) ++
      (if p (.value '"') then m.values.flatMap fun v => (escapeValue v).toList else []) ++
      inside p .data rest := by
  have hend (rest : List Char) : inside p .markup ('>' :: rest) = inside p .data rest := by
    rw [inside_markup_cons hp]
    rfl
  have hslash (rest : List Char) : inside p .markup ('/' :: rest) = inside p .markup rest := by
    rw [inside_markup_cons hp]
    rfl
  have hempty : escapeText "" = "" := rfl
  cases m with
  | declaration =>
      have hversion : (escapeValue "1.0").toList = ['1', '.', '0'] := by decide
      have hvalue := inside_run p (value_next_escapeValue "1.0") ('"' :: '?' :: '>' :: rest)
      rw [hversion, inside_quote hp] at hvalue
      have hmark : inside p .data (Mark.declaration.render.toList ++ rest) =
          inside p (.value '"') (['1', '.', '0'] ++ '"' :: '?' :: '>' :: rest) := by
        simp [Mark.render, inside_bracket hp, inside_markup_cons hp, Region.next]
      rw [hmark, hvalue]
      simp [Mark.data, Mark.values, hempty, hversion, inside_markup_cons hp, Region.next]
  | opening name attributes =>
      have hrest := inside_attributesText hp h.2 ('>' :: rest)
      simp [Mark.render, inside_bracket hp, inside_name hp h.1, hrest, hend, Mark.data, Mark.values,
        hempty, List.flatMap_map]
  | void name attributes =>
      have hrest := inside_attributesText hp h.2 ('/' :: '>' :: rest)
      simp [Mark.render, inside_bracket hp, inside_name hp h.1, hrest, hslash, hend, Mark.data,
        Mark.values, hempty, List.flatMap_map]
  | closing name =>
      simp [Mark.render, inside_bracket hp, hslash, inside_name hp h, hend, Mark.data, Mark.values,
        hempty]
  | text content =>
      simp [Mark.render, Mark.data, Mark.values, inside_run p (data_next_escapeText content)]

theorem inside_render {marks : List Mark} (h : ∀ m ∈ marks, m.HasNames) :
    inside p .data (render marks) = marks.flatMap fun m =>
      (if p .data then (escapeText m.data).toList else []) ++
        if p (.value '"') then m.values.flatMap fun v => (escapeValue v).toList else [] := by
  induction marks with
  | nil => rfl
  | cons m marks ih =>
      rw [render_cons, inside_mark hp (h m (by simp)), ih fun x hx => h x (by simp [hx]),
        List.flatMap_cons]

end

section

variable {marks : List Mark} (h : ∀ m ∈ marks, m.HasNames) {text : String}
  (htext : text.toList = render marks)

include h htext

theorem dataIn_eq : dataIn text = marks.flatMap fun m => (escapeText m.data).toList := by
  rw [dataIn, htext, inside_render rfl h]
  simp [Region.isData]

theorem valuesIn_eq :
    valuesIn text = marks.flatMap fun m => m.values.flatMap fun v => (escapeValue v).toList := by
  rw [valuesIn, htext, inside_render rfl h]
  simp [Region.isValue]

end

end Xml

end SelectorExplain
