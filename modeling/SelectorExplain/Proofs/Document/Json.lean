import SelectorExplain.Document.Json
import SelectorExplain.Proofs.Document.Preorder

set_option autoImplicit false

/-! # A document by its JSON

An element is written with a member for whatever it has, in a fixed order. Whether an optional
member is there can be seen from the key that comes next. So trees are told apart by what they are
written as, and what is written for a document tells its forest. -/

namespace SelectorExplain

/-- No two tags have the same word. -/
theorem Tag.eq_of_word_eq {a b : Tag} (h : a.word = b.word) : a = b := by
  rw [a.word_eq_label, b.word_eq_label] at h
  exact eq_of_label_eq h

namespace Tree

/-- An optional member in front of members with other keys: whether it is there can be seen. -/
theorem optional_append_inj {key : String} {a b : Option JsonValue}
    {r s : List (String × JsonValue)} (hr : ∀ m ∈ r.head?, m.1 ≠ key)
    (hs : ∀ m ∈ s.head?, m.1 ≠ key)
    (h : JsonValue.optional key a ++ r = JsonValue.optional key b ++ s) : a = b ∧ r = s := by
  cases a with
  | none =>
      cases b with
      | none => exact ⟨rfl, h⟩
      | some w =>
          have hfirst : r = (key, w) :: s := h
          exact absurd rfl (hr (key, w) (by rw [hfirst]; rfl))
  | some v =>
      cases b with
      | none =>
          have hfirst : (key, v) :: r = s := h
          exact absurd rfl (hs (key, v) (by rw [← hfirst]; rfl))
      | some w =>
          obtain ⟨hvalue, hrest⟩ := List.cons.inj h
          exact ⟨congrArg some (Prod.mk.inj hvalue).2, hrest⟩

/-- What is written behind the operator of an element. -/
def membersBehind (text : Option String) (children : List Tree) : List (String × JsonValue) :=
  JsonValue.optional "text" (text.map .str) ++ [("children", .arr (toJsonItems children))]

theorem membersBehind_head (text : Option String) (children : List Tree) :
    ∀ m ∈ (membersBehind text children).head?, m.1 ≠ "operator" := by
  intro m hm
  cases text with
  | none =>
      cases hm
      exact (by decide : "children" ≠ "operator")
  | some content =>
      cases hm
      exact (by decide : "text" ≠ "operator")

/-- **Trees are told apart by their JSON.** -/
theorem toJsonItems_inj {ts us : List Tree} (h : toJsonItems ts = toJsonItems us) : ts = us := by
  induction ts using forestInduction generalizing us with
  | nil =>
      cases us with
      | nil => rfl
      | cons u us => cases h
  | cons tag operator text children rest ihChildren ihRest =>
      cases us with
      | nil => cases h
      | cons u us =>
          obtain ⟨tag', operator', text', children'⟩ := u
          obtain ⟨htree, hrest⟩ := List.cons.inj h
          obtain ⟨hword, hmembers⟩ := List.cons.inj (JsonValue.obj.inj htree)
          have htag : tag = tag' := Tag.eq_of_word_eq (JsonValue.str.inj (Prod.mk.inj hword).2)
          obtain ⟨hwords, hbehind⟩ := optional_append_inj (membersBehind_head text children)
            (membersBehind_head text' children') hmembers
          obtain ⟨htexts, hlists⟩ := optional_append_inj (by simp) (by simp) hbehind
          have hname : ∀ a b : Operator, JsonValue.str a.name = JsonValue.str b.name → a = b :=
            fun a b h => Operator.eq_of_name_eq (JsonValue.str.inj h)
          have hoperator : operator = operator' := (Option.map_inj_right hname).1 hwords
          have htext : text = text' := (Option.map_inj_right fun _ _ => JsonValue.str.inj).1 htexts
          have hchildren : children = children' := ihChildren (by simpa using hlists)
          rw [htag, hoperator, htext, hchildren, ihRest hrest]

end Tree

/-- What is written for a document tells its forest. -/
theorem Document.forest_eq_of_toJson_eq {d e : Document} (h : d.toJson = e.toJson) :
    d.forest = e.forest :=
  Tree.toJsonItems_inj (JsonValue.arr.inj h)

end SelectorExplain
