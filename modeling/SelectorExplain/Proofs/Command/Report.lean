import SelectorExplain.Proofs.Json.Natural
import SelectorExplain.Proofs.Json.Records
import SelectorExplain.Response

set_option autoImplicit false

/-! # Reports of failures

A report is read back from its text as it was (`ErrorResponse.decode_emit`), whatever its message.
It has the same lines for all failures, but for the code and the message in them, and the message
does not get out of its line: what stands between its quotes has no control characters
(`visible_quote`). The code and the message of each kind of failure are listed in
`Failure.Described`. -/

namespace SelectorExplain

open Json

/-! ## Lines -/

/-- Without control characters. -/
def Visible (s : String) : Prop := ∀ c ∈ s.toList, 32 ≤ c.toNat

instance (s : String) : Decidable (Visible s) :=
  List.decidableBAll (fun c : Char => 32 ≤ c.toNat) s.toList

theorem Visible.append {s t : String} (hs : Visible s) (ht : Visible t) : Visible (s ++ t) := by
  intro c hc
  rw [String.toList_append, List.mem_append] at hc
  exact hc.elim (hs c) (ht c)

theorem visible_of_escaped? {e c : Char} (h : escaped? e = some c) : 32 ≤ e.toNat := by
  unfold escaped? at h
  split at h
  iterate 8 decide
  cases h

theorem visible_escapeChar (c : Char) : ∀ e ∈ JsonValue.escapeChar c, 32 ≤ e.toNat := by
  have hdigit : ∀ n < 32, 32 ≤ (JsonValue.hexDigit (n / 16)).toNat ∧
      32 ≤ (JsonValue.hexDigit (n % 16)).toNat := by decide
  intro e he
  rcases escapeChar_cases c with ⟨h, -, -, hc⟩ | ⟨letter, h, hletter⟩ | ⟨hc, h⟩
  · rw [h, List.mem_singleton] at he
    rw [he]
    exact Nat.not_lt.1 hc
  · rw [h] at he
    simp only [List.mem_cons, List.not_mem_nil, or_false] at he
    rcases he with rfl | rfl
    · decide
    · exact visible_of_escaped? hletter
  · rw [h] at he
    have hdigits := hdigit c.toNat hc
    simp only [List.mem_cons, List.not_mem_nil, or_false] at he
    rcases he with rfl | rfl | rfl | rfl | rfl | rfl
    · decide
    · decide
    · decide
    · decide
    · exact hdigits.1
    · exact hdigits.2

/-- Control characters are always escaped. -/
theorem visible_quote (s : String) : Visible (JsonValue.quote s) := by
  intro c hc
  rw [toList_quote, quoted, List.mem_cons, List.mem_append, List.mem_flatMap] at hc
  rcases hc with rfl | ⟨c', -, hc⟩ | hc
  · decide
  · exact visible_escapeChar c' c hc
  · rw [List.mem_singleton.1 hc]
    decide

theorem visible_toString (n : Nat) : Visible (toString n) := by
  intro c hc
  have hdigit := isDigit_of_mem_toString hc
  simp only [Char.isDigit, Bool.and_eq_true, decide_eq_true_eq] at hdigit
  exact Nat.le_trans (by decide) (UInt32.le_iff_toNat_le.1 hdigit.1)

theorem eq_or_mem_of_mem_intersperse {α : Type} {separator a : α} :
    ∀ {l : List α}, a ∈ l.intersperse separator → a = separator ∨ a ∈ l
  | [], h | [_], h => .inr h
  | x :: y :: l, h => by
      rw [List.intersperse_cons_cons, List.mem_cons, List.mem_cons] at h
      rcases h with rfl | rfl | h
      · exact .inr List.mem_cons_self
      · exact .inl rfl
      · exact (eq_or_mem_of_mem_intersperse h).imp_right (List.mem_cons_of_mem x)

/-! ## Reading reports back -/

def ErrorInfo.fields (e : ErrorInfo) : List FieldText :=
  [.required "code" (· = (toString e.code.toNat).toList), .required "message" (StringText e.message)]

/-- The texts of what has gone wrong. -/
def ErrorInfo.Spelled (e : ErrorInfo) : List Char → Prop := RecordText e.fields

def ErrorResponse.fields (r : ErrorResponse) : List FieldText :=
  [.required "status" (StringText r.status), .required "schema_version" (StringText r.schemaVersion),
    .required "error" r.error.Spelled]

/-- The texts of a report, without blanks around it. -/
def ErrorResponse.Spelled (r : ErrorResponse) : List Char → Prop := RecordText r.fields

theorem stringText_prettyAt (s : String) (level : Nat) :
    StringText s ((JsonValue.str s).prettyAt level).toList := by
  rw [JsonValue.prettyAt, toList_quote]
  exact stringText_quoted s

theorem prettyAt_nat (n level : Nat) : (JsonValue.nat n).prettyAt level = toString n := by
  rw [JsonValue.prettyAt]

theorem ErrorInfo.spelled_prettyAt (e : ErrorInfo) (level : Nat) :
    e.Spelled (e.toJson.prettyAt level).toList := by
  refine recordText_prettyAt (by simp) level ?_
  refine .field (denotes_escaped _) (congrArg String.toList (prettyAt_nat _ _)) ?_
  exact .field (denotes_escaped _) (stringText_prettyAt _ _) .nil

theorem ErrorResponse.spelled_pretty (r : ErrorResponse) : r.Spelled r.toJson.pretty.toList := by
  refine recordText_prettyAt (by simp) 0 ?_
  refine .field (denotes_escaped _) (stringText_prettyAt _ _) ?_
  refine .field (denotes_escaped _) (stringText_prettyAt _ _) ?_
  exact .field (denotes_escaped _) (r.error.spelled_prettyAt _) .nil

theorem ErrorInfo.readsRecord (e : ErrorInfo) :
    ReadsRecord errorInfoRecord e.fields
      (fun names => ⟨kept "code" e.code.toNat names, kept "message" e.message names⟩) e where
  start := rfl
  names := by simp [fields]
  reads := by
    have hcode : e.code.toNat < Nat.pow 2 8 := e.code.toNat_lt
    refine .cons (readsField_of_gives ?_ ?_ (fun _ => rfl) fun names => ?_)
      (.cons (readsField_required (accepts_string _) (fun _ => rfl) fun names => ?_) .nil)
    · rintro _ rfl
      exact (Spells.nat _).startsItem
    · rintro _ w rfl hw
      exact gives_natural (Nat.lt_trans hcode (by decide)) hcode _ hw
    all_goals simp [kept_cons_of_ne]
  finish := by
    intro names h
    obtain ⟨hcode, hmessage⟩ : "code" ∈ names ∧ "message" ∈ names := by simpa [fields] using h
    simp only [errorInfoRecord, kept_of_mem hcode, kept_of_mem hmessage, UInt8.ofNat_toNat]

theorem ErrorResponse.readsRecord (r : ErrorResponse) (depth : Nat) :
    ReadsRecord (errorResponseRecord (depth + 1)) r.fields
      (fun names => ⟨kept "status" r.status names, kept "schema_version" r.schemaVersion names,
        kept "error" r.error names⟩) r where
  start := rfl
  names := by simp [fields]
  reads := by
    refine .cons (readsField_required (accepts_string _) (fun _ => rfl) fun names => ?_)
      (.cons (readsField_required (accepts_string _) (fun _ => rfl) fun names => ?_)
        (.cons (readsField_required r.error.readsRecord.accepts (fun _ => rfl) fun names => ?_)
          .nil))
    all_goals simp [kept_cons_of_ne]
  finish := by
    intro names h
    obtain ⟨hstatus, hversion, herror⟩ :
        "status" ∈ names ∧ "schema_version" ∈ names ∧ "error" ∈ names := by
      simpa [fields] using h
    simp only [errorResponseRecord, kept_of_mem hstatus, kept_of_mem hversion, kept_of_mem herror]

theorem ErrorResponse.accepts_decoder (r : ErrorResponse) :
    Accepts (decoder maxDepth) r.Spelled r :=
  (r.readsRecord 125).accepts

/-- A report is read back as it was. -/
theorem ErrorResponse.decode_emit (r : ErrorResponse) :
    decode ErrorResponse.decoder r.toJson.emit = .ok r := by
  have hread := r.accepts_decoder.gives r.spelled_pretty blanks_nil
  rw [List.nil_append] at hread
  refine decode_ok_blanks ?_ (blanks_line 0) hread
  rw [JsonValue.emit, String.toList_append]
  rfl

/-! ## The text of a report -/

/-- The lines of a report; the message stands between quotes on one of them. -/
def ErrorResponse.lines (r : ErrorResponse) : List String :=
  ["\x7b",
    "  \"status\": " ++ JsonValue.quote r.status ++ ",",
    "  \"schema_version\": " ++ JsonValue.quote r.schemaVersion ++ ",",
    "  \"error\": \x7b",
    "    \"code\": " ++ toString r.error.code.toNat ++ ",",
    "    \"message\": " ++ JsonValue.quote r.error.message,
    "  \x7d",
    "\x7d"]

theorem ErrorResponse.visible_lines (r : ErrorResponse) : ∀ l ∈ r.lines, Visible l := by
  have hquoted : ∀ before text, Visible before → Visible (before ++ JsonValue.quote text) :=
    fun _ _ hbefore => hbefore.append (visible_quote _)
  have hcomma : Visible "," := by decide
  unfold lines
  simp only [List.forall_mem_cons, List.not_mem_nil]
  refine ⟨by decide, ?_, ?_, by decide, ?_, ?_, by decide, by decide, nofun⟩
  · exact (hquoted _ _ (by decide)).append hcomma
  · exact (hquoted _ _ (by decide)).append hcomma
  · exact (Visible.append (by decide) (visible_toString _)).append hcomma
  · exact hquoted _ _ (by decide)

/-- A line break stands behind each line of a report, the last one included. -/
theorem ErrorResponse.toList_emit (r : ErrorResponse) :
    r.toJson.emit.toList = ['\n'].intercalate ((r.lines ++ [""]).map String.toList) := by
  have hlines : JsonValue.line 0 = "\n" ∧ JsonValue.line 1 = "\n  " ∧
      JsonValue.line 2 = "\n    " := by decide
  have hstatus : JsonValue.quote "status" = "\"status\"" := by decide
  have hversion : JsonValue.quote "schema_version" = "\"schema_version\"" := by decide
  have herror : JsonValue.quote "error" = "\"error\"" := by decide
  have hcode : JsonValue.quote "code" = "\"code\"" := by decide
  have hmessage : JsonValue.quote "message" = "\"message\"" := by decide
  simp [JsonValue.emit, JsonValue.pretty, toJson, ErrorInfo.toJson, JsonValue.prettyAt,
    JsonValue.prettyMembers, lines, hstatus, hversion, herror, hcode, hmessage, hlines,
    List.intercalate]

/-- The only control characters in a report are the line breaks behind its lines. -/
theorem ErrorResponse.visible_emit (r : ErrorResponse) :
    ∀ c ∈ r.toJson.emit.toList, c = '\n' ∨ 32 ≤ c.toNat := by
  intro c hc
  rw [r.toList_emit, List.intercalate, List.mem_flatten] at hc
  obtain ⟨l, hl, hc⟩ := hc
  rcases eq_or_mem_of_mem_intersperse hl with rfl | hl
  · exact .inl (List.mem_singleton.1 hc)
  · obtain ⟨line, hline, rfl⟩ := List.mem_map.1 hl
    rcases List.mem_append.1 hline with hline | hline
    · exact .inr (r.visible_lines line hline c hc)
    · rw [List.mem_singleton.1 hline] at hc
      cases hc

/-- Splitting a report at its line breaks gives its lines, and nothing behind the last. -/
theorem ErrorResponse.splitOn_emit (r : ErrorResponse) :
    r.toJson.emit.toList.splitOn '\n' = (r.lines ++ [""]).map String.toList := by
  rw [r.toList_emit]
  refine List.splitOn_intercalate _ ?_ (by simp)
  simp only [List.forall_mem_map, List.forall_mem_append, List.forall_mem_singleton]
  refine ⟨fun l hl hbreak => ?_, by decide⟩
  exact absurd (r.visible_lines l hl _ hbreak) (by decide)

/-! ## What a report says

The code and the words for each kind of failure. -/

/-- The words for a kind of node. -/
inductive NodeKind.Named : NodeKind → String → Prop
  | group : Named .group "selector group"
  | sequence : Named .sequence "selector sequence"
  | descendant : Named (.combinator .descendant) "descendant combinator"
  | child : Named (.combinator .child) "child combinator"
  | follower : Named (.combinator .follower) "follower combinator"
  | next : Named (.combinator .next) "next combinator"
  | universal : Named (.simple .universal) "universal selector"
  | type : Named (.simple .type) "type selector"
  | id : Named (.simple .id) "id selector"
  | className : Named (.simple .className) "class selector"
  | attr : Named (.simple .attr) "attribute selector"

/-- What the explainer's errors say. -/
inductive ExplainError.Worded : ExplainError → String → Prop
  | notCleared :
      Worded .notCleared "explain document already holds a rendered selector, clear it first"
  | unsupported {kind : NodeKind} {words : String} (h : kind.Named words) :
      Worded (.unsupported kind) ("explain cannot render a " ++ words)
  | unbalancedLeave {kind : NodeKind} {words : String} (h : kind.Named words) :
      Worded (.unbalancedLeave kind) ("unbalanced leave of " ++ words ++ ": no open element")
  | xml (reason : String) : Worded (.xml reason) ("failed to write explain document: " ++ reason)

/-- The code of a failure and what it says. -/
inductive Failure.Described : Failure → UInt8 → String → Prop
  | invalidArguments (reason : String) :
      Described (.invalidArguments reason) 2 ("invalid arguments: " ++ reason)
  | invalidInput (reason : String) :
      Described (.invalidInput reason) 3 ("invalid selector tree: " ++ reason)
  | config (reason : String) : Described (.config reason) 2 ("config error: " ++ reason)
  | explain {e : ExplainError} {words : String} (h : e.Worded words) :
      Described (.explain e) 4 ("explain failed: " ++ words)
  | io (reason : String) : Described (.io reason) 10 ("i/o error: " ++ reason)
  | internal (reason : String) : Described (.internal reason) 10 ("internal error: " ++ reason)

theorem NodeKind.named (kind : NodeKind) : kind.Named kind.description := by
  cases kind with
  | group => exact .group
  | sequence => exact .sequence
  | combinator kind =>
      cases kind with
      | descendant => exact .descendant
      | child => exact .child
      | follower => exact .follower
      | next => exact .next
  | simple kind =>
      cases kind with
      | universal => exact .universal
      | type => exact .type
      | id => exact .id
      | className => exact .className
      | attr => exact .attr

theorem ExplainError.worded (e : ExplainError) : e.Worded e.message := by
  cases e with
  | notCleared => exact .notCleared
  | unsupported kind => exact .unsupported kind.named
  | unbalancedLeave kind => exact .unbalancedLeave kind.named
  | xml reason => exact .xml reason

theorem Failure.described (f : Failure) : f.Described f.code.number f.message := by
  cases f with
  | invalidArguments reason => exact .invalidArguments reason
  | invalidInput reason => exact .invalidInput reason
  | config reason => exact .config reason
  | explain e => exact .explain e.worded
  | io reason => exact .io reason
  | internal reason => exact .internal reason

/-- What is printed of a failure. -/
def Failure.report (f : Failure) : String := (ErrorResponse.ofFailure f).toJson.emit

/-- **A failure is reported so that it can be read back**, whatever characters are in its message:
    the bytes that are printed are text, and the text decodes to the report of the failure, with
    the code of its kind and its words in full. The report has no control characters but the line
    breaks behind its lines; these are the same for all failures except where the code and the
    quoted message stand. -/
theorem Failure.decode_report (f : Failure) :
    ∃ code message, f.Described code message ∧
      String.fromUTF8? f.report.toByteArray = some f.report ∧
      decode ErrorResponse.decoder f.report = .ok (.ofFailure f) ∧
      ErrorResponse.ofFailure f = ⟨"error", "1", ⟨code, message⟩⟩ ∧
      (∀ c ∈ f.report.toList, c = '\n' ∨ 32 ≤ c.toNat) ∧
      f.report.toList.splitOn '\n' = List.map String.toList
        ["\x7b",
          "  \"status\": \"error\",",
          "  \"schema_version\": \"1\",",
          "  \"error\": \x7b",
          "    \"code\": " ++ toString code.toNat ++ ",",
          "    \"message\": " ++ JsonValue.quote message,
          "  \x7d",
          "\x7d",
          ""] := by
  refine ⟨f.code.number, f.message, f.described, fromUTF8?_toByteArray _,
    ErrorResponse.decode_emit _, rfl, ErrorResponse.visible_emit _, ?_⟩
  have hstatus : "  \"status\": " ++ JsonValue.quote "error" ++ "," =
      "  \"status\": \"error\"," := by decide
  have hversion : "  \"schema_version\": " ++ JsonValue.quote "1" ++ "," =
      "  \"schema_version\": \"1\"," := by decide
  rw [← hstatus, ← hversion]
  exact ErrorResponse.splitOn_emit _

end SelectorExplain
