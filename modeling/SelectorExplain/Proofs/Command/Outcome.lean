import SelectorExplain.Command.Program
import SelectorExplain.Proofs.Command.Output
import SelectorExplain.Proofs.Settings.Configured

set_option autoImplicit false

/-! # What becomes of a run

A run of the explain command on texts that can be read ends in one of three ways: the configuration
is refused, or else the tree is, or the explanation is printed. The configuration comes first, so it
is what a report is about when both are wrong. Nothing else can go wrong (`program_explain`). -/

namespace SelectorExplain

/-- The only thing printed is a report of a failure with this message, whose code is the exit
    code. -/
def Outcome.Reports (o : Outcome) (message : String) : Prop :=
  ∃ text, o.output = text ++ "\n" ∧ text.toList.getLast? = some '\x7d' ∧
    Json.parse text = some (.obj [("status", .str "error"), ("schema_version", .str "1"),
      ("error", .obj [("code", .nat o.exitCode.toNat), ("message", .str message)])])

theorem Outcome.reports_ofResult (f : Failure) :
    (Outcome.ofResult (.error f)).Reports f.message := by
  have hspells := Json.spells_pretty (ErrorResponse.ofFailure f).toJson
  exact ⟨(ErrorResponse.ofFailure f).toJson.pretty, rfl, hspells.getLast?_obj, hspells.parse⟩

/-- The contents of sources that hold these texts. -/
def contentsOf (texts : Source → String) (s : Source) : Contents := .ok (texts s).toByteArray

theorem text_contentsOf (texts : Source → String) (s : Source) :
    (contentsOf texts s).text = .ok (texts s) := by
  unfold Contents.text contentsOf
  dsimp only
  rw [fromUTF8?_toByteArray]

theorem Source.group_contentsOf (s : Source) (texts : Source → String) :
    s.group (contentsOf texts s) = Group.parse (texts s) := by
  rw [group, text_contentsOf]

theorem Config.ofContents_contentsOf (path : String) (texts : Source → String) :
    ofContents path (contentsOf texts (.file path)) =
      (parse (texts (.file path))).mapError fun e => .config e.message := by
  rw [ofContents, text_contentsOf]

/-- The text of the configuration file of a job, if it has one. -/
def Job.configText (j : Job) (texts : Source → String) : Option String :=
  j.config.map fun path => texts (.file path)

theorem Job.loadConfig_contentsOf (j : Job) (texts : Source → String) :
    j.loadConfig (m := Id) (contentsOf texts) =
      (Config.ofText (j.configText texts)).mapError fun e => .config e.message := by
  rw [loadConfig, configText]
  cases j.config with
  | none => rfl
  | some path => exact Config.ofContents_contentsOf path texts

theorem Job.run_eq (j : Job) (contents : Source → Contents) :
    j.run (m := Id) contents =
      match j.loadConfig (m := Id) contents with
      | .error e => .error e
      | .ok config =>
        match j.source.group (contents j.source) with
        | .error e => .error e
        | .ok g => g.render (config.explain.override j.overrides) := rfl

/-- A run on texts: first the configuration, then the tree, then the explanation. -/
theorem Job.run_contentsOf (j : Job) (texts : Source → String) :
    j.run (m := Id) (contentsOf texts) =
      match Config.ofText (j.configText texts) with
      | .error e => .error (.config e.message)
      | .ok c =>
        match Group.ofJson (texts j.source) with
        | .error f => .error (.invalidInput f.message)
        | .ok g => g.render (c.explain.override j.overrides) := by
  rw [run_eq, j.loadConfig_contentsOf, Source.group_contentsOf, Group.parse]
  cases Config.ofText (j.configText texts) with
  | error e => rfl
  | ok c => cases Group.ofJson (texts j.source) <;> rfl

/-! ## The three ways -/

section

variable {job : Job} {texts : Source → String}

theorem Job.run_of_refused_config {e : ConfigError}
    (h : Config.ofText (job.configText texts) = .error e) :
    job.run (m := Id) (contentsOf texts) = .error (.config e.message) := by
  rw [run_contentsOf, h]

theorem Job.run_of_refused_tree {c : Config}
    (hconfig : Config.ofText (job.configText texts) = .ok c) {f : Json.Fault}
    (h : Group.ofJson (texts job.source) = .error f) :
    job.run (m := Id) (contentsOf texts) = .error (.invalidInput f.message) := by
  rw [run_contentsOf, hconfig, h]

theorem Job.run_of_accepted {c : Config} (hconfig : Config.ofText (job.configText texts) = .ok c)
    {g : Group} (h : Group.ofJson (texts job.source) = .ok g) :
    ∃ output, g.render (c.explain.override job.overrides) = .ok output ∧
      job.run (m := Id) (contentsOf texts) = .ok output := by
  rw [run_contentsOf, hconfig, h]
  exact ⟨_, g.render_eq _, g.render_eq _⟩

/-- **What becomes of a run** of the explain command, on a configuration and a tree that are any
    texts. If both are accepted, the explanation of the tree is printed with the merged settings,
    and only then is the exit code zero. A configuration that is refused is reported, whatever the
    tree, and a tree that is refused only if the configuration is not. A report is all that is
    printed then, and has the exit code in it. -/
theorem program_explain {arguments : List String} {level : LogLevel}
    (h : Request.ofArguments arguments = .ok (.explain job level)) (texts : Source → String) :
    ∃ outcome, program (m := Id) arguments (contentsOf texts) = outcome ∧
      (∀ values g, Config.Accepted (job.configText texts) values →
        Group.ofJson (texts job.source) = .ok g →
        outcome.exitCode = 0 ∧ (∃ s : Settings, s.Merged job.overrides values) ∧
          ∀ s : Settings, s.Merged job.overrides values → g.render s = .ok outcome.output) ∧
      (outcome.exitCode = 0 → ∃ values g, Config.Accepted (job.configText texts) values ∧
        Group.ofJson (texts job.source) = .ok g) ∧
      ((∀ values, ¬Config.Accepted (job.configText texts) values) → outcome.exitCode = 2 ∧
        ∃ e, Config.ofText (job.configText texts) = .error e ∧
          outcome.Reports ("config error: " ++ e.message)) ∧
      (∀ values f, Config.Accepted (job.configText texts) values →
        Group.ofJson (texts job.source) = .error f →
        outcome.exitCode = 3 ∧ outcome.Reports ("invalid selector tree: " ++ f.message)) ∧
      outcome.exitCode ≠ 4 ∧ outcome.exitCode ≠ 10 := by
  refine ⟨.ofResult (job.run (m := Id) (contentsOf texts)), ?_, ?_⟩
  · rw [program, h]
    rfl
  cases hconfig : Config.ofText (job.configText texts) with
  | error e =>
      have hrefused := Config.not_accepted hconfig
      rw [Job.run_of_refused_config hconfig]
      have hcode : (2 : UInt8) ≠ 4 ∧ (2 : UInt8) ≠ 10 := by decide
      exact ⟨fun values g haccepted => absurd haccepted (hrefused values), nofun,
        fun _ => ⟨rfl, e, rfl, Outcome.reports_ofResult (.config e.message)⟩,
        fun values f haccepted => absurd haccepted (hrefused values), hcode⟩
  | ok c =>
      obtain ⟨values, haccepted⟩ := Config.accepted_of_ofText hconfig
      cases hinput : Group.ofJson (texts job.source) with
      | error f =>
          rw [Job.run_of_refused_tree hconfig hinput]
          have hcode : (3 : UInt8) ≠ 4 ∧ (3 : UInt8) ≠ 10 := by decide
          refine ⟨nofun, nofun, fun hrefused => absurd haccepted (hrefused values), ?_, hcode⟩
          rintro _ f' - ⟨⟩
          exact ⟨rfl, Outcome.reports_ofResult (.invalidInput f.message)⟩
      | ok g =>
          obtain ⟨output, houtput, hrun⟩ := Job.run_of_accepted hconfig hinput
          rw [hrun]
          have hcode : (0 : UInt8) ≠ 4 ∧ (0 : UInt8) ≠ 10 := by decide
          refine ⟨?_, fun _ => ⟨values, g, haccepted, rfl⟩,
            fun hrefused => absurd haccepted (hrefused values), nofun, hcode⟩
          rintro values g' haccepted ⟨⟩
          have hmerged := haccepted.merged hconfig job.overrides
          refine ⟨rfl, ⟨_, hmerged⟩, fun s hs => ?_⟩
          rw [hs.unique hmerged]
          exact houtput

/-- A run with a configuration and an option. -/
def sampleArguments : List String := ["explain", "--config", "c.toml", "--no-declaration"]

def sampleJob : Job where
  config := some "c.toml"
  overrides := { noDeclaration := true }

/-- The sources of the run. -/
def sampleTexts (config tree : String) : Source → String
  | .standardInput => tree
  | .file _ => config

/-- A configuration with two settings. -/
def sampleConfig : String := "[explain]\nnamespace = \"urn:x\"\nindent = 1\n"

/-- A configuration that is refused. -/
def namelessConfig : String := "explain.namespace = \"\""

/-- The tree of a selector of one name. -/
def sampleTree : String :=
  "\x7b\"sequences\":[\x7b\"simples\":[\x7b\"type\":\x7b\"element_name\":\"a\"\x7d\x7d]\x7d]\x7d"

def sampleLines : List String :=
  ["<selector-group xmlns=\"urn:x\">",
    " <selector>",
    "  <type>",
    "   <text>a</text>",
    "  </type>",
    " </selector>",
    "</selector-group>",
    ""]

/-- The run prints the explanation in the layout that the configuration and the option ask for. An
    unfinished tree is reported, unless the configuration is refused as well. -/
theorem program_explain_sample :
    program (m := Id) sampleArguments (contentsOf (sampleTexts sampleConfig sampleTree)) =
      ⟨0, "\n".intercalate sampleLines⟩ ∧
    (∃ outcome,
      program (m := Id) sampleArguments (contentsOf (sampleTexts sampleConfig "[[")) = outcome ∧
      outcome.exitCode = 3 ∧
      outcome.Reports "invalid selector tree: EOF while parsing a list at line 1 column 2") ∧
    ∃ outcome,
      program (m := Id) sampleArguments (contentsOf (sampleTexts namelessConfig "[[")) = outcome ∧
      outcome.exitCode = 2 ∧
      outcome.Reports "config error: explain.namespace must not be empty" := by
  have harguments : Request.ofArguments sampleArguments = .ok (.explain sampleJob .warn) := by
    decide +kernel
  have hconfig : Config.ofText (some sampleConfig) =
      .ok { explain := { space := "urn:x", indent := some 1 } } := by decide +kernel
  obtain ⟨values, haccepted⟩ := Config.accepted_of_ofText hconfig
  refine ⟨?_, ?_, ?_⟩
  · obtain ⟨⟨exitCode, output⟩, hrun, hprinted, -⟩ :=
      program_explain harguments (sampleTexts sampleConfig sampleTree)
    have hinput : Group.ofJson sampleTree = .ok ⟨[.last [.type "a" none]]⟩ := by decide +kernel
    obtain ⟨rfl, -, hrender⟩ := hprinted values _ haccepted hinput
    have houtput := hrender _ (haccepted.merged hconfig sampleJob.overrides)
    have hlines : (Group.mk [.last [.type "a" none]]).render
        (Settings.override { space := "urn:x", indent := some 1 } sampleJob.overrides) =
          .ok ("\n".intercalate sampleLines) := by decide +kernel
    rw [hlines] at houtput
    cases houtput
    exact hrun
  · obtain ⟨outcome, hrun, -, -, -, hreported, -⟩ :=
      program_explain harguments (sampleTexts sampleConfig "[[")
    have hinput : Group.ofJson "[[" = .error (.placed .eofList ⟨1, 2⟩) := by decide +kernel
    obtain ⟨hcode, hreport⟩ := hreported values _ haccepted hinput
    exact ⟨outcome, hrun, hcode, hreport⟩
  · obtain ⟨outcome, hrun, -, -, hreported, -⟩ :=
      program_explain harguments (sampleTexts namelessConfig "[[")
    have hfails : Config.ofText (some namelessConfig) = .error .emptyNamespace := by
      decide +kernel
    obtain ⟨hcode, e, he, hreport⟩ := hreported (Config.not_accepted hfails)
    cases hfails.symm.trans he
    exact ⟨outcome, hrun, hcode, hreport⟩

end

end SelectorExplain
