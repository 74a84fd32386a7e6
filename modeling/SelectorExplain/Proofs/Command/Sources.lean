import SelectorExplain.Proofs.Command.Outcome

set_option autoImplicit false

/-! # Where a tree comes from

As long as it is text, what a source holds is all that matters: a tree is explained, or refused, in
the same way from a file and from standard input (`Job.run_reading_congr`). Bytes that are no text
are refused from both, but not in the same way: a file with them is a wrong argument, and standard
input fails as a read that the system refuses does (`Job.run_reading`). -/

namespace SelectorExplain

/-! ## Sources -/

/-- The contents of a source are text, or the bytes of it are no text. -/
theorem Contents.text_ok (bytes : ByteArray) :
    (bytes.IsValidUTF8 ∧ ∃ text, Contents.text (.ok bytes) = .ok text) ∨
      (¬bytes.IsValidUTF8 ∧ Contents.text (.ok bytes) = .error .notUtf8) := by
  unfold Contents.text
  dsimp only
  by_cases h : bytes.IsValidUTF8
  · rw [String.fromUTF8?, dif_pos h]
    exact .inl ⟨h, _, rfl⟩
  · rw [String.fromUTF8?, dif_neg h]
    exact .inr ⟨h, rfl⟩

theorem Source.group_of_text {contents : Contents} {text : String} (h : contents.text = .ok text)
    (s : Source) : s.group contents = Group.parse text := by
  rw [group, h]

theorem Source.group_of_unread {contents : Contents} {e : ReadError}
    (h : contents.text = .error e) (s : Source) : s.group contents = .error (s.failure e) := by
  rw [group, h]

/-! ## Runs -/

/-- The job with its tree from another source. -/
def Job.reading (j : Job) (s : Source) : Job := { j with source := s }

section

variable {contents : Source → Contents}

theorem Job.run_reading_of_refused_config {j : Job} {e : Failure}
    (h : j.loadConfig (m := Id) contents = .error e) (s : Source) :
    (j.reading s).run (m := Id) contents = .error e := by
  have hconfig : (j.reading s).loadConfig (m := Id) contents = .error e := h
  rw [run_eq, hconfig]

theorem Job.run_reading_of_unread {j : Job} {c : Config}
    (h : j.loadConfig (m := Id) contents = .ok c) {s : Source} {e : ReadError}
    (hunread : (contents s).text = .error e) :
    (j.reading s).run (m := Id) contents = .error (s.failure e) := by
  have hconfig : (j.reading s).loadConfig (m := Id) contents = .ok c := h
  have hgroup : (j.reading s).source.group (contents (j.reading s).source) =
      .error (s.failure e) := Source.group_of_unread hunread s
  rw [run_eq, hconfig, hgroup]

/-- Sources that hold the same text are as good as each other. -/
theorem Job.run_reading_congr (j : Job) {s s' : Source} {text : String}
    (h : (contents s).text = .ok text) (h' : (contents s').text = .ok text) :
    (j.reading s).run (m := Id) contents = (j.reading s').run (m := Id) contents := by
  have hgroup : (j.reading s).source.group (contents (j.reading s).source) =
      (j.reading s').source.group (contents (j.reading s').source) :=
    (Source.group_of_text h s).trans (Source.group_of_text h' s').symm
  have hconfig : (j.reading s).loadConfig (m := Id) contents =
      (j.reading s').loadConfig (m := Id) contents := rfl
  rw [run_eq, run_eq, hgroup, hconfig]
  rfl

/-- **How much it matters where a tree comes from.** The same bytes are read from a file and from
    standard input, in jobs that are otherwise the same. If the bytes are text, or the configuration
    is refused, so that they do not count, the jobs have the same result. But bytes that are no text
    make the file a wrong argument and standard input a read that fails: the kinds of the failures
    are different, and so are the exit codes. -/
theorem Job.run_reading (j : Job) {path : String} {bytes : ByteArray}
    (hfile : contents (.file path) = .ok bytes) (hinput : contents .standardInput = .ok bytes) :
    ∃ fromFile fromInput,
      (j.reading (.file path)).run (m := Id) contents = fromFile ∧
      (j.reading .standardInput).run (m := Id) contents = fromInput ∧
      (bytes.IsValidUTF8 → fromFile = fromInput) ∧
      (∀ e, j.loadConfig (m := Id) contents = .error e →
        fromFile = .error e ∧ fromInput = .error e) ∧
      (¬bytes.IsValidUTF8 → ∀ c, j.loadConfig (m := Id) contents = .ok c →
        fromFile = .error (.invalidArguments
          ("cannot read " ++ path ++ ": stream did not contain valid UTF-8")) ∧
        fromInput = .error (.io "stream did not contain valid UTF-8") ∧
        (Outcome.ofResult fromFile).exitCode = 2 ∧ (Outcome.ofResult fromInput).exitCode = 10) := by
  refine ⟨_, _, rfl, rfl, fun hvalid => ?_, fun e he => ?_, fun hinvalid c hc => ?_⟩
  · rcases Contents.text_ok bytes with ⟨-, text, htext⟩ | ⟨hinvalid, -⟩
    · exact j.run_reading_congr (by rw [hfile, htext]) (by rw [hinput, htext])
    · exact absurd hvalid hinvalid
  · exact ⟨run_reading_of_refused_config he _, run_reading_of_refused_config he _⟩
  · rcases Contents.text_ok bytes with ⟨hvalid, -⟩ | ⟨-, htext⟩
    · exact absurd hvalid hinvalid
    have hrunFile : (j.reading (.file path)).run (m := Id) contents =
        .error (Source.failure (.file path) .notUtf8) :=
      run_reading_of_unread hc (by rw [hfile, htext])
    have hrunInput : (j.reading .standardInput).run (m := Id) contents =
        .error (Source.failure .standardInput .notUtf8) :=
      run_reading_of_unread hc (by rw [hinput, htext])
    have hmessage : "cannot read " ++ path ++ ": " ++ ReadError.notUtf8.message =
        "cannot read " ++ path ++ ": stream did not contain valid UTF-8" := by
      rw [String.append_assoc]
      exact congrArg ("cannot read " ++ path ++ ·) (by decide)
    rw [hrunFile, hrunInput, ← hmessage]
    exact ⟨rfl, rfl, rfl, rfl⟩

/-- A byte that no text starts with. -/
def undecodable : ByteArray := ⟨#[0xff]⟩

/-- A file with such a byte is a wrong argument; on standard input it is a read that fails. -/
theorem Job.run_reading_undecodable :
    (∃ c, Job.loadConfig (m := Id) {} (fun _ => .ok undecodable) = .ok c) ∧
      ¬undecodable.IsValidUTF8 ∧
      ((Job.reading {} (.file "tree.json")).run (m := Id) fun _ => .ok undecodable) =
        .error (.invalidArguments
          "cannot read tree.json: stream did not contain valid UTF-8") ∧
      ((Job.reading {} .standardInput).run (m := Id) fun _ => .ok undecodable) =
        .error (.io "stream did not contain valid UTF-8") := by
  have hinvalid : ¬undecodable.IsValidUTF8 := by decide +kernel
  obtain ⟨fromFile, fromInput, hfile, hinput, -, -, hfailures⟩ :=
    @Job.run_reading (fun _ => .ok undecodable) {} "tree.json" undecodable rfl rfl
  obtain ⟨hfromFile, hfromInput, -, -⟩ := hfailures hinvalid {} rfl
  exact ⟨⟨{}, rfl⟩, hinvalid, hfile.trans hfromFile, hinput.trans hfromInput⟩

/-- The program has different exit codes for the same byte, given in a file and given to standard
    input. -/
theorem program_undecodable :
    (program (m := Id) ["explain", "tree.json"] fun _ => .ok undecodable).exitCode = 2 ∧
      (program (m := Id) ["explain"] fun _ => .ok undecodable).exitCode = 10 := by
  have hfile : Request.ofArguments ["explain", "tree.json"] =
      .ok (.explain { source := .file "tree.json" } .warn) := by decide +kernel
  have hinput : Request.ofArguments ["explain"] = .ok (.explain {} .warn) := by decide +kernel
  rw [program, program, hfile, hinput]
  decide +kernel

end

end SelectorExplain
