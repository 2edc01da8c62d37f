import TextGrammar.Command.Outcome
import TextGrammar.Proofs.Generator.Clone

/-! What becomes of failures in the command: all but one of them end it with a message. -/
namespace TextGrammar

/-- The failures of grammar files and of the engine. -/
def Failure.IsReported : Failure → Prop
  | file _ => True
  | failure => failure.isGrammarFailure = true

namespace Generator

theorem register_text (name : String) (rule : Rule) (generator : Generator) :
    (register (.text name) rule generator).1 =
      if name = "" then .error (.rule .unnamed) else .ok () := by
  rw [register_eq]
  by_cases hname : name = ""
  · subst hname
    rfl
  · have hregister : generator.store.register (.text name) rule = .ok
        (⟨Store.putEntry { name, rule, shown := (Data.text name : Datum).display }
            generator.store.entries⟩,
          generator.store.shadowing? name (Data.text name : Datum).display rule.kind) :=
      if_neg (by simpa using hname)
    rw [hregister, if_neg hname]
    cases generator.store.shadowing? name (Data.text name : Datum).display rule.kind with
    | none => rfl
    | some shadowing => rfl

/-- Rules that were read from a file are refused only for an empty name. -/
theorem registerMembers_texts (entries : List (String × List String)) (generator : Generator) :
    (registerMembers (entries.map fun entry => (.text entry.1, .list (entry.2.map .text)))
      generator).1 = if "" ∈ entries.map Prod.fst then .error (.rule .unnamed) else .ok () := by
  induction entries generalizing generator with
  | nil => rfl
  | cons entry rest ih =>
    have hfirst := register_text entry.1 (.static { values := entry.2 }) generator
    rw [List.map_cons, registerMembers, bind_apply, registerStatic_texts]
    rcases hrun : register (.text entry.1) (.static { values := entry.2 }) generator with
      ⟨result, after⟩
    rw [hrun] at hfirst
    by_cases hname : entry.1 = ""
    · rw [if_pos hname] at hfirst
      obtain rfl : result = _ := hfirst
      rw [List.map_cons, if_pos (by simp [hname])]
    · rw [if_neg hname] at hfirst
      obtain rfl : result = _ := hfirst
      rw [List.map_cons]
      simp only [List.mem_cons, Ne.symm hname, false_or]
      exact ih after

theorem load_ofGrammar (forms : English.BaseForms) (grammar : Table (List String))
    (generator : Generator) :
    (load forms (.ofGrammar grammar) false .nothing generator).1 =
      if "" ∈ grammar.names then .error (.rule .unnamed) else .ok () := by
  have hregister : (registerAll (.ofGrammar grammar) generator).1 =
      if "" ∈ grammar.names then .error (.rule .unnamed) else .ok () :=
    registerMembers_texts grammar.entries generator
  rw [load, bind_apply, ← hregister]
  rcases registerAll (.ofGrammar grammar) generator with ⟨failure | _, after⟩
  · rfl
  · rfl

end Generator

namespace Command

namespace Outcome

variable {failure fault : Failure} {outcome : Outcome}

theorem ofFailure_of_isReported (h : failure.IsReported) :
    ofFailure failure = { errors := ["Error: " ++ failure.message], isFailure := true } := by
  cases failure with
  | file fault => rfl
  | _ => first | rfl | cases h

theorem ofFailure_of_not_isReported (h : ¬ failure.IsReported) :
    ofFailure failure = { passedOn := some failure } := by
  cases failure with
  | file fault => exact absurd trivial h
  | _ => first | rfl | exact absurd rfl h

theorem passedOn_ofFailure (h : (ofFailure fault).passedOn = some failure) :
    ¬ failure.IsReported := by
  intro hreported
  by_cases hfault : fault.IsReported
  · rw [ofFailure_of_isReported hfault] at h
    cases h
  · rw [ofFailure_of_not_isReported hfault] at h
    cases h
    exact hfault hreported

end Outcome

/-- The text of the file with its line breaks as they are read. -/
def Surroundings.plain (surroundings : Surroundings) : Surroundings :=
  { surroundings with grammarText := String.ofList (plainBreaks surroundings.grammarText.toList) }

/-- The analysis that is asked for, if one is. -/
def Request.analysis? (request : Request) : Option (Generator → Except Failure Outcome) :=
  match request.task with
  | .validate => some fun generator => .ok (validationOutcome generator)
  | .complexity (some rule) => some fun generator => ruleComplexityOutcome generator rule
  | .complexity none => some totalComplexityOutcome
  | .probabilities rule => some fun generator => distributionOutcome generator rule
  | .generate => none

def Request.run (request : Request) : Generator.Run where
  count := .number (.whole request.count)
  origin := .text request.origin
  seed := (request.seed.map fun n => .number (.whole n)).getD .nothing
  english := request.english
  maxDepth := (request.maxDepth.map fun n => .number (.whole n)).getD .nothing

/-- What becomes of the texts that were generated. -/
def finished (surroundings : Surroundings) (request : Request) (texts : List Value) : Outcome :=
  match request.output with
  | none => { output := texts.map Data.display }
  | some output => writtenOutcome surroundings request output (texts.map Data.display)

/-- The file is read and loaded, and what is asked for is found from it. A failure on the way is
what this ends in, whether it is reported or not. -/
def attempted (surroundings : Surroundings) (request : Request) : Except Failure Outcome :=
  match request.analysis? with
  | some analysis => do
    let grammar ← readGrammar surroundings.grammarText
    let (result, generator) :=
      Generator.load surroundings.forms (.ofGrammar grammar) false .nothing surroundings.generator
    result
    analysis generator
  | none =>
    (Generator.runFile surroundings.forms (.text surroundings.grammarText) request.run
      surroundings.generator).1.map (finished surroundings request)

/-- An analysis of a file with a rule whose name is empty. -/
def LoadsUnnamed (surroundings : Surroundings) (request : Request) : Prop :=
  request.task ≠ .generate ∧
    ∃ grammar, readGrammar surroundings.grammarText = .ok grammar ∧ "" ∈ grammar.names

section Requests

variable {surroundings : Surroundings} {request : Request} {failure : Failure} {outcome : Outcome}
  {analysis : Generator → Except Failure Outcome}

theorem analysis?_eq_none : request.analysis? = none ↔ request.task = .generate := by
  rw [Request.analysis?]
  split <;> simp_all

theorem carriedOut_eq (surroundings : Surroundings) (request : Request) :
    carriedOut surroundings request = match request.analysis? with
      | some analysis =>
        analysed surroundings.plain fun generator => .ofResult (analysis generator)
      | none => generated surroundings.plain request := by
  rw [carriedOut, Request.analysis?]
  cases request.task with
  | complexity rule =>
    cases rule with
    | none => rfl
    | some rule => rfl
  | _ => rfl

theorem generated_eq (surroundings : Surroundings) (request : Request) :
    generated surroundings request =
      let (result, generator) := Generator.runFile surroundings.forms
        (.text surroundings.grammarText) request.run surroundings.generator
      { Outcome.ofResult (result.map (finished surroundings request)) with log := generator.log } :=
  rfl

/-- A file that can be read is loaded if no name is empty. -/
theorem load_eq (forms : English.BaseForms) (grammar : Table (List String))
    (generator : Generator) :
    Generator.load forms (.ofGrammar grammar) false .nothing generator =
      (if "" ∈ grammar.names then .error (.rule .unnamed) else .ok (),
        (Generator.load forms (.ofGrammar grammar) false .nothing generator).2) :=
  Prod.ext (Generator.load_ofGrammar forms grammar generator) rfl

/-- With an empty name, an analysis ends in a failure that is not reported. -/
theorem LoadsUnnamed.carriedOut_eq (h : LoadsUnnamed surroundings.plain request) :
    attempted surroundings.plain request = .error (.rule .unnamed) ∧
      carriedOut surroundings request = { passedOn := some (.rule .unnamed) } := by
  obtain ⟨htask, grammar, hread, hname⟩ := h
  rw [Command.carriedOut_eq, attempted]
  cases hanalysis : request.analysis? with
  | none => exact absurd (analysis?_eq_none.1 hanalysis) htask
  | some analysis =>
    dsimp only
    rw [analysed, hread]
    dsimp only [bind, Except.bind]
    rw [load_eq, if_pos hname]
    exact ⟨rfl, rfl⟩

/-- Otherwise what comes of a request is reported as it is. -/
theorem carriedOut_of_not_loadsUnnamed (h : ¬ LoadsUnnamed surroundings.plain request) :
    ∃ log, carriedOut surroundings request =
      { Outcome.ofResult (attempted surroundings.plain request) with log } := by
  rw [carriedOut_eq, attempted]
  cases hanalysis : request.analysis? with
  | none => exact ⟨_, generated_eq surroundings.plain request⟩
  | some analysis =>
    dsimp only
    rw [analysed]
    cases hread : readGrammar surroundings.plain.grammarText with
    | error failure => exact ⟨(Outcome.ofFailure failure).log, rfl⟩
    | ok grammar =>
      have hname : "" ∉ grammar.names := by
        intro hname
        refine h ⟨?_, grammar, hread, hname⟩
        rw [Ne, ← analysis?_eq_none, hanalysis]
        exact Option.some_ne_none _
      dsimp only [bind, Except.bind]
      rw [load_eq, if_neg hname]
      exact ⟨(Outcome.ofResult (analysis _)).log, rfl⟩

theorem not_isReported_of_ofFileName? {name : String}
    (h : Failure.ofFileName? name = some failure) : ¬ failure.IsReported := by
  rw [Failure.ofFileName?, Failure.ofUnwritten?, Failure.ofNull?] at h
  cases hfault : encodeFaultFrom? isByteHalf 0 (codes name.toList) with
  | some fault =>
    rw [hfault] at h
    cases h
    exact nofun
  | none =>
    rw [hfault] at h
    change (if name.toList.contains '\x00' then some (Failure.value .nullInside) else none) = _ at h
    split at h
    · cases h
      exact nofun
    · cases h

/-- Files are not written for reasons of their own. -/
theorem writeFiles_not_isReported {kindOf : Path → PathKind} {files : List (Path × String)}
    (h : (writeFiles kindOf files).2 = some failure) : ¬ failure.IsReported := by
  induction files with
  | nil => cases h
  | cons file rest ih =>
    obtain ⟨path, text⟩ := file
    rw [writeFiles] at h
    cases hname : Failure.ofFileName? path.text with
    | some other =>
      rw [hname] at h
      cases h
      exact not_isReported_of_ofFileName? hname
    | none =>
      cases hway : path.fileFault? kindOf with
      | some fault =>
        rw [hname, hway] at h
        cases h
        exact nofun
      | none =>
        cases htext : encodeFault? text.toList with
        | some fault =>
          rw [hname, hway, htext] at h
          cases h
          exact nofun
        | none =>
          rw [hname, hway, htext] at h
          exact ih h

theorem writtenOutcome_not_isReported {output : String} {texts : List String}
    (h : (writtenOutcome surroundings request output texts).passedOn = some failure) :
    ¬ failure.IsReported := by
  rw [writtenOutcome] at h
  dsimp only at h
  split at h
  · cases h
    exact nofun
  · split at h
    · rename_i hfiles
      cases h
      exact writeFiles_not_isReported (congrArg Prod.snd hfiles)
    · cases h

theorem passedOn_of_analysis {generator : Generator} (h : request.analysis? = some analysis)
    (hrun : analysis generator = .ok outcome) : outcome.passedOn = none := by
  rw [Request.analysis?] at h
  split at h
  case h_1 =>
    cases h
    cases hrun
    rfl
  case h_5 => cases h
  all_goals
    cases h
    obtain ⟨found, -, hfound⟩ := bind_eq_ok.1 hrun
    rw [← pure_eq_ok.1 hfound]

theorem attempted_not_isReported (h : attempted surroundings request = .ok outcome)
    (hpassed : outcome.passedOn = some failure) : ¬ failure.IsReported := by
  rw [attempted] at h
  cases hanalysis : request.analysis? with
  | some analysis =>
    rw [hanalysis] at h
    obtain ⟨grammar, -, h⟩ := bind_eq_ok.1 h
    obtain ⟨⟨⟩, -, hrun⟩ := bind_eq_ok.1 h
    rw [passedOn_of_analysis hanalysis hrun] at hpassed
    cases hpassed
  | none =>
    rw [hanalysis] at h
    dsimp only at h
    cases hran : (Generator.runFile surroundings.forms (.text surroundings.grammarText) request.run
      surroundings.generator).1 with
    | error fault =>
      rw [hran] at h
      cases h
    | ok texts =>
      rw [hran] at h
      obtain rfl : finished surroundings request texts = outcome := by
        cases h
        rfl
      rw [finished] at hpassed
      split at hpassed
      · cases hpassed
      · exact writtenOutcome_not_isReported hpassed

theorem encoded_of_output_eq_nil (h : outcome.output = []) : outcome.encoded = outcome := by
  rw [Outcome.encoded, h]
  rfl

theorem passedOn_of_encoded (hreported : failure.IsReported)
    (h : outcome.encoded.passedOn = some failure) : outcome.passedOn = some failure := by
  rw [Outcome.encoded] at h
  split at h
  · exact h
  · cases h
    cases hreported

/-- A failure of the file or of the engine, wherever it arises, ends the command with a message and
is not passed on, save that an analysis of a file with an empty name passes on the failure that its
rules are loaded with, and says nothing. -/
theorem carryOut_reports (surroundings : Surroundings) (request : Request) {failure : Failure}
    (hreported : failure.IsReported) :
    (attempted surroundings.plain request = .error failure →
      ¬ LoadsUnnamed surroundings.plain request →
        (carryOut surroundings request).exitCode = 1 ∧
          (carryOut surroundings request).errors = ["Error: " ++ failure.message] ∧
          (carryOut surroundings request).passedOn = none) ∧
      ((carryOut surroundings request).passedOn = some failure ↔
        failure = .rule .unnamed ∧ LoadsUnnamed surroundings.plain request) ∧
      (LoadsUnnamed surroundings.plain request →
        attempted surroundings.plain request = .error (.rule .unnamed) ∧
          (carryOut surroundings request).exitCode = 1 ∧
          (carryOut surroundings request).errors = []) := by
  have hunnamed (h : LoadsUnnamed surroundings.plain request) :
      carryOut surroundings request = { passedOn := some (.rule .unnamed) } := by
    rw [carryOut, h.carriedOut_eq.2]
    exact encoded_of_output_eq_nil rfl
  refine ⟨?_, ⟨?_, ?_⟩, ?_⟩
  · intro hfailed hnamed
    obtain ⟨log, hcarried⟩ := carriedOut_of_not_loadsUnnamed hnamed
    rw [hfailed, Outcome.ofResult, Outcome.ofFailure_of_isReported hreported] at hcarried
    rw [carryOut, hcarried, encoded_of_output_eq_nil rfl]
    exact ⟨rfl, rfl, rfl⟩
  · intro hpassed
    by_cases hnamed : LoadsUnnamed surroundings.plain request
    · rw [hunnamed hnamed] at hpassed
      cases hpassed
      exact ⟨rfl, hnamed⟩
    · obtain ⟨log, hcarried⟩ := carriedOut_of_not_loadsUnnamed hnamed
      have hbefore := passedOn_of_encoded hreported hpassed
      rw [hcarried] at hbefore
      cases hattempt : attempted surroundings.plain request with
      | error fault =>
        rw [hattempt] at hbefore
        exact absurd hreported (Outcome.passedOn_ofFailure hbefore)
      | ok outcome =>
        rw [hattempt] at hbefore
        exact absurd hreported (attempted_not_isReported hattempt hbefore)
  · rintro ⟨rfl, hnamed⟩
    rw [hunnamed hnamed]
  · intro hnamed
    refine ⟨hnamed.carriedOut_eq.1, ?_, ?_⟩
    · rw [hunnamed hnamed]
      rfl
    · rw [hunnamed hnamed]

end Requests

/-- A place where the command finds a file with this text. -/
def Surroundings.holding (grammarText : String) : Surroundings where
  grammarText
  kindOf _ := .file
  ambient := 0
  stackRoom := 100
  forms := English.baseEnglish
  createdAt := ""

/-- A request for one of the tasks, with nothing else given. -/
def Request.ofTask (task : Task) : Request where
  grammar := "grammar.json"
  task
  count := Request.defaultCount
  origin := Generator.defaultOrigin
  seed := none
  maxDepth := none
  english := true
  output := none
  fileName := Request.defaultFileName

/-- A file with one rule, under the empty name. -/
def unnamedFile : Surroundings := .holding "\x7b\"\": [\"x\"]\x7d"

/-- An analysis passes on and keeps quiet about what is reported when texts are to be generated. -/
theorem carryOut_unnamedFile : Failure.IsReported (.rule .unnamed) ∧
    (carryOut unnamedFile (.ofTask .validate)).passedOn = some (.rule .unnamed) ∧
    (carryOut unnamedFile (.ofTask .validate)).errors = [] ∧
    (carryOut unnamedFile (.ofTask .generate)).passedOn = none ∧
    (carryOut unnamedFile (.ofTask .generate)).errors =
      ["Error: Rule name must be a non-empty string"] := by
  refine ⟨rfl, ?_, ?_, ?_, ?_⟩
  all_goals decide +kernel

/-- A file with one rule, whose name is not empty. -/
def namedFile : Surroundings := .holding "\x7b\"a\": [\"x\"]\x7d"

/-- An analysis of a rule that is not in the file. -/
theorem carryOut_reports_namedFile : Failure.IsReported (.unknownRule "b") ∧
    (carryOut namedFile (.ofTask (.probabilities "b"))).exitCode = 1 ∧
    (carryOut namedFile (.ofTask (.probabilities "b"))).errors =
      ["Error: " ++ (Failure.unknownRule "b").message] ∧
    (carryOut namedFile (.ofTask (.probabilities "b"))).passedOn = none := by
  have hnames :
      (readGrammar namedFile.plain.grammarText).toOption.map Table.names = some ["a"] := by
    decide +kernel
  have hnamed : ¬ LoadsUnnamed namedFile.plain (.ofTask (.probabilities "b")) := by
    rintro ⟨-, grammar, hread, hname⟩
    rw [hread] at hnames
    rw [Option.some.inj hnames] at hname
    simp at hname
  have hreported : Failure.IsReported (.unknownRule "b") := rfl
  have hfailed : attempted namedFile.plain (.ofTask (.probabilities "b")) =
      .error (.unknownRule "b") := by
    have hfound : (match attempted namedFile.plain (.ofTask (.probabilities "b")) with
      | .error failure => some failure
      | .ok _ => none) = some (.unknownRule "b") := by decide +kernel
    split at hfound
    · rename_i hattempt
      rw [hattempt, Option.some.inj hfound]
    · cases hfound
  exact ⟨hreported, (carryOut_reports namedFile _ hreported).1 hfailed hnamed⟩

end Command

end TextGrammar
