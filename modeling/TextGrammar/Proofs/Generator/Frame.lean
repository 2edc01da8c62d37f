import TextGrammar.Generator.Questions
import TextGrammar.Proofs.Expansion.Steps
import TextGrammar.Proofs.Generator.Seed

/-! What generating leaves as it was: rules but for their places, modifiers, settings, seed. -/
namespace TextGrammar

namespace Engine

/-- What expansions leave of an engine. -/
def lasting (engine : Engine) : Store × Option (Fin stateCount) :=
  (engine.store.restarted, engine.source.seed)

theorem lasting_isKept : IsKept lasting where
  drawn name engine := by
    have hstore := engine.store.restarted_drawShown name name (.run engine.context) engine.source
    have hseed := engine.store.seed_drawShown name name (.run engine.context) engine.source
    exact Prod.ext hstore hseed
  context _ _ := rfl

end Engine

/-- What a generator was set up with, each rule at its start. -/
structure Configuration where
  rules : Store
  pipeline : Pipeline
  maxDepth : Int
  seed : Option (Fin stateCount)
  analysis : AnalysisSettings
  retry : RetrySettings

namespace Configuration

def withDepth (configuration : Configuration) (maxDepth : Int) : Configuration :=
  { configuration with maxDepth }

def withSeed (configuration : Configuration) (seed : Option (Fin stateCount)) : Configuration :=
  { configuration with seed }

end Configuration

namespace Generator

def configuration (generator : Generator) : Configuration where
  rules := generator.store.restarted
  pipeline := generator.pipeline
  maxDepth := generator.maxDepth
  seed := generator.source.seed
  analysis := generator.analysis
  retry := generator.retry

theorem maxDepth_of_configuration {generator other : Generator}
    (h : generator.configuration = other.configuration) : generator.maxDepth = other.maxDepth :=
  congrArg Configuration.maxDepth h

theorem retry_of_configuration {generator other : Generator}
    (h : generator.configuration = other.configuration) : generator.retry = other.retry :=
  congrArg Configuration.retry h

theorem configuration_withEngine {generator : Generator} {engine : Engine}
    (h : engine.lasting = generator.engine.lasting) :
    { generator with engine }.configuration = generator.configuration := by
  obtain ⟨hstore, hseed⟩ := Prod.ext_iff.1 h
  have hrules : engine.store.restarted = generator.store.restarted := hstore
  have hsource : engine.source.seed = generator.source.seed := hseed
  simp only [configuration, store, source] at hrules hsource ⊢
  rw [hrules, hsource]

theorem parseText_keeps (keepContext : Bool) (prompt : Prompt) :
    Keeps configuration (parseText keepContext prompt : Action Value) := by
  intro generator
  exact configuration_withEngine
    (Engine.expand_keeps Engine.lasting_isKept _ _ keepContext prompt.text generator.engine)

theorem check_keeps {α γ : Type} {see : Generator → γ} (result : Except Failure α) :
    Keeps see (check result) := by
  intro generator
  rfl

theorem get_bind {α : Type} (next : Generator → Action α) (generator : Generator) :
    (get >>= next) generator = next generator generator :=
  rfl

/-- A check that passes leaves what follows where it was. -/
theorem check_bind {α β : Type} (result : Except Failure α) (next : α → Action β)
    (generator : Generator) :
    (check result >>= next) generator = match result with
      | .error failure => (.error failure, generator)
      | .ok value => next value generator := by
  rw [bind_apply]
  cases result with
  | error failure => rfl
  | ok value => rfl

theorem exists_checkText {text : Datum} (h : text.text?.isSome = true) :
    ∃ prompt, checkText text = .ok prompt := by
  obtain ⟨value, hvalue⟩ := Option.isSome_iff_exists.1 h
  refine ⟨{ text := value, shown := text.sealed }, ?_⟩
  rw [checkText, hvalue]

theorem checkDepth_eq_ok {φ μ : Type} {depth : Data φ μ} {n : Int} :
    checkDepth depth = .ok n ↔ depth.plainInteger? = some n ∧ 1 ≤ n := by
  unfold checkDepth
  cases depth.plainInteger? with
  | none => simp
  | some m =>
    dsimp only
    split
    · refine iff_of_false (by rintro ⟨⟩) ?_
      rintro ⟨⟨⟩, hn⟩
      omega
    · rename_i hm
      rw [Except.ok.injEq, Option.some.injEq]
      refine ⟨?_, And.left⟩
      rintro rfl
      exact ⟨rfl, Int.not_lt.1 hm⟩

theorem parse_of_text {text : Datum} {prompt : Prompt} (h : checkText text = .ok prompt)
    (keepContext : Bool) (generator : Generator) :
    parse text keepContext generator = parseText keepContext prompt generator := by
  rw [parse, check_bind, h]

theorem parse_keeps (text : Datum) (keepContext : Bool) :
    Keeps configuration (parse text keepContext) :=
  (check_keeps _).bind fun prompt => parseText_keeps keepContext prompt

theorem configuration_parse {text : Datum} {keepContext : Bool} {generator after : Generator}
    {result : Except Failure Value}
    (h : parse text keepContext generator = (result, after)) :
    after.configuration = generator.configuration := by
  have hkeeps := parse_keeps text keepContext generator
  rwa [h] at hkeeps

theorem parseReported_keeps (text : Datum) (keepContext : Bool) :
    Keeps configuration (parseReported text keepContext) :=
  (parse_keeps text keepContext).bind fun _ => check_keeps _

theorem parseEach_keeps (keepContext isFirst : Bool) (texts : List Datum) :
    Keeps configuration (parseEach keepContext isFirst texts) := by
  induction texts generalizing isFirst with
  | nil => exact Keeps.pure []
  | cons text rest ih =>
    refine (parse_keeps text _).bind fun result => ?_
    exact (ih false).bind fun _ => Keeps.pure _

theorem parseAll_keeps (texts : Datum) (keepContext : Bool) :
    Keeps configuration (parseAll texts keepContext) :=
  (check_keeps _).bind fun items => parseEach_keeps keepContext true items

/-- Attempts change the depth limit and nothing else. -/
theorem attempts_keeps (options : Tolerance) (prompt : Prompt) (left : Nat) (number : Int)
    (last : Failure) (depth : Int) :
    Keeps (fun generator => generator.configuration.withDepth depth)
      (attempts options prompt left number last : Action TolerantResult) := by
  have hparse := (parseText_keeps options.preserveContext prompt).part (·.withDepth depth)
  induction left generalizing number last with
  | zero =>
    intro generator
    rfl
  | succ left ih =>
    intro generator
    have hattempt := hparse generator
    simp only [attempts]
    generalize generator.parseText options.preserveContext prompt = run at hattempt ⊢
    split
    · exact hattempt
    · split
      · exact hattempt
      · exact (ih _ _ _).trans hattempt
    · split
      · exact (ih _ _ _).trans hattempt
      · exact hattempt

theorem configuration_givingUp (result : TolerantResult) (generator : Generator) :
    (givingUp result generator).configuration = generator.configuration := by
  simp only [givingUp]
  split
  · rfl
  · rfl

/-- However the attempts end, the depth limit is put back. -/
theorem parseTolerantly_keeps (text : Datum) (options : Option Tolerance) :
    Keeps configuration (parseTolerantly text options) := by
  refine (check_keeps _).bind fun prompt => ?_
  intro generator
  rw [get_bind, check_bind]
  split
  · rfl
  · rename_i tolerance _
    split
    · rfl
    · have hattempts :=
        attempts_keeps tolerance prompt tolerance.maxAttempts.toNat 1 (.grammar "") generator.maxDepth
          generator
      dsimp only at hattempts ⊢
      generalize attempts tolerance prompt tolerance.maxAttempts.toNat 1 (.grammar "") generator = run
        at hattempts ⊢
      obtain ⟨failure | result, after⟩ := run
      · exact hattempts
      · exact (configuration_givingUp result _).trans hattempts

theorem parseWith_keeps (text options : Datum) : Keeps configuration (parseWith text options) :=
  (check_keeps _).bind fun _ => (check_keeps _).bind fun options => parseTolerantly_keeps text options

theorem reseed_keeps (seed : Int) (stored : Option (Fin stateCount)) :
    Keeps (fun generator => generator.configuration.withSeed stored)
      (modify fun generator => generator.withSource (generator.source.seedWith seed) : Action Unit) := by
  intro generator
  rfl

/-- Variations change the seed and nothing else. -/
theorem variationsFrom_keeps (prompt : Prompt) (seed : Datum) (offset left : Nat)
    (stored : Option (Fin stateCount)) :
    Keeps (fun generator => generator.configuration.withSeed stored)
      (variationsFrom prompt seed offset left) := by
  have hparse := (parseText_keeps false prompt).part (·.withSeed stored)
  induction left generalizing offset with
  | zero => exact Keeps.pure []
  | succ left ih =>
    have hrest : Keeps (fun generator => generator.configuration.withSeed stored) (do
        let result ← (parseText false prompt : Action Value)
        return result :: (← variationsFrom prompt seed (offset + 1) left)) :=
      hparse.bind fun _ => (ih (offset + 1)).bind fun _ => Keeps.pure _
    unfold variationsFrom
    split
    · exact hrest
    · refine (check_keeps _).bind fun first => ?_
      exact (reseed_keeps first stored).bind fun _ => hrest

theorem configuration_restoreSeed (seed : Option (Fin stateCount)) (generator : Generator) :
    (generator.restoreSeed seed).configuration = generator.configuration.withSeed seed := by
  cases seed with
  | none => rfl
  | some seed =>
    have hseed : (generator.source.seedWith seed.val).seed = some seed :=
      generator.source.seed_seedWith seed
    simp only [restoreSeed, configuration, Configuration.withSeed, withSource, source, store] at hseed ⊢
    rw [hseed]

/-- However the variations end, the source gets its own seed back. -/
theorem variations_keeps (text count seed : Datum) :
    Keeps configuration (variations text count seed) := by
  refine (check_keeps _).bind fun prompt => ?_
  split
  · rename_i number _
    split
    · exact check_keeps (.error (.value .countNotPositive))
    · intro generator
      have hvariations :=
        variationsFrom_keeps prompt seed 0 number.toNat generator.source.seed generator
      dsimp only at hvariations ⊢
      rw [get_bind]
      generalize variationsFrom prompt seed 0 number.toNat generator = run at hvariations ⊢
      obtain ⟨failure | results, after⟩ := run
      · exact (configuration_restoreSeed _ after).trans hvariations
      · exact (configuration_restoreSeed _ after).trans hvariations
  · exact check_keeps (.error (.value .countNotPositive))

theorem expand_keeps (text : Datum) (keepContext : Bool) :
    Keeps configuration (expand text keepContext) := by
  have hexpand : Keeps configuration (do
      let text ← check text.searched
      (expandText keepContext text : Action String)) := by
    refine (check_keeps _).bind fun text => ?_
    intro generator
    exact configuration_withEngine
      (Engine.expand_keeps Engine.lasting_isKept _ _ keepContext text generator.engine)
  have hforget : Keeps configuration (modify forgetContext : Action Unit) := by
    intro generator
    rfl
  cases keepContext with
  | true => exact hexpand
  | false => exact hforget.bind fun _ => hexpand

theorem resolve_keeps (name : Datum) (scope : Scope) :
    Keeps configuration (resolve name scope) := by
  refine (check_keeps _).bind fun key => ?_
  cases key with
  | none => exact Keeps.pure none
  | some key =>
    intro generator
    have hstore :=
      generator.store.restarted_drawShown name.display key scope generator.source
    have hseed := generator.store.seed_drawShown name.display key scope generator.source
    exact @configuration_withEngine generator { generator.engine with
      store := (generator.store.drawShown name.display key scope generator.source).2.1
      source := (generator.store.drawShown name.display key scope generator.source).2.2 }
      (Prod.ext hstore hseed)

/-- Whether a call generates or fails, the rules are afterwards the same under the same names in the
same order but for the places in sequences, and modifiers, settings and seed are what they were. -/
theorem generation_keeps_configuration (generator : Generator) :
    (∀ text keepContext,
      (parse text keepContext generator).2.configuration = generator.configuration) ∧
    (∀ text keepContext,
      (parseReported text keepContext generator).2.configuration = generator.configuration) ∧
    (∀ text options,
      (parseWith text options generator).2.configuration = generator.configuration) ∧
    (∀ texts keepContext,
      (parseAll texts keepContext generator).2.configuration = generator.configuration) ∧
    ∀ text count seed,
      (variations text count seed generator).2.configuration = generator.configuration := by
  refine ⟨?_, ?_, ?_, ?_, ?_⟩
  · intro text keepContext
    exact parse_keeps text keepContext generator
  · intro text keepContext
    exact parseReported_keeps text keepContext generator
  · intro text options
    exact parseWith_keeps text options generator
  · intro texts keepContext
    exact parseAll_keeps texts keepContext generator
  · intro text count seed
    exact variations_keeps text count seed generator

end Generator

end TextGrammar
