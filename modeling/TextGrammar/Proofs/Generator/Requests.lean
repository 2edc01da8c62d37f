import TextGrammar.Generator.Questions
import TextGrammar.Proofs.Generator.Attempts
import TextGrammar.Proofs.Generator.Registration

/-! Sessions: what a generator answers to any requests, whatever notices were given before. -/
namespace TextGrammar

/-- What can be asked of a generator, by the type of the answer. Nothing is changed. -/
inductive Inquiry : Type → Type where
  | names : Inquiry (List String)
  | counts : Inquiry (List (RuleKind × Nat))
  | size : Inquiry Nat
  | grammar : Inquiry (Table (List String))
  | hasName (name : String) : Inquiry Bool
  | has (name : String) (kind : RuleKind) : Inquiry Bool
  | kindOf (name : String) : Inquiry (Option RuleKind)
  | rule (name : String) : Inquiry (Option Rule)
  | ruleOfKind (name : String) (kind : RuleKind) : Inquiry (Option Rule)
  | modifiers : Inquiry (List Modifier)
  | hasModifier (name : String) : Inquiry Bool
  | modified (text : Datum) (background : Background) : Inquiry Value
  | maxDepth : Inquiry Int
  | seed : Inquiry (Option (Fin stateCount))
  | context : Inquiry Context
  | missingNames (text : Datum) : Inquiry (List String)
  | validation : Inquiry Validation
  | complexity (name visited depth : Datum) : Inquiry RuleComplexity
  | totalComplexity (depth : Datum) : Inquiry TotalComplexity
  | outcomes (name depth cap : Datum) : Inquiry Distribution
  | stats : Inquiry Stats
  | advice (error text ruleName : Datum) : Inquiry String
  | suggestions : Inquiry Suggestions
  | snapshot : Inquiry Snapshot
  | clone : Inquiry Generator

/-- A call, with its arguments as they are given, by the type of its result. -/
inductive Request : Type → Type 1 where
  | ask {α : Type} (inquiry : Inquiry α) : Request α
  | register (registration : Registration) : Request Unit
  | removeRule (kind : RuleKind) (name : Datum) : Request Bool
  | removeRules (name : Datum) : Request Bool
  | removeModifier (name : Datum) : Request Bool
  | clearKind (kind : RuleKind) : Request Unit
  | clearRules : Request Unit
  | clear : Request Unit
  | clearModifiers : Request Unit
  | clearEverything : Request Unit
  | restart (name : String) : Request Bool
  | useEnglish (forms : English.BaseForms) (ordinals : Bool) : Request Unit
  | limitDepth (depth : Datum) : Request Unit
  | seedWith (seed : Datum) : Request Unit
  | unseed : Request Unit
  | forgetContext : Request Unit
  | parse (text : Datum) (keepContext : Bool) : Request Value
  | parseReported (text : Datum) (keepContext : Bool) : Request String
  | parseWith (text options : Datum) : Request TolerantResult
  | parseAll (texts : Datum) (keepContext : Bool) : Request (List Value)
  | variations (text count seed : Datum) : Request (List Value)
  | expand (text : Datum) (keepContext : Bool) : Request String
  | resolve (name : Datum) (scope : Scope) : Request (Option String)

open Generator

def Inquiry.ask {α : Type} (generator : Generator) : Inquiry α → Except Failure α
  | names => .ok generator.store.names
  | counts => .ok generator.store.counts
  | size => .ok generator.store.size
  | grammar => .ok generator.store.staticValues
  | hasName name => .ok (generator.store.hasName name)
  | has name kind => .ok (generator.store.has name kind)
  | kindOf name => .ok (generator.store.kind? name)
  | rule name => .ok (generator.store.rule? name)
  | ruleOfKind name kind => .ok (generator.store.get? name kind)
  | modifiers => .ok generator.pipeline.ordered
  | hasModifier name => .ok (generator.pipeline.has name)
  | modified text background => generator.modified text background
  | maxDepth => .ok generator.maxDepth
  | seed => .ok generator.source.seed
  | context => .ok generator.context
  | missingNames text => text.searched.map generator.store.missingNames
  | validation => .ok generator.store.validate
  | complexity name visited depth => generator.complexity name visited depth
  | totalComplexity depth => generator.totalComplexity depth
  | outcomes name depth cap => generator.outcomes name depth cap
  | stats => .ok generator.stats
  | advice error text ruleName => generator.advise error text ruleName
  | suggestions => .ok generator.suggestions
  | snapshot => .ok generator.snapshot
  | clone => .ok generator.clone

namespace Request

def perform {α : Type} : Request α → Action α
  | ask inquiry => fun generator => (inquiry.ask generator, generator)
  | register registration => registration.perform
  | removeRule kind name => Generator.removeRule kind name
  | removeRules name => Generator.removeRules name
  | removeModifier name => Generator.removeModifier name
  | clearKind kind => modify fun generator => generator.withStore (generator.store.eraseKind kind)
  | clearRules => modify (withStore ∅)
  | clear => modify Generator.clear
  | clearModifiers => modify fun generator => { generator with pipeline := ∅ }
  | clearEverything => modify Generator.clearEverything
  | restart name => fun generator =>
    match generator.store.restart? name with
    | some store => (.ok true, generator.withStore store)
    | none => (.ok false, generator)
  | useEnglish forms ordinals => modify (Generator.useEnglish forms ordinals)
  | limitDepth depth => Generator.limitDepth depth
  | seedWith seed => Generator.seedWith seed
  | unseed => modify Generator.unseed
  | forgetContext => modify Generator.forgetContext
  | parse text keepContext => Generator.parse text keepContext
  | parseReported text keepContext => Generator.parseReported text keepContext
  | parseWith text options => Generator.parseWith text options
  | parseAll texts keepContext => Generator.parseAll texts keepContext
  | variations text count seed => Generator.variations text count seed
  | expand text keepContext => Generator.expand text keepContext
  | resolve name scope => Generator.resolve name scope

end Request

/-- Requests, from the first one on. -/
abbrev Session := List (Sigma Request)

namespace Session

/-- The generator after a session. A request that fails does not end it. -/
def run (generator : Generator) : Session → Generator
  | [] => generator
  | ⟨_, request⟩ :: rest => run (request.perform generator).2 rest

/-- The result or the failure of each request. -/
def answers (generator : Generator) : Session → List (Σ α : Type, Except Failure α)
  | [] => []
  | ⟨α, request⟩ :: rest =>
    ⟨α, (request.perform generator).1⟩ :: answers (request.perform generator).2 rest

end Session

namespace Generator

/-- A generator that has given notices before its own. -/
def withEarlier (notices : List String) (generator : Generator) : Generator :=
  { generator with log := notices ++ generator.log }

/-- Notices given before make no difference to an action, and stay where they are. -/
def IgnoresLog {α : Type} (action : Action α) : Prop :=
  ∀ notices, Mirrors (fun _ => True) (withEarlier notices) action

theorem IgnoresLog.pure {α : Type} (value : α) : IgnoresLog (Pure.pure value : Action α) :=
  fun _ => Mirrors.pure value

theorem IgnoresLog.bind {α β : Type} {first : Action α} {next : α → Action β}
    (h : IgnoresLog first) (hnext : ∀ value, IgnoresLog (next value)) :
    IgnoresLog (first >>= next) := by
  intro notices
  have hends : Ensures (fun _ => True) (fun _ => True) first := fun _ _ => ⟨trivial, trivial⟩
  exact (h notices).bind hends fun value _ => hnext value notices

theorem ignoresLog_check {α : Type} (result : Except Failure α) : IgnoresLog (check result) := by
  intro notices generator _
  rfl

theorem ignoresLog_modify {change : Generator → Generator}
    (h : ∀ notices generator,
      change (withEarlier notices generator) = withEarlier notices (change generator)) :
    IgnoresLog (modify change : Action Unit) := by
  intro notices generator _
  change (Except.ok (), change (withEarlier notices generator)) = _
  rw [h]
  rfl

theorem notice_withEarlier (message : String) (notices : List String) (generator : Generator) :
    notice message (withEarlier notices generator) =
      withEarlier notices (notice message generator) := by
  simp only [notice, withEarlier, List.append_assoc]

@[simp] theorem store_withEarlier (notices : List String) (generator : Generator) :
    (withEarlier notices generator).store = generator.store :=
  rfl

@[simp] theorem source_withEarlier (notices : List String) (generator : Generator) :
    (withEarlier notices generator).source = generator.source :=
  rfl

@[simp] theorem retry_withEarlier (notices : List String) (generator : Generator) :
    (withEarlier notices generator).retry = generator.retry :=
  rfl

theorem ignoresLog_register (name : Datum) (rule : Rule) : IgnoresLog (register name rule) := by
  intro notices generator _
  rw [register_eq, register_eq, store_withEarlier]
  rcases generator.store.register name rule with failure | ⟨store, _ | shadowing⟩
  · rfl
  · rfl
  · exact congrArg (Prod.mk (Except.ok ()))
      (notice_withEarlier shadowing.message notices (generator.withStore store))

theorem ignoresLog_isClosed : Registration.IsClosed IgnoresLog where
  nothing := IgnoresLog.pure ()
  refused failure := ignoresLog_check (.error failure)
  register name {rule} _ := ignoresLog_register name rule
  install _ := ignoresLog_modify fun _ _ => rfl
  andThen hfirst hnext := hfirst.bind fun _ => hnext

theorem ignoresLog_remove {isEmpty : Generator → Bool} {has : Generator → String → Bool}
    {erase : Generator → String → Generator}
    (hempty : ∀ notices generator, isEmpty (withEarlier notices generator) = isEmpty generator)
    (hhas : ∀ notices generator name, has (withEarlier notices generator) name = has generator name)
    (herase : ∀ notices generator name,
      erase (withEarlier notices generator) name = withEarlier notices (erase generator name))
    (name : Datum) : IgnoresLog (remove isEmpty has erase name) := by
  intro notices generator _
  rw [remove, get_bind, get_bind, hempty]
  cases isEmpty generator with
  | true => rfl
  | false =>
    simp only [Bool.false_eq_true, if_false]
    rw [check_bind, check_bind]
    rcases name.name? with failure | key | key
    · rfl
    · rfl
    · change (Except.ok (has (withEarlier notices generator) key),
        erase (withEarlier notices generator) key) = _
      rw [hhas, herase]
      rfl

theorem ignoresLog_parseText (keepContext : Bool) (prompt : Prompt) :
    IgnoresLog (parseText keepContext prompt : Action Value) := by
  intro notices generator _
  rfl

theorem ignoresLog_parse (text : Datum) (keepContext : Bool) : IgnoresLog (parse text keepContext) :=
  (ignoresLog_check _).bind fun prompt => ignoresLog_parseText keepContext prompt

theorem ignoresLog_parseReported (text : Datum) (keepContext : Bool) :
    IgnoresLog (parseReported text keepContext) :=
  (ignoresLog_parse text keepContext).bind fun _ => ignoresLog_check _

theorem ignoresLog_parseEach (keepContext isFirst : Bool) (texts : List Datum) :
    IgnoresLog (parseEach keepContext isFirst texts) := by
  induction texts generalizing isFirst with
  | nil => exact IgnoresLog.pure []
  | cons text rest ih =>
    refine (ignoresLog_parse text _).bind fun _ => ?_
    exact (ih false).bind fun _ => IgnoresLog.pure _

theorem ignoresLog_parseAll (texts : Datum) (keepContext : Bool) :
    IgnoresLog (parseAll texts keepContext) :=
  (ignoresLog_check _).bind fun items => ignoresLog_parseEach keepContext true items

theorem afterFailure_withEarlier (failure : Failure) (notices : List String) (generator : Generator) :
    (withEarlier notices generator).afterFailure failure =
      (generator.afterFailure failure).map (withEarlier notices) := by
  cases failure with
  | tooDeep limit =>
    change (do
      let maxDepth ← reducedDepth generator.retry generator.maxDepth
      return withEarlier notices { generator with maxDepth }) = _
    rw [afterFailure]
    cases reducedDepth generator.retry generator.maxDepth with
    | error failure => rfl
    | ok depth => rfl
  | _ => rfl

theorem ignoresLog_attempts (options : Tolerance) (prompt : Prompt) (left : Nat) (number : Int)
    (last : Failure) :
    IgnoresLog (attempts options prompt left number last : Action TolerantResult) := by
  intro notices
  induction left generalizing number last with
  | zero =>
    intro generator _
    rfl
  | succ left ih =>
    intro generator _
    have hattempt := ignoresLog_parseText options.preserveContext prompt notices generator trivial
    rcases hrun : parseText options.preserveContext prompt generator with ⟨failure | value, after⟩
    · rw [hrun] at hattempt
      cases hfailure : failure.isGrammarFailure with
      | false =>
        rw [attempts_succ_of_foreign hfailure hattempt, attempts_succ_of_foreign hfailure hrun]
      | true =>
        rw [attempts_succ_of_grammar hfailure hattempt, attempts_succ_of_grammar hfailure hrun,
          afterFailure_withEarlier]
        cases after.afterFailure failure with
        | error fault => rfl
        | ok next => exact ih (number + 1) failure next trivial
    · rw [hrun] at hattempt
      rw [attempts_succ_of_ok hattempt, attempts_succ_of_ok hrun]

theorem settled_withEarlier (depth : Int) (result : Except Failure TolerantResult)
    (notices : List String) (generator : Generator) :
    settled depth result (withEarlier notices generator) =
      withEarlier notices (settled depth result generator) := by
  cases result with
  | error failure => rfl
  | ok result =>
    simp only [settled, givingUp]
    split
    · rfl
    · exact notice_withEarlier _ _ { generator with maxDepth := depth }

theorem ignoresLog_parseTolerantly_some (text : Datum) (options : Tolerance) :
    IgnoresLog (parseTolerantly text (some options)) := by
  intro notices generator _
  cases htext : checkText text with
  | error failure =>
    rw [parseTolerantly, check_bind, check_bind, htext]
  | ok prompt =>
    by_cases hadmits : Admits options generator
    · have hearlier : Admits options (withEarlier notices generator) := hadmits
      rw [parseTolerantly_of_admits htext hearlier, parseTolerantly_of_admits htext hadmits,
        ignoresLog_attempts options prompt _ _ _ notices generator trivial, settled_withEarlier]
      rfl
    · have hearlier : ¬ Admits options (withEarlier notices generator) := hadmits
      rw [parseTolerantly_of_not_admits htext hearlier, parseTolerantly_of_not_admits htext hadmits]
      rfl

/-- Without options, the settings say how many attempts there are. -/
theorem parseTolerantly_none (text : Datum) (generator : Generator) :
    parseTolerantly text none generator = match checkText text,
        attemptCount generator.retry.maxAttempts >>= fun maxAttempts => checkOptions { maxAttempts } with
      | .error failure, _ => (.error failure, generator)
      | _, .error failure => (.error failure, generator)
      | _, .ok options => parseTolerantly text (some options) generator := by
  unfold parseTolerantly
  rw [check_bind]
  cases checkText text with
  | error failure => rfl
  | ok prompt =>
    dsimp only
    rw [get_bind, check_bind]
    cases attemptCount generator.retry.maxAttempts >>= fun maxAttempts => checkOptions { maxAttempts } with
    | error failure => rfl
    | ok options => rfl

theorem ignoresLog_parseTolerantly (text : Datum) (options : Option Tolerance) :
    IgnoresLog (parseTolerantly text options) := by
  cases options with
  | some options => exact ignoresLog_parseTolerantly_some text options
  | none =>
    intro notices generator _
    rw [parseTolerantly_none, parseTolerantly_none, retry_withEarlier]
    split
    · rfl
    · rfl
    · exact ignoresLog_parseTolerantly_some text _ notices generator trivial

theorem ignoresLog_parseWith (text options : Datum) : IgnoresLog (parseWith text options) :=
  (ignoresLog_check _).bind fun _ => (ignoresLog_check _).bind fun options =>
    ignoresLog_parseTolerantly text options

theorem ignoresLog_variationsFrom (prompt : Prompt) (seed : Datum) (offset left : Nat) :
    IgnoresLog (variationsFrom prompt seed offset left) := by
  induction left generalizing offset with
  | zero => exact IgnoresLog.pure []
  | succ left ih =>
    have hrest : IgnoresLog (do
        let result ← (parseText false prompt : Action Value)
        return result :: (← variationsFrom prompt seed (offset + 1) left)) :=
      (ignoresLog_parseText false prompt).bind fun _ => (ih (offset + 1)).bind fun _ =>
        IgnoresLog.pure _
    unfold variationsFrom
    split
    · exact hrest
    · refine (ignoresLog_check _).bind fun first => ?_
      exact (ignoresLog_modify fun _ _ => rfl).bind fun _ => hrest

theorem restoreSeed_withEarlier (seed : Option (Fin stateCount)) (notices : List String)
    (generator : Generator) :
    (withEarlier notices generator).restoreSeed seed =
      withEarlier notices (generator.restoreSeed seed) := by
  cases seed with
  | none => rfl
  | some seed => rfl

theorem ignoresLog_variations (text count seed : Datum) : IgnoresLog (variations text count seed) := by
  refine (ignoresLog_check _).bind fun prompt => ?_
  split
  · rename_i number _
    split
    · exact ignoresLog_check (.error _)
    · intro notices generator _
      dsimp only
      rw [get_bind, get_bind, source_withEarlier,
        ignoresLog_variationsFrom prompt seed 0 number.toNat notices generator trivial]
      rcases variationsFrom prompt seed 0 number.toNat generator with ⟨result, after⟩
      cases result with
      | error failure =>
        exact congrArg (Prod.mk (Except.error failure)) (restoreSeed_withEarlier _ _ _)
      | ok results =>
        exact congrArg (Prod.mk (Except.ok results)) (restoreSeed_withEarlier _ _ _)
  · exact ignoresLog_check (.error _)

theorem ignoresLog_expandText (keepContext : Bool) (text : String) :
    IgnoresLog (expandText keepContext text : Action String) := by
  intro notices generator _
  rfl

theorem ignoresLog_expand (text : Datum) (keepContext : Bool) :
    IgnoresLog (expand text keepContext) := by
  have hexpand : IgnoresLog (do
      let text ← check text.searched
      (expandText keepContext text : Action String)) :=
    (ignoresLog_check _).bind fun text => ignoresLog_expandText keepContext text
  cases keepContext with
  | true => exact hexpand
  | false => exact (ignoresLog_modify fun _ _ => rfl).bind fun _ => hexpand

theorem ignoresLog_resolve (name : Datum) (scope : Scope) : IgnoresLog (resolve name scope) := by
  refine (ignoresLog_check _).bind fun key => ?_
  cases key with
  | none => exact IgnoresLog.pure none
  | some key =>
    intro notices generator _
    rfl

end Generator

theorem Inquiry.ask_withEarlier {α : Type} (inquiry : Inquiry α) (notices : List String)
    (generator : Generator) :
    inquiry.ask (withEarlier notices generator) = inquiry.ask generator := by
  cases inquiry <;> rfl

theorem Request.ignoresLog {α : Type} (request : Request α) : IgnoresLog request.perform := by
  cases request with
  | ask inquiry =>
    intro notices generator _
    exact congrArg (Prod.mk · (withEarlier notices generator)) (inquiry.ask_withEarlier _ _)
  | register registration => exact ignoresLog_isClosed.perform registration
  | removeRule kind name =>
    exact ignoresLog_remove (fun _ _ => rfl) (fun _ _ _ => rfl) (fun _ _ _ => rfl) name
  | removeRules name =>
    exact ignoresLog_remove (fun _ _ => rfl) (fun _ _ _ => rfl) (fun _ _ _ => rfl) name
  | removeModifier name =>
    exact ignoresLog_remove (fun _ _ => rfl) (fun _ _ _ => rfl) (fun _ _ _ => rfl) name
  | restart name =>
    intro notices generator _
    simp only [perform, store_withEarlier]
    cases generator.store.restart? name with
    | none => rfl
    | some store => rfl
  | limitDepth depth =>
    exact (ignoresLog_check _).bind fun _ => ignoresLog_modify fun _ _ => rfl
  | seedWith seed => exact (ignoresLog_check _).bind fun _ => ignoresLog_modify fun _ _ => rfl
  | parse text keepContext => exact ignoresLog_parse text keepContext
  | parseReported text keepContext => exact ignoresLog_parseReported text keepContext
  | parseWith text options => exact ignoresLog_parseWith text options
  | parseAll texts keepContext => exact ignoresLog_parseAll texts keepContext
  | variations text count seed => exact ignoresLog_variations text count seed
  | expand text keepContext => exact ignoresLog_expand text keepContext
  | resolve name scope => exact ignoresLog_resolve name scope
  | _ => exact ignoresLog_modify fun _ _ => rfl

/-- Whatever is requested, notices given before make no difference to the answers. -/
theorem Session.answers_withEarlier (session : Session) (notices : List String)
    (generator : Generator) :
    session.answers (withEarlier notices generator) = session.answers generator ∧
      session.run (withEarlier notices generator) = withEarlier notices (session.run generator) := by
  induction session generalizing generator with
  | nil => exact ⟨rfl, rfl⟩
  | cons first rest ih =>
    obtain ⟨α, request⟩ := first
    have hrequest := request.ignoresLog notices generator trivial
    obtain ⟨hanswers, hrun⟩ := ih (request.perform generator).2
    constructor
    · rw [answers, answers, hrequest, hanswers]
    · rw [run, run, hrequest, hrun]

end TextGrammar
