import Mathlib.Data.List.Basic
import TextGrammar.Proofs.Failure
import TextGrammar.Proofs.Generator.Frame

/-! Tolerant parses by the parses that they make, each from its state and under its limit. -/
namespace TextGrammar

namespace Generator

theorem isForeign_checkDepth {φ μ : Type} (depth : Data φ μ) : IsForeign (checkDepth depth) := by
  unfold checkDepth
  split
  · split
    · exact .error rfl
    · exact .ok _
  · exact .error rfl

theorem isForeign_reducedDepth (retry : RetrySettings) (depth : Int) :
    IsForeign (reducedDepth retry depth) := by
  refine (Data.isForeign_timesToInteger _ _).bind fun reduced => ?_
  refine (Data.isForeign_limit _ _).bind fun least => ?_
  split
  · exact (IsForeign.mapError (fun _ => rfl) _).bind fun _ => isForeign_checkDepth _
  · exact isForeign_checkDepth _

theorem isForeign_tolerantText (value : Value) : IsForeign (tolerantText value) := by
  unfold tolerantText
  split
  · exact .ok none
  · refine IsForeign.map ?_ _
    unfold resultText
    split
    · exact .ok _
    · exact .error rfl

/-- An attempt that failed, and the limit that it ran under. -/
structure FailedAttempt where
  depth : Int
  failure : Failure

/-- A generator for the next attempt: one that nested too deep makes it shallower. -/
def afterFailure (failure : Failure) (generator : Generator) : Except Failure Generator :=
  match failure with
  | .tooDeep _ => do
    return { generator with maxDepth := ← reducedDepth generator.retry generator.maxDepth }
  | _ => .ok generator

theorem afterFailure_eq_ok {failure : Failure} {generator next : Generator}
    (h : generator.afterFailure failure = .ok next) :
    (∃ limit depth, failure = .tooDeep limit ∧
      reducedDepth generator.retry generator.maxDepth = .ok depth ∧
        next = { generator with maxDepth := depth }) ∨
      (∀ limit, failure ≠ .tooDeep limit) ∧ next = generator := by
  unfold afterFailure at h
  split at h
  · obtain ⟨depth, hdepth, h⟩ := bind_eq_ok.1 h
    exact .inl ⟨_, depth, rfl, hdepth, (pure_eq_ok.1 h).symm⟩
  · rename_i hother
    exact .inr ⟨hother, (Except.ok.inj h).symm⟩

theorem afterFailure_eq_error {failure fault : Failure} {generator : Generator}
    (h : generator.afterFailure failure = .error fault) :
    reducedDepth generator.retry generator.maxDepth = .error fault := by
  unfold afterFailure at h
  split at h
  · rcases bind_eq_error.1 h with hreduced | ⟨depth, -, h⟩
    · exact hreduced
    · cases h
  · cases h

/-- Attempts at a text that failed one after the other from a generator on, and the generator for
the next one. -/
inductive Retried (text : Datum) (keepContext : Bool) (start : Generator) :
    List FailedAttempt → Generator → Prop
  | first : Retried text keepContext start [] start
  | again {tried : List FailedAttempt} {current after next : Generator} {failure : Failure}
      (htried : Retried text keepContext start tried current)
      (hparse : parse text keepContext current = (.error failure, after))
      (hfailure : failure.isGrammarFailure = true)
      (hnext : after.afterFailure failure = .ok next) :
      Retried text keepContext start (tried ++ [⟨current.maxDepth, failure⟩]) next

/-- An attempt after which there is no other, and a failure is passed on: the attempt's own one if
it is not of the engine, that the result is no text, or that the limit cannot be reduced. -/
inductive Breaks (text : Datum) (keepContext : Bool) (current : Generator) :
    Failure → Generator → Prop
  | foreign {failure : Failure} {after : Generator}
      (hparse : parse text keepContext current = (.error failure, after))
      (hfailure : failure.isGrammarFailure = false) : Breaks text keepContext current failure after
  | unfit {value : Value} {failure : Failure} {after : Generator}
      (hparse : parse text keepContext current = (.ok value, after))
      (hvalue : tolerantText value = .error failure) : Breaks text keepContext current failure after
  | unreduced {failure fault : Failure} {after : Generator}
      (hparse : parse text keepContext current = (.error failure, after))
      (hfailure : failure.isGrammarFailure = true)
      (hnext : after.afterFailure failure = .error fault) : Breaks text keepContext current fault after

/-- The ways that up to so many attempts end: a text from one of them, a failure that is passed on,
or the message of the last of them. -/
inductive Ended (text : Datum) (options : Tolerance) (start : Generator) :
    Except Failure TolerantResult → Generator → Prop
  | passed {tried : List FailedAttempt} {current after : Generator} {value : Value}
      {shown : Option String}
      (htried : Retried text options.preserveContext start tried current)
      (hleft : tried.length < options.maxAttempts)
      (hparse : parse text options.preserveContext current = (.ok value, after))
      (hvalue : tolerantText value = .ok shown) :
      Ended text options start
        (.ok { result := .ok shown, attempts := tried.length + 1, validation := none }) after
  | broken {tried : List FailedAttempt} {current after : Generator} {failure : Failure}
      (htried : Retried text options.preserveContext start tried current)
      (hleft : tried.length < options.maxAttempts)
      (hbreaks : Breaks text options.preserveContext current failure after) :
      Ended text options start (.error failure) after
  | exhausted {tried : List FailedAttempt} {failed : FailedAttempt} {current : Generator}
      (htried : Retried text options.preserveContext start (tried ++ [failed]) current)
      (hall : tried.length + 1 = options.maxAttempts) :
      Ended text options start
        (.ok {
          result := .error failed.failure.message
          attempts := options.maxAttempts
          validation := none }) current

section Attempts

variable {options : Tolerance} {prompt : Prompt} {generator after : Generator} {left : Nat}
  {number : Int} {last : Failure}

theorem attempts_succ_of_ok {value : Value}
    (h : parseText options.preserveContext prompt generator = (.ok value, after)) :
    attempts options prompt (left + 1) number last generator =
      ((tolerantText value).map fun shown =>
        { result := .ok shown, attempts := number, validation := none }, after) := by
  simp only [attempts, h]
  cases tolerantText value with
  | error failure => rfl
  | ok shown => rfl

theorem attempts_succ_of_grammar {failure : Failure} (hfailure : failure.isGrammarFailure = true)
    (h : parseText options.preserveContext prompt generator = (.error failure, after)) :
    attempts options prompt (left + 1) number last generator =
      match after.afterFailure failure with
      | .error fault => (.error fault, after)
      | .ok next => attempts options prompt left (number + 1) failure next := by
  rw [attempts, h]
  cases failure with
  | tooDeep limit =>
    simp only [afterFailure]
    cases reducedDepth after.retry after.maxDepth with
    | error fault => rfl
    | ok depth => rfl
  | _ => exact if_pos hfailure

theorem attempts_succ_of_foreign {failure : Failure} (hfailure : failure.isGrammarFailure = false)
    (h : parseText options.preserveContext prompt generator = (.error failure, after)) :
    attempts options prompt (left + 1) number last generator = (.error failure, after) := by
  rw [attempts, h]
  cases failure with
  | tooDeep limit => cases hfailure
  | _ => exact if_neg (by rw [hfailure]; decide)

end Attempts

/-- The attempts that were tried and those that are left are all there are, and the failure in hand
is the one of the attempt before. -/
theorem attempts_ended {text : Datum} {prompt : Prompt} (htext : checkText text = .ok prompt)
    {options : Tolerance} (hattempts : 1 ≤ options.maxAttempts) {start current : Generator}
    {left : Nat} {tried : List FailedAttempt} {last : Failure}
    (htried : Retried text options.preserveContext start tried current)
    (hleft : tried.length + left = options.maxAttempts)
    (hlast : ∀ earlier failed, tried = earlier ++ [failed] → failed.failure = last) :
    Ended text options start (attempts options prompt left (tried.length + 1) last current).1
      (attempts options prompt left (tried.length + 1) last current).2 := by
  induction left generalizing tried current last with
  | zero =>
    rcases List.eq_nil_or_concat' tried with rfl | ⟨earlier, failed, rfl⟩
    · rw [List.length_nil] at hleft
      omega
    · obtain rfl := hlast earlier failed rfl
      refine .exhausted htried ?_
      simpa using hleft
  | succ left ih =>
    have hmore : (tried.length : Int) < options.maxAttempts := by omega
    rcases hrun : parseText options.preserveContext prompt current with ⟨failure | value, after⟩
    · have hparse := (parse_of_text htext options.preserveContext current).trans hrun
      cases hfailure : failure.isGrammarFailure with
      | false =>
        rw [attempts_succ_of_foreign hfailure hrun]
        exact .broken htried hmore (.foreign hparse hfailure)
      | true =>
        rw [attempts_succ_of_grammar hfailure hrun]
        cases hnext : after.afterFailure failure with
        | error fault => exact .broken htried hmore (.unreduced hparse hfailure hnext)
        | ok next =>
          have hagain := htried.again hparse hfailure hnext
          have hlength : ((tried ++ [(⟨current.maxDepth, failure⟩ : FailedAttempt)]).length : Int) =
              tried.length + 1 := by simp
          have hended := @ih _ _ failure hagain (by omega) ?_
          · rwa [hlength] at hended
          · intro earlier failed heq
            rw [← List.singleton_injective (List.append_inj' heq rfl).2]
    · have hparse := (parse_of_text htext options.preserveContext current).trans hrun
      rw [attempts_succ_of_ok hrun]
      cases hvalue : tolerantText value with
      | error failure => exact .broken htried hmore (.unfit hparse hvalue)
      | ok shown => exact .passed htried hmore hparse hvalue

theorem Breaks.isGrammarFailure {text : Datum} {keepContext : Bool} {current after : Generator}
    {failure : Failure} (h : Breaks text keepContext current failure after) :
    failure.isGrammarFailure = false := by
  cases h with
  | foreign hparse hfailure => exact hfailure
  | unfit hparse hvalue => exact isForeign_tolerantText _ _ hvalue
  | unreduced hparse hfailure hnext =>
    exact isForeign_reducedDepth _ _ _ (afterFailure_eq_error hnext)

/-- A generator once attempts have ended: the limit is put back, and giving up is noted. -/
def settled (depth : Int) (result : Except Failure TolerantResult) (generator : Generator) :
    Generator :=
  match result with
  | .error _ => { generator with maxDepth := depth }
  | .ok result => givingUp result { generator with maxDepth := depth }

section Tolerant

variable {text : Datum} {prompt : Prompt} {options : Tolerance} {generator : Generator}

/-- Options may ask for the rules to be in order first. -/
def Admits (options : Tolerance) (generator : Generator) : Prop :=
  options.validateFirst = true → generator.store.validate.isValid = true

theorem parseTolerantly_of_not_admits (htext : checkText text = .ok prompt)
    (h : ¬ Admits options generator) :
    parseTolerantly text (some options) generator =
      (.ok (refusal generator.store.validate), generator) := by
  have hinvalid : (options.validateFirst && !generator.store.validate.isValid) = true := by
    simp only [Admits, Classical.not_imp] at h
    simp [h.1, h.2]
  rw [parseTolerantly, check_bind, htext]
  dsimp only
  rw [get_bind, check_bind]
  simp only [hinvalid, if_true]
  rfl

theorem parseTolerantly_of_admits (htext : checkText text = .ok prompt)
    (h : Admits options generator) :
    parseTolerantly text (some options) generator =
      ((attempts options prompt options.maxAttempts.toNat 1 (.grammar "") generator).1,
        settled generator.maxDepth
          (attempts options prompt options.maxAttempts.toNat 1 (.grammar "") generator).1
          (attempts options prompt options.maxAttempts.toNat 1 (.grammar "") generator).2) := by
  have hvalid : (options.validateFirst && !generator.store.validate.isValid) = false := by
    simp only [Admits] at h
    cases hfirst : options.validateFirst with
    | false => rfl
    | true => rw [h hfirst]; rfl
  rw [parseTolerantly, check_bind, htext]
  dsimp only
  rw [get_bind, check_bind]
  simp only [hvalid]
  rcases attempts options prompt options.maxAttempts.toNat 1 (.grammar "") generator
    with ⟨failure | result, after⟩
  · rfl
  · rfl

/-- The first attempt has none before it, and the settings allow at least one. -/
theorem attempts_ended_first (htext : checkText text = .ok prompt)
    (hattempts : 1 ≤ options.maxAttempts) (generator : Generator) :
    Ended text options generator
      (attempts options prompt options.maxAttempts.toNat 1 (.grammar "") generator).1
      (attempts options prompt options.maxAttempts.toNat 1 (.grammar "") generator).2 := by
  have hleft : ((0 : Nat) : Int) + options.maxAttempts.toNat = options.maxAttempts := by omega
  refine attempts_ended htext hattempts .first hleft ?_
  intro earlier failed hnil
  cases earlier <;> cases hnil

end Tolerant

/-- A text that is answered was come to by an attempt. -/
theorem exists_retried_of_ok {text : Datum} {options : Tolerance}
    (hattempts : 1 ≤ options.maxAttempts) {generator after : Generator} {shown : Option String}
    {number : Int} {validation : Option Validation}
    (h : parseTolerantly text (some options) generator =
      (.ok { result := .ok shown, attempts := number, validation }, after)) :
    ∃ tried current value last, Retried text options.preserveContext generator tried current ∧
      number = tried.length + 1 ∧
      parse text options.preserveContext current = (.ok value, last) ∧
      tolerantText value = .ok shown := by
  cases hprompt : checkText text with
  | error failure =>
    rw [parseTolerantly, check_bind, hprompt] at h
    cases (Prod.ext_iff.1 h).1
  | ok prompt =>
    by_cases hadmits : Admits options generator
    · have hended := attempts_ended_first hprompt hattempts generator
      rw [parseTolerantly_of_admits hprompt hadmits] at h
      generalize attempts options prompt options.maxAttempts.toNat 1 (.grammar "") generator = run
        at h hended
      obtain ⟨result, last⟩ := run
      obtain rfl : result = _ := (Prod.ext_iff.1 h).1
      cases hended with
      | passed htried hleft hparse hvalue => exact ⟨_, _, _, _, htried, rfl, hparse, hvalue⟩
    · rw [parseTolerantly_of_not_admits hprompt hadmits] at h
      cases (Prod.ext_iff.1 h).1

/-- What a tolerant parse answers, by what its parses come to. -/
structure Agrees (text : Datum) (options : Tolerance) (generator : Generator)
    (result : Except Failure TolerantResult) (after : Generator) : Prop where
  /-- Failures of the engine itself are never passed on. -/
  contained : ∀ failure, result = .error failure → failure.isGrammarFailure = false
  /-- Rules that are not in order are told, and nothing is touched. -/
  refused : ¬ Admits options generator →
    (∃ message, result = .ok {
      result := .error message
      attempts := 0
      validation := some generator.store.validate }) ∧ after = generator
  /-- What the text comes to at once is the answer, and all that is left is what it left. -/
  passed : Admits options generator → ∀ value shown last,
    parse text options.preserveContext generator = (.ok value, last) →
      tolerantText value = .ok shown →
        result = .ok { result := .ok shown, attempts := 1, validation := none } ∧ after = last
  /-- Otherwise there are more attempts, each from where the one before it failed. -/
  ended : Admits options generator → ∃ last,
    Ended text options generator result last ∧ after = settled generator.maxDepth result last

theorem parseTolerantly_agrees {generator : Generator} {text : Datum}
    (htext : text.text?.isSome = true) {options : Tolerance} (hattempts : 1 ≤ options.maxAttempts) :
    Agrees text options generator (parseTolerantly text (some options) generator).1
      (parseTolerantly text (some options) generator).2 := by
  obtain ⟨prompt, hprompt⟩ := exists_checkText htext
  by_cases hadmits : Admits options generator
  · have hended := attempts_ended_first hprompt hattempts generator
    rw [parseTolerantly_of_admits hprompt hadmits]
    refine ⟨?_, fun hnot => absurd hadmits hnot, ?_, fun _ => ⟨_, hended, rfl⟩⟩
    · intro failure hfailure
      dsimp only at hfailure
      rw [hfailure] at hended
      cases hended with
      | broken htried hleft hbreaks => exact hbreaks.isGrammarFailure
    · intro _ value shown last hparse hvalue
      obtain ⟨left, hleft⟩ : ∃ left, options.maxAttempts.toNat = left + 1 :=
        ⟨options.maxAttempts.toNat - 1, by omega⟩
      have hdepth := maxDepth_of_configuration (configuration_parse hparse)
      rw [parse_of_text hprompt] at hparse
      rw [hleft, attempts_succ_of_ok hparse, hvalue, ← hdepth]
      exact ⟨rfl, rfl⟩
  · rw [parseTolerantly_of_not_admits hprompt hadmits]
    refine ⟨?_, fun _ => ⟨⟨_, rfl⟩, rfl⟩, fun h => absurd h hadmits, fun h => absurd h hadmits⟩
    intro failure hfailure
    cases hfailure

/-- A generator with too small a limit for its rule. -/
def shallowGenerator : Generator :=
  { (Generator.default 0 100).withStore ⟨[{ name := "a", rule := .static { values := ["x"] } }]⟩ with
    maxDepth := 1 }

theorem parseTolerantly_shallowGenerator :
    ((.text "%a%" : Datum).text?).isSome = true ∧ 1 ≤ ({} : Tolerance).maxAttempts ∧
      Agrees (.text "%a%") {} shallowGenerator
        (parseTolerantly (.text "%a%") (some {}) shallowGenerator).1
        (parseTolerantly (.text "%a%") (some {}) shallowGenerator).2 :=
  ⟨rfl, by decide, parseTolerantly_agrees rfl (by decide)⟩

end Generator

end TextGrammar
