import Mathlib.Data.List.Chain
import TextGrammar.Proofs.Expansion.Reading
import TextGrammar.Proofs.Generator.Limits
import TextGrammar.Proofs.Generator.Replays

/-! What attempts that keep the context pass on: the values that names were given before. -/
namespace TextGrammar

/-- The names that are given values in the course of events. -/
def writtenNames (events : List Event) : List String :=
  events.filterMap fun event => event.write?.map Prod.fst

theorem get?_contextAfter {events : List Event} {name : String} (h : name ∉ writtenNames events)
    (context : Context) : (contextAfter context events).get? name = context.get? name := by
  induction events generalizing context with
  | nil => rfl
  | cons event rest ih =>
    have hrest : name ∉ writtenNames rest := by
      intro hmem
      obtain ⟨later, hlater, hname⟩ := List.mem_filterMap.1 hmem
      exact h (List.mem_filterMap.2 ⟨later, List.mem_cons_of_mem _ hlater, hname⟩)
    change (contextAfter (event.onContext context) rest).get? name = _
    rw [ih hrest, Event.onContext]
    cases hwrite : event.write? with
    | none => rfl
    | some write =>
      have hne : name ≠ write.1 := by
        rintro rfl
        exact h (List.mem_filterMap.2 ⟨event, List.mem_cons_self, by rw [hwrite]; rfl⟩)
      exact (Table.get?_put _ _ _ _).trans (if_neg hne)

theorem Pipeline.apply_empty (context : Background) (text : Value) :
    (∅ : Pipeline).apply context text = .ok text := by
  have hordered : (∅ : Pipeline).ordered = [] := List.mergeSort_nil
  rw [apply, hordered]
  rfl

namespace Generator

/-- A parse from here fails, and this is where it is tried again from. -/
def IsRetried (text : Datum) (keepContext : Bool) (current next : Generator) : Prop :=
  ∃ failure after, parse text keepContext current = (.error failure, after) ∧
    failure.isGrammarFailure = true ∧ after.afterFailure failure = .ok next

def withContext (context : Context) (generator : Generator) : Generator :=
  { generator with engine := { generator.engine with context } }

section Retries

variable {text : Datum} {prompt : Prompt} {keepContext : Bool} {start current next : Generator}
  {tried : List FailedAttempt}

theorem IsRetried.restarted_store (h : IsRetried text keepContext current next) :
    next.store.restarted = current.store.restarted := by
  obtain ⟨failure, after, hparse, -, hnext⟩ := h
  have hrules := congrArg Configuration.rules (configuration_parse hparse)
  rcases afterFailure_eq_ok hnext with ⟨limit, depth, -, -, rfl⟩ | ⟨-, rfl⟩
  · exact hrules
  · exact hrules

/-- What nests too deep is tried again under the limit that is next. -/
theorem isRetried_of_tooDeep {limit : String} {depth : Int}
    (hparse : (parse text keepContext current).1 = .error (.tooDeep limit))
    (hdepth : reducedDepth current.retry current.maxDepth = .ok depth) :
    IsRetried text keepContext current
      { (parse text keepContext current).2 with maxDepth := depth } := by
  have hkept := parse_keeps text keepContext current
  rw [← retry_of_configuration hkept, ← maxDepth_of_configuration hkept] at hdepth
  refine ⟨.tooDeep limit, (parse text keepContext current).2, Prod.ext hparse rfl, rfl, ?_⟩
  rw [afterFailure, hdepth]
  rfl

/-- A failed attempt leaves its values in the context. -/
theorem IsRetried.context (htext : checkText text = .ok prompt)
    (h : IsRetried text true current next) :
    next.context = contextAfter current.context (current.events true prompt.text) := by
  obtain ⟨failure, after, hparse, -, hnext⟩ := h
  have hafter : after.context =
      contextAfter current.context (current.events true prompt.text) := by
    rw [parse_of_text htext] at hparse
    have hengine := congrArg Generator.context (congrArg Prod.snd hparse)
    exact hengine.symm.trans (@context_expandText current true prompt.text)
  rcases afterFailure_eq_ok hnext with ⟨limit, depth, -, -, rfl⟩ | ⟨-, rfl⟩
  · exact hafter
  · exact hafter

/-- Attempts by the generators that they start from, each of which leads to the next one. -/
theorem Retried.exists_starts (h : Retried text keepContext start tried current) :
    ∃ starts, starts.length = tried.length ∧ (starts ++ [current]).head? = some start ∧
      (starts ++ [current]).IsChain (IsRetried text keepContext) := by
  induction h with
  | first => exact ⟨[], rfl, rfl, List.isChain_singleton _⟩
  | @again tried current after next failure _ hparse hfailure hnext ih =>
    obtain ⟨starts, hlength, hhead, hchain⟩ := ih
    refine ⟨starts ++ [current], by simp [hlength], ?_, ?_⟩
    · rw [List.head?_append, hhead]
      rfl
    · rw [List.append_assoc]
      exact List.isChain_append_cons_cons.2
        ⟨hchain, ⟨failure, after, hparse, hfailure, hnext⟩, List.isChain_singleton _⟩

/-- Over attempts on a chain, the rules keep all but their places, and the values of all attempts add
up in the context. -/
theorem carried_of_isChain (htext : checkText text = .ok prompt) {starts : List Generator}
    (hhead : (starts ++ [current]).head? = some start)
    (hchain : (starts ++ [current]).IsChain (IsRetried text true)) :
    current.store.restarted = start.store.restarted ∧
      current.context =
        contextAfter start.context (starts.flatMap fun failed => failed.events true prompt.text) := by
  induction starts generalizing start with
  | nil =>
    obtain rfl : current = start := Option.some.inj hhead
    exact ⟨rfl, rfl⟩
  | cons first rest ih =>
    obtain rfl : first = start := Option.some.inj hhead
    obtain ⟨second, others, heq⟩ :=
      List.exists_cons_of_ne_nil (List.append_ne_nil_of_right_ne_nil rest (List.cons_ne_nil current []))
    rw [List.cons_append, heq, List.isChain_cons_cons] at hchain
    obtain ⟨hretried, hrest⟩ := hchain
    obtain ⟨hstore, hcontext⟩ := ih (by rw [heq]; rfl) (by rwa [heq])
    refine ⟨hstore.trans hretried.restarted_store, ?_⟩
    rw [hcontext, hretried.context htext, List.flatMap_cons, contextAfter_append]

end Retries

/-- Without modifiers, a parse is the expansion of its text. -/
theorem parse_of_unmodified {text : Datum} {prompt : Prompt} (htext : checkText text = .ok prompt)
    {keepContext : Bool} {generator : Generator} (hpipeline : generator.pipeline = ∅) :
    (parse text keepContext generator).1 =
      (generator.expandText keepContext prompt.text).1.map .text := by
  rw [parse_of_text htext]
  change (generator.expandText keepContext prompt.text).1.bind
    (fun text => generator.pipeline.apply { input := prompt.shown } (.text text)) = _
  cases (generator.expandText keepContext prompt.text).1 with
  | error failure => rfl
  | ok result => exact hpipeline ▸ Pipeline.apply_empty _ _

/-- A parse does not tell contexts apart that hold the same under all names that it reads. -/
theorem parse_withContext {text : Datum} {prompt : Prompt} (htext : checkText text = .ok prompt)
    {rules : Store} {generator : Generator} {context : Context} {reads : String → Prop}
    (hrules : generator.store.restarted = rules.restarted)
    (hreads : rules.ReadsOnly reads prompt.text)
    (hvalues : ∀ name, reads name → context.get? name = generator.context.get? name) :
    (parse text true (generator.withContext context)).1 = (parse text true generator).1 := by
  have hexpanded := (Engine.expandWithin_relates generator.maxDepth
    (min generator.maxDepth.toNat generator.stackRoom) hreads generator.engine
    (generator.withContext context).engine ⟨hrules, rfl, rfl, hvalues⟩).2.1
  rw [parse_of_text htext, parse_of_text htext]
  change (Except.mapError _ _).bind _ = (Except.mapError _ _).bind _
  exact congrArg (fun result => (Except.mapError _ result).bind _) hexpanded

/-- A text that is answered comes from a parse in the state that the failed attempts left, with the
values that they gave to names laid over the caller's context. Where it reads no name of these, and
draws from no conditional rule, it is the one that the caller's own context gives. -/
theorem parseTolerantly_resumes {text : Datum} {prompt : Prompt} (htext : checkText text = .ok prompt)
    {options : Tolerance} (hkeep : options.preserveContext = true)
    (hattempts : 1 ≤ options.maxAttempts) {generator after : Generator} {shown : Option String}
    {number : Int} {validation : Option Validation}
    (h : parseTolerantly text (some options) generator =
      (.ok { result := .ok shown, attempts := number, validation }, after)) :
    ∃ failed current value last,
      (failed ++ [current]).head? = some generator ∧
      (failed ++ [current]).IsChain (IsRetried text true) ∧
      number = failed.length + 1 ∧
      current.context =
        contextAfter generator.context (failed.flatMap fun start => start.events true prompt.text) ∧
      parse text true current = (.ok value, last) ∧ tolerantText value = .ok shown ∧
      (generator.store.ReadsOnly
          (· ∉ writtenNames (failed.flatMap fun start => start.events true prompt.text)) prompt.text →
        (parse text true (current.withContext generator.context)).1 = .ok value) := by
  obtain ⟨tried, current, value, last, htried, hnumber, hparse, hvalue⟩ :=
    exists_retried_of_ok hattempts h
  rw [hkeep] at htried hparse
  obtain ⟨failed, hlength, hhead, hchain⟩ := htried.exists_starts
  obtain ⟨hrules, hcontext⟩ := carried_of_isChain htext hhead hchain
  refine ⟨failed, current, value, last, hhead, hchain, by rw [hnumber, hlength], hcontext, hparse,
    hvalue, fun hreads => ?_⟩
  rw [parse_withContext htext hrules hreads, hparse]
  intro name hname
  rw [hcontext, get?_contextAfter hname]

/-- A generator whose rule nests too deep on its first draw, with a value left from an earlier text. -/
def stumblingGenerator : Generator :=
  ({ Generator.default 0 100 with maxDepth := 20 }.withStore ⟨[
    { name := "a", rule := .static { values := ["x"] } },
    { name := "l", rule := .static { values := ["%l%"] } },
    { name := "s", rule := .sequential { values := ["%l%", "y"], cycle := true, index := 0 } }
    ]⟩).withContext ⟨[("b", "z")]⟩

/-- Keeps the context, and asks for nothing before the first attempt. -/
def keeping : Tolerance := { preserveContext := true, validateFirst := false }

theorem parseTolerantly_stumblingGenerator :
    (parseTolerantly (.text "%@b%%a%%s%") (some keeping) stumblingGenerator).1 =
      .ok { result := .ok (some "zxy"), attempts := 2, validation := none } := by
  decide +kernel

theorem stumblingGenerator_rules {name : String} {rule : Rule}
    (h : stumblingGenerator.store.rule? name = some rule) :
    rule.HoldsValues ∧ rule.kind ≠ .conditional ∧
      ∀ value ∈ rule.texts, value ∈ ["%@b%%a%%s%", "x", "%l%", "y"] := by
  obtain ⟨entry, hentry, -, rfl⟩ := Store.exists_entry_of_rule? h
  change entry ∈ [_, _, _] at hentry
  simp only [List.mem_cons, List.not_mem_nil, or_false] at hentry
  rcases hentry with rfl | rfl | rfl
  · exact ⟨trivial, by decide, by decide⟩
  · exact ⟨trivial, by decide, by decide⟩
  · exact ⟨trivial, by decide, by decide⟩

/-- The text reads the value of the one name that no attempt gives another one. -/
theorem stumblingGenerator_readsOnly : stumblingGenerator.store.ReadsOnly
    (· ∉ writtenNames (stumblingGenerator.events true "%@b%%a%%s%")) "%@b%%a%%s%" := by
  intro name hname
  have htokens : ∀ text ∈ ["%@b%%a%%s%", "x", "%l%", "y"], ∀ name ∈ tokenNames text,
      name ∈ ["@b", "a", "s", "l"] := by
    decide +kernel
  have hmem : name ∈ ["@b", "a", "s", "l"] := by
    refine hname.mem htokens (fun _ _ rule hrule => ?_) List.mem_cons_self
    obtain ⟨hholds, -, htexts⟩ := stumblingGenerator_rules hrule
    exact ⟨hholds, htexts⟩
  cases hreplay : isReplay name with
  | true =>
    have hreferent : ∀ name ∈ ["@b", "a", "s", "l"], isReplay name = true → referent name = "b" := by
      decide
    rw [if_pos rfl, hreferent name hmem hreplay]
    decide +kernel
  | false =>
    rw [if_neg (by decide)]
    intro hkind
    obtain ⟨rule, hrule, hconditional⟩ := Option.map_eq_some_iff.1 hkind
    exact (stumblingGenerator_rules hrule).2.1 hconditional

/-- The second attempt answers the text as the caller's own context does. -/
theorem parseTolerantly_resumes_stumblingGenerator :
    checkText (.text "%@b%%a%%s%") =
      .ok { text := "%@b%%a%%s%", shown := (.text "%@b%%a%%s%" : Datum).sealed } ∧
    keeping.preserveContext = true ∧ 1 ≤ keeping.maxAttempts ∧
    (parseTolerantly (.text "%@b%%a%%s%") (some keeping) stumblingGenerator).1 =
      .ok { result := .ok (some "zxy"), attempts := 2, validation := none } ∧
    ∃ current value, IsRetried (.text "%@b%%a%%s%") true stumblingGenerator current ∧
      current.context = contextAfter ⟨[("b", "z")]⟩
        (stumblingGenerator.events true "%@b%%a%%s%") ∧
      tolerantText value = .ok (some "zxy") ∧
      (parse (.text "%@b%%a%%s%") true current).1 = .ok value ∧
      (parse (.text "%@b%%a%%s%") true (current.withContext ⟨[("b", "z")]⟩)).1 = .ok value := by
  have hanswer := parseTolerantly_stumblingGenerator
  refine ⟨rfl, rfl, by decide, hanswer, ?_⟩
  obtain ⟨failed, current, value, last, hhead, hchain, hnumber, hcontext, hparse, hvalue, hcaller⟩ :=
    parseTolerantly_resumes rfl rfl (by decide : 1 ≤ keeping.maxAttempts) (Prod.ext hanswer rfl)
  obtain ⟨first, rfl⟩ := List.length_eq_one_iff.1 (by omega : failed.length = 1)
  obtain rfl : first = stumblingGenerator := Option.some.inj hhead
  simp only [List.flatMap_cons, List.flatMap_nil, List.append_nil] at hcontext hcaller
  exact ⟨current, value, List.isChain_pair.1 hchain, hcontext, hvalue, by rw [hparse],
    hcaller stumblingGenerator_readsOnly⟩

/-- The generator after a first attempt at a text with a replay. -/
def leakedGenerator : Generator :=
  { (parse (.text "%@a%%a%%s%") true stumblingGenerator).2 with maxDepth := 14 }

/-- What a failed attempt has drawn is replayed by the next one. From the caller's context the token
of the replay would be left. -/
theorem parseTolerantly_leaks_stumblingGenerator :
    (parseTolerantly (.text "%@a%%a%%s%") (some keeping) stumblingGenerator).1 =
      .ok { result := .ok (some "xxy"), attempts := 2, validation := none } ∧
    IsRetried (.text "%@a%%a%%s%") true stumblingGenerator leakedGenerator ∧
    (parse (.text "%@a%%a%%s%") true leakedGenerator).1 = .ok (.text "xxy") ∧
    (parse (.text "%@a%%a%%s%") true
      (leakedGenerator.withContext stumblingGenerator.context)).1 = .ok (.text "%@a%xy") := by
  have hfails : (stumblingGenerator.expandText true "%@a%%a%%s%").1 = .error (.tooDeep "20") := by
    decide +kernel
  have hparse : (parse (.text "%@a%%a%%s%") true stumblingGenerator).1 = .error (.tooDeep "20") := by
    rw [parse_of_unmodified rfl rfl, hfails]
    rfl
  have hagain : (leakedGenerator.expandText true "%@a%%a%%s%").1 = .ok "xxy" := by decide +kernel
  have hcaller : ((leakedGenerator.withContext stumblingGenerator.context).expandText true
      "%@a%%a%%s%").1 = .ok "%@a%xy" := by decide +kernel
  refine ⟨by decide +kernel, isRetried_of_tooDeep hparse (by decide +kernel), ?_, ?_⟩
  · rw [parse_of_unmodified rfl rfl, hagain]
    rfl
  · rw [parse_of_unmodified rfl rfl, hcaller]
    rfl

end Generator

end TextGrammar
