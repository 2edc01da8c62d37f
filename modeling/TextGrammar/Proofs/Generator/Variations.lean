import Mathlib.Tactic.Ring
import TextGrammar.Generator.Running
import TextGrammar.Proofs.Generator.Frame
import TextGrammar.Proofs.Rule.Accepted

/-! Variations under seeds of their own: each is what its seed gives without the others. -/
namespace TextGrammar

namespace Engine

theorem anchor_isKept : IsKept fun engine => engine.source.anchor where
  drawn name engine := engine.store.anchor_drawShown name name (.run engine.context) engine.source
  context _ _ := rfl

end Engine

namespace Generator

/-- A generator without what seeds and texts have left on it. -/
def ground (generator : Generator) : Generator :=
  (generator.withSource generator.source.unseed).forgetContext

/-- A text, from the state that a seed puts the source into. -/
def parseSeeded (prompt : Prompt) (seed : Int) (generator : Generator) :
    Except Failure Value × Generator :=
  parseText false prompt (generator.withSource (generator.source.seedWith seed))

/-- A seed and an empty context are all that a text sees of what came before it. -/
theorem parseSeeded_of_ground {generator other : Generator} (h : other.ground = generator.ground)
    (prompt : Prompt) (seed : Int) :
    parseSeeded prompt seed other = parseSeeded prompt seed generator := by
  have hground (generator : Generator) :
      parseSeeded prompt seed generator = parseSeeded prompt seed generator.ground := by
    obtain ⟨⟨store, source, context⟩, maxDepth, pipeline, analysis, retry, log⟩ := generator
    rfl
  rw [hground, h, ← hground]

theorem ground_withEngine {generator : Generator} {engine : Engine}
    (hstore : engine.store = generator.store)
    (hambient : engine.source.ambient = generator.source.ambient) :
    { generator with engine }.ground = generator.ground := by
  simp only [store, source] at hstore hambient
  simp only [ground, withSource, forgetContext, Generator.source, Source.unseed, hstore, hambient]

theorem ground_withSource {generator : Generator} {source : Source}
    (h : source.ambient = generator.source.ambient) :
    (generator.withSource source).ground = generator.ground :=
  ground_withEngine rfl h

theorem anchor_parseText (keepContext : Bool) (prompt : Prompt) :
    Keeps (fun generator => generator.source.anchor)
      (parseText keepContext prompt : Action Value) := by
  intro generator
  exact Engine.expand_keeps Engine.anchor_isKept _ _ keepContext prompt.text generator.engine

/-- Under a seed a text leaves what it was made from: the rules have no course to move on, and the
ambient state is not drawn from. -/
theorem ground_parseText {generator : Generator} (hsettled : generator.store.IsSettled)
    (hseeded : generator.source.hasSeed = true) (keepContext : Bool) (prompt : Prompt) :
    (parseText keepContext prompt generator).2.ground = generator.ground := by
  have hlasting := Engine.expand_keeps Engine.lasting_isKept generator.stackRoom generator.maxDepth
    keepContext prompt.text generator.engine
  exact ground_withEngine (Store.eq_of_restarted (Prod.ext_iff.1 hlasting).1 hsettled)
    (Source.ambient_of_anchor (anchor_parseText keepContext prompt generator) hseeded)

theorem ground_parseSeeded {generator : Generator} (hsettled : generator.store.IsSettled)
    (prompt : Prompt) (seed : Int) :
    (parseSeeded prompt seed generator).2.ground = generator.ground := by
  have hstart : (generator.withSource (generator.source.seedWith seed)).store.IsSettled := hsettled
  exact (ground_parseText hstart rfl false prompt).trans (ground_withSource rfl)

theorem variationsFrom_succ (prompt : Prompt) (seed : Int) (offset left : Nat) :
    variationsFrom prompt (.number (.whole seed)) offset (left + 1) = do
      let result ← (parseSeeded prompt (seed + offset) : Action Value)
      return result :: (← variationsFrom prompt (.number (.whole seed)) (offset + 1) left) := by
  rw [variationsFrom]
  · rfl
  · intro hnothing
    cases hnothing

/-- Each variation is made on the ground that the generator stood on at the start. -/
theorem variationsFrom_fst {generator : Generator} (hsettled : generator.store.IsSettled)
    (prompt : Prompt) (seed : Int) (offset left : Nat) {current : Generator}
    (hground : current.ground = generator.ground) :
    (variationsFrom prompt (.number (.whole seed)) offset left current).1 =
      (List.range' offset left).mapM fun i : Nat => (parseSeeded prompt (seed + i) generator).1 := by
  induction left generalizing offset current with
  | zero => rfl
  | succ left ih =>
    have hstore : current.ground.store = generator.ground.store := congrArg store hground
    have hcurrent : current.store.IsSettled := by
      change current.ground.store.IsSettled
      rw [hstore]
      exact hsettled
    have hnext := (ground_parseSeeded hcurrent prompt (seed + offset)).trans hground
    rw [variationsFrom_succ, List.range'_succ, List.mapM_cons, ← parseSeeded_of_ground hground,
      bind_apply]
    rcases hfirst : parseSeeded prompt (seed + offset) current with ⟨failure | result, after⟩
    · rfl
    · rw [hfirst] at hnext
      dsimp only
      rw [← ih (offset + 1) hnext, bind_apply]
      rcases variationsFrom prompt (.number (.whole seed)) (offset + 1) left after
        with ⟨failure | results, last⟩
      · rfl
      · rfl

/-- What a text comes to once a seed is set. -/
def parseUnder (text : Datum) (seed : Int) : Action Value := do
  seedWith (.number (.whole seed))
  parse text false

theorem parseUnder_of_text {text : Datum} {prompt : Prompt} (h : checkText text = .ok prompt)
    (seed : Int) (generator : Generator) :
    parseUnder text seed generator = parseSeeded prompt seed generator := by
  have hseed : (seedWith (.number (.whole seed)) : Action Unit) generator =
      (.ok (), generator.withSource (generator.source.seedWith seed)) := rfl
  rw [parseUnder, bind_apply, hseed]
  exact parse_of_text h false _

theorem variations_of_text {text : Datum} {prompt : Prompt} (h : checkText text = .ok prompt)
    {count : Nat} (hcount : 1 ≤ count) (seed : Datum) (generator : Generator) :
    variations text (.number (.whole count)) seed generator =
      ((variationsFrom prompt seed 0 count generator).1,
        (variationsFrom prompt seed 0 count generator).2.restoreSeed generator.source.seed) := by
  have hpositive : ¬ ((count : Int) < 1) := by omega
  rw [variations, check_bind, h]
  simp only [Data.plainInteger?, hpositive, if_false, Int.toNat_natCast]
  rw [get_bind]
  rcases variationsFrom prompt seed 0 count generator with ⟨failure | results, after⟩
  · rfl
  · rfl

/-- Each variation is what the text comes to once its seed is set, however many there are. -/
theorem variations_fst {generator : Generator} (hsettled : generator.store.IsSettled)
    (text : Datum) {count : Nat} (hcount : 1 ≤ count) (seed : Int) :
    (variations text (.number (.whole count)) (.number (.whole seed)) generator).1 =
      (List.range count).mapM fun i : Nat => (parseUnder text (seed + i) generator).1 := by
  cases htext : checkText text with
  | ok prompt =>
    rw [variations_of_text htext hcount, variationsFrom_fst hsettled prompt seed 0 count rfl,
      ← List.range_eq_range']
    simp only [parseUnder_of_text htext]
  | error failure =>
    have hunder (seed : Int) : (parseUnder text seed generator).1 = .error failure := by
      rw [parseUnder, bind_apply, parse, htext]
      rfl
    have hfirst : (List.range count).mapM (fun i : Nat => (parseUnder text (seed + i) generator).1) =
        .error failure :=
      mapM_range_eq_error.2 ⟨0, hcount, hunder _, fun j hj => absurd hj (Nat.not_lt_zero j)⟩
    rw [hfirst, variations, check_bind, htext]

/-- So many texts from a seed on, each of which comes of its own seed alone: the first one that
fails is told, and fewer of them or later ones are the same texts again. -/
structure Independent (run : Nat → Int → Except Failure (List Value))
    (single : Int → Except Failure Value) : Prop where
  ok_iff {count : Nat} {seed : Int} {results : List Value} (hcount : 1 ≤ count) :
    run count seed = .ok results ↔
      results.length = count ∧ ∀ i (h : i < results.length), single (seed + i) = .ok results[i]
  error_iff {count : Nat} {seed : Int} {failure : Failure} (hcount : 1 ≤ count) :
    run count seed = .error failure ↔
      ∃ i < count, single (seed + i) = .error failure ∧
        ∀ j < i, ∃ value, single (seed + j) = .ok value
  take {count fewer : Nat} {seed : Int} {results : List Value} (hpos : 1 ≤ fewer)
    (hle : fewer ≤ count) (h : run count seed = .ok results) :
    run fewer seed = .ok (results.take fewer)
  drop {count skipped : Nat} {seed : Int} {results : List Value} (hlt : skipped < count)
    (h : run count seed = .ok results) :
    run (count - skipped) (seed + skipped) = .ok (results.drop skipped)

theorem independent_of_mapM {run : Nat → Int → Except Failure (List Value)}
    {single : Int → Except Failure Value}
    (h : ∀ {count : Nat} (_ : 1 ≤ count) (seed : Int),
      run count seed = (List.range count).mapM fun i : Nat => single (seed + i)) :
    Independent run single := by
  have hok {count : Nat} {seed : Int} {results : List Value} (hcount : 1 ≤ count) :
      run count seed = .ok results ↔
        results.length = count ∧ ∀ i (h : i < results.length), single (seed + i) = .ok results[i] := by
    rw [h hcount, mapM_range_eq_ok]
  refine ⟨hok, ?_, ?_, ?_⟩
  · intro count seed failure hcount
    rw [h hcount, mapM_range_eq_error]
  · intro count fewer seed results hpos hle hrun
    obtain ⟨hlength, hall⟩ := (hok (hpos.trans hle)).1 hrun
    refine (hok hpos).2 ⟨by simp [hlength, hle], fun i hi => ?_⟩
    rw [List.getElem_take]
    exact hall i _
  · intro count skipped seed results hlt hrun
    obtain ⟨hlength, hall⟩ := (hok (by omega)).1 hrun
    refine (hok (by omega)).2 ⟨by simp [hlength], fun i hi => ?_⟩
    have hplace : seed + (skipped : Nat) + (i : Nat) = seed + ((skipped + i : Nat) : Int) := by
      push_cast
      ring
    rw [List.getElem_drop, hplace]
    exact hall (skipped + i) _

theorem modify_preserves {holds : Generator → Prop} {change : Generator → Generator}
    (h : ∀ generator, holds generator → holds (change generator)) :
    Preserves holds (modify change : Action Unit) := by
  intro generator hholds
  exact h generator hholds

theorem check_preserves {α : Type} {holds : Generator → Prop} (result : Except Failure α) :
    Preserves holds (check result) := by
  intro generator hholds
  exact hholds

/-- What follows a check is only run on what passed. -/
theorem check_bind_preserves {α β : Type} {holds : Generator → Prop} {result : Except Failure α}
    {next : α → Action β} (h : ∀ value, result = .ok value → Preserves holds (next value)) :
    Preserves holds (check result >>= next) := by
  intro generator hholds
  rw [check_bind]
  split
  · exact hholds
  · rename_i value
    exact h value rfl generator hholds

theorem register_preserves {holds : Store → Prop} {name : Datum} {rule : Rule}
    (h : ∀ store store' shadowing, holds store → store.register name rule = .ok (store', shadowing) →
      holds store') : Preserves (fun generator => holds generator.store) (register name rule) := by
  intro generator hholds
  rw [register, get_bind, check_bind]
  split
  · exact hholds
  · rename_i result hresult
    obtain ⟨store, shadowing⟩ := result
    have hstore : holds store := h _ _ _ hholds hresult
    cases shadowing with
    | none => exact hstore
    | some shadowing => exact hstore

theorem registerMembers_preserves (members : List (Datum × Datum)) :
    Preserves (·.store.IsSettled) (registerMembers members) := by
  induction members with
  | nil => exact Preserves.pure ()
  | cons member rest ih =>
    refine Preserves.bind ?_ fun _ => ih
    refine (check_preserves _).bind fun rule => ?_
    have hkind : (Rule.static rule).kind ≠ .function ∧ (Rule.static rule).kind ≠ .sequential := by
      simp [Rule.kind]
    exact register_preserves fun _ _ _ hsettled hregister => hsettled.register hkind hregister

theorem load_preserves (forms : English.BaseForms) (grammar : Table (List String)) (english : Bool) :
    Preserves (·.store.IsSettled) (load forms (.ofGrammar grammar) english .nothing) := by
  have henglish : Preserves (·.store.IsSettled) (modify (useEnglish forms false) : Action Unit) :=
    modify_preserves fun _ hsettled => hsettled
  refine (registerMembers_preserves _).bind fun _ => ?_
  cases english with
  | false => exact Preserves.pure ()
  | true => exact henglish.bind fun _ => Preserves.pure ()

theorem limitDepth_preserves (depth : Datum) :
    Preserves (·.store.IsSettled) (limitDepth depth) :=
  (check_preserves _).bind fun _ => modify_preserves fun _ => id

theorem noticeOrigin_preserves (grammar : Table (List String)) (origin : Datum) :
    Preserves (·.store.IsSettled) (noticeOrigin grammar origin) := by
  refine (check_preserves _).bind fun name => ?_
  split
  · exact modify_preserves fun _ => id
  · exact Preserves.pure ()

/-- A grammar file has lists of values only. -/
theorem prepare_preserves (forms : English.BaseForms) (text : Datum) (run : Run) :
    Preserves (·.store.IsSettled) (prepare forms text run) := by
  refine (check_preserves _).bind fun grammar =>
    (load_preserves forms grammar run.english).bind fun _ => ?_
  split
  · exact (Preserves.pure ()).bind fun _ => noticeOrigin_preserves grammar run.origin
  · exact (limitDepth_preserves _).bind fun _ => noticeOrigin_preserves grammar run.origin

/-- A run for so many texts from a seed on. -/
def Run.under (run : Run) (count : Nat) (seed : Int) : Run :=
  { run with count := .number (.whole count), seed := .number (.whole seed) }

theorem runFile_of_prepare {forms : English.BaseForms} {file : Datum} {run : Run}
    {generator ready : Generator} (h : prepare forms file run generator = (.ok (), ready))
    {count : Nat} (hcount : 1 ≤ count) (seed : Int) :
    (runFile forms file (run.under count seed) generator).1 =
      (variations (originToken run.origin) (.number (.whole count)) (.number (.whole seed))
        ready).1 := by
  have hprepare : prepare forms file (run.under count seed) generator = (.ok (), ready) := h
  have hsome : isNoCount (run.under count seed).count = .ok false := by
    change Except.ok ((Amount.whole count).lt (.whole (1 : Nat))) = _
    rw [Amount.lt_whole, decide_eq_false (by omega)]
  rw [runFile, bind_apply, hprepare]
  dsimp only
  rw [check_bind, hsome]
  rfl

/-- Under seeds, each variation is what the text comes to once its seed is set, whatever came before
it; and so it is for the texts from a grammar file. -/
theorem variations_independent {generator : Generator} (hsettled : generator.store.IsSettled)
    (text : Datum) :
    Independent
      (fun count seed =>
        (variations text (.number (.whole count)) (.number (.whole seed)) generator).1)
      (fun seed => (parseUnder text seed generator).1) ∧
    ∀ (forms : English.BaseForms) (file : Datum) (run : Run) (ambient stackRoom : Nat)
      (ready : Generator), prepare forms file run (.default ambient stackRoom) = (.ok (), ready) →
      Independent
        (fun count seed => (runFile forms file (run.under count seed) (.default ambient stackRoom)).1)
        (fun seed => (parseUnder (originToken run.origin) seed ready).1) := by
  refine ⟨independent_of_mapM fun hcount seed => variations_fst hsettled text hcount seed, ?_⟩
  intro forms file run ambient stackRoom ready hready
  refine independent_of_mapM fun hcount seed => ?_
  have hstore : ready.store.IsSettled := by
    have hprepared :=
      prepare_preserves forms file run (.default ambient stackRoom) Store.isSettled_empty
    rwa [hready] at hprepared
  rw [runFile_of_prepare hready hcount seed, variations_fst hstore _ hcount]

def nestedGenerator : Generator := (Generator.default 0 100).withStore nestedStore

/-- A file with one rule of two values. -/
def pairFile : Datum := .text "\x7b\"a\": [\"x\", \"y\"]\x7d"

def pairRun : Run := { origin := .text "a" }

theorem nestedGenerator_isSettled : nestedGenerator.store.IsSettled := by
  intro entry hentry
  rcases List.mem_pair.1 hentry with rfl | rfl
  · simp [Rule.kind]
  · simp [Rule.kind]

theorem prepare_pairFile :
    ∃ ready, prepare English.baseEnglish pairFile pairRun (.default 0 100) = (.ok (), ready) := by
  have hok : (prepare English.baseEnglish pairFile pairRun (.default 0 100)).1.isOk = true := by
    decide +kernel
  rcases hrun : prepare English.baseEnglish pairFile pairRun (.default 0 100) with ⟨failure | ⟨⟩, ready⟩
  · rw [hrun] at hok
    cases hok
  · exact ⟨ready, rfl⟩

theorem variations_nestedGenerator :
    nestedGenerator.store.IsSettled ∧
      Independent
        (fun count seed => (variations (.text "%a%") (.number (.whole count))
          (.number (.whole seed)) nestedGenerator).1)
        (fun seed => (parseUnder (.text "%a%") seed nestedGenerator).1) ∧
      ∃ ready, prepare English.baseEnglish pairFile pairRun (.default 0 100) = (.ok (), ready) ∧
        Independent
          (fun count seed => (runFile English.baseEnglish pairFile (pairRun.under count seed)
            (.default 0 100)).1)
          (fun seed => (parseUnder (originToken (.text "a")) seed ready).1) := by
  obtain ⟨hindependent, hfiles⟩ := variations_independent nestedGenerator_isSettled (.text "%a%")
  obtain ⟨ready, hready⟩ := prepare_pairFile
  exact ⟨nestedGenerator_isSettled, hindependent, ready, hready,
    hfiles English.baseEnglish pairFile pairRun 0 100 ready hready⟩

/-- Texts under seeds do not come to the ambient state. -/
theorem ambient_variationsFrom (prompt : Prompt) (seed : Int) (offset left : Nat) :
    Keeps (fun generator => generator.source.ambient)
      (variationsFrom prompt (.number (.whole seed)) offset left) := by
  induction left generalizing offset with
  | zero => exact Keeps.pure []
  | succ left ih =>
    rw [variationsFrom_succ]
    refine Keeps.bind ?_ fun _ => (ih (offset + 1)).bind fun _ => Keeps.pure _
    intro generator
    have hanchor : (parseSeeded prompt (seed + offset) generator).2.source.anchor =
        (generator.source.seedWith (seed + offset)).anchor := anchor_parseText false prompt _
    have hambient : (parseSeeded prompt (seed + offset) generator).2.source.ambient =
        (generator.source.seedWith (seed + offset)).ambient := Source.ambient_of_anchor hanchor rfl
    exact hambient

/-- After variations under seeds, a source starts afresh from its own seed. -/
theorem source_variations {generator : Generator} {stored : Fin stateCount}
    (hstored : generator.source.seed = some stored) {text : Datum} {prompt : Prompt}
    (htext : checkText text = .ok prompt) {count : Nat} (hcount : 1 ≤ count) (seed : Int) :
    (variations text (.number (.whole count)) (.number (.whole seed)) generator).2.source =
      { generator.source with state := stored } := by
  have hambient := ambient_variationsFrom prompt seed 0 count generator
  rw [variations_of_text htext hcount, hstored]
  dsimp only at hambient
  simp only [restoreSeed, withSource, Generator.source, Source.seedWith_val] at hambient hstored ⊢
  rw [hambient, ← hstored]

/-- Variations under seeds bring a seeded source back to the start of its seed, so they leave it as
it was exactly if it was there. -/
theorem source_variations_eq_iff {generator : Generator} {stored : Fin stateCount}
    (hstored : generator.source.seed = some stored) {text : Datum} (htext : text.text?.isSome = true)
    {count : Nat} (hcount : 1 ≤ count) (seed : Int) :
    (variations text (.number (.whole count)) (.number (.whole seed)) generator).2.source =
        { generator.source with state := stored } ∧
      ((variations text (.number (.whole count)) (.number (.whole seed)) generator).2.source =
        generator.source ↔ generator.source.state = stored) := by
  obtain ⟨prompt, hprompt⟩ := exists_checkText htext
  have hsource := source_variations hstored hprompt hcount seed
  refine ⟨hsource, ?_⟩
  rw [hsource]
  constructor
  · intro h
    exact (congrArg Source.state h).symm
  · intro h
    rw [← h]

/-- A generator of seed 1 that has drawn once. -/
def drawnGenerator : Generator :=
  (Generator.default 0 100).withSource ((Source.unseeded 0).seedWith 1).draw.2

def drawnGenerator.seed : Fin stateCount := ⟨1, by decide⟩

theorem drawnGenerator_seed : drawnGenerator.source.seed = some drawnGenerator.seed := by
  decide

theorem variations_drawnGenerator :
    drawnGenerator.source.seed = some drawnGenerator.seed ∧
      ((.text "x" : Datum).text?).isSome = true ∧ 1 ≤ 3 ∧
      (variations (.text "x") (.number (.whole (3 : Nat))) (.number (.whole 7)) drawnGenerator).2.source
        = { drawnGenerator.source with state := 1 } := by
  refine ⟨drawnGenerator_seed, rfl, by decide, ?_⟩
  exact (source_variations_eq_iff drawnGenerator_seed rfl (by decide) 7).1

/-- The next number drawn is the first one of the seed again, and not the second. -/
theorem draw_variations_drawnGenerator :
    drawnGenerator.source.draw.1 = .ofScaled false (nextState (nextState 1)) (-32) ∧
      (variations (.text "x") (.number (.whole (1 : Nat))) (.number (.whole 7))
        drawnGenerator).2.source.draw.1 = .ofScaled false (nextState 1) (-32) ∧
      drawnGenerator.source.draw.1 ≠ Double.ofScaled false (nextState 1) (-32) := by
  refine ⟨by decide, ?_, by decide⟩
  have hprompt : checkText (.text "x") = .ok { text := "x" } := rfl
  rw [source_variations drawnGenerator_seed hprompt (by decide) 7]
  decide

end Generator

end TextGrammar
