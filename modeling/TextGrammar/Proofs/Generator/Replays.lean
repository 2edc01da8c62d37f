import TextGrammar.Proofs.Expansion.Record
import TextGrammar.Proofs.Generator.Frame

/-! What replays stand for: a finished text, but the raw value within a value of the name itself. -/
namespace TextGrammar.Generator

variable {generator : Generator} {keepContext : Bool} {text result : String}

/-- The engine that an expansion starts from. -/
def starting (generator : Generator) (keepContext : Bool) : Engine :=
  if keepContext then generator.engine else { generator.engine with context := ∅ }

/-- What happens to the values of names in the expansion of a text. -/
def events (generator : Generator) (keepContext : Bool) (text : String) : List Event :=
  Engine.eventsWithin generator.maxDepth (min generator.maxDepth.toNat generator.stackRoom) text
    (generator.starting keepContext)

/-- An expansion accounts for the context that it leaves, however it ends. -/
theorem context_expandText :
    (generator.expandText keepContext text).2.context =
      contextAfter (generator.starting keepContext).context (generator.events keepContext text) :=
  Engine.context_expandWithin

theorem expandWithin_of_expandText (h : (generator.expandText keepContext text).1 = .ok result) :
    (Engine.expandWithin generator.maxDepth (min generator.maxDepth.toNat generator.stackRoom) text
      (generator.starting keepContext)).1 = .ok result :=
  mapError_eq_ok.1 h

/-- In an expansion from an empty context that ends in a text, the events make up the text and the
context, and each replay stands for the value that its name was last given. That is the finished text
of an occurrence, unless a value of the name is still being expanded and none has been finished since
it was entered: then it is that raw value. -/
theorem replays_expandText (h : (generator.expandText false text).1 = .ok result) :
    Fills (Segment.split text) (generator.events false text) result ∧
      (generator.expandText false text).2.context = contextAfter ∅ (generator.events false text) ∧
      ∀ before name shown rest,
        generator.events false text = before ++ .replayed name shown :: rest →
          IsLastWrite (.finished name shown) before ∨
            IsLastWrite (.entered name shown) before ∧ IsOpen name before := by
  have hwithin := expandWithin_of_expandText h
  refine ⟨Engine.fills_eventsWithin hwithin, context_expandText, ?_⟩
  intro before name shown rest heq
  exact Engine.replays_eventsWithin rfl hwithin heq

/-- A generator with a rule whose value replays the rule's own name. -/
def echoGenerator : Generator :=
  (Generator.default 0 100).withStore ⟨[
    { name := "a", rule := .static { values := ["%b% %@a%"] } },
    { name := "b", rule := .static { values := ["x"] } }]⟩

theorem events_echoGenerator : echoGenerator.events false "%a%%@a%" =
    [.entered "a" "%b% %@a%", .entered "b" "x", .finished "b" "x", .replayed "a" "%b% %@a%",
      .finished "a" "x %b% %@a%", .replayed "a" "x %b% %@a%"] := by
  decide +kernel

/-- After the value is finished, its replay stands for the finished text. -/
theorem replays_echoGenerator :
    (echoGenerator.expandText false "%a%%@a%").1 = .ok "x %b% %@a%x %b% %@a%" ∧
      Fills (Segment.split "%a%%@a%") (echoGenerator.events false "%a%%@a%")
        "x %b% %@a%x %b% %@a%" ∧
      (IsLastWrite (.finished "a" "x %b% %@a%") ((echoGenerator.events false "%a%%@a%").take 5) ∨
        IsLastWrite (.entered "a" "x %b% %@a%") ((echoGenerator.events false "%a%%@a%").take 5) ∧
          IsOpen "a" ((echoGenerator.events false "%a%%@a%").take 5)) := by
  have hresult : (echoGenerator.expandText false "%a%%@a%").1 = .ok "x %b% %@a%x %b% %@a%" := by
    decide +kernel
  obtain ⟨hfills, -, hreplays⟩ := replays_expandText hresult
  refine ⟨hresult, hfills, hreplays _ "a" "x %b% %@a%" [] ?_⟩
  rw [events_echoGenerator]
  rfl

/-- The first replay stands for the raw value, with its tokens as they are, before any occurrence of
the name is finished. -/
theorem replayed_echoGenerator :
    (echoGenerator.expandText false "%a%").1 = .ok "x %b% %@a%" ∧
      echoGenerator.events false "%a%" =
        [.entered "a" "%b% %@a%", .entered "b" "x", .finished "b" "x"] ++
          .replayed "a" "%b% %@a%" :: [.finished "a" "x %b% %@a%"] ∧
      ¬ ∃ shown, .finished "a" shown ∈
        ([.entered "a" "%b% %@a%", .entered "b" "x", .finished "b" "x"] : List Event) := by
  refine ⟨by decide +kernel, by decide +kernel, ?_⟩
  rintro ⟨shown, hmem⟩
  simp at hmem

end TextGrammar.Generator
