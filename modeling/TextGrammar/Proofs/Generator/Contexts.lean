import TextGrammar.Proofs.Generator.Replays
import TextGrammar.Proofs.Token.Matches

/-! The context that an expansion leaves: for each name the text that was finished last. -/
namespace TextGrammar

/-- The text that an occurrence of the name is finished as. -/
def Event.finish? (name : String) : Event → Option String
  | finished other text => if other = name then some text else none
  | _ => none

/-- The texts that took the place of a name's tokens, by when they were finished. -/
def finishedTexts (name : String) (events : List Event) : List String :=
  events.filterMap (Event.finish? name)

section Texts

variable {name other : String}

theorem finishedTexts_append (name : String) (events later : List Event) :
    finishedTexts name (events ++ later) = finishedTexts name events ++ finishedTexts name later :=
  List.filterMap_append

theorem finishedTexts_entered (name other value : String) (events : List Event) :
    finishedTexts name (.entered other value :: events) = finishedTexts name events := rfl

theorem finishedTexts_finished (name text : String) (events : List Event) :
    finishedTexts name (.finished name text :: events) = text :: finishedTexts name events :=
  List.filterMap_cons_some (if_pos rfl)

theorem finishedTexts_finished_of_ne (h : other ≠ name) (text : String) (events : List Event) :
    finishedTexts name (.finished other text :: events) = finishedTexts name events :=
  List.filterMap_cons_none (if_neg h)

end Texts

namespace Fills

variable {segments : List Segment} {events : List Event} {text : String}

/-- A raw value stands in the context until its text is finished, so what was finished last stands
there in the end. -/
theorem get?_contextAfter (h : Fills segments events text) (name : String) (start : Context) :
    (contextAfter start events).get? name =
      (finishedTexts name events).getLast?.or (start.get? name) := by
  induction h generalizing start with
  | nil => rfl
  | literal _ ih => exact ih start
  | left _ ih => exact ih start
  | replayed _ _ ih => exact ih start
  | @finished rest inside events other value text tail _ _ _ ihinside ihrest =>
    rw [contextAfter_finished, ihrest, Table.get?_put, ihinside, Table.get?_put]
    rw [List.cons_append, finishedTexts_entered, finishedTexts_append, List.getLast?_append]
    by_cases hname : other = name
    · subst hname
      rw [finishedTexts_finished, if_pos rfl, List.getLast?_cons]
      cases (finishedTexts other events).getLast? with
      | none => simp
      | some shown => simp
    · rw [finishedTexts_finished_of_ne hname, if_neg (Ne.symm hname), if_neg (Ne.symm hname),
        Option.or_assoc]

/-- The names with a value in the context are those that a value was found for. -/
theorem mem_names_contextAfter (h : Fills segments events text) (name : String) (start : Context) :
    name ∈ (contextAfter start events).names ↔
      name ∈ start.names ∨ ∃ value, .entered name value ∈ events := by
  induction h generalizing start with
  | nil => simp [contextAfter]
  | literal _ ih => exact ih start
  | left _ ih => exact ih start
  | replayed _ _ ih =>
    simp only [List.mem_cons, reduceCtorEq, false_or]
    exact ih start
  | @finished rest inside events other value text tail _ _ _ ihinside ihrest =>
    rw [contextAfter_finished, ihrest, Table.mem_names_put, ihinside, Table.mem_names_put]
    simp only [List.cons_append, List.mem_cons, List.mem_append, Event.entered.injEq, reduceCtorEq,
      false_or]
    constructor
    · rintro ((rfl | (rfl | hstart) | ⟨shown, hshown⟩) | ⟨shown, hshown⟩)
      · exact .inr ⟨value, .inl ⟨rfl, rfl⟩⟩
      · exact .inr ⟨value, .inl ⟨rfl, rfl⟩⟩
      · exact .inl hstart
      · exact .inr ⟨shown, .inr (.inl hshown)⟩
      · exact .inr ⟨shown, .inr (.inr hshown)⟩
    · rintro (hstart | ⟨shown, ⟨rfl, rfl⟩ | hshown | hshown⟩)
      · exact .inl (.inr (.inl (.inr hstart)))
      · exact .inl (.inl rfl)
      · exact .inl (.inr (.inr ⟨shown, hshown⟩))
      · exact .inr ⟨shown, hshown⟩

/-- Values are found for the names of tokens that are not replays. -/
theorem entered_name (h : Fills segments events text)
    (hsegments : ∀ name, .token name ∈ segments → Segment.IsName name.toList) {name value : String}
    (hentered : .entered name value ∈ events) :
    isReplay name = false ∧ Segment.IsName name.toList := by
  induction h with
  | nil => cases hentered
  | literal _ ih => exact ih (fun name hname => hsegments name (.tail _ hname)) hentered
  | left _ ih => exact ih (fun name hname => hsegments name (.tail _ hname)) hentered
  | replayed _ _ ih =>
    rcases List.mem_cons.1 hentered with heq | hentered
    · cases heq
    · exact ih (fun name hname => hsegments name (.tail _ hname)) hentered
  | @finished rest inside events other raw text tail hreplay _ _ ihinside ihrest =>
    simp only [List.cons_append, List.mem_cons, List.mem_append, reduceCtorEq, false_or] at hentered
    rcases hentered with heq | hinside | hrest
    · cases heq
      exact ⟨hreplay, hsegments name List.mem_cons_self⟩
    · exact ihinside (fun name hname => Segment.isName_of_mem_split hname) hinside
    · exact ihrest (fun name hname => hsegments name (.tail _ hname)) hrest

end Fills

namespace Generator

variable {generator : Generator} {text result : String}

/-- In an expansion from an empty context that ends in a text, the events make up the text. The
context that it leaves has the names that a value was found for, each with the text of its
occurrence that was finished last. No such name is a replay or holds a `%`. -/
theorem context_of_expandText (h : (generator.expandText false text).1 = .ok result) :
    Fills (Segment.split text) (generator.events false text) result ∧
      (∀ name, name ∈ (generator.expandText false text).2.context.names ↔
        ∃ value, .entered name value ∈ generator.events false text) ∧
      (∀ name, (generator.expandText false text).2.context.get? name =
        (finishedTexts name (generator.events false text)).getLast?) ∧
      ∀ name ∈ (generator.expandText false text).2.context.names,
        isReplay name = false ∧ '%' ∉ name.toList := by
  have hfills : Fills (Segment.split text) (generator.events false text) result :=
    Engine.fills_eventsWithin (expandWithin_of_expandText h)
  have hcontext : (generator.expandText false text).2.context =
      contextAfter ∅ (generator.events false text) := context_expandText
  have hnames (name : String) : name ∈ (generator.expandText false text).2.context.names ↔
      ∃ value, .entered name value ∈ generator.events false text := by
    rw [hcontext, hfills.mem_names_contextAfter]
    exact or_iff_right List.not_mem_nil
  refine ⟨hfills, hnames, ?_, ?_⟩
  · intro name
    rw [hcontext, hfills.get?_contextAfter]
    exact Option.or_none
  · intro name hname
    obtain ⟨value, hvalue⟩ := (hnames name).1 hname
    obtain ⟨hreplay, hname⟩ :=
      hfills.entered_name (fun _ htoken => Segment.isName_of_mem_split htoken) hvalue
    exact ⟨hreplay, hname.2⟩

/-- A generator whose rule asks for its own name in every other value. -/
def nestingGenerator : Generator :=
  (Generator.default 0 100).withStore ⟨[
    { name := "a", rule := .sequential { values := ["<%a%>", "x"], cycle := true, index := 0 } }]⟩

theorem events_nestingGenerator : nestingGenerator.events false "%a%%ghost%%@a%" =
    [.entered "a" "<%a%>", .entered "a" "x", .finished "a" "x", .finished "a" "<x>",
      .replayed "a" "<x>"] := by
  decide +kernel

/-- The outer occurrence is finished last, and no value is found for the other name. -/
theorem context_nestingGenerator :
    (nestingGenerator.expandText false "%a%%ghost%%@a%").1 = .ok "<x>%ghost%<x>" ∧
      (nestingGenerator.expandText false "%a%%ghost%%@a%").2.context.get? "a" = some "<x>" ∧
      "ghost" ∉ (nestingGenerator.expandText false "%a%%ghost%%@a%").2.context.names := by
  have hresult : (nestingGenerator.expandText false "%a%%ghost%%@a%").1 = .ok "<x>%ghost%<x>" := by
    decide +kernel
  obtain ⟨-, hnames, htexts, -⟩ := context_of_expandText hresult
  refine ⟨hresult, ?_, ?_⟩
  · rw [htexts, events_nestingGenerator]
    rfl
  · rw [hnames, events_nestingGenerator]
    rintro ⟨value, hvalue⟩
    simp at hvalue

end Generator

end TextGrammar
