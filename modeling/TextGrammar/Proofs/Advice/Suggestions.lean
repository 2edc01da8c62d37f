import Mathlib.Data.List.Nodup
import Mathlib.Tactic.SplitIfs
import TextGrammar.Generator.Questions
import TextGrammar.Proofs.Advice.Topics

/-! Which suggestions an advice has, whatever the message, the text and the rule at hand say. -/
namespace TextGrammar

variable {failure : Failure} {topic other : Topic} {advice message : String}

namespace Advice

/-- What is suggested on a topic. -/
def block (topic : Topic) : String :=
  "\n".intercalate ("Suggestions:" :: topic.suggestions.map bullet)

/-- Below the message and an empty line, an advice has the suggestions on a topic. -/
def Prints (advice message : String) (topic : Topic) : Prop :=
  (message ++ "\n\n" ++ block topic).toList <+: advice.toList

def first (topic : Topic) : String := topic.suggestions.headD ""

/-- Where the first suggestions of any two topics differ. -/
def letter (topic : Topic) : Option Char := (first topic).toList[6]?

theorem mem_topics (topic : Topic) : topic ∈ Topic.order ++ [Topic.general] := by
  cases topic <;> decide

theorem map_letter : (Topic.order ++ [Topic.general]).map letter =
    [some 'f', some 'o', some ' ', some 't', some 'l'] := by
  decide

theorem length_first (topic : Topic) : 6 < (first topic).toList.length := by
  have hmem : letter topic ∈ _ := List.mem_map_of_mem (mem_topics topic)
  rw [map_letter] at hmem
  refine Nat.lt_of_not_le fun hle => ?_
  rw [letter, List.getElem?_eq_none hle] at hmem
  revert hmem
  decide

theorem eq_of_letter_eq (h : letter topic = letter other) : topic = other := by
  have hnodup : ((Topic.order ++ [Topic.general]).map letter).Nodup := by
    rw [map_letter]
    decide
  exact List.inj_on_of_nodup_map hnodup (mem_topics topic) (mem_topics other) h

/-- The line above the suggestions, and what stands before the first of them. -/
def heading : String := "Suggestions:" ++ "\n" ++ "• "

theorem exists_block_eq (topic : Topic) :
    ∃ rest, block topic = heading ++ (first topic ++ rest) := by
  have hlines {next : String} {others : List String} (hothers : others ≠ []) :
      "\n".intercalate ("Suggestions:" :: bullet next :: others) =
        heading ++ (next ++ ("\n" ++ "\n".intercalate others)) := by
    rw [String.intercalate_cons_of_ne_nil (List.cons_ne_nil _ _),
      String.intercalate_cons_of_ne_nil hothers, bullet, heading]
    simp only [String.append_assoc]
  cases topic <;> exact ⟨_, hlines (List.cons_ne_nil _ _)⟩

theorem Prints.letter_eq (h : Prints advice message topic) :
    (advice.toList.drop (message ++ "\n\n" ++ heading).toList.length)[6]? = letter topic := by
  obtain ⟨rest, hblock⟩ := exists_block_eq topic
  obtain ⟨after, hadvice⟩ := h
  rw [← hadvice, hblock, ← String.append_assoc]
  generalize message ++ "\n\n" ++ heading = front
  rw [String.toList_append, List.append_assoc, List.drop_left, String.toList_append,
    List.append_assoc, List.getElem?_append_left (length_first topic), letter]

/-- An advice has the suggestions on one topic only. -/
theorem Prints.eq (h : Prints advice message topic) (hother : Prints advice message other) :
    topic = other :=
  eq_of_letter_eq (h.letter_eq.symm.trans hother.letter_eq)

theorem prefix_trimEnd {front rest : String} {last : Char}
    (hlast : front.toList.getLast? = some last) (hne : last ≠ '\n') :
    front.toList <+: (trimEnd (front ++ rest)).toList := by
  rw [trimEnd, String.toList_ofList, String.toList_append, List.reverse_append,
    List.dropWhile_append]
  split
  · have hkept : front.toList.reverse.dropWhile (· == '\n') = front.toList.reverse := by
      obtain ⟨start, hfront⟩ := List.getLast?_eq_some_iff.1 hlast
      rw [hfront, List.reverse_append, List.reverse_singleton, List.singleton_append,
        List.dropWhile_cons, if_neg fun heq => hne (eq_of_beq heq)]
    simp only [hkept, List.reverse_reverse, List.prefix_rfl]
  · rw [List.reverse_append, List.reverse_reverse]
    exact List.prefix_append _ _

def last (topic : Topic) : String := topic.suggestions.getLastD ""

theorem exists_block_eq_last (topic : Topic) :
    ∃ front, block topic = front ++ bullet (last topic) := by
  cases topic <;> exact ⟨_, rfl⟩

theorem getLast?_last (topic : Topic) : ∃ c ∈ (last topic).toList.getLast?, c ≠ '\n' := by
  have hall : ∀ topic ∈ Topic.order ++ [Topic.general],
      (last topic).toList.getLast? ∈ [some 's', some 't', some 'd'] := by
    decide
  have hlast := hall topic (mem_topics topic)
  simp only [List.mem_cons, List.not_mem_nil, or_false] at hlast
  rcases hlast with hlast | hlast | hlast <;> exact ⟨_, hlast, by decide⟩

theorem getLast?_block (topic : Topic) : ∃ c ∈ (block topic).toList.getLast?, c ≠ '\n' := by
  obtain ⟨front, hblock⟩ := exists_block_eq_last topic
  obtain ⟨c, hc, hne⟩ := getLast?_last topic
  refine ⟨c, ?_, hne⟩
  rw [hblock, bullet, ← String.append_assoc, String.toList_append, List.getLast?_append, hc,
    Option.some_or]
  rfl

theorem intercalate_lines {message : String} {suggested below : List String} (h : below ≠ []) :
    "\n".intercalate ([message, "", "Suggestions:"] ++ suggested ++ below) =
      message ++ "\n\n" ++ "\n".intercalate ("Suggestions:" :: suggested) ++
        ("\n" ++ "\n".intercalate below) := by
  have hgap : "\n\n" = "\n" ++ "\n" := rfl
  rw [List.append_assoc, List.cons_append, List.cons_append, List.singleton_append,
    String.intercalate_cons_of_ne_nil (List.cons_ne_nil _ _),
    String.intercalate_cons_of_ne_nil (List.cons_ne_nil _ _), ← List.cons_append,
    String.intercalate_append_of_ne_nil (List.cons_ne_nil _ _) h, hgap]
  simp only [String.append_assoc, String.empty_append]

theorem exists_text_eq (store : Store) (report : Report) (subject : Subject) :
    ∃ rest, Advice.text store report subject =
      trimEnd (report.message ++ "\n\n" ++ block (Topic.of report) ++ rest) := by
  have hbelow : details subject (Topic.of report) ++ ([""] ++
      (issues store.validate ++ surroundings subject)) ≠ [] :=
    List.append_ne_nil_of_right_ne_nil _ (List.cons_ne_nil _ _)
  rw [Advice.text, List.append_assoc, List.append_assoc, List.append_assoc,
    intercalate_lines hbelow]
  exact ⟨_, rfl⟩

theorem prints_text (store : Store) (report : Report) (subject : Subject) :
    Prints (Advice.text store report subject) report.message (Topic.of report) := by
  obtain ⟨rest, htext⟩ := exists_text_eq store report subject
  obtain ⟨c, hc, hne⟩ := getLast?_block (Topic.of report)
  rw [htext]
  refine prefix_trimEnd ?_ hne
  rw [String.toList_append, List.getLast?_append, hc, Option.some_or]

end Advice

namespace Data

/-- An argument that may be left out. -/
def optional (argument : Option String) : Datum := (argument.map .text).getD .nothing

theorem exists_text_of_truth {argument : Option String} (h : (optional argument).truth = true) :
    ∃ value, optional argument = .text value := by
  cases argument with
  | none => cases h
  | some value => exact ⟨value, rfl⟩

theorem given?_optional (argument : Option String) : (optional argument).given? = none ∨
    ∃ value, (optional argument).given? = some (.text value) := by
  unfold given?
  split_ifs with h
  · obtain ⟨value, hvalue⟩ := exists_text_of_truth h
    exact .inr ⟨value, congrArg some hvalue⟩
  · exact .inl rfl

end Data

namespace Generator

variable (generator : Generator) (arguments : List Datum) (text ruleName : Option String)

theorem exists_advise_eq (failure : Failure) : ∃ subject,
    generator.advise (.failure failure arguments) (.optional text) (.optional ruleName) =
      .ok (Advice.text generator.store { message := failure.message, cause := some failure }
        subject) := by
  let report : Report := { message := failure.message, cause := some failure }
  unfold advise
  dsimp only
  rcases Data.given?_optional ruleName with hgiven | ⟨name, hgiven⟩ <;> rw [hgiven]
  all_goals
    by_cases hsearched :
        (decide (Topic.of report = .missingRule) && (Data.optional text).truth) = true
    · rw [if_pos hsearched]
      rw [Bool.and_eq_true] at hsearched
      obtain ⟨value, hvalue⟩ := Data.exists_text_of_truth hsearched.2
      rw [hvalue]
      exact ⟨_, rfl⟩
    · rw [if_neg hsearched]
      exact ⟨_, rfl⟩

/-- An advice has the suggestions on one topic, the one of the failure's kind unless something that
the message repeats speaks of a topic before it. -/
theorem advise_prints (h : failure.topic? = some topic) : ∃ advice,
    generator.advise (.failure failure arguments) (.optional text) (.optional ruleName) =
        .ok advice ∧
      (∀ other, Advice.Prints advice failure.message other ↔
        other = (topic.before.find? fun earlier => failure.carried.any earlier.isSpokenOf).getD
          topic) ∧
      ((∀ other, Advice.Prints advice failure.message other ↔ other = topic) ↔
        ∀ earlier ∈ topic.before, ∀ part ∈ failure.carried, earlier.isSpokenOf part = false) := by
  obtain ⟨subject, hadvice⟩ := exists_advise_eq generator arguments text ruleName failure
  refine ⟨_, hadvice, ?_⟩
  have hprinted := Advice.prints_text generator.store
    { message := failure.message, cause := some failure } subject
  rw [Topic.of_eq_getD h, find?_congr fun earlier => Topic.isSpokenOf_message h] at hprinted
  generalize Advice.text generator.store _ subject = advice at hprinted
  have hprints (other : Topic) : Advice.Prints advice failure.message other ↔
      other = (topic.before.find? fun earlier => failure.carried.any earlier.isSpokenOf).getD
        topic :=
    ⟨fun hother => hother.eq hprinted, fun hother => hother ▸ hprinted⟩
  refine ⟨hprints, ?_⟩
  have hsilent : (∀ earlier ∈ topic.before, ∀ part ∈ failure.carried,
      earlier.isSpokenOf part = false) ↔
        ∀ earlier ∈ topic.before, failure.carried.any earlier.isSpokenOf = false := by
    simp only [List.any_eq_false, Bool.not_eq_true]
  rw [hsilent, ← Topic.getD_eq_iff]
  constructor
  · intro hall
    exact (hall _).1 ((hprints _).2 rfl)
  · intro heq other
    rw [hprints other, heq]

theorem advise_prints_ghost : (Failure.unknownRule "ghost").topic? = some .missingRule ∧
    ∃ advice, (Generator.default 0 100).advise (.failure (.unknownRule "ghost") [.text "ghost"])
        (.optional (some "%ghost%")) (.optional none) = .ok advice ∧
      ∀ other, Advice.Prints advice (Failure.unknownRule "ghost").message other ↔
        other = .missingRule := by
  have htopic : (Failure.unknownRule "ghost").topic? = some .missingRule := rfl
  obtain ⟨advice, hadvice, -, hprints⟩ :=
    advise_prints (Generator.default 0 100) [.text "ghost"] (some "%ghost%") none htopic
  exact ⟨htopic, advice, hadvice, hprints.2 (by decide)⟩

/-- A missing rule whose name speaks of weights. -/
theorem advise_prints_weights :
    ∃ advice, (Generator.default 0 100).advise (.failure (.unknownRule "weight") [.text "weight"])
        (.optional none) (.optional none) = .ok advice ∧
      Advice.Prints advice (Failure.unknownRule "weight").message .weights ∧
      ¬Advice.Prints advice (Failure.unknownRule "weight").message .missingRule := by
  obtain ⟨subject, hadvice⟩ := exists_advise_eq (Generator.default 0 100) [.text "weight"] none none
    (.unknownRule "weight")
  have hprinted := Advice.prints_text (Generator.default 0 100).store
    { message := (Failure.unknownRule "weight").message, cause := some (.unknownRule "weight") }
    subject
  have htopic : Topic.of { message := (Failure.unknownRule "weight").message
                           cause := some (.unknownRule "weight") } = .weights := by
    decide
  rw [htopic] at hprinted
  exact ⟨_, hadvice, hprinted, fun hmissing => nomatch hprinted.eq hmissing⟩

end Generator

end TextGrammar
