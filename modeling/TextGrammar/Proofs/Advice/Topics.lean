import Mathlib.Data.List.TakeWhile
import TextGrammar.Advice
import TextGrammar.Proofs.Number.Written
import TextGrammar.Proofs.Text.Case
import TextGrammar.Proofs.Text.Occurrence

/-! The topic of a failure: the first one that its kind or the words of its message speak of. -/
namespace TextGrammar

variable {failure : Failure} {topic earlier : Topic} {message : String}

namespace Failure

/-- The topic that a failure has by its kind. -/
def topic? : Failure → Option Topic
  | tooDeep _ | callback .stackExhausted _ => some .recursion
  | generator .. => some .generator
  | weights _ => some .weights
  | unknownRule _ => some .missingRule
  | _ => none

/-- What the message of a failure repeats, if that has a topic: the names of rules and the messages
of callbacks. -/
def carried : Failure → List String
  | generator name message => [name, message]
  | unknownRule name => [name]
  | weights (.stated message) | callback _ message => [message]
  | _ => []

end Failure

section

variable {α : Type} {items : List α}

/-- What is sought, or what has the property and comes before it. -/
theorem find?_beq_or [BEq α] [LawfulBEq α] {sought : α} (p : α → Bool)
    (h : sought ∈ items) :
    items.find? (fun item => sought == item || p item) =
      some (((items.takeWhile (· != sought)).find? p).getD sought) := by
  induction items with
  | nil => cases h
  | cons item items ih =>
    by_cases hitem : item = sought
    · subst hitem
      simp
    · have hne : (sought == item) = false := beq_eq_false_iff_ne.2 (Ne.symm hitem)
      have hmem : sought ∈ items := (List.mem_cons.1 h).resolve_left (Ne.symm hitem)
      have hkept : (item != sought) = true := bne_iff_ne.2 hitem
      rw [List.find?_cons, List.takeWhile_cons, if_pos hkept, List.find?_cons, hne, Bool.false_or,
        ih hmem]
      cases p item <;> rfl

theorem find?_congr {p q : α → Bool}
    (h : ∀ item ∈ items, p item = q item) : items.find? p = items.find? q := by
  induction items with
  | nil => rfl
  | cons item items ih =>
    obtain ⟨hitem, hitems⟩ := List.forall_mem_cons.1 h
    rw [List.find?_cons, List.find?_cons, hitem, ih hitems]

end

namespace Topic

/-- The topics in the order they are tried, but for the one that is left if none fits. -/
def order : List Topic := [recursion, generator, weights, missingRule]

/-- The topics that are tried before one. -/
def before (topic : Topic) : List Topic := order.takeWhile (· != topic)

/-- Whether a report is taken for one on a topic when it comes to that. -/
def fits : Topic → Report → Bool
  | recursion => isRecursion
  | generator => isGenerator
  | weights => isWeights
  | missingRule => isMissingRule
  | general => fun _ => true

/-- Whether a message alone is taken for one on a topic. -/
def isSpokenOf (topic : Topic) (message : String) : Bool := topic.fits { message, cause := none }

theorem of_eq_find? (report : Report) :
    Topic.of report = (order.find? (·.fits report)).getD general := by
  simp only [Topic.of, order, List.find?_cons, fits]
  cases isRecursion report <;> cases isGenerator report <;> cases isWeights report <;>
    cases isMissingRule report <;> rfl

theorem fits_eq : topic.fits { message, cause := some failure } =
    (failure.topic? == some topic || topic.isSpokenOf message) := by
  cases topic with
  | general => exact (Bool.or_true _).symm
  | _ =>
    simp only [fits, isSpokenOf, isRecursion, isGenerator, isWeights, isMissingRule,
      Bool.false_or, Bool.or_assoc]
    refine congrArg (· || _) ?_
    cases failure with
    | callback fault _ => cases fault <;> rfl
    | _ => rfl

theorem mem_order (h : failure.topic? = some topic) : topic ∈ order := by
  cases topic with
  | general => cases failure with
    | callback fault _ => cases fault <;> cases h
    | _ => cases h
  | _ => decide

theorem getD_eq_iff {p : Topic → Bool} :
    (topic.before.find? p).getD topic = topic ↔ ∀ earlier ∈ topic.before, p earlier = false := by
  cases hfound : topic.before.find? p with
  | none =>
    rw [List.find?_eq_none] at hfound
    exact iff_of_true rfl fun earlier h => Bool.eq_false_iff.2 (hfound earlier h)
  | some found =>
    have hmem := List.mem_of_find?_eq_some hfound
    have hne : found ≠ topic := bne_iff_ne.1 (List.mem_takeWhile_imp (p := (· != topic)) hmem)
    have hspoken := List.find?_some hfound
    refine iff_of_false hne fun hall => ?_
    rw [hall found hmem] at hspoken
    cases hspoken

theorem of_eq_getD (h : failure.topic? = some topic) :
    Topic.of { message, cause := some failure } =
      (topic.before.find? (·.isSpokenOf message)).getD topic := by
  simp only [of_eq_find?, fits_eq, h, Option.some_beq_some]
  rw [find?_beq_or _ (mem_order h), Option.getD_some]
  rfl

variable {phrase front rest : String} {c : Char}

theorem mentions_iff :
    mentions message phrase = true ↔ phrase.toList <:+: lowerText message.toList :=
  occursIn_iff_isInfix

/-- A character that keeps its case and is in no word of a topic parts the words of a message. -/
theorem mentions_append_cons (hc : c ∉ phrase.toList) (hlower : lowerChar c = [c]) :
    mentions (front ++ String.singleton c ++ rest) phrase =
      (mentions front phrase || mentions rest phrase) := by
  have hsingle : lowerText [c] = [c] := (List.append_nil _).trans hlower
  rw [Bool.eq_iff_iff, Bool.or_eq_true, mentions_iff, mentions_iff, mentions_iff,
    ← isInfix_append_cons_iff hc, String.toList_append, String.toList_append,
    String.toList_singleton, lowerText_append, lowerText_append, hsingle, List.append_assoc,
    List.singleton_append]

/-- The words by which a topic is known. -/
def phrases : Topic → List String
  | recursion => ["recursion", "circular", "depth"]
  | generator => ["function rule", "function", "failed"]
  | weights => ["weight", "sum to 1", "probability"]
  | missingRule => ["rule", "not found", "does not exist", "missing rule", "undefined rule"]
  | general => []

theorem isSpokenOf_congr {other : String}
    (h : ∀ phrase ∈ topic.phrases, mentions message phrase = mentions other phrase) :
    topic.isSpokenOf message = topic.isSpokenOf other := by
  cases topic <;> simp only [phrases, List.forall_mem_cons] at h <;>
    simp only [isSpokenOf, fits, isRecursion, isGenerator, isWeights, isMissingRule,
      List.any_cons, List.any_nil, h]

theorem isSpokenOf_eq_false (hlast : topic ≠ general)
    (h : ∀ phrase ∈ topic.phrases, mentions message phrase = false) :
    topic.isSpokenOf message = false := by
  cases topic with
  | general => exact (hlast rfl).elim
  | _ =>
    simp only [phrases, List.forall_mem_cons] at h
    simp only [isSpokenOf, fits, isRecursion, isGenerator, isWeights, isMissingRule,
      List.any_cons, List.any_nil, h, Bool.or_false, Bool.and_false]

theorem mentions_generator {name : String} (h : phrase ∈ recursion.phrases) :
    mentions (Failure.generator name message).message phrase =
      (mentions name phrase || mentions message phrase) := by
  have hmessage : (Failure.generator name message).message =
      "Error executing function rule " ++ String.singleton '\'' ++
        (name ++ String.singleton '\'' ++ (":" ++ String.singleton ' ' ++ message)) := by
    have hopen : "Error executing function rule " ++ String.singleton '\'' =
        "Error executing function rule '" := rfl
    have hclose : String.singleton '\'' ++ (":" ++ String.singleton ' ' ++ message) =
        "': " ++ message := by
      rw [← String.append_assoc]
      rfl
    rw [hopen, String.append_assoc, hclose, ← String.append_assoc, ← String.append_assoc]
    rfl
  have hphrase : ∀ phrase ∈ recursion.phrases, '\'' ∉ phrase.toList ∧ ' ' ∉ phrase.toList ∧
      mentions "Error executing function rule " phrase = false ∧ mentions ":" phrase = false := by
    decide
  obtain ⟨hquote, hblank, hfront, hcolon⟩ := hphrase phrase h
  rw [hmessage, mentions_append_cons hquote rfl, mentions_append_cons hquote rfl,
    mentions_append_cons hblank rfl, hfront, hcolon, Bool.false_or, Bool.false_or]

theorem mentions_unknownRule {name : String} (hearlier : earlier ∈ missingRule.before)
    (h : phrase ∈ earlier.phrases) :
    mentions (Failure.unknownRule name).message phrase = mentions name phrase := by
  have hmessage : (Failure.unknownRule name).message =
      "Rule " ++ String.singleton '\'' ++ (name ++ String.singleton '\'' ++ " does not exist") := by
    have hopen : "Rule " ++ String.singleton '\'' = "Rule '" := rfl
    have hclose : String.singleton '\'' ++ " does not exist" = "' does not exist" := rfl
    rw [hopen, String.append_assoc, hclose, ← String.append_assoc]
    rfl
  have hphrase : ∀ earlier ∈ missingRule.before, ∀ phrase ∈ earlier.phrases,
      '\'' ∉ phrase.toList ∧ mentions "Rule " phrase = false ∧
        mentions " does not exist" phrase = false := by
    decide +kernel
  obtain ⟨hquote, hfront, hback⟩ := hphrase earlier hearlier phrase h
  rw [hmessage, mentions_append_cons hquote rfl, mentions_append_cons hquote rfl, hfront, hback,
    Bool.false_or, Bool.or_false]

/-- A total is told without two letters, one of which is in every word of the earlier topics. -/
theorem mentions_total {sum : Double} (hearlier : earlier ∈ weights.before)
    (h : phrase ∈ earlier.phrases) : mentions (WeightFault.total sum).message phrase = false := by
  have hphrase : ∀ earlier ∈ weights.before, ∀ phrase ∈ earlier.phrases,
      (phrase.toList.any fun c => c ∈ ['c', 'd']) = true := by
    decide +kernel
  have hfree : ("Weights must sum to 1.0, got ".toList ++ Double.written).all
      (fun d => ['c', 'd'].all fun c => c ∉ lowerChar d) = true := by
    decide
  have hmessage : (WeightFault.total sum).message.toList =
      "Weights must sum to 1.0, got ".toList ++ sum.text.toList :=
    String.toList_append
  obtain ⟨c, hc, hletter⟩ := List.any_eq_true.1 (hphrase earlier hearlier phrase h)
  refine Bool.eq_false_iff.2 fun hmentions => ?_
  obtain ⟨d, hd, hcd⟩ := List.mem_flatMap.1 ((mentions_iff.1 hmentions).subset hc)
  rw [hmessage] at hd
  have hd : d ∈ "Weights must sum to 1.0, got ".toList ++ Double.written :=
    List.mem_append.2 ((List.mem_append.1 hd).imp_right Double.mem_written_of_mem_text)
  have hnot := List.all_eq_true.1 (List.all_eq_true.1 hfree d hd) c (of_decide_eq_true hletter)
  exact of_decide_eq_true hnot hcd

theorem isSpokenOf_weights {fault : WeightFault} (hearlier : earlier ∈ weights.before) :
    earlier.isSpokenOf fault.message = (Failure.weights fault).carried.any earlier.isSpokenOf := by
  cases fault with
  | stated message => exact (Bool.or_false _).symm
  | total sum =>
    have hlast : earlier ≠ general := by
      rintro rfl
      revert hearlier
      decide
    exact isSpokenOf_eq_false hlast fun phrase => mentions_total hearlier
  | _ =>
    revert earlier
    decide +kernel

/-- Of its message, only the names and messages in it can put a failure under an earlier topic. -/
theorem isSpokenOf_message (h : failure.topic? = some topic) (hearlier : earlier ∈ topic.before) :
    earlier.isSpokenOf failure.message = failure.carried.any earlier.isSpokenOf := by
  cases failure with
  | tooDeep limit =>
    cases h
    cases hearlier
  | generator name message =>
    cases h
    obtain rfl := List.mem_singleton.1 hearlier
    have hphrases : ∀ phrase ∈ recursion.phrases,
        mentions (Failure.generator name message).message phrase =
          (mentions name phrase || mentions message phrase) :=
      fun phrase => mentions_generator
    simp only [phrases, List.forall_mem_cons] at hphrases
    obtain ⟨hrecursion, hcircular, hdepth, -⟩ := hphrases
    simp only [isSpokenOf, fits, isRecursion, Failure.carried, List.any_cons, List.any_nil,
      hrecursion, hcircular, hdepth, Bool.false_or, Bool.or_false]
    ac_rfl
  | weights fault =>
    cases h
    exact isSpokenOf_weights hearlier
  | unknownRule name =>
    cases h
    rw [isSpokenOf_congr fun phrase h => mentions_unknownRule hearlier h]
    exact (Bool.or_false _).symm
  | callback fault message =>
    cases fault <;> cases h
    cases hearlier
  | _ => cases h

end Topic

end TextGrammar
