import Std.Data.String.ToNat
import TextGrammar.Proofs.Expansion.Nesting

/-! A chain of rules, each of which has a token for the next one. -/
namespace TextGrammar

/-- A value that asks for the next of so many rules, if there is one. -/
def chainValue (count place : ℕ) : String :=
  if place + 1 < count then Segment.tokenText (place + 1).repr else "x"

/-- So many rules under their numbers, each with a token for the next one. -/
def chainStore (count : ℕ) : Store :=
  ⟨(List.range count).map fun place =>
    { name := place.repr, rule := .static { values := [chainValue count place] } }⟩

variable {count place room : ℕ} {limit : Int} {other : String} {rule : Rule}

theorem isDigit_of_mem_repr {c : Char} (h : c ∈ place.repr.toList) : c.isDigit = true := by
  rw [Nat.toList_repr] at h
  exact Nat.isDigit_of_mem_toDigits (by decide) (by decide) h

theorem isReplay_repr : isReplay place.repr = false := by
  rw [isReplay, ← Bool.not_eq_true, beq_iff_eq]
  intro hat
  exact absurd (isDigit_of_mem_repr (List.mem_of_head? hat)) (by decide)

theorem split_reprToken : Segment.split (Segment.tokenText place.repr) = [.token place.repr] := by
  refine Segment.split_tokenText Nat.repr_ne_empty ?_
  intro hmem
  exact absurd (isDigit_of_mem_repr hmem) (by decide)

/-- A token for a number asks for the number and for nothing else. -/
theorem asks_reprToken_iff :
    Store.Asks (Segment.tokenText place.repr) other ↔ other = place.repr := by
  rw [Store.Asks, split_reprToken, List.mem_singleton, Segment.token.injEq]
  constructor
  · exact And.left
  · rintro rfl
    exact ⟨rfl, isReplay_repr⟩

theorem chainStore_accepted : (chainStore count).Accepted := by
  intro entry hentry
  obtain ⟨place, -, rfl⟩ := List.mem_map.1 hentry
  exact ⟨Nat.repr_ne_empty, trivial⟩

theorem chainStore_listsValues : (chainStore count).ListsValues := by
  intro entry hentry
  obtain ⟨place, -, rfl⟩ := List.mem_map.1 hentry
  simp [Rule.kind]

theorem chainStore_rule?_eq_some_iff :
    (chainStore count).rule? place.repr = some rule ↔
      place < count ∧ rule = .static { values := [chainValue count place] } := by
  have hrule {rule : Rule} (h : (chainStore count).rule? place.repr = some rule) :
      place < count ∧ rule = .static { values := [chainValue count place] } := by
    obtain ⟨entry, hentry, hname, rfl⟩ := Store.exists_entry_of_rule? h
    obtain ⟨place', hplace, rfl⟩ := List.mem_map.1 hentry
    obtain rfl := Nat.repr_injective hname
    exact ⟨List.mem_range.1 hplace, rfl⟩
  constructor
  · exact hrule
  · rintro ⟨hplace, rfl⟩
    have hname : (chainStore count).hasName place.repr = true :=
      List.any_eq_true.2 ⟨_, List.mem_map_of_mem (List.mem_range.2 hplace), by simp⟩
    obtain ⟨rule, h⟩ := Store.exists_rule?_iff.2 hname
    rw [h, (hrule h).2]

theorem token_chainValue_iff {name : String} :
    .token name ∈ Segment.split (chainValue count place) ↔
      place + 1 < count ∧ name = (place + 1).repr := by
  rw [chainValue]
  split
  · rename_i hnext
    rw [split_reprToken, List.mem_singleton, Segment.token.injEq]
    exact ⟨fun hname => ⟨hnext, hname⟩, And.right⟩
  · rename_i hlast
    rw [nestedStore_split.1]
    exact ⟨by simp, fun h => absurd h.1 hlast⟩

section References

variable {texts : Rule → List String} (htexts : ∀ rule, texts (.static rule) = rule.values)
include htexts

theorem chainStore_refers_iff :
    (chainStore count).Refers texts place.repr other ↔
      place + 1 < count ∧ other = (place + 1).repr := by
  constructor
  · rintro ⟨rule, hrule, text, htext, hasks⟩
    obtain ⟨-, rfl⟩ := chainStore_rule?_eq_some_iff.1 hrule
    rw [htexts] at htext
    obtain rfl := List.mem_singleton.1 htext
    exact token_chainValue_iff.1 hasks.1
  · rintro ⟨hnext, rfl⟩
    refine ⟨_, chainStore_rule?_eq_some_iff.2 ⟨Nat.lt_of_succ_lt hnext, rfl⟩, chainValue count place,
      ?_, token_chainValue_iff.2 ⟨hnext, rfl⟩, isReplay_repr⟩
    rw [htexts]
    exact List.mem_singleton_self _

/-- The rules from a place on are all that a chain from there can have. -/
theorem lt_of_isChain (h : place < count) {names : List String}
    (hnames : List.IsChain ((chainStore count).Refers texts) (place.repr :: names)) :
    place + names.length < count := by
  induction names generalizing place with
  | nil => exact h
  | cons next rest ih =>
    obtain ⟨hrefers, hrest⟩ := List.isChain_cons_cons.1 hnames
    obtain ⟨hnext, rfl⟩ := (chainStore_refers_iff htexts).1 hrefers
    have hlength := ih hnext hrest
    rw [List.length_cons]
    omega

theorem chainStore_nestsWithin (h : place + room = count) :
    (chainStore count).NestsWithin texts room place.repr := by
  refine Store.nestsWithin_iff_chains.2 fun names hnames => ?_
  have hname := hnames.registered place.repr List.mem_cons_self
  obtain ⟨rule, hrule⟩ := Store.exists_rule?_iff.2 hname
  have hplace := (chainStore_rule?_eq_some_iff.1 hrule).1
  have hlength := lt_of_isChain htexts hplace hnames.refers
  omega

/-- From each rule there is a chain down to the last one. -/
theorem exists_chain (h : place + room + 1 = count) :
    ∃ names, (chainStore count).IsRuleChain texts (place.repr :: names) ∧ names.length = room := by
  induction room generalizing place with
  | zero =>
    refine ⟨[], ⟨List.isChain_singleton _, fun name hname => ?_⟩, rfl⟩
    obtain rfl := List.mem_singleton.1 hname
    exact Store.exists_rule?_iff.1 ⟨_, chainStore_rule?_eq_some_iff.2 ⟨by omega, rfl⟩⟩
  | succ room ih =>
    obtain ⟨names, hchain, hlength⟩ := @ih (place + 1) (by omega)
    refine ⟨(place + 1).repr :: names, ?_, by rw [List.length_cons, hlength]⟩
    exact Store.isRuleChain_cons_cons.2 ⟨(chainStore_refers_iff htexts).2 ⟨by omega, rfl⟩, hchain⟩

/-- A rule of the chain leads to rules of the chain. -/
theorem exists_place_of_reaches (h : place < count)
    (hreaches : (chainStore count).Reaches texts place.repr other) :
    ∃ last < count, other = last.repr := by
  induction hreaches with
  | refl => exact ⟨place, h, rfl⟩
  | tail _ hrefers ih =>
    obtain ⟨last, -, rfl⟩ := ih
    obtain ⟨hnext, rfl⟩ := (chainStore_refers_iff htexts).1 hrefers
    exact ⟨last + 1, hnext, rfl⟩

theorem chainStore_noCircle (h : place < count) :
    (chainStore count).NoCircle texts place.repr := by
  intro other hreaches
  obtain ⟨last, hlast, rfl⟩ := exists_place_of_reaches htexts h hreaches
  exact (chainStore_nestsWithin htexts (Nat.add_sub_of_le hlast.le)).irrefl

theorem chainStore_chainLengths (h : place < count) :
    IsGreatest ((chainStore count).chainLengths texts (Segment.tokenText place.repr))
      (count - place) := by
  constructor
  · obtain ⟨names, hchain, hlength⟩ :=
      exists_chain htexts (by omega : place + (count - place - 1) + 1 = count)
    refine ⟨place.repr :: names, ⟨hchain, ?_⟩, by rw [List.length_cons]; omega⟩
    rintro first ⟨⟩
    exact asks_reprToken_iff.2 rfl
  · rintro length ⟨names, ⟨hchain, hfirst⟩, rfl⟩
    cases names with
    | nil => exact Nat.zero_le _
    | cons name rest =>
      obtain rfl := asks_reprToken_iff.1 (hfirst name rfl)
      have hnest := chainStore_nestsWithin htexts (Nat.add_sub_of_le h.le)
      exact Store.nestsWithin_iff_chains.1 hnest rest hchain

end References

theorem chainStore_draw (h : place < count) (scope : Scope) (source : Source) :
    ∃ source', (chainStore count).draw place.repr scope source =
      (.ok (some (chainValue count place)), chainStore count, source') := by
  have hrule := chainStore_rule?_eq_some_iff.2 ⟨h, rfl⟩
  have hput := Store.put_of_rule? hrule
  have hchosen : (source.choose [chainValue count place]).1 = .ok (chainValue count place) := by
    have hlength : [chainValue count place].length ≤ 2 ^ 64 := by norm_num
    obtain ⟨value, hvalue⟩ := @Source.exists_choose _ _ source (List.cons_ne_nil _ _) hlength
    rw [hvalue, List.mem_singleton.1 (Source.mem_of_choose hvalue)]
  refine ⟨(source.choose [chainValue count place]).2, ?_⟩
  simp only [Store.draw, Store.drawShown, hrule, Rule.draw, Rule.Static.draw, chosen, hchosen,
    Draw.map, List.isEmpty_cons, Bool.false_eq_true, if_false, hput]
  rfl

/-- Each rule of the chain takes a depth: with no more depths left than there are rules from a place
on, the depths come to an end before the chain does, whatever the source gives. -/
theorem expandWithin_chain (h : place + room ≤ count) {engine : Engine}
    (hengine : engine.store = chainStore count) :
    (engine.expandWithin limit room (Segment.tokenText place.repr)).1 =
      .error (.tooDeep (toString limit)) := by
  induction room generalizing place engine with
  | zero => rfl
  | succ room ih =>
    have hvalue {after : Engine} (hafter : after.store = chainStore count) :
        (after.expandWithin limit room (chainValue count place)).1 =
          .error (.tooDeep (toString limit)) := by
      cases room with
      | zero => rfl
      | succ room =>
        rw [chainValue, if_pos (by omega)]
        exact ih (by omega) hafter
    obtain ⟨source, hdraw⟩ :=
      @chainStore_draw count place (by omega) (.run engine.context) engine.source
    have hinner := @hvalue
      ⟨chainStore count, source, engine.context.put place.repr (chainValue count place)⟩ rfl
    simp only [Engine.expandWithin, split_reprToken, Engine.expandSegments, Engine.expandToken,
      isReplay_repr, hengine, hdraw]
    rcases hrun : Engine.expandWithin limit room (chainValue count place)
      ⟨chainStore count, source, engine.context.put place.repr (chainValue count place)⟩
      with ⟨failure | expanded, after⟩
    · rw [hrun] at hinner
      simpa using hinner
    · rw [hrun] at hinner
      cases hinner

/-- With too few depths for the chain no ideal answer leads to a text. -/
theorem mean_askWithin_chain {limit : ℤ} {room : ℕ} (h : place + room ≤ count) {scene : Scene}
    (hs : scene.store = chainStore count) {seen : Reply × Scene → ℚ}
    (hseen : ∀ failure scene, seen (.error failure, scene) = 0) :
    (Scene.askWithin limit room (Segment.tokenText place.repr) scene).mean seen = 0 := by
  induction room generalizing place scene seen with
  | zero => exact hseen _ _
  | succ room ih =>
    have hrule : scene.store.rule? place.repr =
        some (.static { values := [chainValue count place] }) := by
      rw [hs]
      exact chainStore_rule?_eq_some_iff.2 ⟨by omega, rfl⟩
    have hvalue {scene : Scene} (hs : scene.store = chainStore count) {seen : Reply × Scene → ℚ}
        (hseen : ∀ failure scene, seen (.error failure, scene) = 0) :
        (Scene.askWithin limit room (chainValue count place) scene).mean seen = 0 := by
      cases room with
      | zero => exact hseen _ _
      | succ room =>
        rw [chainValue, if_pos (by omega)]
        exact ih (by omega) hs hseen
    have hput := Store.put_of_rule? hrule
    simp only [Scene.askWithin, split_reprToken, Scene.askSegments, Scene.askToken, isReplay_repr,
      hrule, Rule.ask, askAmong, List.isEmpty_cons, Bool.false_eq_true, if_false, Choices.mean_bind,
      Choices.mean, Question.ideal, List.map, List.sum_singleton, hput, Except.map]
    have hentered : (Scene.mk scene.store (scene.context.put place.repr
        (chainValue count place))).store = chainStore count := hs
    refine mul_eq_zero_of_right _ (hvalue hentered ?_)
    intro failure after
    exact hseen failure after

end TextGrammar
