import TextGrammar.Proofs.Store

/-! What draws leave of a random source: its seed, and what waits under the seed. -/
namespace TextGrammar

namespace Source

variable {α : Type} (source : Source)

/-- The seed, and the ambient state that no draw comes to as long as there is one. -/
def anchor (source : Source) : Option (Fin stateCount × Nat) :=
  source.seed.map fun seed => (seed, source.ambient)

theorem anchor_advance : source.advance.2.anchor = source.anchor := by
  obtain ⟨seed, state, ambient⟩ := source
  cases seed with
  | none => simp [anchor, advance, hasSeed]
  | some seed => simp [anchor, advance, hasSeed]

theorem anchor_draw : source.draw.2.anchor = source.anchor := by
  have hadvance : source.advance.2.anchor = source.anchor := source.anchor_advance
  rw [draw]
  generalize source.advance = drawn at hadvance ⊢
  exact hadvance

theorem anchor_amountBetween (low high : Amount) :
    (source.amountBetween low high).2.anchor = source.anchor := by
  have hdraw : source.draw.2.anchor = source.anchor := source.anchor_draw
  rw [amountBetween]
  generalize source.draw = drawn at hdraw ⊢
  exact hdraw

theorem anchor_index (count : Nat) : (source.index count).2.anchor = source.anchor := by
  have hdraw : source.draw.2.anchor = source.anchor := source.anchor_draw
  rw [index]
  generalize source.draw = drawn at hdraw ⊢
  exact hdraw

theorem anchor_choose (values : List α) : (source.choose values).2.anchor = source.anchor := by
  simp only [choose]
  split
  · rfl
  · have hindex : (source.index values.length).2.anchor = source.anchor :=
      source.anchor_index values.length
    generalize source.index values.length = drawn at hindex ⊢
    obtain ⟨fault | place, after⟩ := drawn
    · exact hindex
    · dsimp only
      split
      · exact hindex
      · exact hindex

theorem anchor_chooseWeighted (values : List α) (bounds : List Double) :
    (source.chooseWeighted values bounds).2.anchor = source.anchor := by
  simp only [chooseWeighted]
  split
  · rfl
  · split
    · rfl
    · split
      · exact source.anchor_draw
      · exact source.anchor_draw

variable {source}

theorem seed_of_anchor {after : Source} (h : after.anchor = source.anchor) :
    after.seed = source.seed := by
  have hseed (source : Source) : source.seed = source.anchor.map Prod.fst := by
    cases hs : source.seed with
    | none => simp [anchor, hs]
    | some seed => simp [anchor, hs]
  rw [hseed, h, ← hseed]

theorem ambient_of_anchor {after : Source} (h : after.anchor = source.anchor)
    (hseeded : source.hasSeed = true) : after.ambient = source.ambient := by
  obtain ⟨seed, hseed⟩ := Option.isSome_iff_exists.1 hseeded
  have hafter : after.seed = some seed := (seed_of_anchor h).trans hseed
  have hpair : some (seed, after.ambient) = some (seed, source.ambient) := by
    simpa [anchor, hafter, hseed] using h
  exact congrArg Prod.snd (Option.some.inj hpair)

variable (source)

/-- A source that is set to a seed it has stored is at the start of that seed. -/
theorem seedWith_val (seed : Fin stateCount) :
    source.seedWith seed.val = { source with seed := some seed, state := seed.val } := by
  have hstored : seed.val % stateCount = seed.val := Nat.mod_eq_of_lt seed.isLt
  simp only [seedWith, Int.natAbs_natCast, hstored]

theorem seed_seedWith (seed : Fin stateCount) : (source.seedWith seed.val).seed = some seed := by
  rw [seedWith_val]

end Source

theorem Rule.Template.anchor_fill {rule : Rule.Template} (names : List String) (text : String)
    (source : Source) : (rule.fill names text source).2.anchor = source.anchor := by
  induction names generalizing text source with
  | nil => rfl
  | cons name rest ih =>
    have hchoice := source.anchor_choose ((rule.values? name).getD [])
    simp only [fill]
    generalize source.choose ((rule.values? name).getD []) = choice at hchoice ⊢
    obtain ⟨failure | value, after⟩ := choice
    · exact hchoice
    · exact (ih _ after).trans hchoice

theorem Rule.Range.anchor_draw {rule : Rule.Range} (source : Source) :
    (rule.draw source).2.anchor = source.anchor := by
  simp only [draw]
  split
  · split
    · rfl
    · rename_i count _
      exact source.anchor_amountBetween 0 (.whole count)
  · exact source.anchor_draw

theorem Rule.anchor_draw {rule : Rule} (name : String) (scope : Scope) (source : Source) :
    (rule.draw name scope source).2.2.anchor = source.anchor := by
  cases rule with
  | function rule =>
    simp only [Rule.draw, Rule.Function.draw, Draw.map]
    split
    · rfl
    · rfl
    · split
      · rfl
      · exact source.anchor_choose _
  | conditional rule =>
    simp only [Rule.draw, Rule.Conditional.draw, Draw.map]
    split
    · rfl
    · exact source.anchor_choose _
  | sequential rule =>
    simp only [Rule.draw, Rule.Sequential.draw, Draw.map]
    split
    · split
      · rfl
      · rfl
    · split
      · rfl
      · rfl
  | range rule =>
    rw [Rule.draw]
    exact Rule.Range.anchor_draw source
  | template rule =>
    rw [Rule.draw]
    exact Rule.Template.anchor_fill rule.openNames rule.template source
  | weighted rule =>
    rw [Rule.draw]
    exact source.anchor_chooseWeighted rule.values rule.bounds
  | static rule =>
    simp only [Rule.draw, Rule.Static.draw, Draw.map]
    split
    · rfl
    · exact source.anchor_choose _

theorem Store.anchor_drawShown {store : Store} (shown name : String) (scope : Scope) (source : Source) :
    (store.drawShown shown name scope source).2.2.anchor = source.anchor := by
  simp only [drawShown]
  split
  · rfl
  · exact Rule.anchor_draw shown scope source

theorem Store.seed_drawShown {store : Store} (shown name : String) (scope : Scope) (source : Source) :
    (store.drawShown shown name scope source).2.2.seed = source.seed :=
  Source.seed_of_anchor (store.anchor_drawShown shown name scope source)

end TextGrammar
