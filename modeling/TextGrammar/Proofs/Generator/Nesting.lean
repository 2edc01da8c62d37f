import TextGrammar.Generator.Running
import TextGrammar.Proofs.Expansion.Chain
import TextGrammar.Proofs.Generator.Variations

/-! The depth that a text needs: one more than there are rules on the longest chain from it. -/
namespace TextGrammar.Generator

variable {generator : Generator} {keepContext : Bool} {text : String}

/-- The expansion of a text as a tree of choices. -/
def choices (generator : Generator) (keepContext : Bool) (text : String) : Told :=
  Scene.askExpansion generator.stackRoom generator.maxDepth keepContext text
    { store := generator.store, context := generator.context }

/-- Answered by the source of the generator, the tree is the expansion. -/
theorem expandText_eq_run :
    generator.expandText keepContext text =
      let ((reply, scene), source) := (generator.choices keepContext text).run generator.source
      (reply, { generator with engine := scene.engine source }) := by
  have htells := Scene.askExpansion_tells generator.stackRoom generator.maxDepth keepContext text
    { store := generator.store, context := generator.context } generator.source
  have hengine : generator.engine =
      Scene.engine generator.source { store := generator.store, context := generator.context } :=
    rfl
  rw [expandText, hengine, htells]
  rfl

/-- With static, weighted and sequential rules that do not lead back to themselves there is a
longest chain of rules from a text. The text does not nest too deep if the limit and the stack leave
room for one depth more than the chain has rules. And if all rules below are static and have values,
some choices nest too deep under a limit that is not above the number of rules. -/
theorem expandText_nests (hlists : generator.store.ListsValues)
    (hacyclic : ∀ name, Store.Asks text name → generator.store.NoCircle Rule.texts name) :
    ∃ longest : ℕ, IsGreatest (generator.store.chainLengths Rule.texts text) longest ∧
      (∀ keepContext limit, longest + 1 ≤ generator.maxDepth → longest + 1 ≤ generator.stackRoom →
        (generator.expandText keepContext text).1 ≠ .error (.tooDeep limit)) ∧
      (generator.store.IsFilledBelow text → generator.maxDepth ≤ longest → ∀ keepContext,
        ∃ after, (generator.choices keepContext text).CanEnd
          (.error (.tooDeep (toString generator.maxDepth)), after)) := by
  obtain ⟨longest, hlongest⟩ := Store.exists_longest_chain hacyclic
  refine ⟨longest, hlongest, ?_, ?_⟩
  · intro keepContext limit hlimit hstack hdeep
    have hnest : ∀ name, Store.Asks text name →
        generator.store.NestsWithin Rule.texts longest name := fun name hasks =>
      Store.nestsWithin_of_chainLengths hlongest.2 hasks
    have hroom : longest + 1 ≤ min generator.maxDepth.toNat generator.stackRoom := by omega
    have hshallow := (@Engine.expand_isShallow _ generator.maxDepth _ _ _ hlists hnest hroom
      keepContext generator.engine rfl).2
    have hfalse := hshallow (.tooDeep limit) hdeep
    cases hfalse
  · intro hfilled hlimit keepContext
    obtain ⟨names, hchain, hlength⟩ := hlongest.1
    have hroom : min generator.maxDepth.toNat generator.stackRoom ≤ names.length := by omega
    obtain ⟨_, after, rfl, -, hend⟩ := @Scene.askExpansion_canBeTooDeep _ generator.maxDepth _ _ hfilled
      names hchain hroom keepContext generator.context
    exact ⟨after, hend⟩

theorem expandText_nests_nestedGenerator :
    nestedGenerator.store.ListsValues ∧
    ∃ longest : ℕ, IsGreatest (nestedGenerator.store.chainLengths Rule.texts "%a%") longest ∧
      (∀ keepContext limit, longest + 1 ≤ nestedGenerator.maxDepth →
        longest + 1 ≤ nestedGenerator.stackRoom →
        (nestedGenerator.expandText keepContext "%a%").1 ≠ .error (.tooDeep limit)) ∧
      (nestedGenerator.store.IsFilledBelow "%a%" → nestedGenerator.maxDepth ≤ longest →
        ∀ keepContext, ∃ after, (nestedGenerator.choices keepContext "%a%").CanEnd
          (.error (.tooDeep (toString nestedGenerator.maxDepth)), after)) := by
  have hlists : nestedGenerator.store.ListsValues := by
    intro entry hentry
    rcases List.mem_pair.1 hentry with rfl | rfl
    · simp [Rule.kind]
    · simp [Rule.kind]
  exact ⟨hlists, expandText_nests hlists fun _ _ => nestedStore_noCircle fun _ => rfl⟩

/-- A chain of as many rules as there is room for texts on the stack nests too deep under every
limit. -/
theorem expandText_chain {count : ℕ} (hstore : generator.store = chainStore count)
    (hstack : generator.stackRoom ≤ count) (keepContext : Bool) :
    (generator.expandText keepContext (Segment.tokenText (0 : ℕ).repr)).1 =
      .error (.tooDeep (toString generator.maxDepth)) := by
  have hroom : 0 + min generator.maxDepth.toNat generator.stackRoom ≤ count := by omega
  have hstart : (if keepContext then generator.engine else
      { generator.engine with context := ∅ }).store = chainStore count := by
    split
    · exact hstore
    · exact hstore
  have hdeep := @expandWithin_chain count 0 _ generator.maxDepth hroom _ hstart
  simp only [expandText, Engine.expand]
  rw [hdeep]
  rfl

/-- A thousand rules in a chain, and a limit that allows for them. -/
def chainGenerator : Generator :=
  let generator := (Generator.default 0 startingRoom).withStore (chainStore 1000)
  { generator.withSource (generator.source.seedWith 1) with maxDepth := 1001 }

theorem expandText_chainGenerator :
    chainGenerator.store.ListsValues ∧
      (∀ name, Store.Asks "%0%" name → chainGenerator.store.NoCircle Rule.texts name) ∧
      IsGreatest (chainGenerator.store.chainLengths Rule.texts "%0%") 1000 ∧
      1000 + 1 ≤ chainGenerator.maxDepth ∧
      (chainGenerator.expandText false "%0%").1 = .error (.tooDeep "1001") := by
  have htext : "%0%" = Segment.tokenText (0 : ℕ).repr := rfl
  rw [htext]
  refine ⟨chainStore_listsValues, ?_, ?_, le_rfl, ?_⟩
  · intro name hasks
    obtain rfl := asks_reprToken_iff.1 hasks
    exact chainStore_noCircle (fun _ => rfl) (Nat.succ_pos 999)
  · exact chainStore_chainLengths (fun _ => rfl) (Nat.succ_pos 999)
  · exact expandText_chain rfl (by decide) false

end TextGrammar.Generator
