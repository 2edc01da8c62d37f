import TextGrammar.Outcomes.Complexity
import TextGrammar.Outcomes.Distribution
import TextGrammar.Generator

/-! What a generator tells about itself. -/
namespace TextGrammar

structure Stats where
  rules : Nat
  rulesByKind : List (RuleKind × Nat)
  modifiers : Nat
  maxDepth : Int
  hasSeed : Bool

structure Suggestions where
  warnings : List String
  suggestions : List String

/-- A snapshot of what can be written down: static rules, names of modifiers and settings. -/
structure Snapshot where
  grammar : Table (List String)
  modifiers : List String
  maxDepth : Int
  seed : Option (Fin stateCount)

namespace Generator

variable (generator : Generator)

def stats : Stats where
  rules := generator.store.size
  rulesByKind := generator.store.counts
  modifiers := generator.pipeline.size
  maxDepth := generator.maxDepth
  hasSeed := generator.source.hasSeed

def snapshot : Snapshot where
  grammar := generator.store.staticValues
  modifiers := generator.pipeline.ordered.map (·.name)
  maxDepth := generator.maxDepth
  seed := generator.source.seed

/-- The static rules that no static rule asks for; replayed names do not count as asked for. -/
def unusedNames : List String :=
  let rules := generator.store.staticValues.entries
  let asked := rules.flatMap fun rule => rule.2.flatMap tokenNames
  (rules.map Prod.fst).filter fun name => !asked.contains name && !isRootName name

def suggestions : Suggestions :=
  let stats := generator.stats
  let unused := generator.unusedNames
  { warnings :=
      (if stats.rules > 1000 then
        [s!"Large number of rules ({stats.rules}). Consider grouping related rules."] else [])
      ++ (if stats.modifiers > 10 then
        [s!"Many modifiers ({stats.modifiers}). High-priority modifiers run first."] else [])
    suggestions :=
      (if stats.maxDepth > 20 then ["Consider reducing max depth for better performance."] else [])
      ++ (if unused.isEmpty then []
        else [s!"Consider removing unused rules: {shortList unused}"]) }

/-- A generator with the same settings and seed and the static rules; other rules, modifiers and the
context stay behind. -/
def clone : Generator :=
  let fresh := Source.unseeded generator.source.ambient
  { generator with
    engine := {
      store := ⟨generator.store.table .static⟩
      source := match generator.source.seed with
        | some seed => fresh.seedWith seed.val
        | none => fresh
      context := ∅ }
    pipeline := ∅
    log := [] }

/-- A depth limit in effect. Names on a path differ, so no path below visited names gets longer than
all names together. -/
def depthBound (visited : Nat) (limit : Limit) : Bound :=
  limit.bound (generator.store.size + visited + 1)

/-- The setting of a count below so many visited names. -/
def countSetting (visited : Nat) (maxDepth : Limit) : Complexity.Setting where
  store := generator.store
  limit := generator.depthBound visited maxDepth
  openRangesInfinite := generator.analysis.openRangesInfinite

/-- More outcomes than any walk finds. -/
def beyondOutcomes : Int := Int.ofNat (1 <<< 256)

/-- The setting of a walk. -/
def walkSetting (maxDepth maxOutcomes : Limit) : Distribution.Setting Double :=
  .capped generator.store (generator.depthBound 0 maxDepth) (maxOutcomes.bound beyondOutcomes)
    generator.analysis.openRangesInfinite

def advice (report : Report) (text ruleName : Option String) : String :=
  Advice.text generator.store report (.of generator.store text ruleName)

end Generator

end TextGrammar
