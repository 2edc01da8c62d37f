import TextGrammar.Proofs.Expansion.Ensured
import TextGrammar.Proofs.Generator.Variations
import TextGrammar.Proofs.Reference
import TextGrammar.Store.Validation

/-! What the findings about static rules say of expansions that run on them. -/
namespace TextGrammar

/-- Static rules and no others. -/
def Store.IsStatic (store : Store) : Prop := ∀ entry ∈ store.entries, entry.rule.kind = .static

/-- A text that replays nothing, with no `%` beside its tokens. -/
structure IsProper (text : String) : Prop where
  literal (part : String) : .literal part ∈ Segment.split text → '%' ∉ part.toList
  token (name : String) : .token name ∈ Segment.split text → isReplay name = false

namespace Store

variable {store store' : Store} {name other : String} {rule : Rule}

theorem IsStatic.isSettled (h : store.IsStatic) : store.IsSettled := by
  intro entry hentry
  simp [h entry hentry]

theorem IsStatic.exists_static (h : store.IsStatic) {entry : Entry} (hentry : entry ∈ store.entries) :
    ∃ values, entry.rule = .static { values } := by
  have hkind := h entry hentry
  cases hrule : entry.rule with
  | static rule => exact ⟨rule.values, rfl⟩
  | _ =>
    rw [hrule] at hkind
    cases hkind

theorem IsStatic.exists_values (h : store.IsStatic) (hrule : store.rule? name = some rule) :
    ∃ values, rule = .static { values } ∧ (name, values) ∈ store.staticValues.entries := by
  obtain ⟨entry, hmem, rfl, rfl⟩ := exists_entry_of_rule? hrule
  obtain ⟨values, hvalues⟩ := h.exists_static hmem
  refine ⟨values, hvalues, List.mem_filterMap.2 ⟨entry, hmem, ?_⟩⟩
  rw [hvalues]

theorem IsStatic.holdsValues (h : store.IsStatic) (hrule : store.rule? name = some rule) :
    rule.HoldsValues := by
  obtain ⟨values, rfl, -⟩ := h.exists_values hrule
  trivial

theorem IsStatic.eraseName (h : store.IsStatic) (name : String) :
    (store.eraseName name).IsStatic := by
  intro entry hentry
  exact h entry (List.mem_filter.1 hentry).1

/-- A draw has nothing to move on in static rules. -/
theorem IsStatic.store_draw (h : store.IsStatic) (name : String) (scope : Scope) (source : Source) :
    (store.draw name scope source).2.1 = store :=
  eq_of_restarted (restarted_drawShown name name scope source) h.isSettled

theorem rule?_eraseName (hne : name ≠ other) :
    (store.eraseName other).rule? name = store.rule? name := by
  have hnamed : (store.eraseName other).entriesNamed name = store.entriesNamed name := by
    rw [entriesNamed, eraseName, List.filter_filter]
    refine List.filter_congr fun entry _ => ?_
    by_cases hname : entry.name = name
    · simp [hname, hne]
    · simp [hname]
  rw [rule?, entry?, hnamed, rule?, entry?]

/-- A draw looks at nothing but the rule under its name. -/
theorem draw_congr (h : store'.rule? name = store.rule? name) (scope : Scope) (source : Source) :
    (store'.draw name scope source).1 = (store.draw name scope source).1 ∧
      (store'.draw name scope source).2.2 = (store.draw name scope source).2.2 := by
  simp only [draw, drawShown, h]
  cases store.rule? name with
  | none => exact ⟨rfl, rfl⟩
  | some rule => exact ⟨rfl, rfl⟩

/-- What static rules ask for is referenced. -/
theorem IsStatic.mem_referencedNames (h : store.IsStatic)
    (hrefers : store.Refers Rule.texts name other) : other ∈ store.referencedNames := by
  obtain ⟨rule, hrule, value, hvalue, hmem, hreplay⟩ := hrefers
  obtain ⟨values, rfl, hvalues⟩ := h.exists_values hrule
  refine List.mem_flatMap.2 ⟨(name, values), hvalues, ?_⟩
  refine List.mem_flatMap.2 ⟨value, hvalue, ?_⟩
  exact List.mem_filter.2 ⟨mem_tokenNames.2 hmem, by simp [hreplay]⟩

/-- In a valid store every referenced name has a rule, and every static rule has values. -/
theorem of_isValid (h : store.validate.isValid = true) :
    (∀ name ∈ store.referencedNames, store.hasName name = true) ∧
      ∀ rule ∈ store.staticValues.entries, rule.2 ≠ [] := by
  simp only [Validation.isValid, validate, Bool.and_eq_true, List.isEmpty_iff, List.map_eq_nil_iff,
    List.filter_eq_nil_iff] at h
  obtain ⟨⟨hmissing, -⟩, hempty⟩ := h
  constructor
  · intro name hname
    by_contra hnone
    have hmem : name ∈ (store.referencedNames.filter (!store.hasName ·)).eraseDups :=
      List.mem_eraseDups.2 (List.mem_filter.2 ⟨hname, by simpa using hnone⟩)
    rw [hmissing] at hmem
    cases hmem
  · intro rule hrule hnil
    have hblank := hempty rule hrule
    rw [hnil] at hblank
    exact hblank rfl

/-- No static rule asks for a name that counts as unreachable. -/
theorem IsStatic.not_refers_of_unreachable (h : store.IsStatic)
    (hother : other ∈ store.validate.unreachable) : ¬ store.Refers Rule.texts name other := by
  intro hrefers
  have hnot := (List.mem_filter.1 hother).2
  simp [h.mem_referencedNames hrefers] at hnot

end Store

namespace Engine

variable {store : Store} {limit : Int} {room : Nat} {text name unreachable : String}

/-- Static rules give values of theirs and stay what they are. -/
theorem drawn_ensures_offers (h : store.IsStatic) (name : String) :
    Ensures (·.store = store) (fun result => ∀ drawn, result = .ok drawn → store.Offers name drawn)
      (drawn name) := by
  rintro engine rfl
  refine ⟨h.store_draw name _ _, ?_⟩
  intro drawn hdrawn
  exact Store.offers_of_draw (fun rule hrule => h.holdsValues hrule) rfl hdrawn

theorem restarted_isKept : IsKept (·.store.restarted) where
  drawn name engine := Store.restarted_drawShown name name (.run engine.context) engine.source
  context _ _ := rfl

/-- What keeps the rules but for their course keeps static rules. -/
theorem ensures_of_keeps (h : store.IsStatic) {run : Computation String}
    (hrun : Keeps (·.store.restarted) run) : Ensures (·.store = store) (fun _ => True) run := by
  rintro engine rfl
  exact ⟨Store.eq_of_restarted (hrun engine) h.isSettled, trivial⟩

/-- An end, if it is a text at all, without a `%`. -/
def IsResolved (result : Except Failure String) : Prop :=
  ∀ text, result = .ok text → '%' ∉ text.toList

theorem isJoined_isResolved : IsJoined IsResolved where
  empty := by
    rintro text ⟨⟩
    exact List.not_mem_nil
  append head tail hhead htail := by
    rintro text ⟨⟩
    rw [String.toList_append, List.mem_append, not_or]
    exact ⟨hhead head rfl, htail tail rfl⟩

theorem isResolved_error (failure : Failure) : IsResolved (.error failure) := by
  rintro text ⟨⟩

/-- By the depths left: every token has a rule, and its values are texts of the same kind. -/
theorem expandWithin_isResolved (hstatic : store.IsStatic) (hvalid : store.validate.isValid = true)
    (hproper : ∀ rule ∈ store.staticValues.entries, ∀ value ∈ rule.2, IsProper value)
    (htext : IsProper text)
    (hknown : ∀ name, .token name ∈ Segment.split text → store.hasName name = true) :
    Ensures (·.store = store) IsResolved (computation (expandWithin limit room text)) := by
  obtain ⟨hregistered, hvalues⟩ := Store.of_isValid hvalid
  induction room generalizing text with
  | zero =>
    intro engine hengine
    exact ⟨hengine, isResolved_error _⟩
  | succ room ih =>
    refine expandSegments_ensures isJoined_isResolved ?_ ?_
    · rintro part hmem _ ⟨⟩
      exact htext.literal part hmem
    · intro name hmem
      refine expandToken_ensures_draw (isFreeOfContext_store (· = store)) (htext.token name hmem)
        (drawn_ensures_offers hstatic name) (fun failure _ => isResolved_error failure) ?_ ?_
      · intro hnone
        obtain ⟨rule, hrule⟩ := Store.exists_rule?_iff.2 (hknown name hmem)
        obtain ⟨values, rfl, hstored⟩ := hstatic.exists_values hrule
        exact absurd (hnone none rfl _ hrule) (hvalues _ hstored)
      · intro value hvalue
        obtain ⟨rule, hrule, hmem⟩ := hvalue (some value) rfl
        obtain ⟨values, rfl, hstored⟩ := hstatic.exists_values hrule
        have hvalueProper : IsProper value := hproper _ hstored value hmem
        refine ih hvalueProper ?_
        intro other hother
        exact hregistered other (hstatic.mem_referencedNames
          ⟨_, hrule, value, hmem, hother, hvalueProper.token other hother⟩)

theorem drawn_mirrors_eraseName (hstatic : store.IsStatic) (hne : name ≠ unreachable) :
    Mirrors (·.store = store) (mapStore (·.eraseName unreachable)) (drawn name) := by
  rintro engine rfl
  have hrule : (engine.store.eraseName unreachable).rule? name = engine.store.rule? name :=
    Store.rule?_eraseName hne
  obtain ⟨hvalue, hsource⟩ := Store.draw_congr hrule (.run engine.context) engine.source
  have hstore := hstatic.store_draw name (.run engine.context) engine.source
  have herased :=
    (hstatic.eraseName unreachable).store_draw name (.run engine.context) engine.source
  simp only [drawn, mapStore, hvalue, hsource, hstore, herased]

/-- A text that does not draw from an unreachable name comes to the same without the rules under it:
no value drawn on the way asks for the name either. -/
theorem expandWithin_mirrors_eraseName (hstatic : store.IsStatic)
    (hunreachable : unreachable ∈ store.validate.unreachable)
    (htext : ¬ Store.Asks text unreachable) :
    Mirrors (·.store = store) (mapStore (·.eraseName unreachable))
      (computation (expandWithin limit room text)) := by
  induction room generalizing text with
  | zero =>
    intro engine _
    rfl
  | succ room ih =>
    refine expandSegments_mirrors ?_
    intro name hmem
    refine ⟨ensures_of_keeps hstatic (expandToken_keeps restarted_isKept
      (expandWithin_keeps restarted_isKept limit room) name), ?_⟩
    cases hreplay : isReplay name with
    | true => exact expandToken_mirrors_replay hreplay
    | false =>
      have hne : name ≠ unreachable := by
        rintro rfl
        exact htext ⟨hmem, hreplay⟩
      refine expandToken_mirrors_draw (isFreeOfContext_store (· = store)) hreplay
        (drawn_ensures_offers hstatic name)
        (drawn_mirrors_eraseName hstatic hne) ?_
      intro value hvalue
      obtain ⟨rule, hrule, hvalue⟩ := hvalue (some value) rfl
      refine ⟨ensures_of_keeps hstatic (expandWithin_keeps restarted_isKept limit room value),
        ih ?_⟩
      intro hasks
      exact hstatic.not_refers_of_unreachable hunreachable ⟨rule, hrule, value, hvalue, hasks⟩

end Engine

namespace Generator

variable {generator : Generator} {keepContext : Bool} {text : String}

/-- An expansion with valid static rules that ends leaves no token: if neither the values nor the
text replay anything or have a `%` beside their tokens, and the text asks for registered names only,
there is no `%` in what it comes to. -/
theorem percent_notMem_expandText (hstatic : generator.store.IsStatic)
    (hvalid : generator.store.validate.isValid = true)
    (hproper : ∀ rule ∈ generator.store.staticValues.entries, ∀ value ∈ rule.2, IsProper value)
    (htext : IsProper text)
    (hknown : ∀ name, .token name ∈ Segment.split text → generator.store.hasName name = true)
    {result : String} (h : (generator.expandText keepContext text).1 = .ok result) :
    '%' ∉ result.toList := by
  have hwithin := @Engine.expandWithin_isResolved generator.store generator.maxDepth
    (min generator.maxDepth.toNat generator.stackRoom) text hstatic hvalid hproper htext hknown
  have hresolved : Engine.IsResolved (generator.expandText keepContext text).1 := by
    refine (Engine.expand_ensures (Engine.isFreeOfContext_store (· = generator.store))
      (hwithin.mono ?_) generator.engine rfl).2
    intro end' hend value hvalue
    exact hend value (mapError_eq_ok.1 hvalue)
  exact hresolved result h

theorem nestedGenerator_isStatic : nestedGenerator.store.IsStatic := by
  intro entry hentry
  rcases List.mem_pair.1 hentry with rfl | rfl
  · rfl
  · rfl

theorem nestedGenerator_isProper :
    ∀ rule ∈ nestedGenerator.store.staticValues.entries, ∀ value ∈ rule.2, IsProper value := by
  obtain ⟨hx, hb, hy, hz⟩ := nestedStore_split
  intro rule hrule value hvalue
  have hentries : nestedGenerator.store.staticValues.entries =
      [("a", ["x", "%b%"]), ("b", ["y", "z"])] := rfl
  rw [hentries] at hrule
  rcases List.mem_pair.1 hrule with rfl | rfl
  · rcases List.mem_pair.1 hvalue with rfl | rfl
    · exact ⟨by simp [hx], by simp [hx]⟩
    · exact ⟨by simp [hb], by simp [hb, isReplay]⟩
  · rcases List.mem_pair.1 hvalue with rfl | rfl
    · exact ⟨by simp [hy], by simp [hy]⟩
    · exact ⟨by simp [hz], by simp [hz]⟩

/-- A token in a value is replaced as well. -/
theorem expandText_nestedGenerator :
    ((nestedGenerator.withSource (.unseeded 1000)).expandText false "%a%").1 = .ok "z" ∧
      '%' ∉ "z".toList := by
  have hsplit : Segment.split "%a%" = [.token "a"] :=
    @Segment.split_tokenText "a" (by decide) (by decide)
  have hresult : ((nestedGenerator.withSource (.unseeded 1000)).expandText false "%a%").1 =
      .ok "z" := by decide +kernel
  have htext : IsProper "%a%" := ⟨by simp [hsplit], by simp [hsplit, isReplay]⟩
  have hvalid : nestedGenerator.store.validate.isValid = true := by decide +kernel
  refine ⟨hresult, @percent_notMem_expandText (nestedGenerator.withSource (.unseeded 1000)) false
    "%a%" nestedGenerator_isStatic hvalid nestedGenerator_isProper htext ?_ _ hresult⟩
  intro name hname
  rw [hsplit, List.mem_singleton] at hname
  cases hname
  rfl

/-- Without the rules under an unreachable name a text that has no token for it comes to the same,
with the same context and the same source afterwards. -/
theorem expandText_eraseName (hstatic : generator.store.IsStatic) {unreachable : String}
    (hunreachable : unreachable ∈ generator.store.validate.unreachable)
    (htext : .token unreachable ∉ Segment.split text) :
    (generator.withStore (generator.store.eraseName unreachable)).expandText keepContext text =
      ((generator.expandText keepContext text).1,
        (generator.expandText keepContext text).2.withStore
          (generator.store.eraseName unreachable)) := by
  have hasks : ¬ Store.Asks text unreachable := fun hasks => htext hasks.1
  have hwithin := @Engine.expandWithin_mirrors_eraseName generator.store generator.maxDepth
    (min generator.maxDepth.toNat generator.stackRoom) text unreachable hstatic hunreachable hasks
  have hmirrors := @Engine.expand_mirrors _ _ (Engine.isFreeOfContext_store (· = generator.store))
    _ _ keepContext _ hwithin generator.engine rfl
  have hkeeps := Engine.expand_keeps Engine.restarted_isKept generator.stackRoom generator.maxDepth
    keepContext text
  have hstore := (Engine.ensures_of_keeps hstatic hkeeps generator.engine rfl).1
  simp only [Engine.computation, Engine.mapStore] at hmirrors hstore
  simp only [expandText, withStore, store] at hmirrors hstore ⊢
  rw [hmirrors, hstore]

/-- Nothing asks for the first name. -/
theorem expandText_nestedGenerator_eraseName :
    "a" ∈ nestedGenerator.store.validate.unreachable ∧
      (nestedGenerator.withStore (nestedGenerator.store.eraseName "a")).expandText true "%b%" =
        ((nestedGenerator.expandText true "%b%").1,
          (nestedGenerator.expandText true "%b%").2.withStore
            (nestedGenerator.store.eraseName "a")) := by
  have hunreachable : "a" ∈ nestedGenerator.store.validate.unreachable := by decide +kernel
  obtain ⟨-, hsplit, -⟩ := nestedStore_split
  exact ⟨hunreachable,
    expandText_eraseName nestedGenerator_isStatic hunreachable (by simp [hsplit])⟩

end Generator

end TextGrammar
