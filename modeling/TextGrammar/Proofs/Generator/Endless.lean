import TextGrammar.Proofs.Generator.Validated

/-! Static rules without a base case: an expansion goes on until it is too deep. -/
namespace TextGrammar

/-- A text has a token for one of some names. -/
def HasTokenAmong (names : Set String) (text : String) : Prop :=
  ∃ name ∈ names, .token name ∈ Segment.split text

namespace Store

variable {store : Store} {name : String}

/-- Names of rules that have values, each with a token for one of the names. -/
structure IsEndless (store : Store) (names : Set String) : Prop where
  isReplay (name : String) : name ∈ names → isReplay name = false
  rule (name : String) : name ∈ names → ∃ values,
    store.rule? name = some (.static { values }) ∧ values ≠ [] ∧
      ∀ value ∈ values, HasTokenAmong names value

/-- The places of every list can be counted, as they can in any list that there is. -/
def HasShortLists (store : Store) : Prop :=
  ∀ rule ∈ store.staticValues.entries, rule.2.length < Data.placeLimit

/-- A draw from static rules gives a value or nothing, but never fails. -/
theorem exists_draw (hstatic : store.IsStatic) (hshort : store.HasShortLists) (scope : Scope)
    (source : Source) : ∃ drawn, (store.draw name scope source).1 = .ok drawn := by
  simp only [draw, drawShown]
  cases hrule : store.rule? name with
  | none => exact ⟨none, rfl⟩
  | some rule =>
    obtain ⟨values, rfl, hmem⟩ := hstatic.exists_values hrule
    simp only [Rule.draw, Rule.Static.draw, chosen, Draw.map]
    split
    · exact ⟨none, rfl⟩
    · rename_i hvalues
      have hne : values ≠ [] := by simpa using hvalues
      have hplaces : Data.placeLimit ≤ 2 ^ 64 := by decide
      obtain ⟨value, hvalue⟩ :=
        @Source.exists_choose _ values source hne ((hshort _ hmem).le.trans hplaces)
      exact ⟨some value, by rw [hvalue]; rfl⟩

end Store

namespace Engine

variable {store : Store} {names : Set String} {limit : Int} {room stackRoom : ℕ} {name text : String}
  {failure : Failure} {inner : String → Engine → Expanded} {holds : Engine → Prop}

/-- One token that always fails lets the whole text fail, where all others that fail do so in the
same way. -/
theorem expandSegments_ensures_error {segments : List Segment}
    (htoken : ∀ name, .token name ∈ segments →
      Ensures holds (FailsOnly (· = failure)) (computation (expandToken inner name)))
    (hmem : .token name ∈ segments)
    (hfails : Ensures holds (· = .error failure) (computation (expandToken inner name))) :
    Ensures holds (· = .error failure) (computation (expandSegments inner segments)) := by
  have herror (other : Failure) (h : FailsOnly (· = failure) (.error other : Except Failure String)) :
      (.error other : Except Failure String) = .error failure := congrArg Except.error (h other rfl)
  induction segments with
  | nil => cases hmem
  | cons segment rest ih =>
    have hrest (hlater : .token name ∈ rest) :
        Ensures holds (· = .error failure) (computation (expandSegments inner rest)) :=
      ih (fun other hother => htoken other (List.mem_cons_of_mem _ hother)) hlater
    cases segment with
    | literal part =>
      have hlater : .token name ∈ rest := by simpa using hmem
      rw [expandSegments_literal]
      exact (hrest hlater).bind (fun _ h => h ▸ rfl) fun _ h => nomatch h
    | token first =>
      rw [expandSegments_token]
      rcases List.mem_cons.1 hmem with hfirst | hlater
      · obtain rfl : name = first := Segment.token.inj hfirst
        exact hfails.bind (fun _ h => h ▸ rfl) fun _ h => nomatch h
      · refine (htoken first List.mem_cons_self).bind herror fun _ _ => ?_
        exact (hrest hlater).bind (fun _ h => h ▸ rfl) fun _ h => nomatch h

theorem drawn_ensures_ok (hstatic : store.IsStatic) (hshort : store.HasShortLists) (name : String) :
    Ensures (·.store = store) (fun result => ∃ drawn, result = .ok drawn ∧ store.Offers name drawn)
      (drawn name) := by
  rintro engine rfl
  obtain ⟨hstore, hoffers⟩ := drawn_ensures_offers hstatic name engine rfl
  obtain ⟨value, hvalue⟩ :=
    @Store.exists_draw _ name hstatic hshort (.run engine.context) engine.source
  exact ⟨hstore, value, hvalue, hoffers value hvalue⟩

/-- Static rules fail for depth only. -/
theorem expandWithin_failsForDepth (hstatic : store.IsStatic) (hshort : store.HasShortLists) :
    Ensures (·.store = store) (FailsOnly (· = .tooDeep (toString limit)))
      (computation (expandWithin limit room text)) := by
  refine expandWithin_failsOnly (isFreeOfContext_store (· = store)) (fun name => ?_) ?_ room text
  · refine (drawn_ensures_ok hstatic hshort name).mono ?_
    rintro _ ⟨drawn, rfl, -⟩
    exact .ok drawn
  · rfl

/-- By the depths left: a value that is drawn asks for one of the names again, a depth further
down. -/
theorem expandWithin_endless (hstatic : store.IsStatic) (hshort : store.HasShortLists)
    (hendless : store.IsEndless names) (htext : HasTokenAmong names text) :
    Ensures (·.store = store) (· = .error (.tooDeep (toString limit)))
      (computation (expandWithin limit room text)) := by
  induction room generalizing text with
  | zero =>
    intro engine hengine
    exact ⟨hengine, rfl⟩
  | succ room ih =>
    obtain ⟨name, hname, hmem⟩ := htext
    obtain ⟨values, hrule, hne, hvalues⟩ := hendless.rule name hname
    have hfree := isFreeOfContext_store (· = store)
    refine expandSegments_ensures_error ?_ hmem ?_
    · intro other _
      cases hreplay : isReplay other with
      | true => exact expandToken_ensures_replay hreplay .ok
      | false =>
        refine expandToken_ensures_draw hfree hreplay (drawn_ensures_ok hstatic hshort other) ?_
          (fun _ => .ok _) fun _ _ => expandWithin_failsForDepth hstatic hshort
        rintro failure ⟨drawn, hdrawn, -⟩
        cases hdrawn
    · refine expandToken_ensures_draw hfree (hendless.isReplay name hname)
        (drawn_ensures_ok hstatic hshort name) ?_ ?_ ?_
      · rintro failure ⟨drawn, hdrawn, -⟩
        cases hdrawn
      · rintro ⟨drawn, ⟨⟩, hnone⟩
        exact absurd (hnone _ hrule) hne
      · rintro value ⟨drawn, ⟨⟩, rule, hrule', hvalue⟩
        obtain rfl := Option.some.inj (hrule.symm.trans hrule')
        exact ih (hvalues value hvalue)

theorem expand_ensures_tooDeep (hstatic : store.IsStatic) (hshort : store.HasShortLists)
    (hendless : store.IsEndless names) (htext : HasTokenAmong names text) (keepContext : Bool) :
    Ensures (·.store = store) (· = .error (.tooDeep (toString limit)))
      (computation (expand stackRoom limit keepContext text)) := by
  refine expand_ensures (isFreeOfContext_store (· = store))
    ((expandWithin_endless hstatic hshort hendless htext).mono ?_)
  rintro _ rfl
  rfl

/-- With static rules of which some have no base case, a text with a token for one of these is too
deep for every limit, from every state of the source and in every context. The failure states the
limit. So it is for any room on the stack. -/
theorem expand_endless (hstatic : store.IsStatic) (hshort : store.HasShortLists)
    (hendless : store.IsEndless names) (htext : HasTokenAmong names text) (keepContext : Bool) :
    (∀ stackRoom limit source context,
      (expand stackRoom limit keepContext text { store, source, context }).1 =
        .error (.tooDeep (toString limit))) ∧
    ∀ generator : Generator, generator.store = store →
      (generator.expandText keepContext text).1 =
        .error (.tooDeep (toString generator.maxDepth)) := by
  constructor
  · intro stackRoom limit source context
    exact (expand_ensures_tooDeep hstatic hshort hendless htext keepContext _ rfl).2
  · intro generator hstore
    exact (expand_ensures_tooDeep hstatic hshort hendless htext keepContext generator.engine hstore).2

/-- Two rules that ask for each other or for themselves, and one with a plain value. -/
def loopStore : Store :=
  ⟨[{ name := "a", rule := .static { values := ["%c%%b%", "%a% x"] } },
    { name := "b", rule := .static { values := ["%@b%%a%"] } },
    { name := "c", rule := .static { values := ["x"] } }]⟩

theorem hasTokenAmong_of_contains {names : List String} {text : String}
    (h : (Segment.split text).any fun segment => segment.tokenName?.any names.contains) :
    HasTokenAmong { name | name ∈ names } text := by
  obtain ⟨segment, hmem, hsegment⟩ := List.any_eq_true.1 h
  cases segment with
  | literal part => cases hsegment
  | token name => exact ⟨name, by simpa [Segment.tokenName?] using hsegment, hmem⟩

theorem expand_loopStore :
    loopStore.IsStatic ∧ loopStore.HasShortLists ∧
      loopStore.IsEndless { name | name ∈ ["a", "b"] } ∧
      HasTokenAmong { name | name ∈ ["a", "b"] } "%c% %b%" ∧
      (∀ stackRoom limit source context,
        (expand stackRoom limit false "%c% %b%" { store := loopStore, source, context }).1 =
          .error (.tooDeep (toString limit))) ∧
      ∀ generator : Generator, generator.store = loopStore →
        (generator.expandText false "%c% %b%").1 =
          .error (.tooDeep (toString generator.maxDepth)) := by
  have hstatic : loopStore.IsStatic := by simp [Store.IsStatic, loopStore, Rule.kind]
  have hshort : loopStore.HasShortLists := by
    simp [Store.HasShortLists, Store.staticValues, loopStore, Data.placeLimit]
  have hendless : loopStore.IsEndless { name | name ∈ ["a", "b"] } := by
    constructor
    · intro name hname
      rcases List.mem_pair.1 hname with rfl | rfl <;> rfl
    · intro name hname
      rcases List.mem_pair.1 hname with rfl | rfl
      · refine ⟨["%c%%b%", "%a% x"], rfl, by simp, ?_⟩
        intro value hvalue
        rcases List.mem_pair.1 hvalue with rfl | rfl
        · exact hasTokenAmong_of_contains (by decide +kernel)
        · exact hasTokenAmong_of_contains (by decide +kernel)
      · refine ⟨["%@b%%a%"], rfl, by simp, ?_⟩
        intro value hvalue
        obtain rfl := List.mem_singleton.1 hvalue
        exact hasTokenAmong_of_contains (by decide +kernel)
  have htext : HasTokenAmong { name | name ∈ ["a", "b"] } "%c% %b%" :=
    hasTokenAmong_of_contains (by decide +kernel)
  exact ⟨hstatic, hshort, hendless, htext, expand_endless hstatic hshort hendless htext false⟩

end Engine

end TextGrammar
