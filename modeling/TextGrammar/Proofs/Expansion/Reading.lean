import TextGrammar.Proofs.Expansion.Steps
import TextGrammar.Proofs.Rule.Texts
import TextGrammar.Proofs.Token

/-! What an expansion reads of the context: the values that are replayed, or all of it. -/
namespace TextGrammar

/-- Only branches look at a scope. -/
theorem Rule.draw_scope {rule : Rule} (h : rule.kind ≠ .conditional) (name : String)
    (scope scope' : Scope) (source : Source) :
    rule.draw name scope' source = rule.draw name scope source := by
  cases rule with
  | conditional rule => exact absurd rfl h
  | _ => rfl

namespace Store

variable {store store' : Store} {name : String} {text : String} {reads : String → Prop}

theorem draw_scope (h : store.kind? name ≠ some .conditional) (scope scope' : Scope)
    (source : Source) : store.draw name scope' source = store.draw name scope source := by
  simp only [draw, drawShown, kind?] at h ⊢
  cases hrule : store.rule? name with
  | none => rfl
  | some rule =>
    have hkind : rule.kind ≠ .conditional := fun heq => h (by rw [hrule, ← heq]; rfl)
    simp only [Rule.draw_scope hkind name scope scope' source]

theorem outline_of_restarted (h : store'.restarted = store.restarted) :
    store'.outline = store.outline := by
  rw [← outline_restarted, h, outline_restarted]

theorem kind?_of_restarted (h : store'.restarted = store.restarted) (name : String) :
    store'.kind? name = store.kind? name := by
  have hrules := @rule?_of_outline _ _ name (outline_of_restarted h)
  have hkinds := congrArg (Option.map Rule.kind) hrules
  simpa only [Option.map_map, Function.comp_def, Rule.kind_outline, kind?] using hkinds

/-- An expansion of the text can come to the token: it is there, or in a value of another one. -/
inductive ComesTo (store : Store) : String → String → Prop
  | here {text name : String} (hmem : .token name ∈ Segment.split text) : ComesTo store text name
  | within {text name value other : String} {drawn : Store} {scope : Scope} {source : Source}
      (hmem : .token name ∈ Segment.split text) (hreplay : isReplay name = false)
      (hdrawn : drawn.restarted = store.restarted)
      (hvalue : (drawn.draw name scope source).1 = .ok (some value))
      (hother : ComesTo store value other) : ComesTo store text other

/-- Of the context, an expansion of the text reads the values of these names at most. -/
def ReadsOnly (store : Store) (reads : String → Prop) (text : String) : Prop :=
  ∀ name, store.ComesTo text name →
    if isReplay name then reads (referent name) else store.kind? name ≠ some .conditional

theorem ReadsOnly.replay (h : store.ReadsOnly reads text)
    (hmem : .token name ∈ Segment.split text) (hreplay : isReplay name = true) :
    reads (referent name) := by
  have hread := h name (.here hmem)
  rwa [if_pos hreplay] at hread

theorem ReadsOnly.draw (h : store.ReadsOnly reads text)
    (hmem : .token name ∈ Segment.split text) (hreplay : isReplay name = false) :
    store.kind? name ≠ some .conditional := by
  have hread := h name (.here hmem)
  rwa [if_neg (by simp [hreplay])] at hread

theorem ReadsOnly.value (h : store.ReadsOnly reads text)
    (hmem : .token name ∈ Segment.split text) (hreplay : isReplay name = false)
    (hdrawn : store'.restarted = store.restarted) {scope : Scope} {source : Source} {value : String}
    (hvalue : (store'.draw name scope source).1 = .ok (some value)) : store.ReadsOnly reads value := by
  intro other hother
  exact h other (.within hmem hreplay hdrawn hvalue hother)

/-- Texts whose tokens are among some names come to no other ones, if the rules under these names
list no other texts. -/
theorem ComesTo.mem {texts names : List String}
    (htokens : ∀ text ∈ texts, ∀ name ∈ tokenNames text, name ∈ names)
    (hrules : ∀ name ∈ names, ∀ rule, store.rule? name = some rule →
      rule.HoldsValues ∧ ∀ value ∈ rule.texts, value ∈ texts)
    (h : store.ComesTo text name) (htext : text ∈ texts) : name ∈ names := by
  induction h with
  | here hmem => exact htokens _ htext _ (mem_tokenNames.2 hmem)
  | within hmem _ hdrawn hvalue _ ih =>
    have hname := htokens _ htext _ (mem_tokenNames.2 hmem)
    have houtline := outline_of_restarted hdrawn
    obtain ⟨rule, hrule, hlisted⟩ :=
      offers_of_draw (fun rule hrule => (hrules _ hname rule hrule).1) houtline hvalue
    exact ih ((hrules _ hname rule hrule).2 _ hlisted)

end Store

namespace Engine

/-- Engines with the same rules in the same places and the same source, whose contexts hold the same
under some names. -/
structure Agree (rules : Store) (reads : String → Prop) (engine other : Engine) : Prop where
  rules : engine.store.restarted = rules.restarted
  store : other.store = engine.store
  source : other.source = engine.source
  values : ∀ name, reads name → other.context.get? name = engine.context.get? name

variable {rules : Store} {reads : String → Prop} {inner : String → Engine → Expanded}
  {name text : String}

theorem replayed_relates (hread : reads (referent name)) :
    Relates (Agree rules reads) (fun _ => True) (replayed name) := by
  intro engine other hagree
  refine ⟨hagree, ?_, fun _ _ => trivial⟩
  simp only [replayed, hagree.values _ hread]

theorem noted_relates (name value : String) :
    Relates (Agree rules reads) (fun _ => True) (noted name value) := by
  intro engine other hagree
  refine ⟨⟨hagree.rules, hagree.store, hagree.source, fun read hread => ?_⟩, rfl, fun _ _ => trivial⟩
  simp only [noted, Table.get?_put, hagree.values read hread]

/-- What is drawn next, if anything, is drawn from the rules as well. -/
theorem drawn_relates (hkind : rules.kind? name ≠ some .conditional) :
    Relates (Agree rules reads)
      (fun value? => ∀ value, value? = some value → ∃ store : Store,
        store.restarted = rules.restarted ∧
          ∃ scope source, (store.draw name scope source).1 = .ok (some value))
      (drawn name) := by
  intro engine other hagree
  have hrestarted := (engine.store.restarted_drawShown name name (.run engine.context)
    engine.source).trans hagree.rules
  have hdraw := Store.draw_scope (by rwa [Store.kind?_of_restarted hagree.rules name])
    (.run engine.context) (.run other.context) engine.source
  have hother : drawn name other =
      ((drawn name engine).1, { (drawn name engine).2 with context := other.context }) := by
    simp only [drawn, hagree.store, hagree.source, hdraw]
  rw [hother]
  refine ⟨⟨hrestarted, rfl, rfl, hagree.values⟩, rfl, ?_⟩
  rintro _ hresult value rfl
  exact ⟨engine.store, hagree.rules, _, _, hresult⟩

theorem expandSegments_relates {segments : List Segment}
    (htoken : ∀ name, .token name ∈ segments →
      Relates (Agree rules reads) (fun _ => True) (computation (expandToken inner name))) :
    Relates (Agree rules reads) (fun _ => True) (computation (expandSegments inner segments)) := by
  induction segments with
  | nil => exact Relates.pure trivial
  | cons segment rest ih =>
    have hrest := ih fun name hmem => htoken name (List.mem_cons_of_mem _ hmem)
    cases segment with
    | literal text =>
      rw [expandSegments_literal]
      exact hrest.bind fun _ _ => Relates.pure trivial
    | token name =>
      rw [expandSegments_token]
      refine (htoken name List.mem_cons_self).bind fun _ _ => ?_
      exact hrest.bind fun _ _ => Relates.pure trivial

/-- What an expansion does not read makes no difference to it. -/
theorem expandWithin_relates (limit : Int) (room : Nat) (hreads : rules.ReadsOnly reads text) :
    Relates (Agree rules reads) (fun _ => True) (computation (expandWithin limit room text)) := by
  induction room generalizing text with
  | zero =>
    intro engine other hagree
    exact ⟨hagree, rfl, fun _ _ => trivial⟩
  | succ room ih =>
    refine expandSegments_relates fun name hmem => ?_
    cases hreplay : isReplay name with
    | true =>
      rw [expandToken_replay _ hreplay]
      exact replayed_relates (hreads.replay hmem hreplay)
    | false =>
      rw [expandToken_draw _ hreplay]
      refine (drawn_relates (hreads.draw hmem hreplay)).bind ?_
      rintro (_ | value) hdrawn
      · exact Relates.pure trivial
      · obtain ⟨store, hstore, scope, source, hvalue⟩ := hdrawn value rfl
        have hinner := ih (hreads.value hmem hreplay hstore hvalue)
        refine (noted_relates name value).bind fun _ _ => hinner.bind fun text _ => ?_
        exact (noted_relates name text).bind fun _ _ => Relates.pure trivial

end Engine

end TextGrammar
