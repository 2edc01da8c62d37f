import TextGrammar.Proofs.Expansion.Steps
import TextGrammar.Proofs.Reference
import TextGrammar.Proofs.Token

/-! The ways in which an expansion can go: a run that ends follows one of its plans. -/
namespace TextGrammar

/-- What a run writes in a context, and the context that it leaves. -/
abbrev Plan := Context → String × Context

namespace Plan

/-- Writes a text as it is. -/
def leave (text : String) : Plan := fun context => (text, context)

/-- Writes the last value of a name. -/
def replay (name : String) : Plan := fun context =>
  ((context.get? (referent name)).getD (Segment.tokenText name), context)

def andThen (first second : Plan) : Plan := fun context =>
  let (head, context) := first context
  let (tail, context) := second context
  (head ++ tail, context)

/-- Expands a value of a name. The value stands in the context until its text is finished. -/
def enter (name value : String) (plan : Plan) : Plan := fun context =>
  let (text, context) := plan (context.put name value)
  (text, context.put name text)

end Plan

def tokenPlans (nested : String → List Plan) (name : String) : List Plan :=
  if isReplay name then [.replay name] else nested name

/-- The plans for a text: every plan for a token with every plan for what comes after it. -/
def segmentsPlans (nested : String → List Plan) : List Segment → List Plan
  | [] => [.leave ""]
  | .literal text :: rest => (segmentsPlans nested rest).map (Plan.leave text).andThen
  | .token name :: rest =>
    (tokenPlans nested name).flatMap fun first => (segmentsPlans nested rest).map first.andThen

/-- The plans for a rule: every text that it lists, with every plan for the text. -/
def rulePlans (nested : String → List Plan) (name : String) (rule : Rule) : List Plan :=
  rule.texts.flatMap fun value =>
    (segmentsPlans nested (Segment.split value)).map (Plan.enter name value)

/-- The plans for a name, as deep as so many rules. A token without a rule is left as it is. -/
def namePlans (store : Store) : ℕ → String → List Plan
  | 0, name => [.leave (Segment.tokenText name)]
  | depth + 1, name =>
    match store.rule? name with
    | none => [.leave (Segment.tokenText name)]
    | some rule => rulePlans (namePlans store depth) name rule

section Length

variable {nested : String → List Plan} {name text : String} {rest : List Segment}

theorem length_segmentsPlans_literal :
    (segmentsPlans nested (.literal text :: rest)).length
      = (segmentsPlans nested rest).length := by
  simp [segmentsPlans]

theorem length_segmentsPlans_token :
    (segmentsPlans nested (.token name :: rest)).length
      = (tokenPlans nested name).length * (segmentsPlans nested rest).length := by
  simp [segmentsPlans, List.length_flatMap]

/-- A text without tokens goes one way. -/
theorem length_segmentsPlans_of_notMem (h : '%' ∉ text.toList) :
    (segmentsPlans nested (Segment.split text)).length = 1 := by
  rw [Segment.split_of_notMem h]
  split <;> simp [segmentsPlans]

end Length

/-- What a token is replaced by if its expansion ends: itself, or what is made of a drawn value. -/
theorem Engine.expandToken_eq_ok {inner : String → Engine → Expanded} {name text : String}
    {engine engine' : Engine} (hreplay : isReplay name = false)
    (h : Engine.expandToken inner name engine = (.ok text, engine')) :
    ∃ drawn store source,
      engine.store.draw name (.run engine.context) engine.source = (.ok drawn, store, source) ∧
      ((drawn = none ∧ text = Segment.tokenText name ∧ engine' = { engine with store, source }) ∨
        ∃ value last, drawn = some value ∧
          inner value { store, source, context := engine.context.put name value }
            = (.ok text, last) ∧
          engine' = { last with context := last.context.put name text }) := by
  simp only [Engine.expandToken, hreplay, Bool.false_eq_true, if_false] at h
  split at h
  · cases h
  · rename_i store source hd
    cases h
    exact ⟨none, store, source, hd, Or.inl ⟨rfl, rfl, rfl⟩⟩
  · rename_i value store source hd
    refine ⟨some value, store, source, hd, Or.inr ?_⟩
    split at h
    · cases h
    · rename_i last hi
      cases h
      exact ⟨value, last, rfl, hi, rfl⟩

/-- A run on rules of the same outline follows one of the plans, if it ends. -/
def Follows (store : Store) (plans : List Plan) (run : Engine → Expanded) : Prop :=
  ∀ ⦃engine text engine'⦄, engine.store.outline = store.outline →
    run engine = (.ok text, engine') →
    engine'.store.outline = store.outline ∧
      ∃ plan ∈ plans, plan engine.context = (text, engine'.context)

section Runs

variable {store : Store} {inner : String → Engine → Expanded} {nested : String → List Plan}

theorem tokenPlans_follow {name : String}
    (h : isReplay name = false → Follows store (nested name) (Engine.expandToken inner name)) :
    Follows store (tokenPlans nested name) (Engine.expandToken inner name) := by
  cases hreplay : isReplay name with
  | false => simpa [tokenPlans, hreplay] using h hreplay
  | true =>
    intro engine text engine' hs hrun
    simp only [Engine.expandToken, hreplay, if_true] at hrun
    cases hrun
    exact ⟨hs, .replay name, by simp [tokenPlans, hreplay], rfl⟩

theorem leave_follows (text : String) :
    Follows store [.leave text] (pure text : Engine.Computation String) := by
  intro engine result engine' hs hrun
  cases hrun
  exact ⟨hs, .leave text, List.mem_singleton_self _, rfl⟩

/-- Texts that are joined follow every plan for the one with every plan for the other. -/
theorem Follows.andThen {firsts seconds : List Plan} {first second : Engine.Computation String}
    (hfirst : Follows store firsts first) (hsecond : Follows store seconds second) :
    Follows store (firsts.flatMap fun plan => seconds.map plan.andThen)
      (do
        let head ← first
        let tail ← second
        return head ++ tail : Engine.Computation String) := by
  intro engine text engine' hs hrun
  rw [bind_apply] at hrun
  rcases hhead : first engine with ⟨failure | head, middle⟩
  · rw [hhead] at hrun
    cases hrun
  · rw [hhead] at hrun
    dsimp only at hrun
    rw [bind_apply] at hrun
    obtain ⟨hs', plan, hmem, hplan⟩ := hfirst hs hhead
    rcases htail : second middle with ⟨failure | tail, last⟩
    · rw [htail] at hrun
      cases hrun
    · rw [htail] at hrun
      cases hrun
      obtain ⟨hs'', plan', hmem', hplan'⟩ := hsecond hs' htail
      refine ⟨hs'', plan.andThen plan', ?_, ?_⟩
      · exact List.mem_flatMap.2 ⟨plan, hmem, List.mem_map_of_mem hmem'⟩
      · simp [Plan.andThen, hplan, hplan']

theorem segmentsPlans_follow {segments : List Segment}
    (h : ∀ name, .token name ∈ segments → isReplay name = false →
      Follows store (nested name) (Engine.expandToken inner name)) :
    Follows store (segmentsPlans nested segments)
      (Engine.computation (Engine.expandSegments inner segments)) := by
  induction segments with
  | nil => exact leave_follows ""
  | cons segment rest ih =>
    have hrest := ih fun name hm => h name (List.mem_cons_of_mem _ hm)
    cases segment with
    | literal text =>
      have hboth := (leave_follows text).andThen hrest
      rw [List.flatMap_singleton, pure_bind] at hboth
      rw [Engine.expandSegments_literal]
      exact hboth
    | token name =>
      rw [Engine.expandSegments_token]
      exact (tokenPlans_follow (h name List.mem_cons_self)).andThen hrest

/-- A draw from a store of the same outline gives a listed value, if there is a rule at all. -/
theorem draw_listed (ha : store.Accepted) {name : String}
    (hl : ∀ rule, store.rule? name = some rule → rule.DrawsTexts) {scope : Scope} {source : Source}
    {store' : Store} (hs : store'.outline = store.outline) {drawn : Option String}
    (hd : (store'.draw name scope source).1 = .ok drawn) :
    (store.rule? name = none ∧ drawn = none) ∨
      ∃ rule value, store.rule? name = some rule ∧ value ∈ rule.texts ∧ drawn = some value := by
  have hrule : (store'.rule? name).map Rule.outline = (store.rule? name).map Rule.outline :=
    Store.rule?_of_outline hs
  simp only [Store.draw, Store.drawShown] at hd
  cases hr' : store'.rule? name with
  | none =>
    rw [hr'] at hd hrule
    cases hd
    exact Or.inl ⟨Option.map_eq_none_iff.1 hrule.symm, rfl⟩
  | some rule' =>
    rw [hr'] at hd hrule
    obtain ⟨rule, hr, ho⟩ := Option.map_eq_some_iff.1 hrule.symm
    have hlisted : rule'.DrawsTexts := by
      rw [← Rule.drawsTexts_outline, ← ho, Rule.drawsTexts_outline]
      exact hl rule hr
    have haccepted : rule'.outline.Accepted := by
      rw [← ho]
      exact Rule.accepted_outline (Store.accepted_of_rule? ha hr)
    obtain ⟨value, hv, rfl⟩ := Rule.exists_mem_texts_of_draw hlisted haccepted hd
    rw [← Rule.texts_outline, ← ho, Rule.texts_outline] at hv
    exact Or.inr ⟨rule, value, hr, hv, rfl⟩

/-- A token without a rule goes one way. -/
theorem namePlans_of_none {depth : ℕ} {name : String} (h : store.rule? name = none) :
    namePlans store depth name = [.leave (Segment.tokenText name)] := by
  cases depth with
  | zero => rfl
  | succ depth => simp [namePlans, h]

theorem namePlans_of_some {depth : ℕ} {name : String} {rule : Rule}
    (h : store.rule? name = some rule) :
    namePlans store (depth + 1) name = rulePlans (namePlans store depth) name rule := by
  simp [namePlans, h]

/-- A text is expanded by its plans, as deep as its tokens are. -/
theorem textPlans_follow {value : String} {limit : ℤ} {room : ℕ}
    (h : ∀ name room, .token name ∈ Segment.split value → isReplay name = false →
      Follows store (nested name) (Engine.expandToken (Engine.expandWithin limit room) name)) :
    Follows store (segmentsPlans nested (Segment.split value))
      (Engine.expandWithin limit room value) := by
  cases room with
  | zero =>
    intro engine text engine' _ hrun
    cases hrun
  | succ room => exact segmentsPlans_follow fun name => h name room

/-- A token follows its plans if they have one for a missing rule, and for each value of a rule the
ones that its expansion follows. -/
theorem expandToken_follows (ha : store.Accepted) {name : String}
    (hreplay : isReplay name = false)
    (hl : ∀ rule, store.rule? name = some rule → rule.DrawsTexts) {plans : List Plan}
    (hnone : store.rule? name = none → Plan.leave (Segment.tokenText name) ∈ plans)
    (hsome : ∀ rule, store.rule? name = some rule → ∀ value ∈ rule.texts,
      ∃ below, Follows store below (inner value) ∧
        ∀ plan ∈ below, Plan.enter name value plan ∈ plans) :
    Follows store plans (Engine.expandToken inner name) := by
  intro engine text engine' hs hrun
  obtain ⟨drawn, store', source', hdraw, hcases⟩ := Engine.expandToken_eq_ok hreplay hrun
  have hs' : store'.outline = store.outline := by
    have hkeep : (engine.store.draw name (.run engine.context) engine.source).2.1.outline
        = engine.store.outline := Store.outline_draw _ _
    rw [hdraw] at hkeep
    exact hkeep.trans hs
  rcases draw_listed ha hl hs (congrArg Prod.fst hdraw) with
    ⟨hr, rfl⟩ | ⟨rule, value, hr, hv, rfl⟩
  · rcases hcases with ⟨-, rfl, rfl⟩ | ⟨value, last, hvalue, -⟩
    · exact ⟨hs', _, hnone hr, rfl⟩
    · cases hvalue
  · rcases hcases with ⟨hvalue, -⟩ | ⟨value', last, hvalue, hinner, rfl⟩
    · cases hvalue
    · cases hvalue
      obtain ⟨below, hfollows, hplans⟩ := hsome rule hr value hv
      obtain ⟨hs'', plan, hmem, hplan⟩ := hfollows hs' hinner
      refine ⟨hs'', Plan.enter name value plan, hplans plan hmem, ?_⟩
      simp only at hplan
      simp [Plan.enter, hplan]

theorem namePlans_follow (ha : store.Accepted) {depth : ℕ} {name : String}
    (hreplay : isReplay name = false)
    (hl : ∀ other rule, store.Reaches Rule.texts name other → store.rule? other = some rule →
      rule.DrawsTexts)
    (hnest : store.NestsWithin Rule.texts depth name) (limit : ℤ) (room : ℕ) :
    Follows store (namePlans store depth name)
      (Engine.expandToken (Engine.expandWithin limit room) name) := by
  induction depth generalizing name room with
  | zero =>
    apply expandToken_follows ha hreplay fun rule => hl name rule .refl
    · intro _
      exact List.mem_singleton_self _
    · intro rule hr
      rw [hnest] at hr
      cases hr
  | succ depth ih =>
    apply expandToken_follows ha hreplay fun rule => hl name rule .refl
    · intro hr
      rw [namePlans_of_none hr]
      exact List.mem_singleton_self _
    · intro rule hr value hv
      refine ⟨segmentsPlans (namePlans store depth) (Segment.split value), ?_, ?_⟩
      · apply textPlans_follow
        intro other room hmem hother
        have hrefers : store.Refers Rule.texts name other := ⟨rule, hr, value, hv, hmem, hother⟩
        apply ih hother
        · intro last rule hlast
          exact hl last rule (hlast.head hrefers)
        · exact hnest other hrefers
      · intro plan hplan
        rw [namePlans_of_some hr]
        exact List.mem_flatMap.2 ⟨value, hv, List.mem_map_of_mem hplan⟩

end Runs

end TextGrammar
