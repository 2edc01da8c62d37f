import TextGrammar.Proofs.Expansion.Choices
import TextGrammar.Proofs.Expansion.Ensured
import TextGrammar.Proofs.Reference
import TextGrammar.Proofs.Rule.WellFormed

/-! How deep expansions go: no deeper than the chains of rules from their text are long. -/
namespace TextGrammar

/-- Static, weighted and sequential rules and no others. -/
def Store.ListsValues (store : Store) : Prop :=
  ∀ entry ∈ store.entries, entry.rule.kind ∈ [RuleKind.static, .weighted, .sequential]

/-- The failures that count as nesting too deep. -/
def Failure.isDeep : Failure → Bool
  | .tooDeep _ | .callback .stackExhausted _ => true
  | _ => false

/-- A result that is no failure for depth. -/
def IsShallow {α : Type} (result : Except Failure α) : Prop :=
  FailsOnly (·.isDeep = false) result

namespace Engine

variable {store : Store} {limit : Int} {depth room stackRoom : ℕ} {text name : String}

/-- Draws from listed values never nest: they fail, if at all, for reasons of their own. -/
theorem isShallow_draw {rule : Rule} (hkind : rule.kind ∈ [RuleKind.static, .weighted, .sequential])
    (name : String) (scope : Scope) (source : Source) :
    IsShallow (rule.draw name scope source).1 := by
  intro failure hfailure
  rcases Rule.draw_eq_error hfailure with ⟨-, hfault⟩ | ⟨fault, rfl⟩ | hraises
  · cases failure with
    | tooDeep limit => cases hfault
    | callback fault message => cases hfault
    | _ => rfl
  · rfl
  · cases rule with
    | function rule => simp [Rule.kind] at hkind
    | conditional rule => simp [Rule.kind] at hkind
    | _ => exact hraises.elim

theorem drawn_ensures_shallow (h : store.ListsValues) (name : String) :
    Ensures (·.store.outline = store.outline)
      (fun result => IsShallow result ∧ ∀ drawn, result = .ok drawn → store.Offers name drawn)
      (drawn name) := by
  have hlisted {rule : Rule} (hrule : store.rule? name = some rule) :
      rule.kind ∈ [RuleKind.static, .weighted, .sequential] := by
    obtain ⟨entry, hmem, -, rfl⟩ := Store.exists_entry_of_rule? hrule
    exact h entry hmem
  intro engine hengine
  refine ⟨(Store.outline_draw _ _).trans hengine, ?_, ?_⟩
  · simp only [drawn, Store.draw, Store.drawShown]
    cases hrule' : engine.store.rule? name with
    | none => exact .ok _
    | some rule' =>
      have houtline := @Store.rule?_of_outline _ _ name hengine
      rw [hrule'] at houtline
      obtain ⟨rule, hrule, hsame⟩ := Option.map_eq_some_iff.1 houtline.symm
      have hkind : rule'.kind = rule.kind := by
        rw [← Rule.kind_outline, ← hsame, Rule.kind_outline]
      exact isShallow_draw (hkind ▸ hlisted hrule) name _ _
  · intro drawn hdrawn
    refine Store.offers_of_draw (fun rule hrule => ?_) hengine hdrawn
    have hkind := hlisted hrule
    cases rule with
    | function rule => simp [Rule.kind] at hkind
    | range rule => simp [Rule.kind] at hkind
    | template rule => simp [Rule.kind] at hkind
    | _ => trivial

/-- By the depths that the rules nest within: each value takes one of them and one of those left. -/
theorem expandWithin_isShallow (h : store.ListsValues)
    (hnest : ∀ name, Store.Asks text name → store.NestsWithin Rule.texts depth name)
    (hroom : depth + 1 ≤ room) :
    Ensures (·.store.outline = store.outline) IsShallow
      (computation (expandWithin limit room text)) := by
  induction room generalizing text depth with
  | zero => omega
  | succ room ih =>
    refine expandSegments_ensures (isJoined_failsOnly _) (fun _ _ => .ok _) ?_
    intro name hmem
    cases hreplay : isReplay name with
    | true => exact expandToken_ensures_replay hreplay .ok
    | false =>
      refine expandToken_ensures_draw (isFreeOfContext_store (·.outline = store.outline)) hreplay
        (drawn_ensures_shallow h name) ?_ (fun _ => .ok _) ?_
      · rintro failure ⟨hshallow, -⟩
        exact .error (hshallow failure rfl)
      · rintro value ⟨-, hoffers⟩
        obtain ⟨rule, hrule, hvalue⟩ := hoffers (some value) rfl
        have hname := hnest name ⟨hmem, hreplay⟩
        cases depth with
        | zero =>
          rw [Store.NestsWithin, hrule] at hname
          cases hname
        | succ depth =>
          refine @ih depth value ?_ (by omega)
          intro other hasks
          exact hname other ⟨rule, hrule, value, hvalue, hasks⟩

/-- An expansion with more depths than a chain of rules is long does not nest too deep. -/
theorem expand_isShallow (h : store.ListsValues)
    (hnest : ∀ name, Store.Asks text name → store.NestsWithin Rule.texts depth name)
    (hroom : depth + 1 ≤ min limit.toNat stackRoom) (keepContext : Bool) :
    Ensures (·.store.outline = store.outline) IsShallow
      (computation (expand stackRoom limit keepContext text)) := by
  refine expand_ensures (isFreeOfContext_store (·.outline = store.outline))
    ((expandWithin_isShallow h hnest hroom).mono ?_)
  rintro result hshallow failure hfailure
  obtain ⟨raised, rfl, rfl⟩ := mapError_eq_error.1 hfailure
  have hraised := hshallow raised rfl
  unfold deepened
  split
  · cases hraised
  · exact hraised

end Engine

/-- All that a text leads to are static rules with values. -/
def Store.IsFilledBelow (store : Store) (text : String) : Prop :=
  ∀ name, Asks text name → ∀ other, store.Reaches Rule.texts name other →
    ∀ rule, store.rule? other = some rule → ∃ values, values ≠ [] ∧ rule = .static { values }

/-- A value of a rule that a text asks for leads to no more than the text. -/
theorem Store.IsFilledBelow.value {store : Store} {text name value : String} {rule : Rule}
    (h : store.IsFilledBelow text) (hasks : Asks text name) (hrule : store.rule? name = some rule)
    (hvalue : value ∈ rule.texts) : store.IsFilledBelow value := by
  intro other hother last hreaches
  have hrefers : store.Refers Rule.texts name other := ⟨rule, hrule, value, hvalue, hother⟩
  exact h name hasks last (hreaches.head hrefers)

namespace Scene

variable {store : Store} {limit : Int} {room stackRoom : ℕ} {inner : String → Scene → Told}
  {name value text : String} {values : List String} {segments : List Segment}

/-- Some choices end in a reply that is allowed and leave the rules as they are, whatever the
context is. -/
def CanReply (store : Store) (allowed : Reply → Prop) (tree : Scene → Told) : Prop :=
  ∀ context, ∃ reply, ∃ after : Scene, allowed reply ∧ after.store = store ∧
    (tree { store, context }).CanEnd (reply, after)

def IsTooDeep (limit : Int) (reply : Reply) : Prop := reply = .error (.tooDeep (toString limit))

/-- A text, or too deep. -/
def IsTextOrTooDeep (limit : Int) (reply : Reply) : Prop :=
  (∃ text, reply = .ok text) ∨ IsTooDeep limit reply

/-- A name can draw each value of its rule, and then comes to what the value comes to. -/
theorem askToken_canReply {allowed : Reply → Prop}
    (hreplay : isReplay name = false)
    (hrule : store.rule? name = some (.static { values })) (hvalue : value ∈ values)
    (hinner : CanReply store allowed (inner value)) :
    CanReply store allowed (askToken inner name) := by
  intro context
  obtain ⟨reply, after, hreply, hafter, hend⟩ := hinner (context.put name value)
  have hvalues : values ≠ [] := List.ne_nil_of_mem hvalue
  have hput : store.put name (.static { values }) = store := Store.put_of_rule? hrule
  have hdrawn : (Rule.ask name (.run context) (.static { values })).CanEnd
      (.ok (some value), .static { values }) := by
    rw [Rule.ask, if_neg (by simpa using hvalues), askAmong, if_neg (by simpa using hvalues)]
    refine @Choices.CanEnd.ask _ (.among values) _ (.ok value) _ ?_ (.done _)
    exact List.mem_map.2 ⟨_, List.mem_map.2 ⟨value, hvalue, rfl⟩, rfl⟩
  cases reply with
  | error failure =>
    refine ⟨.error failure, after, hreply, hafter, ?_⟩
    simp only [askToken, hreplay, hrule]
    refine hdrawn.bind ?_
    simp only [hput]
    exact hend.bind (.done _)
  | ok text =>
    refine ⟨.ok text, { after with context := after.context.put name text }, hreply, hafter, ?_⟩
    simp only [askToken, hreplay, hrule]
    refine hdrawn.bind ?_
    simp only [hput]
    exact hend.bind (.done _)

theorem canReply_of_text {tree : Scene → Told}
    (h : ∀ context, ∃ text, tree { store, context } = .done (.ok text, { store, context })) :
    CanReply store (IsTextOrTooDeep limit) tree := by
  intro context
  obtain ⟨text, htext⟩ := h context
  exact ⟨.ok text, { store, context }, .inl ⟨text, rfl⟩, rfl, htext ▸ .done _⟩

/-- Each token of a text that leads to filled rules only comes to something if the values do. -/
theorem askToken_canReply_of_filled (h : store.IsFilledBelow text)
    (hmem : .token name ∈ Segment.split text)
    (hinner : ∀ value, store.IsFilledBelow value →
      CanReply store (IsTextOrTooDeep limit) (inner value)) :
    CanReply store (IsTextOrTooDeep limit) (askToken inner name) := by
  cases hreplay : isReplay name with
  | true =>
    exact canReply_of_text fun context => ⟨_, by rw [askToken, if_pos hreplay]⟩
  | false =>
    cases hrule : store.rule? name with
    | none =>
      refine canReply_of_text fun context => ⟨Segment.tokenText name, ?_⟩
      simp only [askToken, hreplay, hrule]
      rfl
    | some rule =>
      obtain ⟨values, hvalues, rfl⟩ := h name ⟨hmem, hreplay⟩ name .refl rule hrule
      obtain ⟨value, hvalue⟩ := List.exists_mem_of_ne_nil values hvalues
      exact askToken_canReply hreplay hrule hvalue
        (hinner value (h.value ⟨hmem, hreplay⟩ hrule hvalue))

theorem askSegments_canReply
    (h : ∀ name, .token name ∈ segments →
      CanReply store (IsTextOrTooDeep limit) (askToken inner name)) :
    CanReply store (IsTextOrTooDeep limit) (askSegments inner segments) := by
  induction segments with
  | nil => exact fun context => ⟨_, _, .inl ⟨_, rfl⟩, rfl, .done _⟩
  | cons segment rest ih =>
    have hrest := ih fun name hmem => h name (List.mem_cons_of_mem _ hmem)
    intro context
    cases segment with
    | literal text =>
      obtain ⟨reply, after, hreply, hafter, hend⟩ := hrest context
      refine ⟨reply.map (text ++ ·), after, ?_, hafter, hend.bind (.done _)⟩
      rcases hreply with ⟨tail, rfl⟩ | rfl
      · exact .inl ⟨text ++ tail, rfl⟩
      · exact .inr rfl
    | token name =>
      obtain ⟨reply, middle, hreply, hmiddle, hfirst⟩ := h name List.mem_cons_self context
      rcases hreply with ⟨head, rfl⟩ | rfl
      · obtain ⟨_, context⟩ := middle
        obtain rfl := hmiddle
        obtain ⟨reply, after, hreply, hafter, hend⟩ := hrest context
        refine ⟨reply.map (head ++ ·), after, ?_, hafter, hfirst.bind (hend.bind (.done _))⟩
        rcases hreply with ⟨tail, rfl⟩ | rfl
        · exact .inl ⟨head ++ tail, rfl⟩
        · exact .inr rfl
      · exact ⟨_, middle, .inr rfl, hmiddle, hfirst.bind (.done _)⟩

/-- If a token can end too deep, a text with it can: what comes before it ends too deep as well, or
leaves the rules as they are. -/
theorem askSegments_canBeTooDeep
    (h : ∀ name, .token name ∈ segments →
      CanReply store (IsTextOrTooDeep limit) (askToken inner name))
    (hmem : .token name ∈ segments)
    (hdeep : CanReply store (IsTooDeep limit) (askToken inner name)) :
    CanReply store (IsTooDeep limit) (askSegments inner segments) := by
  induction segments with
  | nil => cases hmem
  | cons segment rest ih =>
    intro context
    rcases List.mem_cons.1 hmem with rfl | hlater
    · obtain ⟨_, middle, rfl, hmiddle, hfirst⟩ := hdeep context
      exact ⟨_, middle, rfl, hmiddle, hfirst.bind (.done _)⟩
    · have hrest := ih (fun name hmem => h name (List.mem_cons_of_mem _ hmem)) hlater
      cases segment with
      | literal text =>
        obtain ⟨_, after, rfl, hafter, hend⟩ := hrest context
        exact ⟨_, after, rfl, hafter, hend.bind (.done _)⟩
      | token first =>
        obtain ⟨reply, middle, hreply, hmiddle, hfirst⟩ := h first List.mem_cons_self context
        rcases hreply with ⟨head, rfl⟩ | rfl
        · obtain ⟨_, context⟩ := middle
          obtain rfl := hmiddle
          obtain ⟨_, after, rfl, hafter, hend⟩ := hrest context
          exact ⟨_, after, rfl, hafter, hfirst.bind (hend.bind (.done _))⟩
        · exact ⟨_, middle, rfl, hmiddle, hfirst.bind (.done _)⟩

/-- With static rules that have values, some choices end in a text or too deep. -/
theorem askWithin_canReply (h : store.IsFilledBelow text) :
    CanReply store (IsTextOrTooDeep limit) (askWithin limit room text) := by
  induction room generalizing text with
  | zero => exact fun context => ⟨_, _, .inr rfl, rfl, .done _⟩
  | succ room ih =>
    refine askSegments_canReply ?_
    intro name hmem
    exact askToken_canReply_of_filled h hmem fun value hvalue => ih hvalue

/-- By the depths left: some choices follow a chain of rules that is as long, value by value. -/
theorem askWithin_canBeTooDeep (h : store.IsFilledBelow text) {names : List String}
    (hchain : store.IsChainFrom Rule.texts text names) (hroom : room ≤ names.length) :
    CanReply store (IsTooDeep limit) (askWithin limit room text) := by
  induction room generalizing text names with
  | zero => exact fun context => ⟨_, _, rfl, rfl, .done _⟩
  | succ room ih =>
    cases names with
    | nil => cases hroom
    | cons name rest =>
      obtain ⟨hrules, hfirst⟩ := hchain
      have hasks : Store.Asks text name := hfirst name rfl
      obtain ⟨rule, hrule⟩ := Store.exists_rule?_iff.2 (hrules.registered name List.mem_cons_self)
      obtain ⟨values, hvalues, rfl⟩ := h name hasks name .refl rule hrule
      obtain ⟨value, hvalue, hbelow⟩ :
          ∃ value ∈ values, store.IsChainFrom Rule.texts value rest := by
        cases rest with
        | nil =>
          obtain ⟨value, hvalue⟩ := List.exists_mem_of_ne_nil values hvalues
          exact ⟨value, hvalue, Store.isRuleChain_nil, by simp⟩
        | cons other rest =>
          obtain ⟨⟨rule, hrule', value, hvalue, hother⟩, hrest⟩ :=
            Store.isRuleChain_cons_cons.1 hrules
          obtain rfl := Option.some.inj (hrule.symm.trans hrule')
          refine ⟨value, hvalue, hrest, ?_⟩
          rintro next ⟨⟩
          exact hother
      have hdeep := ih (h.value hasks hrule hvalue) hbelow (Nat.le_of_succ_le_succ hroom)
      refine askSegments_canBeTooDeep ?_ hasks.1 (askToken_canReply hasks.2 hrule hvalue hdeep)
      intro other hmem
      exact askToken_canReply_of_filled h hmem fun value hvalue => askWithin_canReply hvalue

/-- With no more depths than a chain of rules from the text is long, some choices end too deep. -/
theorem askExpansion_canBeTooDeep (h : store.IsFilledBelow text) {names : List String}
    (hchain : store.IsChainFrom Rule.texts text names)
    (hroom : min limit.toNat stackRoom ≤ names.length) (keepContext : Bool) :
    CanReply store (IsTooDeep limit) (askExpansion stackRoom limit keepContext text) := by
  intro context
  obtain ⟨_, after, rfl, hafter, hend⟩ := @askWithin_canBeTooDeep _ limit _ _ h names hchain hroom
    (if keepContext then context else ∅)
  refine ⟨_, after, rfl, hafter, ?_⟩
  cases keepContext with
  | true => exact hend.bind (.done _)
  | false => exact hend.bind (.done _)

end Scene

end TextGrammar
