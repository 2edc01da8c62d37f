import TextGrammar.Proofs.Expansion.Steps

/-! How expansions end: in one of the ways that their draws and the texts drawn allow. -/
namespace TextGrammar.Engine

/-- What holds of an engine whatever the context is. -/
def IsFreeOfContext (holds : Engine → Prop) : Prop :=
  ∀ engine context, holds engine → holds { engine with context }

/-- Ways to end that a text has if its parts have them. -/
structure IsJoined (ends : Except Failure String → Prop) : Prop where
  empty : ends (.ok "")
  append (head tail : String) : ends (.ok head) → ends (.ok tail) → ends (.ok (head ++ tail))

theorem isFreeOfContext_store (holds : Store → Prop) :
    IsFreeOfContext fun engine => holds engine.store := by
  intro engine context hstore
  exact hstore

theorem isJoined_true : IsJoined fun _ => True := ⟨trivial, fun _ _ _ _ => trivial⟩

theorem isJoined_failsOnly (allowed : Failure → Prop) : IsJoined (FailsOnly allowed) :=
  ⟨.ok _, fun _ _ _ _ => .ok _⟩

variable {holds : Engine → Prop} {ends : Except Failure String → Prop}
  {inner : String → Engine → Expanded} {name : String}

theorem noted_bind_ensures (hfree : IsFreeOfContext holds) (name value : String)
    {next : Computation String} (h : Ensures holds ends next) :
    Ensures holds ends (noted name value >>= fun _ => next) := by
  intro engine hengine
  rw [bind_apply]
  exact h _ (hfree engine _ hengine)

theorem expandToken_ensures_replay (hreplay : isReplay name = true)
    (h : ∀ text, ends (.ok text)) : Ensures holds ends (computation (expandToken inner name)) := by
  rw [expandToken_replay inner hreplay]
  intro engine hengine
  exact ⟨hengine, h _⟩

/-- What a draw is known to give decides how the token ends. -/
theorem expandToken_ensures_draw {draws : Except Failure (Option String) → Prop}
    (hfree : IsFreeOfContext holds) (hreplay : isReplay name = false)
    (hdrawn : Ensures holds draws (drawn name))
    (hfailure : ∀ failure, draws (.error failure) → ends (.error failure))
    (hnone : draws (.ok none) → ends (.ok (Segment.tokenText name)))
    (hinner : ∀ value, draws (.ok (some value)) →
      Ensures holds ends (computation (inner value))) :
    Ensures holds ends (computation (expandToken inner name)) := by
  rw [expandToken_draw inner hreplay]
  refine hdrawn.bind hfailure ?_
  rintro (_ | value) hvalue
  · exact Ensures.pure (hnone hvalue)
  · refine noted_bind_ensures hfree name value ?_
    refine (hinner value hvalue).bind (fun _ h => h) ?_
    intro text htext
    exact noted_bind_ensures hfree name text (Ensures.pure htext)

theorem expandSegments_ensures (hjoined : IsJoined ends) {segments : List Segment}
    (hliteral : ∀ text, .literal text ∈ segments → ends (.ok text))
    (htoken : ∀ name, .token name ∈ segments →
      Ensures holds ends (computation (expandToken inner name))) :
    Ensures holds ends (computation (expandSegments inner segments)) := by
  induction segments with
  | nil => exact Ensures.pure hjoined.empty
  | cons segment rest ih =>
    have hrest : Ensures holds ends (computation (expandSegments inner rest)) := by
      refine ih ?_ ?_
      · intro text hmem
        exact hliteral text (List.mem_cons_of_mem _ hmem)
      · intro name hmem
        exact htoken name (List.mem_cons_of_mem _ hmem)
    cases segment with
    | literal text =>
      rw [expandSegments_literal]
      refine hrest.bind (fun _ h => h) ?_
      intro tail htail
      exact Ensures.pure (hjoined.append text tail (hliteral text List.mem_cons_self) htail)
    | token name =>
      rw [expandSegments_token]
      refine (htoken name List.mem_cons_self).bind (fun _ h => h) ?_
      intro text htext
      refine hrest.bind (fun _ h => h) ?_
      intro tail htail
      exact Ensures.pure (hjoined.append text tail htext htail)

/-- Where a draw fails in no other way, an expansion fails in that way or for its depth. -/
theorem expandWithin_failsOnly {allowed : Failure → Prop} {limit : Int}
    (hfree : IsFreeOfContext holds) (hdrawn : ∀ name, Ensures holds (FailsOnly allowed) (drawn name))
    (hdeep : allowed (.tooDeep (toString limit))) (room : Nat) (text : String) :
    Ensures holds (FailsOnly allowed) (computation (expandWithin limit room text)) := by
  induction room generalizing text with
  | zero =>
    intro engine hengine
    exact ⟨hengine, .error hdeep⟩
  | succ room ih =>
    refine expandSegments_ensures (isJoined_failsOnly _) (fun _ _ => .ok _) ?_
    intro name _
    cases hreplay : isReplay name with
    | true => exact expandToken_ensures_replay hreplay .ok
    | false =>
      refine expandToken_ensures_draw hfree hreplay (hdrawn name) ?_ (fun _ => .ok _)
        fun value _ => ih value
      intro failure hfailure
      exact .error (hfailure failure rfl)

theorem expand_ensures (hfree : IsFreeOfContext holds) {stackRoom : Nat} {limit : Int}
    {keepContext : Bool} {text : String}
    (h : Ensures holds (fun result => ends (result.mapError (deepened limit)))
      (computation (expandWithin limit (min limit.toNat stackRoom) text))) :
    Ensures holds ends (computation (expand stackRoom limit keepContext text)) := by
  intro engine hengine
  have hstart : holds (if keepContext = true then engine else { engine with context := ∅ }) := by
    split
    · exact hengine
    · exact hfree engine ∅ hengine
  exact h _ hstart

/-- An engine with its rules replaced. -/
def mapStore (change : Store → Store) (engine : Engine) : Engine :=
  { engine with store := change engine.store }

variable {change : Store → Store}

theorem expandToken_mirrors_replay (hreplay : isReplay name = true) :
    Mirrors holds (mapStore change) (computation (expandToken inner name)) := by
  rw [expandToken_replay inner hreplay]
  intro engine _
  rfl

theorem noted_bind_mirrors (hfree : IsFreeOfContext holds) (name value : String)
    {next : Computation String} (h : Mirrors holds (mapStore change) next) :
    Mirrors holds (mapStore change) (noted name value >>= fun _ => next) := by
  intro engine hengine
  rw [bind_apply, bind_apply]
  exact h { engine with context := engine.context.put name value } (hfree engine _ hengine)

/-- A token comes to the same with the other rules if its draw and the texts drawn do. -/
theorem expandToken_mirrors_draw {draws : Except Failure (Option String) → Prop}
    (hfree : IsFreeOfContext holds) (hreplay : isReplay name = false)
    (hensures : Ensures holds draws (drawn name))
    (hdrawn : Mirrors holds (mapStore change) (drawn name))
    (hinner : ∀ value, draws (.ok (some value)) →
      Ensures holds (fun _ => True) (computation (inner value)) ∧
        Mirrors holds (mapStore change) (computation (inner value))) :
    Mirrors holds (mapStore change) (computation (expandToken inner name)) := by
  rw [expandToken_draw inner hreplay]
  refine hdrawn.bind hensures ?_
  rintro (_ | value) hvalue
  · exact Mirrors.pure _
  · obtain ⟨hends, hmirrors⟩ := hinner value hvalue
    refine noted_bind_mirrors hfree name value ?_
    refine hmirrors.bind hends ?_
    intro text _
    exact noted_bind_mirrors hfree name text (Mirrors.pure text)

theorem expandSegments_mirrors {segments : List Segment}
    (htoken : ∀ name, .token name ∈ segments →
      Ensures holds (fun _ => True) (computation (expandToken inner name)) ∧
        Mirrors holds (mapStore change) (computation (expandToken inner name))) :
    Mirrors holds (mapStore change) (computation (expandSegments inner segments)) := by
  induction segments with
  | nil => exact Mirrors.pure ""
  | cons segment rest ih =>
    have hbelow : ∀ name, .token name ∈ rest → _ := fun name hmem =>
      htoken name (List.mem_cons_of_mem _ hmem)
    have hends : Ensures holds (fun _ => True) (computation (expandSegments inner rest)) :=
      expandSegments_ensures isJoined_true (fun _ _ => trivial) fun name hmem =>
        (hbelow name hmem).1
    cases segment with
    | literal text =>
      rw [expandSegments_literal]
      exact (ih hbelow).bind hends fun _ _ => Mirrors.pure _
    | token name =>
      obtain ⟨hfirst, hmirrors⟩ := htoken name List.mem_cons_self
      rw [expandSegments_token]
      exact hmirrors.bind hfirst fun _ _ => (ih hbelow).bind hends fun _ _ => Mirrors.pure _

theorem expand_mirrors (hfree : IsFreeOfContext holds) {stackRoom : Nat} {limit : Int}
    {keepContext : Bool} {text : String}
    (h : Mirrors holds (mapStore change)
      (computation (expandWithin limit (min limit.toNat stackRoom) text))) :
    Mirrors holds (mapStore change) (computation (expand stackRoom limit keepContext text)) := by
  intro engine hengine
  generalize hroom : min limit.toNat stackRoom = room at h
  have hrun (start : Engine) (hstart : holds start) :
      expandWithin limit room text (mapStore change start) =
        ((expandWithin limit room text start).1,
          mapStore change (expandWithin limit room text start).2) := h start hstart
  cases keepContext with
  | true =>
    simp only [computation, expand, hroom, if_true]
    rw [hrun engine hengine]
  | false =>
    have hstart := hrun { engine with context := ∅ } (hfree engine ∅ hengine)
    simp only [computation, expand, hroom, Bool.false_eq_true, if_false]
    simp only [mapStore] at hstart ⊢
    rw [hstart]

end TextGrammar.Engine
