import TextGrammar.Proofs.Expansion.Steps
import TextGrammar.Proofs.Token

/-! An expansion that does not come up against its limit is the same under every larger one. -/
namespace TextGrammar.Engine

variable {α β : Type}

def IsTooDeep (run : Except Failure α × Engine) : Prop := ∃ limit, run.1 = .error (.tooDeep limit)

/-- Where the first computation is not too deep, the second one does the same. -/
def Settles (first second : Computation α) : Prop :=
  ∀ engine, ¬ IsTooDeep (first engine) → second engine = first engine

theorem Settles.refl (first : Computation α) : Settles first first := by
  intro engine _
  rfl

/-- A run that is too deep ends there, so what follows is only compared where it is reached. -/
theorem Settles.bind {first second : Computation α} {next next' : α → Computation β}
    (h : Settles first second) (hnext : ∀ value, Settles (next value) (next' value)) :
    Settles (first >>= next) (second >>= next') := by
  intro engine hn
  rw [bind_apply] at hn
  have hfirst : ¬ IsTooDeep (first engine) := by
    rintro ⟨limit, hlimit⟩
    rcases hrun : first engine with ⟨failure | value, after⟩
    · rw [hrun] at hlimit hn
      obtain rfl : failure = .tooDeep limit := Except.error.inj hlimit
      exact hn ⟨limit, rfl⟩
    · rw [hrun] at hlimit
      cases hlimit
  rw [bind_apply, bind_apply, h engine hfirst]
  rcases hrun : first engine with ⟨failure | value, after⟩
  · rfl
  · rw [hrun] at hn
    exact hnext value after hn

variable {inner inner' : String → Engine → Expanded}

theorem expandToken_settles (h : ∀ value, Settles (inner value) (inner' value)) (name : String) :
    Settles (computation (expandToken inner name)) (computation (expandToken inner' name)) := by
  cases hreplay : isReplay name with
  | true =>
    rw [expandToken_replay inner hreplay, expandToken_replay inner' hreplay]
    exact Settles.refl _
  | false =>
    rw [expandToken_draw inner hreplay, expandToken_draw inner' hreplay]
    refine (Settles.refl _).bind ?_
    rintro (_ | value)
    · exact Settles.refl _
    · refine (Settles.refl _).bind fun _ => (h value).bind fun text => ?_
      exact Settles.refl _

theorem expandSegments_settles (h : ∀ value, Settles (inner value) (inner' value))
    (segments : List Segment) :
    Settles (computation (expandSegments inner segments))
      (computation (expandSegments inner' segments)) := by
  induction segments with
  | nil => exact Settles.refl _
  | cons segment rest ih =>
    cases segment with
    | literal text =>
      rw [expandSegments_literal, expandSegments_literal]
      exact ih.bind fun _ => Settles.refl _
    | token name =>
      rw [expandSegments_token, expandSegments_token]
      exact (expandToken_settles h name).bind fun _ => ih.bind fun _ => Settles.refl _

/-- By the depths left to the first expansion: with none it is too deep at once. -/
theorem expandWithin_settles {limit limit' : Int} {room room' : ℕ} (h : room ≤ room')
    (text : String) :
    Settles (expandWithin limit room text) (expandWithin limit' room' text) := by
  induction room generalizing room' text with
  | zero =>
    intro engine hn
    exact absurd ⟨_, rfl⟩ hn
  | succ room ih =>
    obtain ⟨room', rfl⟩ : ∃ more, room' = more + 1 := ⟨room' - 1, by omega⟩
    have hle : room ≤ room' := by omega
    exact expandSegments_settles (fun value => ih hle value) (Segment.split text)

/-- Only what nests too deep, or runs out of stack, depends on the limit. -/
theorem deepened_eq {limit limit' : Int} {failure : Failure}
    (h : ∀ shown, deepened limit failure ≠ .tooDeep shown) :
    deepened limit' failure = deepened limit failure := by
  unfold deepened at h ⊢
  split at h
  · exact absurd rfl (h _)
  · rfl

theorem expand_settles {limit limit' : Int} (h : limit ≤ limit') (stackRoom : ℕ)
    (keepContext : Bool) (text : String) :
    Settles (expand stackRoom limit keepContext text) (expand stackRoom limit' keepContext text) := by
  intro engine hn
  have hroom : min limit.toNat stackRoom ≤ min limit'.toNat stackRoom := by omega
  simp only [expand] at hn ⊢
  generalize (if keepContext = true then engine else { engine with context := ∅ }) = start at hn ⊢
  generalize min limit.toNat stackRoom = room at hn hroom ⊢
  have hwithin : ¬ IsTooDeep (expandWithin limit room text start) := by
    rintro ⟨shown, hshown⟩
    refine hn ⟨shown, ?_⟩
    rw [hshown]
    rfl
  rw [expandWithin_settles hroom text start hwithin]
  rcases hrun : expandWithin limit room text start with ⟨failure | value, after⟩
  · rw [hrun] at hn
    -- the limits could only be told apart by a callback out of stack, which `hn` rules out
    have hfailure : deepened limit' failure = deepened limit failure := by
      apply deepened_eq
      intro shown hshown
      exact hn ⟨shown, congrArg Except.error hshown⟩
    simp only [Except.mapError, hfailure]
  · rfl

/-- The limit only ever turns an outcome into a failure for depth: where a limit gives anything else,
every larger one gives the same and leaves the engine the same, and what is too deep for a limit is
too deep for every smaller one. That is so for any room on the stack. -/
theorem expand_eq_of_not_isTooDeep {limit limit' : Int} (h : limit ≤ limit') (stackRoom : ℕ)
    (keepContext : Bool) (text : String) (engine : Engine) :
    (¬ IsTooDeep (expand stackRoom limit keepContext text engine) →
      expand stackRoom limit' keepContext text engine =
        expand stackRoom limit keepContext text engine) ∧
    (IsTooDeep (expand stackRoom limit' keepContext text engine) →
      IsTooDeep (expand stackRoom limit keepContext text engine)) := by
  have hsame := expand_settles h stackRoom keepContext text engine
  refine ⟨hsame, ?_⟩
  intro hdeep
  by_contra hn
  exact hn (hsame hn ▸ hdeep)

/-- An engine with a token that takes two depths. -/
def twoDeepEngine : Engine where
  store := ⟨[{ name := "a", rule := .sequential { values := ["x"], cycle := true, index := 0 } }]⟩
  source := .unseeded 0
  context := ∅

/-- The engine while the value of the token is expanded. -/
def twoDeepEngine.drawn : Engine where
  store := ⟨[{ name := "a", rule := .sequential { values := ["x"], cycle := true, index := 1 } }]⟩
  source := .unseeded 0
  context := (∅ : Context).put "a" "x"

theorem expand_twoDeepEngine_fst (limit : Int) (room : ℕ)
    (h : min limit.toNat 10 = room + 1) :
    (expand 10 limit true "%a%" twoDeepEngine).1 =
      ((expandWithin limit room "x" twoDeepEngine.drawn).1.map (· ++ "")).mapError
        (deepened limit) := by
  have hsplit : Segment.split "%a%" = [.token "a"] :=
    Segment.split_tokenText (by decide : "a" ≠ "") (by decide)
  have hdraw : twoDeepEngine.store.draw "a" (.run twoDeepEngine.context) twoDeepEngine.source =
      (.ok (some "x"), twoDeepEngine.drawn.store, twoDeepEngine.drawn.source) := rfl
  have hcontext : { twoDeepEngine.drawn with context := twoDeepEngine.context.put "a" "x" } =
      twoDeepEngine.drawn := rfl
  simp only [expand, h, expandWithin, hsplit, expandSegments, expandToken, if_true, hdraw]
  rw [if_neg (by decide), hcontext]
  rcases expandWithin limit room "x" twoDeepEngine.drawn with ⟨failure | text, after⟩
  · rfl
  · rfl

/-- One depth is too few for it, and from two on their number makes no difference if the stack has
room. -/
theorem expand_twoDeepEngine :
    IsTooDeep (expand 10 1 true "%a%" twoDeepEngine) ∧
      (expand 10 2 true "%a%" twoDeepEngine).1 = .ok "x" ∧
      expand 10 5 true "%a%" twoDeepEngine = expand 10 2 true "%a%" twoDeepEngine := by
  have hvalue : Segment.split "x" = [.literal "x"] := Segment.split_of_notMem (by decide)
  have hone : IsTooDeep (expand 10 1 true "%a%" twoDeepEngine) :=
    ⟨"1", expand_twoDeepEngine_fst 1 0 rfl⟩
  have htwo : (expand 10 2 true "%a%" twoDeepEngine).1 = .ok "x" := by
    rw [expand_twoDeepEngine_fst 2 1 rfl, expandWithin, hvalue]
    rfl
  have hnot : ¬ IsTooDeep (expand 10 2 true "%a%" twoDeepEngine) := by
    rintro ⟨limit, hlimit⟩
    rw [htwo] at hlimit
    cases hlimit
  exact ⟨hone, htwo, (expand_eq_of_not_isTooDeep (by decide) 10 true "%a%" twoDeepEngine).1 hnot⟩

end TextGrammar.Engine
