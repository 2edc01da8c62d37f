import TextGrammar.Proofs.Expansion.Reading
import TextGrammar.Proofs.Rule.Sequence

/-! Draws from a store, one after the other: only those under its name move a sequence on. -/
namespace TextGrammar

namespace Store

/-- Draws from a store lead to another, and give the values in order under their names. A draw that
gives nothing or fails may be in between. -/
inductive Drawn : Store → List (String × String) → Store → Prop
  | nil {store : Store} : Drawn store [] store
  | gave {store after last : Store} {shown name value : String} {scope : Scope}
      {source source' : Source} {draws : List (String × String)}
      (hdraw : store.drawShown shown name scope source = (.ok (some value), after, source'))
      (hrest : Drawn after draws last) : Drawn store ((name, value) :: draws) last
  | silent {store after last : Store} {shown name : String} {scope : Scope}
      {source source' : Source} {result : Except Failure (Option String)}
      {draws : List (String × String)}
      (hdraw : store.drawShown shown name scope source = (result, after, source'))
      (hresult : ∀ value, result ≠ .ok (some value))
      (hrest : Drawn after draws last) : Drawn store draws last

/-- The values that are given under a name. -/
def turnsOf (name : String) (draws : List (String × String)) : List Turn :=
  (draws.filter (·.1 = name)).map fun draw => .gave draw.2

/-- The turns of the sequence under a name in draws from a store. It has none if it is not the rule
that is drawn from. -/
def turns (store : Store) (name : String) (draws : List (String × String)) : List Turn :=
  if store.kind? name = some .sequential then turnsOf name draws else []

/-- What a store has after a draw if it had it before. -/
def IsKeptByDraws (holds : Store → Prop) : Prop :=
  ∀ (store : Store) (shown name : String) (scope : Scope) (source : Source), holds store →
    holds (store.drawShown shown name scope source).2.1

variable {store after last : Store} {name other value shown : String} {scope : Scope}
  {source source' : Source} {draws more : List (String × String)}
  {result : Except Failure (Option String)}

theorem Drawn.preserves {holds : Store → Prop} (h : IsKeptByDraws holds)
    (hdrawn : Drawn store draws after) (hstore : holds store) : holds after := by
  induction hdrawn with
  | nil => exact hstore
  | @gave store after last shown name value scope source source' draws hdraw _ ih =>
    have hafter := h store shown name scope source hstore
    rw [hdraw] at hafter
    exact ih hafter
  | @silent store after last shown name scope source source' result draws hdraw _ _ ih =>
    have hafter := h store shown name scope source hstore
    rw [hdraw] at hafter
    exact ih hafter

theorem Drawn.trans (h : Drawn store draws after) (hmore : Drawn after more last) :
    Drawn store (draws ++ more) last := by
  induction h with
  | nil => exact hmore
  | gave hdraw _ ih => exact .gave hdraw (ih hmore)
  | silent hdraw hresult _ ih => exact .silent hdraw hresult (ih hmore)

/-- One more draw that gives a value. -/
theorem Drawn.concat (h : Drawn store draws after)
    (hdraw : after.drawShown shown name scope source = (.ok (some value), last, source')) :
    Drawn store (draws ++ [(name, value)]) last :=
  h.trans (.gave hdraw .nil)

theorem Drawn.concat_silent (h : Drawn store draws after)
    (hdraw : after.drawShown shown name scope source = (result, last, source'))
    (hresult : ∀ value, result ≠ .ok (some value)) : Drawn store draws last := by
  have hall := h.trans (.silent hdraw hresult .nil)
  rwa [List.append_nil] at hall

theorem turnsOf_cons_self (name value : String) (draws : List (String × String)) :
    turnsOf name ((name, value) :: draws) = .gave value :: turnsOf name draws := by
  rw [turnsOf, List.filter_cons_of_pos (by simp)]
  rfl

theorem turnsOf_cons_of_ne (h : other ≠ name) (value : String) (draws : List (String × String)) :
    turnsOf name ((other, value) :: draws) = turnsOf name draws := by
  rw [turnsOf, List.filter_cons_of_neg (by simpa using h)]
  rfl

theorem kind?_drawShown (h : store.drawShown shown other scope source = (result, after, source'))
    (name : String) : after.kind? name = store.kind? name := by
  have hrestarted := store.restarted_drawShown shown other scope source
  rw [h] at hrestarted
  exact kind?_of_restarted hrestarted name

/-- A draw from a rule of one kind leaves what the names have of the other kinds, and a draw under one
name what is under the others. -/
theorem get?_drawShown (h : store.drawShown shown other scope source = (result, after, source'))
    {kind : RuleKind} (hother : other = name → store.kind? name ≠ some kind) :
    after.get? name kind = store.get? name kind := by
  have hafter : after = (store.drawShown shown other scope source).2.1 := by rw [h]
  subst hafter
  simp only [drawShown]
  split
  · rfl
  · rename_i rule hrule
    have hkind := Rule.kind_eq_of_restarted (rule.restarted_draw shown scope source)
    refine (get?_putEntry _ _ _ _).trans (if_neg ?_)
    rintro ⟨hname, hsame⟩
    refine hother hname ?_
    rw [kind?, ← hname, hrule, ← hsame]
    exact congrArg some hkind.symm

variable {rule : Rule.Sequential} {given : Nat}

/-- A draw under the name of a sequence gives the value that is due and moves it on by one. -/
theorem drawShown_of_sequential (hvalues : rule.values ≠ [])
    (hget : store.get? name .sequential = some (.sequential (rule.after given)))
    (hkind : store.kind? name = some .sequential)
    (h : store.drawShown shown name scope source = (result, after, source')) :
    ∃ value, rule.valueAt? given = some value ∧ result = .ok (some value) ∧
      after.get? name .sequential = some (.sequential (rule.after (given + 1))) := by
  obtain ⟨value, hdue, hdraw⟩ := Rule.Sequential.draw_after hvalues given source
  have hrule : store.rule? name = some (.sequential (rule.after given)) := by
    rw [rule?_of_kind? hkind, hget]
  simp only [drawShown, hrule, Rule.draw, hdraw, Draw.map] at h
  cases h
  exact ⟨value, hdue, rfl, (get?_putEntry _ _ _ _).trans (if_pos ⟨rfl, rfl⟩)⟩

theorem restart?_of_sequential
    (hget : store.get? name .sequential = some (.sequential (rule.after given))) :
    store.restart? name = some (store.put name (.sequential (rule.after 0))) := by
  rw [restart?, hget]
  rfl

/-- To restart a sequence leaves what is under the other names. -/
theorem get?_restart? (h : store.restart? other = some after) (hother : other ≠ name)
    (kind : RuleKind) : after.get? name kind = store.get? name kind := by
  rw [restart?] at h
  split at h
  · cases h
    exact (get?_putEntry _ _ _ _).trans (if_neg fun hsame => hother hsame.1)
  · cases h

/-- While a rule of another kind takes precedence, a sequence stays where it is. -/
theorem Drawn.get?_of_kind? (h : Drawn store draws after) {kind : RuleKind}
    (hkind : store.kind? name ≠ some kind) : after.get? name kind = store.get? name kind := by
  induction h with
  | nil => rfl
  | gave hdraw _ ih =>
    exact (ih (by rwa [kind?_drawShown hdraw])).trans (get?_drawShown hdraw fun _ => hkind)
  | silent hdraw _ _ ih =>
    exact (ih (by rwa [kind?_drawShown hdraw])).trans (get?_drawShown hdraw fun _ => hkind)

/-- Draws give the values of a sequence in turn, and leave it after the last one given. -/
theorem Drawn.inTurn (h : Drawn store draws after) (hvalues : rule.values ≠ [])
    (hget : store.get? name .sequential = some (.sequential (rule.after given)))
    (hkind : store.kind? name = some .sequential) :
    rule.InTurn given (turnsOf name draws) ∧ after.get? name .sequential =
      some (.sequential (rule.after (givenAfter given (turnsOf name draws)))) := by
  induction h generalizing given with
  | nil => exact ⟨Rule.Sequential.inTurn_nil, hget⟩
  | @gave store after last shown other value scope source source' draws hdraw _ ih =>
    have hkind' := (kind?_drawShown hdraw name).trans hkind
    by_cases hname : other = name
    · subst hname
      obtain ⟨due, hdue, hresult, hafter⟩ := drawShown_of_sequential hvalues hget hkind hdraw
      cases hresult
      obtain ⟨hturns, hlast⟩ := ih hafter hkind'
      rw [turnsOf_cons_self]
      exact ⟨Rule.Sequential.inTurn_gave_cons hdue hturns, hlast⟩
    · rw [turnsOf_cons_of_ne hname]
      exact ih ((get?_drawShown hdraw fun heq => absurd heq hname).trans hget) hkind'
  | @silent store after last shown other scope source source' result draws hdraw hresult _ ih =>
    have hkind' := (kind?_drawShown hdraw name).trans hkind
    by_cases hname : other = name
    · subst hname
      obtain ⟨due, -, hgave, -⟩ := drawShown_of_sequential hvalues hget hkind hdraw
      exact absurd hgave (hresult due)
    · exact ih ((get?_drawShown hdraw fun heq => absurd heq hname).trans hget) hkind'

/-- Draws keep a sequence in turn, whatever else they draw from. -/
theorem Drawn.inTurn_turns (h : Drawn store draws after) (hvalues : rule.values ≠ [])
    (hget : store.get? name .sequential = some (.sequential (rule.after given))) :
    rule.InTurn given (store.turns name draws) ∧ after.get? name .sequential =
      some (.sequential (rule.after (givenAfter given (store.turns name draws)))) := by
  rw [turns]
  split
  · rename_i hkind
    exact h.inTurn hvalues hget hkind
  · rename_i hkind
    exact ⟨Rule.Sequential.inTurn_nil, (h.get?_of_kind? hkind).trans hget⟩

end Store

end TextGrammar
