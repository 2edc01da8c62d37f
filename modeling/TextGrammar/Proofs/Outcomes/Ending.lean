import TextGrammar.Proofs.Outcomes.Walk

/-! A walk under a cap that is a whole number ends, if all ranges can be computed. -/
namespace TextGrammar

/-- A range whose size and values can all be computed. -/
def Rule.Range.IsComputed (range : Rule.Range) : Prop :=
  ∃ count, range.size = .ok count ∧
    ∀ index < count, ∃ text, range.nth (.whole (index : Nat)) = .ok text

def Store.RangesComputed (store : Store) : Prop :=
  ∀ name range, store.rule? name = some (.range range) → range.IsComputed

namespace Distribution

variable {W : Type} {setting : Setting W} {nested : String → Walk (Found W)}

/-- A walk that comes to a result, as long as the stack suffices for it. -/
def Ends (walk : Walk (Found W)) : Prop := ∃ found, walk = .ok found

section Texts

variable [Mul W]

theorem segmentsFound_ends (hn : ∀ name, Ends (nested name)) (segments : List Segment)
    (found : Found W) : Ends (segmentsFound setting nested found segments) := by
  induction segments generalizing found with
  | nil => exact ⟨found, rfl⟩
  | cons segment rest ih =>
    cases segment with
    | literal text => exact ih _
    | token name =>
      simp only [segmentsFound]
      split
      · exact ih _
      · obtain ⟨right, hright⟩ := hn name
        rw [hright]
        exact ih _

theorem textsFound_ends (hn : ∀ name, Ends (nested name)) (hw : setting.cap.isWhole = true)
    (texts : List (String × W)) (room : Room) : Ends (textsFound setting nested room texts) := by
  induction texts generalizing room with
  | nil => exact ⟨_, rfl⟩
  | cons entry rest ih =>
    obtain ⟨text, weight⟩ := entry
    by_cases hroom : room = some 0
    · subst hroom
      exact ⟨_, textsFound_cons_of_no_room⟩
    · obtain ⟨first, hfirst⟩ : Ends (segmentsFound setting nested { outcomes := [("", weight)] }
          (Segment.split text)) := segmentsFound_ends hn _ _
      obtain ⟨others, hothers⟩ := ih (room.after (fit room first.outcomes).1.length)
      exact ⟨_, (textsFound_cons_eq_ok hroom).2 ⟨hw, first, others, hfirst, hothers, rfl⟩⟩

end Texts

variable [Zero W] [One W] [Add W] [Mul W] [Div W] [NatCast W]

omit [Zero W] [Add W] [Mul W] in
theorem rangeFound_ends (hw : setting.cap.isWhole = true) {range : Rule.Range}
    (hr : range.IsComputed) (hshown : ∀ count, setting.cap.shownOf count ≤ count)
    (shown : String) : Ends (rangeFound setting shown range) := by
  by_cases ho : (range.step.isNone && setting.openRangesInfinite) = true
  · exact ⟨_, rangeFound_of_open ho⟩
  · obtain ⟨count, hcount, hnth⟩ := hr
    have htexts : ∃ texts, nthTexts range (setting.cap.shownOf count) = .ok texts := by
      apply exists_mapM_eq_ok
      intro index hindex
      have hlt : index < setting.cap.shownOf count := List.mem_range.1 hindex
      exact hnth index (Nat.lt_of_lt_of_le hlt (hshown count))
    obtain ⟨texts, htexts⟩ := htexts
    exact ⟨_, (rangeFound_eq_ok ho).2 ⟨count, hcount, fun _ => hw, texts, htexts, rfl⟩⟩

theorem ruleFound_ends (hn : ∀ name, Ends (nested name)) (hw : setting.cap.isWhole = true)
    (hshown : ∀ count, setting.cap.shownOf count ≤ count) {rule : Rule}
    (hr : ∀ range, rule = .range range → range.IsComputed) (shown : String) :
    Ends (ruleFound setting nested shown rule) := by
  have hvalues (values : List String) :
      Ends (ruleFound setting nested shown (.static { values })) := by
    simp only [ruleFound]
    split
    · exact ⟨_, rfl⟩
    · exact textsFound_ends hn hw _ _
  cases rule with
  | function rule => exact ⟨_, rfl⟩
  | range rule => exact rangeFound_ends hw (hr rule rfl) hshown shown
  | template rule =>
    obtain ⟨others, hothers⟩ := textsFound_ends hn hw
      (templateTexts setting rule { outcomes := [(rule.template, 1)] } rule.openNames).outcomes
      setting.cap.room
    exact ⟨_, bind_eq_ok.2 ⟨others, hothers, rfl⟩⟩
  | weighted rule => exact textsFound_ends hn hw _ _
  | conditional rule => exact textsFound_ends hn hw _ _
  | static rule => exact hvalues rule.values
  | sequential rule => exact hvalues rule.values

/-- Where no depth is left, names have markers. -/
theorem nameFound_none_ends {visited : List String} {shown name : String} :
    Ends (nameFound setting none visited shown name) := by
  simp only [nameFound]
  split <;> exact ⟨_, rfl⟩

theorem nameFound_some_ends {nested : List String → String → Walk (Found W)}
    (hn : ∀ visited name, Ends (nested visited name)) (hw : setting.cap.isWhole = true)
    (hshown : ∀ count, setting.cap.shownOf count ≤ count) (hr : setting.store.RangesComputed)
    {visited : List String} {shown name : String} :
    Ends (nameFound setting (some nested) visited shown name) := by
  simp only [nameFound]
  split
  · exact ⟨_, rfl⟩
  · cases hrule : setting.store.rule? name with
    | none => exact ⟨_, rfl⟩
    | some rule =>
      refine ruleFound_ends (hn _) hw hshown ?_ shown
      rintro range rfl
      exact hr name range hrule

theorem foundWithin_ends (hw : setting.cap.isWhole = true)
    (hshown : ∀ count, setting.cap.shownOf count ≤ count) (hr : setting.store.RangesComputed)
    (depth : Nat) (visited : List String) (name : String) :
    Ends (foundWithin setting depth visited name) := by
  induction depth generalizing visited name with
  | zero => exact nameFound_none_ends
  | succ depth ih => exact nameFound_some_ends ih hw hshown hr

/-- Depth and circles only put markers in the place of outcomes. -/
theorem foundShown_ends (hw : setting.cap.isWhole = true)
    (hshown : ∀ count, setting.cap.shownOf count ≤ count) (hr : setting.store.RangesComputed)
    (shown name : String) : Ends (foundShown setting shown name) := by
  simp only [foundShown]
  split
  · exact nameFound_none_ends
  · exact nameFound_some_ends (foundWithin_ends hw hshown hr _) hw hshown hr

end Distribution

end TextGrammar
