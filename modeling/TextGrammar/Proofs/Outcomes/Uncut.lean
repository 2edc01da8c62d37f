import TextGrammar.Proofs.Outcomes.Product
import TextGrammar.Proofs.Outcomes.Walk
import TextGrammar.Proofs.Rule.Texts

/-! A walk that leaves nothing out finds what the walk without a cap finds. -/
namespace TextGrammar.Distribution

variable {W : Type} [Mul W]

/-- A walk whose finding is also that of another one, if nothing is left out. -/
def FindsAll (walk fullWalk : Walk (Found W)) : Prop :=
  ∀ found, walk = .ok found → ¬found.IsTruncated → fullWalk = .ok found

theorem Found.times_none_eq {cap : Bound} {join : String → String → String} {left right : Found W}
    (h : ¬(left.times (some cap) join right).IsTruncated) :
    left.times none join right = left.times (some cap) join right ∧ ¬left.IsTruncated := by
  have hcap : Cap.room (some cap) = some cap.value.toNat := rfl
  rw [times_none]
  simp only [Found.times, hcap, product_some] at h ⊢
  simp only [Found.IsTruncated, leavesOut_append, leavesOut_ite, decide_eq_true_eq, not_or,
    Nat.not_lt] at h
  obtain ⟨⟨hleft, -⟩, hle⟩ := h
  refine ⟨?_, hleft⟩
  rw [List.take_of_length_le hle, decide_eq_false (Nat.not_lt.2 hle)]
  simp

variable {setting : Setting W} {cap : Bound} {nested nested' : String → Walk (Found W)}

theorem segmentsFound_findsAll (hn : ∀ name, FindsAll (nested name) (nested' name))
    (segments : List Segment) {found result : Found W}
    (hf : segmentsFound (setting.withCap (some cap)) nested found segments = .ok result)
    (ht : ¬result.IsTruncated) :
    segmentsFound (setting.withCap none) nested' found segments = .ok result ∧
      ¬found.IsTruncated := by
  induction segments generalizing found with
  | nil =>
    cases hf
    exact ⟨rfl, ht⟩
  | cons segment rest ih =>
    cases segment with
    | literal text => exact ih hf
    | token name =>
      simp only [segmentsFound] at hf ⊢
      split at hf
      · rename_i hreplay
        rw [if_pos hreplay]
        exact ih hf
      · rename_i hreplay
        rw [if_neg hreplay]
        obtain ⟨right, hright, hf⟩ := bind_eq_ok.1 hf
        obtain ⟨hrest, htimes⟩ := ih hf
        obtain ⟨heq, hleft⟩ := Found.times_none_eq htimes
        have hright' : ¬right.IsTruncated := by
          intro hc
          apply htimes
          simp only [Found.IsTruncated, Found.times, leavesOut_append]
          exact Or.inl (Or.inr hc)
        rw [hn name right hright hright']
        refine ⟨?_, hleft⟩
        change segmentsFound _ nested' (found.times none _ right) rest = _
        rw [heq]
        exact hrest

theorem textsFound_findsAll (hn : ∀ name, FindsAll (nested name) (nested' name))
    (texts : List (String × W)) {room : Room} :
    FindsAll (textsFound (setting.withCap (some cap)) nested room texts)
      (textsFound (setting.withCap none) nested' none texts) := by
  induction texts generalizing room with
  | nil =>
    rintro found ⟨⟩ -
    rfl
  | cons entry rest ih =>
    obtain ⟨text, weight⟩ := entry
    intro found hf ht
    by_cases hroom : room = some 0
    · subst hroom
      rw [textsFound_cons_of_no_room] at hf
      cases hf
      exact absurd leavesOut_cut ht
    · obtain ⟨-, first, others, hfirst, hothers, rfl⟩ := (textsFound_cons_eq_ok hroom).1 hf
      have hcap : (setting.withCap (some cap)).cap = some cap := rfl
      simp only [Found.IsTruncated, Found.followedBy, leavesOut_append, hcap, leavesOut_ite,
        not_or] at ht
      obtain ⟨⟨hfirst', hfits⟩, hothers'⟩ := ht
      have hfit : (fit room first.outcomes).1 = first.outcomes := by
        cases room with
        | none => rfl
        | some room =>
          simp only [fit, decide_eq_true_eq, Nat.not_lt] at hfits ⊢
          exact List.take_of_length_le hfits
      refine (textsFound_cons_eq_ok (Option.some_ne_none 0).symm).2 ⟨rfl, first, others,
        (segmentsFound_findsAll hn _ hfirst hfirst').1, ih others hothers hothers', ?_⟩
      simp only [Found.followedBy, hfit, if_neg hfits]
      rfl

variable [Zero W] [One W] [Add W] [Div W] [NatCast W]

omit [Zero W] [Add W] in
theorem templateTexts_none_eq {rule : Rule.Template} (names : List String) {found : Found W}
    (h : ¬(templateTexts (setting.withCap (some cap)) rule found names).IsTruncated) :
    templateTexts (setting.withCap none) rule found names
        = templateTexts (setting.withCap (some cap)) rule found names ∧ ¬found.IsTruncated := by
  induction names generalizing found with
  | nil => exact ⟨rfl, h⟩
  | cons name rest ih =>
    obtain ⟨hrest, htimes⟩ := ih h
    obtain ⟨heq, hleft⟩ := Found.times_none_eq htimes
    refine ⟨?_, hleft⟩
    simp only [templateTexts]
    rw [← hrest]
    exact congrArg (templateTexts _ rule · rest) heq

omit [Zero W] [Add W] in
/-- Without a cap, a template is filled in all ways. -/
theorem map_fst_templateTexts {rule : Rule.Template} (names : List String) {found : Found W} :
    (templateTexts (setting.withCap none) rule found names).outcomes.map Prod.fst
      = (found.outcomes.map Prod.fst).flatMap (rule.fillings names) := by
  induction names generalizing found with
  | nil => exact (List.flatMap_singleton' _).symm
  | cons name rest ih =>
    rw [templateTexts, ih, withCap_cap, Found.times_none]
    simp only [pairs, evenly, List.map_flatMap, List.flatMap_map, List.map_map, List.flatMap_assoc,
      Rule.Template.fillings]
    rfl

omit [Mul W] [Zero W] [Add W] in
theorem rangeFound_findsAll {rule : Rule.Range} {shown : String} :
    FindsAll (rangeFound (setting.withCap (some cap)) shown rule)
      (rangeFound (setting.withCap none) shown rule) := by
  intro found hf ht
  by_cases ho : (rule.step.isNone && setting.openRangesInfinite) = true
  · have hopen (cap : Cap) :
        rangeFound (setting.withCap cap) shown rule
          = .ok (marked "range" shown (.openRange shown)) :=
      rangeFound_of_open ho
    rw [hopen] at hf ⊢
    exact hf
  · have ho (cap : Cap) :
        ¬(rule.step.isNone && (setting.withCap cap).openRangesInfinite) = true := ho
    obtain ⟨count, hcount, -, texts, htexts, rfl⟩ := (rangeFound_eq_ok (ho _)).1 hf
    have hcap : (setting.withCap (some cap)).cap = some cap := rfl
    rw [hcap] at htexts ht ⊢
    simp only [Found.IsTruncated, leavesOut_ite] at ht
    refine (rangeFound_eq_ok (ho _)).2 ⟨count, hcount, fun _ => rfl, texts, ?_, ?_⟩
    · rw [Cap.shownOf, if_neg ht] at htexts
      exact htexts
    · rw [if_neg ht]
      rfl

theorem ruleFound_findsAll (hn : ∀ name, FindsAll (nested name) (nested' name)) (rule : Rule)
    (shown : String) :
    FindsAll (ruleFound (setting.withCap (some cap)) nested shown rule)
      (ruleFound (setting.withCap none) nested' shown rule) := by
  have hvalues (values : List String) : FindsAll
      (ruleFound (setting.withCap (some cap)) nested shown (.static { values }))
      (ruleFound (setting.withCap none) nested' shown (.static { values })) := by
    simp only [ruleFound]
    split
    · exact fun _ hf _ => hf
    · exact textsFound_findsAll hn _
  cases rule with
  | function rule => exact fun _ hf _ => hf
  | range rule => exact rangeFound_findsAll
  | template rule =>
    intro found hf ht
    obtain ⟨others, hothers, hf⟩ := bind_eq_ok.1 hf
    obtain rfl := pure_eq_ok.1 hf
    simp only [Found.IsTruncated, leavesOut_append, not_or] at ht
    obtain ⟨heq, -⟩ := templateTexts_none_eq _ ht.1
    have hothers' := textsFound_findsAll hn _ others hothers ht.2
    rw [← heq] at hothers' ⊢
    exact bind_eq_ok.2 ⟨others, hothers', rfl⟩
  | weighted rule => exact textsFound_findsAll hn _
  | conditional rule => exact textsFound_findsAll hn _
  | static rule => exact hvalues rule.values
  | sequential rule => exact hvalues rule.values

theorem nameFound_some_findsAll {nested nested' : List String → String → Walk (Found W)}
    (hn : ∀ visited name, FindsAll (nested visited name) (nested' visited name))
    {visited : List String} {shown name : String} :
    FindsAll (nameFound (setting.withCap (some cap)) (some nested) visited shown name)
      (nameFound (setting.withCap none) (some nested') visited shown name) := by
  have hstore (cap : Cap) : (setting.withCap cap).store = setting.store := rfl
  simp only [nameFound, hstore]
  split
  · exact fun _ hf _ => hf
  · cases setting.store.rule? name with
    | none => exact fun _ hf _ => hf
    | some rule => exact ruleFound_findsAll (hn _) rule shown

theorem foundWithin_findsAll (depth : Nat) (visited : List String) (name : String) :
    FindsAll (foundWithin (setting.withCap (some cap)) depth visited name)
      (foundWithin (setting.withCap none) depth visited name) := by
  induction depth generalizing visited name with
  | zero => exact fun _ hf _ => hf
  | succ depth ih => exact nameFound_some_findsAll ih

theorem foundShown_findsAll {shown name : String} :
    FindsAll (foundShown (setting.withCap (some cap)) shown name)
      (foundShown (setting.withCap none) shown name) := by
  have hlimit (cap : Cap) : (setting.withCap cap).limit = setting.limit := rfl
  simp only [foundShown, hlimit]
  cases setting.limit.value.toNat with
  | zero => exact fun _ hf _ => hf
  | succ depth => exact nameFound_some_findsAll (foundWithin_findsAll depth)

/-- A walk that has left nothing out is the uncapped one. -/
theorem foundShown_uncut {shown name : String} {found : Found W}
    (hf : foundShown setting shown name = .ok found) (ht : ¬found.IsTruncated) :
    foundShown (setting.withCap none) shown name = .ok found := by
  have hsetting : setting = setting.withCap setting.cap := rfl
  rw [hsetting] at hf
  cases hcap : setting.cap with
  | none => rwa [hcap] at hf
  | some cap =>
    rw [hcap] at hf
    exact foundShown_findsAll found hf ht

end TextGrammar.Distribution
