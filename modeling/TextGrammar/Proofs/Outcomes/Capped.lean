import Mathlib.Algebra.Field.Rat
import TextGrammar.Proofs.Outcomes.Product
import TextGrammar.Proofs.Outcomes.Walk
import TextGrammar.Proofs.Rule.Range

/-! A walk with a cap finds the first outcomes of the walk without one, and tells of the others. -/
namespace TextGrammar.Distribution

variable {W : Type}

/-- A cap that is a whole number. -/
abbrev Cap.whole (room : ℕ) : Cap := some (.ofInt room)

/-- Two findings that are alike as far as there is room. -/
structure Found.ShowsFirst (room : ℕ) (found full : Found W) : Prop where
  take_eq : found.outcomes.take room = full.outcomes.take room
  truncated_or : found.IsTruncated ∨ room < found.outcomes.length ↔ room < full.outcomes.length
  nonempty : full.outcomes ≠ []

/-- A finding that has only what there is room for. -/
structure Found.IsFirst (room : ℕ) (found full : Found W) : Prop
    extends found.ShowsFirst room full where
  length_le : found.outcomes.length ≤ room

namespace Found

variable {room : ℕ} {found full : Found W}

theorem IsFirst.outcomes_eq (h : found.IsFirst room full) :
    found.outcomes = full.outcomes.take room := by
  rw [← h.take_eq, List.take_of_length_le h.length_le]

theorem IsFirst.truncated_iff (h : found.IsFirst room full) :
    found.IsTruncated ↔ room < full.outcomes.length := by
  rw [← h.truncated_or]
  have := h.length_le
  exact ⟨Or.inl, fun ht => ht.resolve_right (by omega)⟩

theorem ShowsFirst.length_eq_or (h : found.ShowsFirst room full) :
    found.outcomes.length = full.outcomes.length ∨
      room ≤ found.outcomes.length ∧ room ≤ full.outcomes.length := by
  have hlen := congrArg List.length h.take_eq
  simp only [List.length_take] at hlen
  omega

theorem ShowsFirst.mono (h : found.ShowsFirst room full) {left : ℕ} (hl : left ≤ room) :
    found.ShowsFirst left full where
  take_eq := by
    have htake := congrArg (List.take left) h.take_eq
    rwa [List.take_take, List.take_take, Nat.min_eq_left hl] at htake
  truncated_or := by
    have ht := h.truncated_or
    have hlen := h.length_eq_or
    constructor
    · rintro (hc | hlt)
      · have := ht.1 (Or.inl hc)
        omega
      · by_contra hge
        have := ht.1 (Or.inr (by omega))
        omega
    · intro hlt
      by_cases hr : room < full.outcomes.length
      · exact (ht.2 hr).imp id (by omega)
      · exact Or.inr (by omega)
  nonempty := h.nonempty

/-- Nothing is missing if there is room for everything. -/
theorem ShowsFirst.length_eq (h : found.ShowsFirst room full) (hl : full.outcomes.length ≤ room) :
    found.outcomes.length = full.outcomes.length ∧ ¬found.IsTruncated := by
  have ht := h.truncated_or
  have hlen := h.length_eq_or
  constructor
  · by_contra hne
    have := ht.1 (Or.inr (by omega))
    omega
  · intro hc
    have := ht.1 (Or.inl hc)
    omega

theorem ShowsFirst.outcomes_ne_nil (h : found.ShowsFirst room full) (hr : 0 < room) :
    found.outcomes ≠ [] := by
  intro he
  have hf := List.length_pos_iff.2 h.nonempty
  rcases h.length_eq_or with hl | ⟨hl, -⟩ <;> simp [he] at hl <;> omega

/-- Outcomes without a warning, alike if there is room for them. -/
theorem showsFirst_self (h : ¬found.IsTruncated) (hn : found.outcomes ≠ []) :
    found.ShowsFirst room found :=
  ⟨rfl, by simp [h], hn⟩

theorem isFirst_singleton {text : String} {weight : W} {warnings : List Warning} (hr : 1 ≤ room)
    (h : ¬LeavesOut warnings) :
    IsFirst room { outcomes := [(text, weight)], warnings }
      { outcomes := [(text, weight)], warnings } where
  toShowsFirst := showsFirst_self h (by simp)
  length_le := hr

theorem showsFirst_map (f : String × W → String × W) (h : found.ShowsFirst room full) :
    ShowsFirst room { found with outcomes := found.outcomes.map f }
      { full with outcomes := full.outcomes.map f } where
  take_eq := by rw [← List.map_take, ← List.map_take, h.take_eq]
  truncated_or := by simpa [IsTruncated] using h.truncated_or
  nonempty := by simpa using h.nonempty

end Found

variable [Mul W]

theorem Found.isFirst_times {join : String → String → String} {room : ℕ}
    {left right left' right' : Found W} (hr : 0 < room) (hl : left.ShowsFirst room left')
    (hrt : right.ShowsFirst room right') :
    (left.times (.whole room) join right).IsFirst room (left'.times none join right') := by
  have hne := hrt.outcomes_ne_nil hr
  have htake : (pairs join left.outcomes right.outcomes).take room
      = (pairs join left'.outcomes right'.outcomes).take room := by
    rw [take_pairs_left hne hl.take_eq, take_pairs_right hrt.take_eq]
  have hroom : (Cap.whole room).room = some room := rfl
  rw [times_none]
  simp only [Found.times, hroom, product_some]
  refine ⟨⟨?_, ?_, ?_⟩, by simp⟩
  · simpa [List.take_take] using htake
  · have hpl := List.length_pos_iff.2 (hl.outcomes_ne_nil hr)
    have hpr := List.length_pos_iff.2 hne
    have hpl' := List.length_pos_iff.2 hl.nonempty
    have hpr' := List.length_pos_iff.2 hrt.nonempty
    simp only [Found.IsTruncated, leavesOut_append, leavesOut_ite, decide_eq_true_eq, length_pairs,
      List.length_take]
    have hno : ¬room < min room (left.outcomes.length * right.outcomes.length) := by omega
    rw [or_iff_left hno]
    rcases Nat.lt_or_ge room left'.outcomes.length with hlt | hle
    · refine iff_of_true ?_ (Nat.lt_of_lt_of_le hlt (Nat.le_mul_of_pos_right _ hpr'))
      rcases hl.truncated_or.2 hlt with ht | hlt
      · exact Or.inl (Or.inl ht)
      · exact Or.inr (Nat.lt_of_lt_of_le hlt (Nat.le_mul_of_pos_right _ hpr))
    rcases Nat.lt_or_ge room right'.outcomes.length with hlt | hle'
    · refine iff_of_true ?_ (Nat.lt_of_lt_of_le hlt (Nat.le_mul_of_pos_left _ hpl'))
      rcases hrt.truncated_or.2 hlt with ht | hlt
      · exact Or.inl (Or.inr ht)
      · exact Or.inr (Nat.lt_of_lt_of_le hlt (Nat.le_mul_of_pos_left _ hpl))
    · obtain ⟨hl₁, hl₂⟩ := hl.length_eq hle
      obtain ⟨hr₁, hr₂⟩ := hrt.length_eq hle'
      rw [hl₁, hr₁]
      exact or_iff_right (not_or.2 ⟨hl₂, hr₂⟩)
  · rw [← List.length_pos_iff, length_pairs]
    exact Nat.mul_pos (List.length_pos_iff.2 hl.nonempty) (List.length_pos_iff.2 hrt.nonempty)

/-- A walk that finds the first outcomes of another one, if that one ends. -/
def FindsFirst (room : ℕ) (walk fullWalk : Walk (Found W)) : Prop :=
  ∀ full, fullWalk = .ok full → ∃ found, walk = .ok found ∧ found.IsFirst room full

variable {setting : Setting W} {room : ℕ} {nested nested' : String → Walk (Found W)}

theorem segmentsFound_showsFirst (hr : 0 < room)
    (hn : ∀ name, FindsFirst room (nested name) (nested' name)) (segments : List Segment)
    {found full result : Found W} (h : found.ShowsFirst room full)
    (hf : segmentsFound (setting.withCap none) nested' full segments = .ok result) :
    ∃ result', segmentsFound (setting.withCap (.whole room)) nested found segments = .ok result' ∧
      result'.ShowsFirst room result := by
  induction segments generalizing found full with
  | nil =>
    cases hf
    exact ⟨found, rfl, h⟩
  | cons segment rest ih =>
    cases segment with
    | literal text => exact ih (Found.showsFirst_map _ h) hf
    | token name =>
      simp only [segmentsFound] at hf ⊢
      split at hf
      · rename_i hreplay
        rw [if_pos hreplay]
        exact ih (Found.showsFirst_map _ h) hf
      · rename_i hreplay
        rw [if_neg hreplay]
        obtain ⟨right', hr', hf⟩ := bind_eq_ok.1 hf
        obtain ⟨right, hright, hfirst⟩ := hn name right' hr'
        rw [hright]
        exact ih (Found.isFirst_times hr h hfirst.toShowsFirst).toShowsFirst hf

theorem textFound_showsFirst (hr : 0 < room)
    (hn : ∀ name, FindsFirst room (nested name) (nested' name)) {text : String} {weight : W}
    {full : Found W} (hf : textFound (setting.withCap none) nested' text weight = .ok full) :
    ∃ found, textFound (setting.withCap (.whole room)) nested text weight = .ok found ∧
      found.ShowsFirst room full :=
  segmentsFound_showsFirst hr hn _ (Found.showsFirst_self leavesOut_nil (by simp)) hf

/-- Texts one after the other; what is left of the room is for those that are left. Each has an
outcome, so it takes no more texts than there are places. -/
theorem textsFound_take (hr : 0 < room)
    (hn : ∀ name, FindsFirst room (nested name) (nested' name)) (texts : List (String × W))
    {left places : ℕ} (hl : left ≤ room) (hp : left ≤ places) {full : Found W}
    (hf : textsFound (setting.withCap none) nested' none texts = .ok full) :
    texts.length ≤ full.outcomes.length ∧
      ∃ found, textsFound (setting.withCap (.whole room)) nested (some left) (texts.take places)
          = .ok found ∧
        found.outcomes = full.outcomes.take left ∧
        (found.IsTruncated ∨ places < texts.length ↔ left < full.outcomes.length) := by
  induction texts generalizing left places full with
  | nil =>
    cases hf
    exact ⟨le_rfl, _, by rw [List.take_nil]; rfl, by simp, by simp [Found.IsTruncated]⟩
  | cons entry rest ih =>
    obtain ⟨text, weight⟩ := entry
    obtain ⟨-, first', others', hfirst', hothers', rfl⟩ :=
      (textsFound_cons_eq_ok (Option.some_ne_none 0).symm).1 hf
    obtain ⟨first, hfirst, hshows⟩ := textFound_showsFirst hr hn hfirst'
    obtain ⟨hrest, -⟩ := ih (Nat.zero_le room) (Nat.zero_le 0) hothers'
    have hpos := List.length_pos_iff.2 hshows.nonempty
    simp only [Found.followedBy, fit, List.length_append, List.length_cons]
    refine ⟨by omega, ?_⟩
    cases places with
    | zero =>
      obtain rfl : left = 0 := by omega
      exact ⟨_, rfl, rfl, iff_of_true (Or.inr (by omega)) (by omega)⟩
    | succ places =>
      rw [List.take_succ_cons]
      rcases Nat.eq_zero_or_pos left with rfl | hleft
      · exact ⟨_, textsFound_cons_of_no_room, rfl, iff_of_true (Or.inl leavesOut_cut) (by omega)⟩
      have hne : some left ≠ some 0 := by simpa using hleft.ne'
      have hshows := hshows.mono hl
      have hlen : (first.outcomes.take left).length = min left first'.outcomes.length := by
        rw [hshows.take_eq, List.length_take]
      have hl' : left - (first.outcomes.take left).length ≤ room := by omega
      have hp' : left - (first.outcomes.take left).length ≤ places := by omega
      obtain ⟨-, others, hothers, houtcomes, htruncated⟩ := ih hl' hp' hothers'
      refine ⟨_, (textsFound_cons_eq_ok hne).2 ⟨rfl, first, others, hfirst, hothers, rfl⟩, ?_, ?_⟩
      · simp only [Found.followedBy, fit]
        rw [hshows.take_eq, houtcomes, hlen, List.take_append]
        congr 2
        omega
      · have ht := hshows.truncated_or
        have hcap : (setting.withCap (.whole room)).cap = .whole room := rfl
        rw [hlen] at htruncated
        simp only [Found.IsTruncated, Found.followedBy, fit, hcap, leavesOut_append, leavesOut_ite,
          decide_eq_true_eq] at ht htruncated ⊢
        rw [ht, or_assoc, Nat.succ_lt_succ_iff, htruncated]
        omega

theorem textsFound_findsFirst (hr : 0 < room)
    (hn : ∀ name, FindsFirst room (nested name) (nested' name)) {texts : List (String × W)}
    (ht : texts ≠ []) :
    FindsFirst room (textsFound (setting.withCap (.whole room)) nested (some room) texts)
      (textsFound (setting.withCap none) nested' none texts) := by
  intro full hf
  obtain ⟨hlen, found, hfound, houtcomes, htruncated⟩ :=
    textsFound_take hr hn texts le_rfl (Nat.le_add_right room texts.length) hf
  rw [List.take_of_length_le (by omega)] at hfound
  rw [or_iff_left (by omega)] at htruncated
  have hle : found.outcomes.length ≤ room := by simp [houtcomes]
  have hpos := List.length_pos_iff.2 ht
  refine ⟨found, hfound, ⟨?_, ?_, List.length_pos_iff.1 (by omega)⟩, hle⟩
  · rw [houtcomes, List.take_take, Nat.min_self]
  · rw [or_iff_left (by omega), htruncated]

variable [Zero W] [One W] [Add W] [Div W] [NatCast W]

omit [Mul W] [Zero W] [One W] [Add W] in
theorem evenly_ne_nil {share : W} {values : List String} (h : values ≠ []) :
    evenly share values ≠ [] := by
  simpa [evenly] using h

omit [Zero W] [Add W] in
theorem templateTexts_isFirst (hr : 0 < room) {rule : Rule.Template} {names : List String}
    (hv : ∀ name ∈ names, ∃ values, rule.values? name = some values ∧ values ≠ [])
    {found full : Found W} (h : found.IsFirst room full) :
    (templateTexts (setting.withCap (.whole room)) rule found names).IsFirst room
      (templateTexts (setting.withCap none) rule full names) := by
  induction names generalizing found full with
  | nil => exact h
  | cons name rest ih =>
    obtain ⟨values, he, hne⟩ := hv name List.mem_cons_self
    have hright : Found.ShowsFirst room { outcomes := evenly (1 : W) values }
        { outcomes := evenly 1 values } := Found.showsFirst_self leavesOut_nil (evenly_ne_nil hne)
    simp only [templateTexts, he, Option.getD_some]
    exact ih (fun name hm => hv name (List.mem_cons_of_mem _ hm))
      (Found.isFirst_times hr h.toShowsFirst hright)

theorem template_findsFirst (hr : 0 < room)
    (hn : ∀ name, FindsFirst room (nested name) (nested' name)) {rule : Rule.Template}
    (ha : (Rule.template rule).Accepted) (shown : String) :
    FindsFirst room (ruleFound (setting.withCap (.whole room)) nested shown (.template rule))
      (ruleFound (setting.withCap none) nested' shown (.template rule)) := by
  intro full hf
  have hstart : Found.IsFirst room { outcomes := [(rule.template, (1 : W))] }
      { outcomes := [(rule.template, 1)] } := Found.isFirst_singleton hr leavesOut_nil
  have hfill : (templateTexts (setting.withCap (.whole room)) rule _ rule.openNames).IsFirst room
      (templateTexts (setting.withCap none) rule _ rule.openNames) :=
    templateTexts_isFirst hr ha.2 hstart
  obtain ⟨others', hothers', hf⟩ := bind_eq_ok.1 hf
  obtain rfl := pure_eq_ok.1 hf
  obtain ⟨hlen, others, hothers, houtcomes, htruncated⟩ :=
    textsFound_take hr hn _ le_rfl le_rfl hothers'
  rw [← hfill.outcomes_eq] at hothers
  have hpos := List.length_pos_iff.2 hfill.nonempty
  refine ⟨_, bind_eq_ok.2 ⟨others, hothers, rfl⟩, ⟨?_, ?_, ?_⟩, ?_⟩
  · simp [houtcomes, List.take_take]
  · have hle : ¬room < others.outcomes.length := by simp [houtcomes]
    rw [← hfill.truncated_iff] at htruncated
    rw [or_iff_left hle, ← htruncated]
    exact leavesOut_append.trans or_comm
  · exact List.length_pos_iff.1 (Nat.lt_of_lt_of_le hpos hlen)
  · simp [houtcomes]

@[simp] theorem Cap.cuts_whole {count : ℕ} :
    (Cap.whole room).cuts count = decide (room < count) := by
  rw [Cap.cuts_ofInt]
  exact decide_eq_decide.2 Int.ofNat_lt

theorem Cap.shownOf_whole (count : ℕ) : (Cap.whole room).shownOf count = min room count := by
  rw [Cap.shownOf_ofInt, Int.toNat_natCast, Nat.min_comm]

omit [Mul W] [Zero W] [Add W] in
/-- A range computes no more values than there is room for. -/
theorem rangeFound_findsFirst (hr : 0 < room) {rule : Rule.Range}
    (ha : (Rule.range rule).Accepted) (shown : String) :
    FindsFirst room (rangeFound (setting.withCap (.whole room)) shown rule)
      (rangeFound (setting.withCap none) shown rule) := by
  intro full hf
  by_cases ho : (rule.step.isNone && setting.openRangesInfinite) = true
  · have hopen (cap : Cap) :
        rangeFound (setting.withCap cap) shown rule
          = .ok (marked "range" shown (.openRange shown)) :=
      rangeFound_of_open ho
    rw [hopen] at hf
    cases hf
    exact ⟨_, hopen _, Found.isFirst_singleton hr (by simp [LeavesOut])⟩
  · have ho (cap : Cap) :
        ¬(rule.step.isNone && (setting.withCap cap).openRangesInfinite) = true := ho
    obtain ⟨count, hcount, -, texts, htexts, rfl⟩ := (rangeFound_eq_ok (ho none)).1 hf
    change nthTexts rule count = _ at htexts
    have hlen := length_of_nthTexts htexts
    have hpos := Rule.Range.size_pos ha hcount
    have hcap : (setting.withCap (.whole room)).cap = .whole room := rfl
    have htake := nthTexts_take htexts room
    rw [← Cap.shownOf_whole, ← hcap] at htake
    refine ⟨_, (rangeFound_eq_ok (ho _)).2 ⟨count, hcount, fun _ => rfl, _, htake, rfl⟩,
      ⟨?_, ?_, ?_⟩, ?_⟩
    · rw [← List.map_take, ← List.map_take, List.take_take, Nat.min_self]
    · simp [Found.IsTruncated, hlen]
    · rw [← List.length_pos_iff, List.length_map]
      omega
    · simp

/-- Values that are equally likely, or a token that stays. -/
theorem values_findsFirst (hr : 0 < room)
    (hn : ∀ name, FindsFirst room (nested name) (nested' name)) {values : List String}
    {shown : String} :
    FindsFirst room
      (ruleFound (setting.withCap (.whole room)) nested shown (.static { values }))
      (ruleFound (setting.withCap none) nested' shown (.static { values })) := by
  simp only [ruleFound]
  split
  · rintro full ⟨⟩
    exact ⟨_, rfl, Found.isFirst_singleton hr leavesOut_nil⟩
  · rename_i hv
    exact textsFound_findsFirst hr hn (evenly_ne_nil (by simpa using hv))

theorem ruleFound_findsFirst (hr : 0 < room)
    (hn : ∀ name, FindsFirst room (nested name) (nested' name)) {rule : Rule} (ha : rule.Accepted)
    (shown : String) :
    FindsFirst room (ruleFound (setting.withCap (.whole room)) nested shown rule)
      (ruleFound (setting.withCap none) nested' shown rule) := by
  cases rule with
  | function rule =>
    rintro full ⟨⟩
    exact ⟨_, rfl, Found.isFirst_singleton hr (by simp [LeavesOut])⟩
  | range rule => exact rangeFound_findsFirst hr ha shown
  | template rule => exact template_findsFirst hr hn ha shown
  | weighted rule =>
    refine textsFound_findsFirst hr hn ?_
    rw [← List.length_pos_iff]
    have hpos := List.length_pos_iff.2 ha.1
    simpa [weightedValues, ← ha.2.1] using hpos
  | conditional rule =>
    refine textsFound_findsFirst hr hn ?_
    obtain ⟨branch, hb⟩ := List.exists_mem_of_ne_nil _ ha.1
    intro he
    exact evenly_ne_nil (ha.2.1 branch hb) (List.flatMap_eq_nil_iff.1 he branch hb)
  | sequential rule => exact values_findsFirst hr hn
  | static rule => exact values_findsFirst hr hn

omit [Mul W] [Zero W] [Add W] [Div W] [NatCast W] in
theorem marked_findsFirst (hr : 0 < room) {label shown : String} {warning : Warning}
    (h : ¬LeavesOut [warning]) :
    FindsFirst room (.ok (marked label shown warning))
      (.ok (marked (W := W) label shown warning)) := by
  rintro full ⟨⟩
  exact ⟨_, rfl, Found.isFirst_singleton hr h⟩

/-- Where no depth is left, names have markers, with a cap and without. -/
theorem nameFound_none_findsFirst (hr : 0 < room) {visited : List String} {shown name : String} :
    FindsFirst room (nameFound (setting.withCap (.whole room)) none visited shown name)
      (nameFound (setting.withCap none) none visited shown name) := by
  simp only [nameFound]
  split <;> exact marked_findsFirst hr (by simp [LeavesOut])

theorem nameFound_some_findsFirst (hr : 0 < room) (ha : setting.store.Accepted)
    {nested nested' : List String → String → Walk (Found W)}
    (hn : ∀ visited name, FindsFirst room (nested visited name) (nested' visited name))
    {visited : List String} {shown name : String} :
    FindsFirst room (nameFound (setting.withCap (.whole room)) (some nested) visited shown name)
      (nameFound (setting.withCap none) (some nested') visited shown name) := by
  have hstore (cap : Cap) : (setting.withCap cap).store = setting.store := rfl
  by_cases hv : name ∈ visited
  · simp only [nameFound, if_pos hv]
    exact marked_findsFirst hr (by simp [LeavesOut])
  · simp only [nameFound, if_neg hv, hstore]
    cases hrule : setting.store.rule? name with
    | none => exact marked_findsFirst hr (by simp [LeavesOut])
    | some rule => exact ruleFound_findsFirst hr (hn _) (Store.accepted_of_rule? ha hrule) shown

theorem foundWithin_findsFirst (hr : 0 < room) (ha : setting.store.Accepted) (depth : ℕ)
    (visited : List String) (name : String) :
    FindsFirst room (foundWithin (setting.withCap (.whole room)) depth visited name)
      (foundWithin (setting.withCap none) depth visited name) := by
  induction depth generalizing visited name with
  | zero => exact nameFound_none_findsFirst hr
  | succ depth ih => exact nameFound_some_findsFirst hr ha ih

/-- The capped walk finds the first outcomes of the uncapped one, texts and weights, and tells
exactly if there are more. -/
theorem foundShown_capped (hr : 1 ≤ room) (ha : setting.store.Accepted) {shown name : String}
    {full : Found W} (hf : foundShown (setting.withCap none) shown name = .ok full) :
    ∃ found, foundShown (setting.withCap (.whole room)) shown name = .ok found ∧
      found.outcomes = full.outcomes.take room ∧
      (found.IsTruncated ↔ room < full.outcomes.length) := by
  have hfirst : FindsFirst room (foundShown (setting.withCap (.whole room)) shown name)
      (foundShown (setting.withCap none) shown name) := by
    have hlimit (cap : Cap) : (setting.withCap cap).limit = setting.limit := rfl
    simp only [foundShown, hlimit]
    cases setting.limit.value.toNat with
    | zero => exact nameFound_none_findsFirst hr
    | succ depth => exact nameFound_some_findsFirst hr ha (foundWithin_findsFirst hr ha depth)
  obtain ⟨found, hfound, h⟩ := hfirst full hf
  exact ⟨found, hfound, h.outcomes_eq, h.truncated_iff⟩

/-- Exact shares of the outcomes of the nested rules. -/
def nestedSetting : Setting ℚ where
  store := nestedStore
  limit := 5
  cap := none
  openRangesInfinite := false
  ofWeight _ := 0

theorem nestedSetting_cappedAtTwo :
    ∃ found, foundShown (nestedSetting.withCap (.whole 2)) "a" "a" = .ok found ∧
      found.outcomes = [("x", 1 / 2), ("y", 1 / 4)] ∧ (found.IsTruncated ↔ 2 < 3) := by
  have hfull : foundShown (nestedSetting.withCap none) "a" "a"
      = .ok { outcomes := [("x", 1 / 2), ("y", 1 / 4), ("z", 1 / 4)] } := by
    refine (nestedStore_found (Or.inl rfl)).trans ?_
    norm_num
  exact foundShown_capped (by decide) nestedStore_accepted hfull

end TextGrammar.Distribution
