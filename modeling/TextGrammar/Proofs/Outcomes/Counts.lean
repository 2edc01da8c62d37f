import TextGrammar.Proofs.Outcomes.Bound
import TextGrammar.Proofs.Token.Reading

/-! The exact count of a rule, and when it is reported: unless a finite count is out of range. -/
namespace TextGrammar

namespace Count

def sum (counts : List Count) : Count := counts.foldr add (finite 0)

def prod (counts : List Count) : Count := counts.foldr mul (finite 1)

@[simp] theorem sum_cons {count : Count} {counts : List Count} :
    sum (count :: counts) = count.add (sum counts) := rfl

@[simp] theorem prod_cons {count : Count} {counts : List Count} :
    prod (count :: counts) = count.mul (prod counts) := rfl

theorem prod_replicate (times n : ℕ) :
    prod (List.replicate times (finite n)) = finite (n ^ times) := by
  induction times with
  | zero => rfl
  | succ times ih => rw [List.replicate_succ, prod_cons, ih, mul, pow_succ']

/-- The items up to the first one that counts infinitely. -/
def upTo {α : Type} (count : α → Count) : List α → List α
  | [] => []
  | item :: rest => item :: if (count item).isFinite then upTo count rest else []

theorem flatMap_upTo_cons {α β : Type} {count : α → Count} {f : α → List β} {item : α}
    {rest : List α} : (upTo count (item :: rest)).flatMap f
      = f item ++ if (count item).isFinite then (upTo count rest).flatMap f else [] := by
  rw [upTo, List.flatMap_cons]
  split
  · rfl
  · rfl

theorem exists_ofInt?_iff {n : ℕ} : Fits n ↔ (Double.ofInt? n).toOption.isSome = true := by
  rw [Fits]
  cases Double.ofInt? n with
  | ok x => exact iff_of_true ⟨x, rfl⟩ rfl
  | error fault =>
    refine iff_of_false ?_ Bool.false_ne_true
    rintro ⟨x, hx⟩
    cases hx

/-- Half a step beyond the largest binary64 number, integers are no longer rounded to it. -/
theorem fits_iff {n : ℕ} : Fits n ↔ n < 2 ^ 1024 - 2 ^ 970 := by
  constructor
  · intro hn
    by_contra hge
    have hlow : Fits (2 ^ 1024 - 2 ^ 970) := hn.mono (Nat.le_of_not_lt hge)
    have hhigh : (Double.ofInt? (2 ^ 1024 - 2 ^ 970 : ℕ)).toOption.isSome = false := by
      decide +kernel
    rw [exists_ofInt?_iff, hhigh] at hlow
    cases hlow
  · intro hn
    have hlast : Fits (2 ^ 1024 - 2 ^ 970 - 1) := by
      rw [exists_ofInt?_iff]
      decide +kernel
    exact hlast.mono (Nat.le_sub_one_of_lt hn)

theorem check_eq_error {n : ℕ} {fault : NumberFault} (h : (finite n).check = .error fault) :
    fault = .integerTooLarge := by
  rw [check, Double.ofInt?] at h
  split at h
  · cases h
    rfl
  · cases h

end Count

/-- The texts that a rule is counted by: those that it holds. -/
def Rule.countedTexts : Rule → List String
  | .function _ | .range _ => []
  | .template rule => rule.openNames.flatMap fun name => (rule.values? name).getD []
  | .conditional rule => rule.branches.flatMap Branch.values
  | .static { values } | .weighted { values, .. } | .sequential { values, .. } => values

/-- It can be computed how many steps each range has. -/
def Store.RangesSized (store : Store) : Prop :=
  ∀ name range, store.rule? name = some (.range range) → ∃ count, range.size = .ok count

namespace Complexity

section Exact

variable (setting : Setting) (token : String → Count) (met : String → List Count)

/-- The tokens of a text multiply. -/
def exactText (text : String) : Count := .prod ((Segment.names text).map token)

def exactChoice (template : Rule.Template) (name : String) : Count :=
  .sum (((template.values? name).getD []).map (exactText token))

/-- The count of a rule, given what each token counts. The values of a rule add up; in a template, a
choice for each open name goes with every choice for the others. -/
def exactRule : Rule → Count
  | .function _ => .infinite
  | .range range =>
    if range.step.isNone && setting.openRangesInfinite then .infinite
    else .finite (range.size.toOption.getD 0)
  | .template template => .prod (template.openNames.map (exactChoice token template))
  | .conditional rule => .sum ((rule.branches.flatMap Branch.values).map (exactText token))
  | .static { values } | .weighted { values, .. } | .sequential { values, .. } =>
    .sum (values.map (exactText token))

/-- The counts that turn up with some values: those of their tokens and their own, up to the first
infinite one. -/
def metValues (values : List String) : List Count :=
  (Count.upTo (exactText token) values).flatMap fun value =>
    (Count.upTo token (Segment.names value)).flatMap met ++ [exactText token value]

def metChoices (template : Rule.Template) : List Count :=
  (Count.upTo (exactChoice token template) template.openNames).flatMap fun name =>
    metValues token met ((template.values? name).getD []) ++ [exactChoice token template name]

/-- The counts that turn up while a rule is counted, its own last. -/
def metRule (rule : Rule) : List Count :=
  (match rule with
    | .function _ | .range _ => []
    | .template template => metChoices token met template
    | .conditional rule => metValues token met (rule.branches.flatMap Branch.values)
    | .static { values } | .weighted { values, .. } | .sequential { values, .. } =>
      metValues token met values) ++ [exactRule setting token rule]

/-- The rule that a token is counted by, if there is one: below a name of the path, none is. -/
def below? (path : List String) (name : String) : Option Rule :=
  if isReplay name || name ∈ path then none else setting.store.rule? name

/-- The count of a token with so many depths left. A token that is not followed counts once. -/
def exactToken : ℕ → List String → String → Count
  | 0, _, _ => .finite 1
  | room + 1, path, name =>
    match below? setting path name with
    | none => .finite 1
    | some rule => exactRule setting (exactToken room (name :: path)) rule

def metToken : ℕ → List String → String → List Count
  | 0, _, _ => []
  | room + 1, path, name =>
    match below? setting path name with
    | none => []
    | some rule =>
      metRule setting (exactToken setting room (name :: path)) (metToken room (name :: path)) rule

end Exact

/-- A computation comes to this count, unless one of the finite counts that turn up is too large to
be compared. -/
def Settles : Except NumberFault Tally → Count → List Count → Prop
  | .ok tally, count, met => tally.count = count ∧ ∀ n, .finite n ∈ met → Count.Fits n
  | .error fault, _, met => fault = .integerTooLarge ∧ ∃ n, .finite n ∈ met ∧ ¬Count.Fits n

theorem settles_ok {tally : Tally} : Settles (.ok tally) tally.count [] :=
  ⟨rfl, fun _ hmem => absurd hmem List.not_mem_nil⟩

section Settles

variable {tallied : Except NumberFault Tally} {count count' : Count} {met met' : List Count}

/-- Whatever else a tally tells, its count decides. -/
theorem Settles.map {f : Tally → Tally} (h : Settles tallied count met)
    (hf : ∀ tally, (f tally).count = tally.count) :
    Settles (do return f (← tallied)) count met := by
  cases tallied with
  | ok tally =>
    obtain ⟨hcount, hfits⟩ := h
    exact ⟨(hf tally).trans hcount, hfits⟩
  | error fault => exact h

/-- A count that is compared is one of those that turn up. -/
theorem Settles.checked (h : Settles tallied count met) :
    Settles (do let tally ← tallied; tally.count.check; return tally) count (met ++ [count]) := by
  cases tallied with
  | error fault =>
    obtain ⟨hfault, n, hmem, hn⟩ := h
    exact ⟨hfault, n, List.mem_append_left _ hmem, hn⟩
  | ok tally =>
    obtain ⟨rfl, hfits⟩ := h
    cases hcheck : tally.count.check with
    | error fault =>
      have hrun : (do let tally ← (.ok tally : Except NumberFault Tally); tally.count.check
                      return tally) = .error fault := by
        exact bind_eq_error.2 (.inr ⟨tally, rfl, bind_eq_error.2 (.inl hcheck)⟩)
      rw [hrun]
      cases hcount : tally.count with
      | infinite =>
        rw [hcount] at hcheck
        cases hcheck
      | finite n =>
        rw [hcount] at hcheck
        refine ⟨Count.check_eq_error hcheck, n, by simp, fun hn => ?_⟩
        rw [Count.check_finite.2 hn] at hcheck
        cases hcheck
    | ok _ =>
      have hrun : (do let tally ← (.ok tally : Except NumberFault Tally); tally.count.check
                      return tally) = .ok tally := by
        exact bind_eq_ok.2 ⟨tally, rfl, bind_eq_ok.2 ⟨(), hcheck, rfl⟩⟩
      rw [hrun]
      refine ⟨rfl, fun n hmem => ?_⟩
      rcases List.mem_append.1 hmem with hmem | hmem
      · exact hfits n hmem
      · rw [← List.mem_singleton.1 hmem] at hcheck
        exact Count.check_finite.1 hcheck

/-- What comes after an infinite count does not turn up. -/
theorem Settles.andThen {join : Count → Count → Count} {next : Unit → Except NumberFault Tally}
    (h : Settles tallied count met) (hjoin : ∀ other, join .infinite other = .infinite)
    (hnext : ∀ again, Settles (next again) count' met') :
    Settles (tallied >>= fun tally => tally.andThen join next) (join count count')
      (met ++ if count.isFinite then met' else []) := by
  cases tallied with
  | error fault =>
    obtain ⟨hfault, n, hmem, hn⟩ := h
    exact ⟨hfault, n, List.mem_append_left _ hmem, hn⟩
  | ok tally =>
    obtain ⟨rfl, hfits⟩ := h
    change Settles (tally.andThen join next) _ _
    rw [Tally.andThen]
    by_cases hfinite : tally.count.isFinite = true
    · rw [if_pos hfinite, if_pos hfinite]
      cases hsecond : next () with
      | error fault =>
        obtain ⟨hfault, n, hmem, hn⟩ := hsecond ▸ hnext ()
        exact ⟨hfault, n, List.mem_append_right _ hmem, hn⟩
      | ok second =>
        obtain ⟨rfl, hfits'⟩ := hsecond ▸ hnext ()
        exact ⟨rfl, fun n hmem => (List.mem_append.1 hmem).elim (hfits n) (hfits' n)⟩
    · rw [if_neg hfinite, if_neg hfinite, List.append_nil]
      have hinfinite := Count.eq_infinite_of_isFinite (Bool.eq_false_iff.2 hfinite)
      refine ⟨?_, hfits⟩
      rw [hinfinite, hjoin]

end Settles

section Counts

variable {setting : Setting} {counter : Option RuleCounter} {follow : RuleCounter}
  {path : List String} {owner name : String} {token : String → Count} {met : String → List Count}

theorem segmentsTally_settles {segments : List Segment}
    (h : ∀ name ∈ segments.filterMap Segment.tokenName?,
      Settles (tokenTally setting counter path owner name) (token name) (met name)) :
    Settles (segmentsTally setting counter path owner segments)
      (.prod ((segments.filterMap Segment.tokenName?).map token))
      ((Count.upTo token (segments.filterMap Segment.tokenName?)).flatMap met) := by
  induction segments with
  | nil => exact settles_ok
  | cons segment rest ih =>
    cases segment with
    | literal text => exact ih h
    | token name =>
      have hfirst := h name List.mem_cons_self
      have hlater := ih fun other hother => h other (List.mem_cons_of_mem _ hother)
      have hrest := hfirst.andThen (fun _ => Count.infinite_mul) fun _ => hlater
      rw [← Count.flatMap_upTo_cons] at hrest
      exact hrest

/-- The checked count of each value, up to the first infinite one. -/
theorem valuesTally_settles {values : List String}
    (h : ∀ value ∈ values, ∀ name ∈ Segment.names value,
      Settles (tokenTally setting counter path owner name) (token name) (met name)) :
    Settles (valuesTally setting counter path owner values)
      (.sum (values.map (exactText token))) (metValues token met values) := by
  induction values with
  | nil => exact settles_ok
  | cons value rest ih =>
    have hvalue := (segmentsTally_settles (h value List.mem_cons_self)).checked
    have hlater := ih fun other hother => h other (List.mem_cons_of_mem _ hother)
    have hrest := hvalue.andThen (fun _ => Count.infinite_add) fun _ => hlater
    rw [bind_assoc] at hrest
    simp only [bind_assoc, pure_bind] at hrest
    rw [metValues, Count.flatMap_upTo_cons]
    exact hrest

theorem choicesTally_settles {template : Rule.Template} {names : List String}
    (h : ∀ value ∈ names.flatMap fun name => (template.values? name).getD [],
      ∀ name ∈ Segment.names value,
        Settles (tokenTally setting counter path owner name) (token name) (met name)) :
    Settles (choicesTally setting counter path owner template names)
      (.prod (names.map (exactChoice token template)))
      ((Count.upTo (exactChoice token template) names).flatMap fun name =>
        metValues token met ((template.values? name).getD []) ++
          [exactChoice token template name]) := by
  induction names with
  | nil => exact settles_ok
  | cons name rest ih =>
    rw [List.flatMap_cons] at h
    have hvalues := (valuesTally_settles fun value hvalue =>
      h value (List.mem_append_left _ hvalue)).checked
    have hnamed := hvalues.map (f := fun tally => { tally with names := name :: tally.names })
      fun tally => rfl
    have hlater := ih fun value hvalue => h value (List.mem_append_right _ hvalue)
    have hrest := hnamed.andThen (fun _ => Count.infinite_mul) fun _ => hlater
    simp only [bind_assoc, pure_bind] at hrest
    rw [Count.flatMap_upTo_cons]
    exact hrest

/-- A rule settles if its tokens do, and, if it is a range, if it has a size. -/
theorem ruleTally_settles {rule : Rule}
    (h : ∀ value ∈ rule.countedTexts, ∀ name ∈ Segment.names value,
      Settles (tokenTally setting counter path owner name) (token name) (met name))
    (hrange : ∀ range, rule = .range range → ∃ count, range.size = .ok count) :
    Settles (ruleTally setting counter path owner rule) (exactRule setting token rule)
      (metRule setting token met rule) := by
  cases rule with
  | function rule =>
    have hdynamic :
        Settles (.ok { count := .infinite, warnings := [.dynamic owner] }) .infinite [] :=
      settles_ok
    exact hdynamic.checked
  | range range =>
    have hsized : Settles (rangeTally setting owner range) (exactRule setting token (.range range))
        [] := by
      obtain ⟨count, hcount⟩ := hrange range rfl
      rw [rangeTally, exactRule]
      by_cases ho : (range.step.isNone && setting.openRangesInfinite) = true
      · rw [if_pos ho, if_pos ho]
        exact settles_ok
      · rw [if_neg ho, if_neg ho, hcount]
        exact settles_ok
    exact hsized.checked
  | template rule => exact (choicesTally_settles h).checked
  | conditional rule => exact (valuesTally_settles h).checked
  | sequential rule => exact (valuesTally_settles h).checked
  | weighted rule => exact (valuesTally_settles h).checked
  | static rule => exact (valuesTally_settles h).checked

/-- What a token is counted by is the rule under its name, unless it is not followed. -/
theorem tokenTally_settles {room : ℕ}
    (hfollow : ∀ rule, isReplay name = false → setting.store.rule? name = some rule →
      Settles (follow (name :: path) name rule)
        (exactRule setting (exactToken setting room (name :: path)) rule)
        (metRule setting (exactToken setting room (name :: path))
          (metToken setting room (name :: path)) rule)) :
    Settles (tokenTally setting (some follow) path owner name)
      (exactToken setting (room + 1) path name) (metToken setting (room + 1) path name) := by
  cases hreplay : isReplay name with
  | true =>
    have hbelow : below? setting path name = none := by simp [below?, hreplay]
    simp only [tokenTally, exactToken, metToken, hbelow, hreplay, if_true]
    exact settles_ok
  | false =>
    by_cases hmem : name ∈ path
    · have hbelow : below? setting path name = none := by simp [below?, hmem]
      simp only [tokenTally, exactToken, metToken, hbelow, hreplay, if_pos hmem]
      exact settles_ok
    · have hbelow : below? setting path name = setting.store.rule? name := by
        simp [below?, hreplay, hmem]
      simp only [tokenTally, exactToken, metToken, hbelow, hreplay, if_neg hmem]
      cases hrule : setting.store.rule? name with
      | none => exact settles_ok
      | some rule => exact (hfollow rule hreplay hrule).map fun _ => rfl

/-- Where no depth is left, no token is followed. -/
theorem tokenTally_none_settles (name : String) :
    Settles (tokenTally setting none path owner name) (exactToken setting 0 path name)
      (metToken setting 0 path name) := by
  simp only [tokenTally]
  split
  · exact settles_ok
  · split
    · exact settles_ok
    · exact settles_ok

/-- The ranges that the counted texts lead to have to have sizes. -/
theorem tallyWithin_settles {room : ℕ} {rule : Rule} (hrule : setting.store.rule? name = some rule)
    (hranges : ∀ other range, setting.store.Reaches Rule.countedTexts name other →
      setting.store.rule? other = some (.range range) → ∃ count, range.size = .ok count) :
    Settles (tallyWithin setting room path owner rule)
      (exactRule setting (exactToken setting room path) rule)
      (metRule setting (exactToken setting room path) (metToken setting room path) rule) := by
  have hrange (range : Rule.Range) (hkind : rule = .range range) :
      ∃ count, range.size = .ok count := hranges name range .refl (hkind ▸ hrule)
  induction room generalizing path owner name rule with
  | zero => exact ruleTally_settles (fun _ _ other _ => tokenTally_none_settles other) hrange
  | succ room ih =>
    refine ruleTally_settles (fun value hvalue other hother => ?_) hrange
    refine tokenTally_settles fun below hreplay hbelow => ?_
    have hrefers : setting.store.Refers Rule.countedTexts name other :=
      ⟨rule, hrule, value, hvalue, Segment.mem_names.1 hother, hreplay⟩
    have hlater (last : String) (range : Rule.Range)
        (hlast : setting.store.Reaches Rule.countedTexts other last) :=
      hranges last range (hlast.head hrefers)
    exact ih hbelow hlater fun range hkind => hlater other range .refl (hkind ▸ hbelow)

end Counts

end Complexity

/-- The count of a name on its own, as it would be with integers only. -/
def exactCount (setting : Complexity.Setting) (name : String) : Count :=
  match setting.limit.value.toNat, setting.store.rule? name with
  | room + 1, some rule =>
    Complexity.exactRule setting (Complexity.exactToken setting room [name]) rule
  | _, _ => .finite 1

/-- The counts that turn up while a name is counted on its own. -/
def countsMet (setting : Complexity.Setting) (name : String) : List Count :=
  match setting.limit.value.toNat, setting.store.rule? name with
  | room + 1, some rule =>
    Complexity.metRule setting (Complexity.exactToken setting room [name])
      (Complexity.metToken setting room [name]) rule
  | _, _ => []

/-- A count is the last of those that turn up. -/
theorem exactCount_mem_countsMet {setting : Complexity.Setting} {name : String} {rule : Rule}
    {room : ℕ} (hrule : setting.store.rule? name = some rule)
    (hlimit : setting.limit.value.toNat = room + 1) :
    exactCount setting name ∈ countsMet setting name := by
  simp only [exactCount, countsMet, hrule, hlimit, Complexity.metRule]
  exact List.mem_append_right _ List.mem_cons_self

/-- What a count on its own answers, if the tally of the rule settles. -/
theorem Complexity.Settles.answer {setting : Complexity.Setting} {name : String} {rule : Rule}
    {room : ℕ} {count : Count} {met : List Count} (hrule : setting.store.rule? name = some rule)
    (hlimit : setting.limit.value = room + 1)
    (h : Settles (Complexity.tallyWithin setting room [name] name rule) count met) :
    (∀ complexity, complexityOf setting [] name = .ok complexity → complexity.count = count) ∧
      ((∃ complexity, complexityOf setting [] name = .ok complexity) ↔
        ∀ n, .finite n ∈ met → n < 2 ^ 1024 - 2 ^ 970) ∧
      ∀ failure, complexityOf setting [] name = .error failure →
        failure = .number .integerTooLarge := by
  have hroom : (setting.limit.value - 1).toNat = room := by omega
  rw [complexityOf_of_rule? hrule (show 0 < setting.limit.value by omega), hroom]
  simp only [← Count.fits_iff]
  cases htallied : Complexity.tallyWithin setting room [name] name rule with
  | ok tally =>
    rw [htallied] at h
    obtain ⟨rfl, hfits⟩ := h
    refine ⟨?_, iff_of_true ⟨_, rfl⟩ hfits, ?_⟩
    · rintro _ ⟨⟩
      rfl
    · rintro failure ⟨⟩
  | error fault =>
    rw [htallied] at h
    obtain ⟨rfl, n, hmem, hn⟩ := h
    refine ⟨?_, iff_of_false ?_ fun hfits => hn (hfits n hmem), ?_⟩
    · rintro complexity ⟨⟩
    · rintro ⟨complexity, ⟨⟩⟩
    · rintro failure ⟨⟩
      rfl

theorem complexityOf_registered (setting : Complexity.Setting) (hranges : setting.store.RangesSized)
    {name : String} (hname : setting.store.hasName name = true) :
    (∀ complexity, complexityOf setting [] name = .ok complexity →
        complexity.count = exactCount setting name) ∧
      ((∃ complexity, complexityOf setting [] name = .ok complexity) ↔
        ∀ n, .finite n ∈ countsMet setting name → n < 2 ^ 1024 - 2 ^ 970) ∧
      ∀ failure, complexityOf setting [] name = .error failure →
        failure = .number .integerTooLarge := by
  obtain ⟨rule, hrule⟩ := Store.exists_rule?_iff.2 hname
  by_cases hlimit : setting.limit.value ≤ 0
  · have hroom : setting.limit.value.toNat = 0 := by omega
    simp only [complexityOf, complexityShown, exactCount, countsMet, hrule, hroom,
      List.not_mem_nil, if_false, List.length_nil, Nat.cast_zero, if_pos hlimit]
    refine ⟨?_, iff_of_true ⟨_, rfl⟩ fun n hmem => hmem.elim, ?_⟩
    · rintro complexity ⟨⟩
      rfl
    · rintro failure ⟨⟩
  · obtain ⟨room, hroom⟩ : ∃ room : ℕ, setting.limit.value = room + 1 :=
      ⟨(setting.limit.value - 1).toNat, by omega⟩
    have hdepth : setting.limit.value.toNat = room + 1 := by omega
    have hsettles : Complexity.Settles (Complexity.tallyWithin setting room [name] name rule) _ _ :=
      Complexity.tallyWithin_settles hrule fun other range _ => hranges other range
    simp only [exactCount, countsMet, hrule, hdepth]
    exact hsettles.answer hrule hroom

/-- In a store whose ranges have sizes, an unknown name is refused, and a registered one is counted
exactly, unless a finite count that turns up on the way is beyond the binary64 numbers. That is the
one way to fail at any depth limit, as long as the stack suffices for the walk. -/
theorem complexityOf_settles (setting : Complexity.Setting) (hranges : setting.store.RangesSized)
    (name : String) :
    (setting.store.hasName name = false →
        complexityOf setting [] name = .error (.unknownRule name)) ∧
      (setting.store.hasName name = true →
        (∀ complexity, complexityOf setting [] name = .ok complexity →
          complexity.count = exactCount setting name) ∧
        ((∃ complexity, complexityOf setting [] name = .ok complexity) ↔
          ∀ n, .finite n ∈ countsMet setting name → n < 2 ^ 1024 - 2 ^ 970) ∧
        ∀ failure, complexityOf setting [] name = .error failure →
          failure = .number .integerTooLarge) := by
  refine ⟨fun hname => ?_, complexityOf_registered setting hranges⟩
  have hnone := Store.rule?_eq_none_iff.2 hname
  simp only [complexityOf, complexityShown, hnone]

/-- A million numbers, and a text with 52 tokens for them. -/
def crowdedStore : Store := ⟨[
  { name := "n", rule := .range { low := 0, high := 999999, step := some 1, kind := .integer } },
  { name := "line", rule := .static { values := [String.join (List.replicate 52 "%n%")] } }]⟩

theorem crowdedStore_rangesSized : crowdedStore.RangesSized := by
  intro name range hrule
  obtain ⟨entry, hmem, -, hentry⟩ := Store.exists_entry_of_rule? hrule
  simp only [crowdedStore, List.mem_cons, List.not_mem_nil, or_false] at hmem
  rcases hmem with rfl | rfl
  · cases hentry
    exact ⟨1000000, by decide⟩
  · cases hentry

theorem crowdedStore_names :
    Segment.names (String.join (List.replicate 52 "%n%")) = List.replicate 52 "n" := by
  have hname : Segment.IsName "n".toList := ⟨by decide, by decide⟩
  have htoken : "%n%" = Segment.tokenText "n" := by decide
  have hpaired : ∀ text ∈ List.replicate 52 "%n%", Segment.Paired text := by
    intro text htext
    rw [List.eq_of_mem_replicate htext, htoken]
    exact Segment.paired_tokenText hname
  rw [Segment.names_join hpaired, List.flatMap_replicate, htoken, Segment.names_tokenText hname]
  rfl

theorem exactCount_crowdedStore_line :
    exactCount ⟨crowdedStore, 10, false⟩ "line" = .finite (10 ^ 312) := by
  have hrule : crowdedStore.rule? "line" =
      some (.static { values := [String.join (List.replicate 52 "%n%")] }) := rfl
  have hlimit : (10 : Bound).value.toNat = 9 + 1 := rfl
  have htoken : Complexity.exactToken ⟨crowdedStore, 10, false⟩ 9 ["line"] "n" = .finite 1000000 := by
    decide
  have hpower : 1000000 ^ 52 = 10 ^ 312 := by
    rw [show 312 = 6 * 52 by rfl, pow_mul]
    norm_num
  simp only [exactCount, hrule, hlimit, Complexity.exactRule, Complexity.exactText, List.map,
    crowdedStore_names, List.map_replicate, htoken, Count.prod_replicate, Count.sum_cons]
  have hadd : (Count.finite (1000000 ^ 52)).add (.sum []) = .finite (1000000 ^ 52) := rfl
  rw [hadd, hpower]

theorem complexityOf_crowdedStore_range : crowdedStore.RangesSized ∧
    ∃ complexity, complexityOf ⟨crowdedStore, 10, false⟩ [] "n" = .ok complexity ∧
      complexity.count = .finite 1000000 := by
  obtain ⟨hexact, hends, -⟩ :=
    (complexityOf_settles ⟨crowdedStore, 10, false⟩ crowdedStore_rangesSized "n").2 rfl
  have hcount : exactCount ⟨crowdedStore, 10, false⟩ "n" = .finite 1000000 := by decide
  have hmet : countsMet ⟨crowdedStore, 10, false⟩ "n" = [.finite 1000000] := by decide
  have hfits : ∀ n, .finite n ∈ countsMet ⟨crowdedStore, 10, false⟩ "n" →
      n < 2 ^ 1024 - 2 ^ 970 := by
    intro n hmem
    rw [hmet, List.mem_singleton, Count.finite.injEq] at hmem
    rw [hmem]
    exact Count.fits_iff.1 (Count.exists_ofInt?_iff.2 (by decide))
  obtain ⟨complexity, hcomplexity⟩ := hends.2 hfits
  exact ⟨crowdedStore_rangesSized, complexity, hcomplexity, (hexact _ hcomplexity).trans hcount⟩

/-- The text has more outcomes than a binary64 number can tell, so that it is not counted at all. -/
theorem complexityOf_crowdedStore_line : crowdedStore.Accepted ∧ crowdedStore.RangesSized ∧
    crowdedStore.hasName "line" = true ∧
    exactCount ⟨crowdedStore, 10, false⟩ "line" = .finite (10 ^ 312) ∧
    complexityOf ⟨crowdedStore, 10, false⟩ [] "line" = .error (.number .integerTooLarge) := by
  have haccepted : crowdedStore.Accepted := by
    intro entry hmem
    simp only [crowdedStore, List.mem_cons, List.not_mem_nil, or_false] at hmem
    rcases hmem with rfl | rfl
    · refine ⟨by decide, trivial, trivial, rfl, ?_⟩
      rintro step ⟨⟩
      rfl
    · exact ⟨by decide, trivial⟩
  have hname : crowdedStore.hasName "line" = true := rfl
  have hmet : .finite (10 ^ 312) ∈ countsMet ⟨crowdedStore, 10, false⟩ "line" := by
    rw [← exactCount_crowdedStore_line]
    exact @exactCount_mem_countsMet _ _ _ 9 rfl rfl
  obtain ⟨-, hends, hfails⟩ :=
    complexityOf_registered ⟨crowdedStore, 10, false⟩ crowdedStore_rangesSized hname
  refine ⟨haccepted, crowdedStore_rangesSized, hname, exactCount_crowdedStore_line, ?_⟩
  cases hresult : complexityOf ⟨crowdedStore, 10, false⟩ [] "line" with
  | ok complexity =>
    have hfits : 10 ^ 312 < 2 ^ 1024 - 2 ^ 970 := hends.1 ⟨complexity, hresult⟩ _ hmet
    exact absurd hfits (by decide +kernel)
  | error failure => rw [hfails failure hresult]

end TextGrammar
