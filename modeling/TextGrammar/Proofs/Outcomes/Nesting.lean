import TextGrammar.Proofs.Outcomes.Warnings
import TextGrammar.Proofs.Outcomes.Walk

/-! How deep the analyses go: no deeper than there are names, whatever the limit. -/
namespace TextGrammar

namespace Complexity

variable {setting : Setting} {counter counter' : Option RuleCounter} {follow : RuleCounter}
  {path : List String} {owner name : String} {stops : ℕ → Bool} {stuck : Except NumberFault Tally}

/-- A count of so many calls inside each other. It follows no token below a path at whose length it
is told to stop, and comes to `stuck` where it needs another call. -/
def tallyCalling (setting : Setting) (stops : ℕ → Bool) (stuck : Except NumberFault Tally) :
    ℕ → RuleCounter
  | 0, _, _, _ => stuck
  | calls + 1, path, owner, rule =>
    let nested := if stops path.length then none else some (tallyCalling setting stops stuck calls)
    ruleTally setting nested path owner rule

def Setting.withLimit (setting : Setting) (limit : Bound) : Setting := { setting with limit }

@[simp] theorem withLimit_store {limit : Bound} : (setting.withLimit limit).store = setting.store :=
  rfl

section Congruence

variable {setting' : Setting}
  (h : ∀ name, tokenTally setting counter path owner name
    = tokenTally setting' counter' path owner name)
include h

theorem segmentsTally_congr (segments : List Segment) :
    segmentsTally setting counter path owner segments
      = segmentsTally setting' counter' path owner segments := by
  induction segments with
  | nil => rfl
  | cons segment rest ih =>
    cases segment with
    | literal text => exact ih
    | token name => simp only [segmentsTally, h, ih]

theorem valuesTally_congr (values : List String) :
    valuesTally setting counter path owner values
      = valuesTally setting' counter' path owner values := by
  induction values with
  | nil => rfl
  | cons value rest ih => simp only [valuesTally, segmentsTally_congr h, ih]

theorem choicesTally_congr (template : Rule.Template) (names : List String) :
    choicesTally setting counter path owner template names
      = choicesTally setting' counter' path owner template names := by
  induction names with
  | nil => rfl
  | cons name rest ih => simp only [choicesTally, valuesTally_congr h, ih]

/-- A rule is counted by what its tokens count. -/
theorem ruleTally_congr (hopen : setting.openRangesInfinite = setting'.openRangesInfinite)
    (rule : Rule) :
    ruleTally setting counter path owner rule = ruleTally setting' counter' path owner rule := by
  cases rule <;>
    simp only [ruleTally, rangeTally, hopen, valuesTally_congr h, choicesTally_congr h]

end Congruence

/-- The calls on the stack are on names of the path, so those that it has room for are enough. -/
theorem tallyWithin_eq_tallyCalling {room calls : ℕ} {rule : Rule}
    (hpath : setting.store.IsPath calls path)
    (hstops : ∀ below < calls, stops (path.length + below) = decide (room ≤ below)) :
    tallyWithin setting room path owner rule
      = tallyCalling setting stops stuck calls path owner rule := by
  induction calls generalizing room path owner rule with
  | zero =>
    -- the path would have more names than the store
    exact absurd hpath Store.not_isPath_zero
  | succ calls ih =>
    have hhere : stops path.length = decide (room ≤ 0) := hstops 0 (Nat.succ_pos calls)
    cases room with
    | zero =>
      have hstop : stops path.length = true := by simpa using hhere
      rw [tallyCalling, if_pos hstop]
      rfl
    | succ room =>
      have hgo : ¬stops path.length = true := by simp [hhere]
      rw [tallyCalling, if_neg hgo]
      refine ruleTally_congr (fun name => ?_) rfl rule
      simp only [tokenTally]
      by_cases hmem : name ∈ path
      · simp only [if_pos hmem]
      · cases hrule : setting.store.rule? name with
        | none => rfl
        | some below =>
          have hname : setting.store.hasName name = true := Store.exists_rule?_iff.1 ⟨below, hrule⟩
          have hstops' : ∀ under < calls,
              stops ((name :: path).length + under) = decide (room ≤ under) := by
            intro under hunder
            have hnext := hstops (under + 1) (by omega)
            rw [List.length_cons, Nat.add_right_comm, Nat.add_assoc, hnext]
            simp only [Nat.add_le_add_iff_right]
          simp only [ih (hpath.cons hmem hname) hstops']

/-- A limit is only looked at where a count stops. -/
theorem tallyCalling_withLimit (limit : Bound) (calls : ℕ) :
    tallyCalling (setting.withLimit limit) (fun _ => false) stuck calls
      = tallyCalling setting (fun _ => false) stuck calls := by
  induction calls with
  | zero => rfl
  | succ calls ih =>
    funext path owner rule
    simp only [tallyCalling, ih, Bool.false_eq_true, if_false]
    apply ruleTally_congr
    · intro name
      simp only [tokenTally, withLimit_store]
      cases setting.store.rule? name <;> rfl
    · rfl

def Warning.isDepth : Warning → Bool
  | tooDeep _ | tooDeepAt _ _ => true
  | _ => false

/-- None of the warnings is about depth. -/
def Shallow (tallied : Except NumberFault Tally) : Prop :=
  ∀ tally, tallied = .ok tally → ∀ warning ∈ tally.warnings, warning.isDepth = false

theorem Shallow.checked {tallied : Except NumberFault Tally} (h : Shallow tallied) :
    Shallow (do let tally ← tallied; tally.count.check; return tally) :=
  fun tally ht => h tally (eq_ok_of_checked ht)

theorem Shallow.andThen {first : Tally} {join : Count → Count → Count}
    {next : Unit → Except NumberFault Tally}
    (hfirst : ∀ warning ∈ first.warnings, warning.isDepth = false) (hnext : Shallow (next ())) :
    Shallow (first.andThen join next) := by
  intro tally ht warning hwarning
  rw [Tally.andThen] at ht
  split at ht
  · obtain ⟨second, hsecond, ht⟩ := bind_eq_ok.1 ht
    rw [← pure_eq_ok.1 ht] at hwarning
    rcases List.mem_append.1 hwarning with hw | hw
    · exact hfirst warning hw
    · exact hnext second hsecond warning hw
  · cases ht
    exact hfirst warning hwarning

section Shallow

variable (h : ∀ name, Shallow (tokenTally setting counter path owner name))
include h

theorem segmentsTally_shallow (segments : List Segment) :
    Shallow (segmentsTally setting counter path owner segments) := by
  induction segments with
  | nil =>
    rintro tally ⟨⟩ warning hwarning
    cases hwarning
  | cons segment rest ih =>
    cases segment with
    | literal text => exact ih
    | token name =>
      intro tally ht
      obtain ⟨first, hfirst, ht⟩ := bind_eq_ok.1 ht
      exact Shallow.andThen (h name first hfirst) ih tally ht

theorem valuesTally_shallow (values : List String) :
    Shallow (valuesTally setting counter path owner values) := by
  induction values with
  | nil =>
    rintro tally ⟨⟩ warning hwarning
    cases hwarning
  | cons value rest ih =>
    intro tally ht
    obtain ⟨first, hfirst, ht⟩ := bind_eq_ok.1 ht
    obtain ⟨-, -, ht⟩ := bind_eq_ok.1 ht
    exact Shallow.andThen (segmentsTally_shallow h _ first hfirst) ih tally ht

theorem choicesTally_shallow (template : Rule.Template) (names : List String) :
    Shallow (choicesTally setting counter path owner template names) := by
  induction names with
  | nil =>
    rintro tally ⟨⟩ warning hwarning
    cases hwarning
  | cons name rest ih =>
    intro tally ht
    obtain ⟨first, hfirst, ht⟩ := bind_eq_ok.1 ht
    obtain ⟨-, -, ht⟩ := bind_eq_ok.1 ht
    have hnamed : ∀ warning ∈ ({ first with names := name :: first.names } : Tally).warnings,
        warning.isDepth = false := valuesTally_shallow h _ first hfirst
    exact Shallow.andThen hnamed ih tally ht

theorem ruleTally_shallow (rule : Rule) :
    Shallow (ruleTally setting counter path owner rule) := by
  cases rule with
  | function rule =>
    apply Shallow.checked
    rintro tally ⟨⟩ warning hwarning
    rw [List.mem_singleton.1 hwarning]
    rfl
  | range rule =>
    apply Shallow.checked
    intro tally ht warning hwarning
    rw [rangeTally] at ht
    split at ht
    · cases ht
      rw [List.mem_singleton.1 hwarning]
      rfl
    · obtain ⟨count, -, ht⟩ := bind_eq_ok.1 ht
      rw [← pure_eq_ok.1 ht] at hwarning
      cases hwarning
  | template rule => exact Shallow.checked (choicesTally_shallow h rule rule.openNames)
  | conditional rule => exact Shallow.checked (valuesTally_shallow h _)
  | sequential rule => exact Shallow.checked (valuesTally_shallow h _)
  | weighted rule => exact Shallow.checked (valuesTally_shallow h _)
  | static rule => exact Shallow.checked (valuesTally_shallow h _)

end Shallow

/-- What follows its tokens warns of no depth. -/
theorem tokenTally_shallow (hfollow : ∀ path owner rule, Shallow (follow path owner rule)) :
    Shallow (tokenTally setting (some follow) path owner name) := by
  intro tally ht warning hwarning
  simp only [tokenTally] at ht
  split at ht
  · cases ht
    cases hwarning
  · split at ht
    · cases ht
      rw [List.mem_singleton.1 hwarning]
      rfl
    · cases hrule : setting.store.rule? name with
      | none =>
        rw [hrule] at ht
        cases ht
        rw [List.mem_singleton.1 hwarning]
        rfl
      | some rule =>
        rw [hrule] at ht
        obtain ⟨below, hbelow, ht⟩ := bind_eq_ok.1 ht
        rw [← pure_eq_ok.1 ht] at hwarning
        exact hfollow _ _ _ below hbelow warning hwarning

theorem tallyCalling_shallow (hstuck : Shallow stuck) (calls : ℕ) (path : List String)
    (owner : String) (rule : Rule) :
    Shallow (tallyCalling setting (fun _ => false) stuck calls path owner rule) := by
  induction calls generalizing path owner rule with
  | zero => exact hstuck
  | succ calls ih => exact ruleTally_shallow (fun name => tokenTally_shallow ih) rule

theorem Warning.not_prefix_depth {warning : Warning} (h : warning.isDepth = false) :
    ¬"Maximum depth".toList <+: warning.message.toList := by
  cases warning with
  | tooDeep limit => cases h
  | tooDeepAt limit name => cases h
  | circular name =>
    rw [toList_message_circular]
    exact not_prefix_append (n := 0) (by decide) (by decide) (by decide)
  | missing name owner =>
    rw [toList_message_missing]
    exact not_prefix_append (n := 1) (by decide) (by decide) (by decide)
  | dynamic name =>
    have hmessage : (Warning.dynamic name).message =
        "Function rule '" ++ name ++ "' has infinite complexity (cannot be calculated)" := rfl
    rw [hmessage, String.append_assoc, String.toList_append]
    exact not_prefix_append (n := 0) (by decide) (by decide) (by decide)
  | openRange name =>
    have hmessage : (Warning.openRange name).message =
        "Range rule '" ++ name ++ "' has no step; continuous ranges are unbounded" := rfl
    rw [hmessage, String.append_assoc, String.toList_append]
    exact not_prefix_append (n := 0) (by decide) (by decide) (by decide)

end Complexity

namespace Distribution

variable {W : Type} {setting : Setting W} {nested : String → Walk (Found W)} {found : Found W}

def Setting.withLimit (setting : Setting W) (limit : Bound) : Setting W := { setting with limit }

@[simp] theorem withLimit_store {limit : Bound} : (setting.withLimit limit).store = setting.store :=
  rfl

@[simp] theorem withLimit_cap {limit : Bound} : (setting.withLimit limit).cap = setting.cap := rfl

def Warning.isDepth : Warning → Bool
  | tooDeep _ _ => true
  | _ => false

/-- None of the warnings of what is found is about depth. -/
def Found.Shallow (found : Found W) : Prop := ∀ warning ∈ found.warnings, warning.isDepth = false

/-- Whatever a walk finds comes without warnings of depth. -/
def Shallow (walk : Walk (Found W)) : Prop := ∀ found, walk = .ok found → found.Shallow

theorem Cap.cut_isDepth {cap : Cap} : ∀ warning ∈ cap.cut, warning.isDepth = false := by
  intro warning hwarning
  cases cap with
  | none => cases hwarning
  | some cap =>
    rw [List.mem_singleton.1 hwarning]
    rfl

section Texts

variable [Mul W]

theorem Found.Shallow.times {left right : Found W} {cap : Cap} {join : String → String → String}
    (hleft : left.Shallow) (hright : right.Shallow) : (left.times cap join right).Shallow := by
  intro warning hwarning
  simp only [Found.times, List.mem_append] at hwarning
  rcases hwarning with (hw | hw) | hw
  · exact hleft warning hw
  · exact hright warning hw
  · split at hw
    · exact Cap.cut_isDepth warning hw
    · cases hw

theorem segmentsFound_shallow (hn : ∀ name, Shallow (nested name)) (segments : List Segment)
    (hfound : found.Shallow) : Shallow (segmentsFound setting nested found segments) := by
  induction segments generalizing found with
  | nil =>
    rintro result ⟨⟩
    exact hfound
  | cons segment rest ih =>
    cases segment with
    | literal text => exact ih hfound
    | token name =>
      simp only [segmentsFound]
      split
      · exact ih hfound
      · intro result hresult
        obtain ⟨right, hright, hresult⟩ := bind_eq_ok.1 hresult
        exact ih (hfound.times (hn name right hright)) result hresult

theorem textsFound_shallow (hn : ∀ name, Shallow (nested name)) (texts : List (String × W))
    (room : Room) : Shallow (textsFound setting nested room texts) := by
  induction texts generalizing room with
  | nil =>
    rintro result ⟨⟩ warning hwarning
    cases hwarning
  | cons entry rest ih =>
    obtain ⟨text, weight⟩ := entry
    intro result hresult
    by_cases hroom : room = some 0
    · subst hroom
      rw [textsFound_cons_of_no_room] at hresult
      cases hresult
      exact Cap.cut_isDepth
    · obtain ⟨-, first, others, hfirst, hothers, rfl⟩ := (textsFound_cons_eq_ok hroom).1 hresult
      have hshallow : first.Shallow := by
        refine segmentsFound_shallow hn _ ?_ first hfirst
        intro warning hwarning
        cases hwarning
      intro warning hwarning
      simp only [Found.followedBy, List.mem_append] at hwarning
      rcases hwarning with (hw | hw) | hw
      · exact hshallow warning hw
      · split at hw
        · exact Cap.cut_isDepth warning hw
        · cases hw
      · exact ih _ others hothers warning hw

end Texts

variable [Zero W] [One W] [Add W] [Mul W] [Div W] [NatCast W]

omit [Zero W] [Add W] in
theorem templateTexts_shallow {template : Rule.Template} {names : List String}
    (hfound : found.Shallow) : (templateTexts setting template found names).Shallow := by
  induction names generalizing found with
  | nil => exact hfound
  | cons name rest ih =>
    refine ih (hfound.times ?_)
    intro warning hwarning
    cases hwarning

omit [Zero W] [Add W] [Mul W] in
theorem rangeFound_shallow {shown : String} {range : Rule.Range} :
    Shallow (rangeFound setting shown range) := by
  intro result hresult warning hwarning
  by_cases ho : (range.step.isNone && setting.openRangesInfinite) = true
  · rw [rangeFound_of_open ho] at hresult
    cases hresult
    rw [List.mem_singleton.1 hwarning]
    rfl
  · obtain ⟨count, -, -, texts, -, rfl⟩ := (rangeFound_eq_ok ho).1 hresult
    simp only at hwarning
    split at hwarning
    · exact Cap.cut_isDepth warning hwarning
    · cases hwarning

theorem ruleFound_shallow (hn : ∀ name, Shallow (nested name)) {shown : String} (rule : Rule) :
    Shallow (ruleFound setting nested shown rule) := by
  have hvalues (values : List String) :
      Shallow (ruleFound setting nested shown (.static { values })) := by
    simp only [ruleFound]
    split
    · rintro result ⟨⟩ warning hwarning
      cases hwarning
    · exact textsFound_shallow hn _ _
  cases rule with
  | function rule =>
    rintro result ⟨⟩ warning hwarning
    rw [List.mem_singleton.1 hwarning]
    rfl
  | range rule => exact rangeFound_shallow
  | template rule =>
    intro result hresult warning hwarning
    obtain ⟨below, hbelow, hresult⟩ := bind_eq_ok.1 hresult
    rw [← pure_eq_ok.1 hresult] at hwarning
    rcases List.mem_append.1 hwarning with hw | hw
    · refine templateTexts_shallow ?_ warning hw
      intro warning hwarning
      cases hwarning
    · exact textsFound_shallow hn _ _ below hbelow warning hw
  | weighted rule => exact textsFound_shallow hn _ _
  | conditional rule => exact textsFound_shallow hn _ _
  | static rule => exact hvalues rule.values
  | sequential rule => exact hvalues rule.values

/-- A walk of so many calls inside each other. It leaves a marker below a path at whose length it is
told to stop, and comes to `stuck` where it needs another call. -/
def foundCalling (setting : Setting W) (stops : ℕ → Bool) (stuck : Walk (Found W)) :
    ℕ → List String → String → Walk (Found W)
  | 0, _, _ => stuck
  | calls + 1, visited, name =>
    let nested :=
      if stops visited.length then none else some (foundCalling setting stops stuck calls)
    nameFound setting nested visited name name

variable {stops : ℕ → Bool} {stuck : Walk (Found W)} {visited : List String} {name : String}

/-- The call on a name comes before it is on the path, so one more call is needed than for a
count. -/
theorem foundWithin_eq_foundCalling {room calls : ℕ} (hpath : setting.store.IsPath calls visited)
    (hstops : ∀ below < calls, stops (visited.length + below) = decide (room ≤ below)) :
    foundWithin setting room visited name
      = foundCalling setting stops stuck calls visited name := by
  induction calls generalizing room visited name with
  | zero => exact absurd hpath Store.not_isPath_zero
  | succ calls ih =>
    have hhere : stops visited.length = decide (room ≤ 0) := hstops 0 (Nat.succ_pos calls)
    cases room with
    | zero =>
      have hstop : stops visited.length = true := by simpa using hhere
      rw [foundCalling, if_pos hstop]
      rfl
    | succ room =>
      have hgo : ¬stops visited.length = true := by simp [hhere]
      rw [foundCalling, if_neg hgo, foundWithin]
      simp only [nameFound]
      by_cases hmem : name ∈ visited
      · simp only [if_pos hmem]
      · cases hrule : setting.store.rule? name with
        | none => rfl
        | some rule =>
          have hname : setting.store.hasName name = true := Store.exists_rule?_iff.1 ⟨rule, hrule⟩
          have hstops' : ∀ under < calls,
              stops ((name :: visited).length + under) = decide (room ≤ under) := by
            intro under hunder
            have hnext := hstops (under + 1) (by omega)
            rw [List.length_cons, Nat.add_right_comm, Nat.add_assoc, hnext]
            simp only [Nat.add_le_add_iff_right]
          have hnested : foundWithin setting room (name :: visited)
              = foundCalling setting stops stuck calls (name :: visited) := by
            funext other
            exact ih (hpath.cons hmem hname) hstops'
          simp only [hnested]

section WithLimit

variable {limit : Bound}

omit [Zero W] [One W] [Add W] [Div W] [NatCast W]

theorem segmentsFound_withLimit (segments : List Segment) (found : Found W) :
    segmentsFound (setting.withLimit limit) nested found segments
      = segmentsFound setting nested found segments := by
  induction segments generalizing found with
  | nil => rfl
  | cons segment rest ih =>
    cases segment with
    | literal text => exact ih _
    | token name => simp only [segmentsFound, withLimit_cap, ih]

theorem textsFound_withLimit (texts : List (String × W)) (room : Room) :
    textsFound (setting.withLimit limit) nested room texts
      = textsFound setting nested room texts := by
  induction texts generalizing room with
  | nil => rfl
  | cons entry rest ih =>
    simp only [textsFound, textFound, withLimit_cap, segmentsFound_withLimit, ih]

theorem templateTexts_withLimit [One W] [Div W] [NatCast W] {template : Rule.Template}
    (names : List String) (found : Found W) :
    templateTexts (setting.withLimit limit) template found names
      = templateTexts setting template found names := by
  induction names generalizing found with
  | nil => rfl
  | cons name rest ih => exact ih _

theorem ruleFound_withLimit [Zero W] [One W] [Add W] [Div W] [NatCast W] {shown : String}
    {rule : Rule} :
    ruleFound (setting.withLimit limit) nested shown rule = ruleFound setting nested shown rule := by
  cases rule with
  | function rule => rfl
  | range rule => rfl
  | template rule =>
    simp only [ruleFound, templateTexts_withLimit, textsFound_withLimit, withLimit_cap]
  | conditional rule => exact textsFound_withLimit _ _
  | weighted rule => exact textsFound_withLimit _ _
  | static rule => simp only [ruleFound, textsFound_withLimit, withLimit_cap]
  | sequential rule => simp only [ruleFound, textsFound_withLimit, withLimit_cap]

end WithLimit

/-- A limit is only looked at where a walk stops. -/
theorem foundCalling_withLimit (limit : Bound) (calls : ℕ) :
    foundCalling (setting.withLimit limit) (fun _ => false) stuck calls
      = foundCalling setting (fun _ => false) stuck calls := by
  induction calls with
  | zero => rfl
  | succ calls ih =>
    funext visited name
    simp only [foundCalling, nameFound, ih, Bool.false_eq_true, if_false, ruleFound_withLimit,
      withLimit_store]
    cases setting.store.rule? name <;> rfl

theorem foundCalling_shallow (hstuck : Shallow stuck) (calls : ℕ) (visited : List String)
    (name : String) : Shallow (foundCalling setting (fun _ => false) stuck calls visited name) := by
  induction calls generalizing visited name with
  | zero => exact hstuck
  | succ calls ih =>
    intro result hresult
    simp only [foundCalling, nameFound, Bool.false_eq_true, if_false] at hresult
    by_cases hmem : name ∈ visited
    · rw [if_pos hmem] at hresult
      cases hresult
      intro warning hwarning
      rw [List.mem_singleton.1 hwarning]
      rfl
    · rw [if_neg hmem] at hresult
      cases hrule : setting.store.rule? name with
      | none =>
        rw [hrule] at hresult
        cases hresult
        intro warning hwarning
        rw [List.mem_singleton.1 hwarning]
        rfl
      | some rule =>
        rw [hrule] at hresult
        exact ruleFound_shallow (ih _) rule result hresult

theorem Warning.not_prefix_depth {warning : Warning} (h : warning.isDepth = false) :
    ¬"Maximum depth".toList <+: warning.message.toList := by
  cases warning with
  | tooDeep limit name => cases h
  | circular name =>
    have hmessage : (Warning.circular name).message =
        "Circular reference detected for rule '" ++ name ++ "'" := rfl
    rw [hmessage, String.append_assoc, String.toList_append]
    exact Complexity.not_prefix_append (n := 0) (by decide) (by decide) (by decide)
  | missing name =>
    have hmessage : (Warning.missing name).message =
        "Missing rule '" ++ name ++ "' referenced in expansion" := rfl
    rw [hmessage, String.append_assoc, String.toList_append]
    exact Complexity.not_prefix_append (n := 1) (by decide) (by decide) (by decide)
  | dynamic name =>
    have hmessage : (Warning.dynamic name).message = "Function rule '" ++ name ++
        "' has dynamic outcomes - cannot calculate exact probabilities" := rfl
    rw [hmessage, String.append_assoc, String.toList_append]
    exact Complexity.not_prefix_append (n := 0) (by decide) (by decide) (by decide)
  | openRange name =>
    have hmessage : (Warning.openRange name).message =
        "Range rule '" ++ name ++ "' has no step; continuous ranges are unbounded" := rfl
    rw [hmessage, String.append_assoc, String.toList_append]
    exact Complexity.not_prefix_append (n := 0) (by decide) (by decide) (by decide)
  | truncated cap =>
    have hmessage : (Warning.truncated cap).message =
        "Maximum outcomes (" ++ cap.limit.text ++ ") reached, distribution is truncated" := rfl
    rw [hmessage, String.append_assoc, String.toList_append]
    exact Complexity.not_prefix_append (n := 8) (by decide) (by decide) (by decide)

end Distribution

section Limits

variable {name : String} {limit : Bound}

/-- Whatever the limit, no more calls than there are names are inside each other. -/
theorem Complexity.tallyWithin_calling (setting : Complexity.Setting) {rule : Rule}
    (hname : setting.store.hasName name = true) (stuck : Except NumberFault Complexity.Tally) :
    tallyWithin setting (setting.limit.value - 1).toNat [name] name rule
      = tallyCalling setting (fun depth => setting.limit.value ≤ depth) stuck
          setting.store.names.length [name] name rule := by
  refine tallyWithin_eq_tallyCalling (isPath_singleton hname le_rfl) fun below _ => ?_
  apply decide_eq_decide.2
  rw [List.length_singleton]
  omega

theorem Complexity.tallyWithin_beyond (setting : Complexity.Setting) {rule : Rule}
    (hname : setting.store.hasName name = true)
    (hlimit : setting.store.names.length + 1 ≤ setting.limit.value)
    (stuck : Except NumberFault Complexity.Tally) :
    tallyWithin setting (setting.limit.value - 1).toNat [name] name rule
      = tallyCalling setting (fun _ => false) stuck setting.store.names.length [name] name rule := by
  refine tallyWithin_eq_tallyCalling (isPath_singleton hname le_rfl) fun below hbelow => ?_
  symm
  apply decide_eq_false
  omega

/-- The call on the name itself comes to those below it. -/
theorem Distribution.foundShown_calling (setting : Distribution.Setting Double)
    (stuck : Distribution.Walk (Distribution.Found Double)) :
    foundShown setting name name
      = foundCalling setting (fun depth => setting.limit.value ≤ depth) stuck
          (setting.store.names.length + 1) [] name := by
  rw [foundShown_eq_foundWithin]
  refine foundWithin_eq_foundCalling (Store.isPath_nil (Nat.lt_succ_self _)) fun below _ => ?_
  apply decide_eq_decide.2
  rw [List.length_nil]
  omega

theorem Distribution.foundShown_beyond (setting : Distribution.Setting Double)
    (hlimit : setting.store.names.length + 1 ≤ setting.limit.value)
    (stuck : Distribution.Walk (Distribution.Found Double)) :
    foundShown setting name name
      = foundCalling setting (fun _ => false) stuck (setting.store.names.length + 1) [] name := by
  rw [foundShown_eq_foundWithin]
  refine foundWithin_eq_foundCalling (Store.isPath_nil (Nat.lt_succ_self _)) fun below hbelow => ?_
  symm
  apply decide_eq_false
  omega

/-- Beyond the number of names, a count is the same for all limits. -/
theorem complexityOf_withLimit (setting : Complexity.Setting)
    (hname : setting.store.hasName name = true)
    (hlimit : setting.store.names.length + 1 ≤ setting.limit.value)
    (hlimit' : setting.store.names.length + 1 ≤ limit.value) :
    complexityOf (setting.withLimit limit) [] name = complexityOf setting [] name := by
  obtain ⟨rule, hrule⟩ := Store.exists_rule?_iff.2 hname
  have hcount := complexityOf_of_rule? hrule (by omega)
  have hcount' : complexityOf (setting.withLimit limit) [] name = _ :=
    complexityOf_of_rule? hrule (show 0 < limit.value by omega)
  have htally : Complexity.tallyWithin (setting.withLimit limit)
      ((setting.withLimit limit).limit.value - 1).toNat [name] name rule
        = Complexity.tallyWithin setting (setting.limit.value - 1).toNat [name] name rule := by
    rw [Complexity.tallyWithin_beyond setting hname hlimit (.ok { count := .infinite }),
      Complexity.tallyWithin_beyond (setting.withLimit limit) hname hlimit'
        (.ok { count := .infinite }), Complexity.tallyCalling_withLimit]
    rfl
  rw [hcount, hcount', htally]

theorem complexityOf_shallow (setting : Complexity.Setting) {complexity : RuleComplexity}
    (hname : setting.store.hasName name = true)
    (hlimit : setting.store.names.length + 1 ≤ setting.limit.value)
    (h : complexityOf setting [] name = .ok complexity) :
    ∀ warning ∈ complexity.warnings, warning.isDepth = false := by
  obtain ⟨rule, tally, -, htally, -, hwarnings⟩ := exists_tally_of_complexityOf (by omega) h
  have hstuck : Complexity.Shallow (.ok { count := .infinite }) := by
    rintro tally ⟨⟩ warning hwarning
    cases hwarning
  rw [Complexity.tallyWithin_beyond setting hname hlimit (.ok { count := .infinite })] at htally
  rw [hwarnings]
  exact Complexity.tallyCalling_shallow hstuck _ _ _ _ tally htally

theorem Distribution.ofRule_withLimit (setting : Distribution.Setting Double)
    (hlimit : setting.store.names.length + 1 ≤ setting.limit.value)
    (hlimit' : setting.store.names.length + 1 ≤ limit.value) (mergeOutcomes : Bool) :
    ofRule (setting.withLimit limit) mergeOutcomes name = ofRule setting mergeOutcomes name := by
  have hfound : foundShown (setting.withLimit limit) name name = foundShown setting name name := by
    rw [foundShown_beyond setting hlimit (.ok { outcomes := [] }),
      foundShown_beyond (setting.withLimit limit) hlimit' (.ok { outcomes := [] }),
      foundCalling_withLimit, withLimit_store]
  simp only [ofRule, ofRuleShown, reportedShown, withLimit_store, hfound]

theorem Distribution.foundShown_shallow (setting : Distribution.Setting Double)
    (hlimit : setting.store.names.length + 1 ≤ setting.limit.value) :
    Shallow (foundShown setting name name) := by
  rw [foundShown_beyond setting hlimit (.ok { outcomes := [] })]
  apply foundCalling_shallow
  rintro found ⟨⟩ warning hwarning
  cases hwarning

/-- The messages of a distribution are those of the walk. -/
theorem Distribution.messages_shallow (setting : Distribution.Setting Double)
    {mergeOutcomes : Bool} {distribution : Distribution}
    (hlimit : setting.store.names.length + 1 ≤ setting.limit.value)
    (h : ofRule setting mergeOutcomes name = .ok distribution) :
    ∀ message ∈ distribution.messages, ¬"Maximum depth".toList <+: message.toList := by
  obtain ⟨reported, hreported, h⟩ := bind_eq_ok.1 h
  obtain rfl := pure_eq_ok.1 h
  intro message hmessage
  obtain ⟨warning, hwarning, rfl⟩ := List.mem_map.1 (List.mem_eraseDups.1 hmessage)
  apply Warning.not_prefix_depth
  rw [reportedShown] at hreported
  split at hreported
  · cases hreported
  · obtain ⟨found, hfound, hreported⟩ := bind_eq_ok.1 hreported
    obtain rfl := pure_eq_ok.1 hreported
    exact foundShown_shallow setting hlimit found hfound warning hwarning

end Limits

/-- A limit beyond the number of names is never met: neither a count nor the outcomes depend on it,
and no warning and no marker is about depth. Whatever the limit is, the calls inside each other are
on different names, so that no further call is ever needed. -/
theorem limit_beyond_names {store : Store} {name : String} (hname : store.hasName name = true)
    (openRangesInfinite : Bool) :
    (∀ limit : Bound, store.names.length + 1 ≤ limit.value →
      complexityOf ⟨store, limit, openRangesInfinite⟩ [] name
          = complexityOf ⟨store, .ofInt (store.names.length + 1), openRangesInfinite⟩ [] name ∧
        (∀ complexity, complexityOf ⟨store, limit, openRangesInfinite⟩ [] name = .ok complexity →
          ∀ warning ∈ complexity.warnings,
            ¬"Maximum depth".toList <+: warning.message.toList) ∧
        ∀ cap mergeOutcomes,
          Distribution.ofRule (.capped store limit cap openRangesInfinite) mergeOutcomes name
              = Distribution.ofRule
                (.capped store (.ofInt (store.names.length + 1)) cap openRangesInfinite)
                mergeOutcomes name ∧
            (∀ distribution,
              Distribution.ofRule (.capped store limit cap openRangesInfinite) mergeOutcomes name
                  = .ok distribution →
                ∀ message ∈ distribution.messages, ¬"Maximum depth".toList <+: message.toList) ∧
            ∀ stuck,
              Distribution.foundShown (.capped store limit cap openRangesInfinite) name name
                = Distribution.foundCalling (.capped store limit cap openRangesInfinite)
                  (fun _ => false) stuck (store.names.length + 1) [] name) ∧
      ∀ limit : Bound,
        (∀ rule stuck,
          Complexity.tallyWithin ⟨store, limit, openRangesInfinite⟩ (limit.value - 1).toNat [name]
              name rule
            = Complexity.tallyCalling ⟨store, limit, openRangesInfinite⟩
              (fun depth => limit.value ≤ depth) stuck store.names.length [name] name rule) ∧
          ∀ cap stuck,
            Distribution.foundShown (.capped store limit cap openRangesInfinite) name name
              = Distribution.foundCalling (.capped store limit cap openRangesInfinite)
                (fun depth => limit.value ≤ depth) stuck (store.names.length + 1) [] name := by
  refine ⟨fun limit hlimit => ⟨?_, ?_, fun cap mergeOutcomes => ⟨?_, ?_, ?_⟩⟩, fun limit => ⟨?_, ?_⟩⟩
  · exact (complexityOf_withLimit ⟨store, limit, openRangesInfinite⟩ hname hlimit le_rfl).symm
  · intro complexity hcomplexity warning hwarning
    apply Complexity.Warning.not_prefix_depth
    exact complexityOf_shallow ⟨store, limit, openRangesInfinite⟩ hname hlimit hcomplexity warning
      hwarning
  · symm
    exact Distribution.ofRule_withLimit (.capped store limit cap openRangesInfinite) hlimit le_rfl
      mergeOutcomes
  · intro distribution hdistribution
    exact Distribution.messages_shallow (.capped store limit cap openRangesInfinite) hlimit
      hdistribution
  · intro stuck
    exact Distribution.foundShown_beyond (.capped store limit cap openRangesInfinite) hlimit stuck
  · intro rule stuck
    exact Complexity.tallyWithin_calling ⟨store, limit, openRangesInfinite⟩ hname stuck
  · intro cap stuck
    exact Distribution.foundShown_calling (.capped store limit cap openRangesInfinite) stuck

theorem limit_beyond_tangledStore : tangledStore.hasName "a" = true ∧
    complexityOf ⟨tangledStore, 1000, false⟩ [] "a" = complexityOf tangledSetting [] "a" ∧
      Distribution.ofRule (.capped tangledStore 1000 100 false) true "a"
        = Distribution.ofRule (.capped tangledStore 3 100 false) true "a" := by
  have hname : tangledStore.hasName "a" = true := by decide
  have hlength : tangledStore.names.length = 2 := by decide
  have hlimit : (tangledStore.names.length : Int) + 1 ≤ (1000 : Bound).value := by
    rw [hlength]
    decide
  have hthree : Bound.ofInt (tangledStore.names.length + 1) = 3 := by
    rw [hlength]
    rfl
  obtain ⟨hcount, -, hwalk⟩ := (limit_beyond_names hname false).1 1000 hlimit
  obtain ⟨hdistribution, -⟩ := hwalk 100 true
  rw [hthree] at hcount hdistribution
  exact ⟨hname, hcount, hdistribution⟩

end TextGrammar
