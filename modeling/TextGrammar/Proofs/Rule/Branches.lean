import TextGrammar.Proofs.Rule.Accepted

/-! Which branch of a conditional rule is drawn from: the first whose test holds, or the default. -/
namespace TextGrammar

namespace Branch

/-- The test of a branch, with the values that it stands before. -/
def given? : Branch → Option (Predicate × List String)
  | given test values => some (test, values)
  | otherwise _ => none

/-- The values of a default branch. -/
def fallback? : Branch → Option (List String)
  | given .. => none
  | otherwise values => some values

end Branch

/-- What a test settles: its values if it holds, its failure if it fails, and nothing if it does not
hold. -/
def settled? (scope : Scope) (given : Predicate × List String) :
    Option (Except Failure (List String)) :=
  match given.1 scope with
  | .error failure => some (.error failure)
  | .ok true => some (.ok given.2)
  | .ok false => none

/-- The tests are asked in order. Only if they settle nothing do the default branches count, and of
these the last one. -/
theorem selectBranch_eq (name : String) (scope : Scope) (fallback : Option (List String))
    (branches : List Branch) :
    selectBranch name scope fallback branches =
      match (branches.filterMap Branch.given?).findSome? (settled? scope) with
      | some result => result
      | none =>
        match (branches.filterMap Branch.fallback?).getLast?.or fallback with
        | some values => .ok values
        | none => .error (.noBranch name) := by
  induction branches generalizing fallback with
  | nil => cases fallback <;> rfl
  | cons branch rest ih =>
    cases branch with
    | otherwise values =>
      have hlast : (values :: rest.filterMap Branch.fallback?).getLast?.or fallback =
          (rest.filterMap Branch.fallback?).getLast?.or (some values) := by
        cases rest.filterMap Branch.fallback? with
        | nil => rfl
        | cons => simp [List.getLast?_cons]
      have hnext : selectBranch name scope fallback (.otherwise values :: rest) =
          selectBranch name scope (some values) rest := by
        cases fallback <;> rfl
      simp only [hnext, ih, List.filterMap_cons, Branch.given?, Branch.fallback?, hlast]
    | given test values =>
      have hnext : selectBranch name scope fallback (.given test values :: rest) =
          match test scope with
          | .error failure => .error failure
          | .ok true => .ok values
          | .ok false => selectBranch name scope fallback rest := by
        cases fallback <;> rfl
      simp only [hnext, ih, List.filterMap_cons, Branch.given?, Branch.fallback?, List.findSome?_cons,
        settled?]
      rcases test scope with failure | _ | _
      · rfl
      · rfl
      · rfl

namespace Rule.Conditional

variable {rule other : Rule.Conditional} {name : String} {scope : Scope} {source : Source}
  {test : Predicate} {values : List String} {before after : List (Predicate × List String)}

/-- The tests in order of declaration, with the values that they stand before. -/
def tests (rule : Rule.Conditional) : List (Predicate × List String) :=
  rule.branches.filterMap Branch.given?

def fallbacks (rule : Rule.Conditional) : List (List String) :=
  rule.branches.filterMap Branch.fallback?

/-- None of the tests holds or fails. -/
def NoneHolds (scope : Scope) (tests : List (Predicate × List String)) : Prop :=
  ∀ given ∈ tests, given.1 scope = .ok false

theorem NoneHolds.findSome? (h : NoneHolds scope before) : before.findSome? (settled? scope) = none := by
  refine List.findSome?_eq_none_iff.2 fun given hgiven => ?_
  rw [settled?, h given hgiven]

/-- The tests and the default branches decide how a draw goes, not how they are mixed. -/
theorem draw_congr (htests : other.tests = rule.tests)
    (hfallbacks : other.fallbacks.getLast? = rule.fallbacks.getLast?) :
    (other.draw name scope source).1 = (rule.draw name scope source).1 ∧
      (other.draw name scope source).2.2 = (rule.draw name scope source).2.2 := by
  have hselect : selectBranch name scope none other.branches =
      selectBranch name scope none rule.branches := by
    rw [selectBranch_eq, selectBranch_eq]
    rw [tests] at htests
    rw [fallbacks] at hfallbacks
    rw [htests, hfallbacks, tests, fallbacks]
  simp only [draw, hselect]
  split
  · exact ⟨rfl, rfl⟩
  · exact ⟨rfl, rfl⟩

theorem draw_of_ok (h : selectBranch name scope none rule.branches = .ok values) :
    rule.draw name scope source = chosen rule values source := by
  rw [draw, h]

theorem draw_of_error {failure : Failure}
    (h : selectBranch name scope none rule.branches = .error failure) :
    rule.draw name scope source = (.error failure, rule, source) := by
  rw [draw, h]

/-- How a conditional rule draws, in all cases that there are. -/
structure Selects (rule : Rule.Conditional) (name : String) (scope : Scope) (source : Source) :
    Prop where
  /-- One draw from the values of the first test that holds. -/
  holds {before after : List (Predicate × List String)} {test : Predicate} {values : List String} :
    rule.tests = before ++ (test, values) :: after → NoneHolds scope before →
      test scope = .ok true → rule.draw name scope source = chosen rule values source
  /-- The failure of a test that fails before any holds, and no draw. -/
  raises {before after : List (Predicate × List String)} {test : Predicate} {values : List String}
      {failure : Failure} :
    rule.tests = before ++ (test, values) :: after → NoneHolds scope before →
      test scope = .error failure → rule.draw name scope source = (.error failure, rule, source)
  /-- One draw from the values of the default branch if no test holds. -/
  fallback {values : List String} :
    NoneHolds scope rule.tests → .otherwise values ∈ rule.branches →
      rule.draw name scope source = chosen rule values source
  nothing :
    NoneHolds scope rule.tests → (∀ values, .otherwise values ∉ rule.branches) →
      rule.draw name scope source = (.error (.noBranch name), rule, source)
  /-- Branches after one whose test holds may be any others: their tests are not asked. -/
  unasked {before after : List Branch} {test : Predicate} {values : List String} :
    rule.branches = before ++ .given test values :: after → test scope = .ok true →
      ∀ later, (draw { branches := before ++ .given test values :: later } name scope source).1 =
          (rule.draw name scope source).1 ∧
        (draw { branches := before ++ .given test values :: later } name scope source).2.2 =
          (rule.draw name scope source).2.2

theorem selectBranch_of_noneHolds (h : NoneHolds scope rule.tests) :
    selectBranch name scope none rule.branches =
      match rule.fallbacks.getLast? with
      | some values => .ok values
      | none => .error (.noBranch name) := by
  rw [selectBranch_eq]
  rw [tests] at h
  rw [h.findSome?, Option.or_none, fallbacks]

/-- The first test that does not just fail to hold settles which values are drawn from. -/
theorem selectBranch_of_settled {result : Except Failure (List String)}
    (htests : rule.tests = before ++ (test, values) :: after) (hbefore : NoneHolds scope before)
    (hsettled : settled? scope (test, values) = some result) :
    selectBranch name scope none rule.branches = result := by
  rw [tests] at htests
  rw [selectBranch_eq, htests, List.findSome?_append, hbefore.findSome?, Option.none_or,
    List.findSome?_cons, hsettled]

theorem mem_fallbacks : values ∈ rule.fallbacks ↔ .otherwise values ∈ rule.branches := by
  rw [fallbacks, List.mem_filterMap]
  constructor
  · rintro ⟨branch, hmem, hvalues⟩
    cases branch with
    | given => cases hvalues
    | otherwise => cases hvalues; exact hmem
  · intro hmem
    exact ⟨_, hmem, rfl⟩

theorem length_fallbacks (branches : List Branch) :
    (branches.filterMap Branch.fallback?).length = (branches.filter Branch.isOtherwise).length := by
  induction branches with
  | nil => rfl
  | cons branch rest ih =>
    cases branch with
    | given => exact ih
    | otherwise => exact congrArg (· + 1) ih

/-- There is no second default branch. -/
theorem fallbacks_of_mem (h : (Rule.conditional rule).Accepted)
    (hmem : .otherwise values ∈ rule.branches) : rule.fallbacks = [values] := by
  have hlength : rule.fallbacks.length ≤ 1 := (length_fallbacks rule.branches).trans_le h.2.2
  have hvalues := mem_fallbacks.2 hmem
  match hlist : rule.fallbacks with
  | [] =>
    rw [hlist] at hvalues
    cases hvalues
  | [only] =>
    rw [hlist] at hvalues
    rw [List.mem_singleton.1 hvalues]
  | _ :: _ :: _ =>
    rw [hlist] at hlength
    simp at hlength

theorem selects (h : (Rule.conditional rule).Accepted) (name : String) (scope : Scope)
    (source : Source) : rule.Selects name scope source where
  holds htests hbefore htest :=
    draw_of_ok (selectBranch_of_settled htests hbefore (by simp only [settled?, htest]))
  raises htests hbefore htest :=
    draw_of_error (selectBranch_of_settled htests hbefore (by simp only [settled?, htest]))
  fallback hnone hmem := by
    refine draw_of_ok ?_
    rw [selectBranch_of_noneHolds hnone, fallbacks_of_mem h hmem]
    rfl
  nothing hnone hmem := by
    have hempty : rule.fallbacks = [] :=
      List.eq_nil_iff_forall_not_mem.2 fun values hvalues => hmem values (mem_fallbacks.1 hvalues)
    refine draw_of_error ?_
    rw [selectBranch_of_noneHolds hnone, hempty]
    rfl
  unasked {before after test values} hbranches htest later := by
    have hselect (rest : List Branch) :
        selectBranch name scope none (before ++ .given test values :: rest) =
          (((before.filterMap Branch.given?).findSome? (settled? scope)).getD (.ok values)) := by
      rw [selectBranch_eq, List.filterMap_append, List.findSome?_append]
      simp only [List.filterMap_cons, Branch.given?, List.findSome?_cons, settled?, htest]
      cases (before.filterMap Branch.given?).findSome? (settled? scope) <;> rfl
    simp only [draw, hbranches, hselect]
    split
    · exact ⟨rfl, rfl⟩
    · exact ⟨rfl, rfl⟩

end Rule.Conditional

/-- After a default branch the others are read as they are before it, and no second one is taken. -/
theorem Branch.define_true_eq_ok_iff {test values fallback : Datum} {branch : Branch} :
    Branch.define true test values fallback = .ok branch ↔
      Branch.define false test values fallback = .ok branch ∧ branch.isOtherwise = false := by
  simp only [Branch.define]
  split
  · simp
  · simp only [if_true, Bool.false_eq_true, if_false, reduceCtorEq, false_iff, not_and,
      Bool.not_eq_false]
    intro h
    obtain ⟨texts, -, h⟩ := bind_eq_ok.1 h
    rw [← pure_eq_ok.1 h]
    rfl
  · simp
  · simp
  · split
    · refine ⟨fun h => ⟨h, ?_⟩, And.left⟩
      obtain ⟨texts, -, h⟩ := bind_eq_ok.1 h
      rw [← pure_eq_ok.1 h]
      rfl
    · simp
  · simp

theorem Branch.ofDatum_eq_ok_iff {seen : Bool} {item : Datum} {branch : Branch} :
    Branch.ofDatum seen item = .ok branch ↔
      Branch.ofDatum false item = .ok branch ∧ (branch.isOtherwise = true → seen = false) := by
  cases seen with
  | false => simp
  | true =>
    rw [Bool.true_eq_false, imp_false, Bool.not_eq_true]
    cases item with
    | mapping | branch => exact Branch.define_true_eq_ok_iff
    | _ => simp [Branch.ofDatum]

theorem length_filter_isOtherwise_cons_le {seen : Bool} {branch : Branch} {rest : List Branch} :
    ((branch :: rest).filter Branch.isOtherwise).length ≤ (if seen then 0 else 1) ↔
      (branch.isOtherwise = true → seen = false) ∧
        (rest.filter Branch.isOtherwise).length ≤ (if seen || branch.isOtherwise then 0 else 1) := by
  cases hbranch : branch.isOtherwise <;> cases seen <;> simp [hbranch]

/-- The branches are read one by one, and no more than one of them is a default branch. -/
theorem branchList_eq_ok_iff {seen : Bool} {items : List Datum} {branches : List Branch} :
    branchList seen items = .ok branches ↔
      items.mapM (Branch.ofDatum false) = .ok branches ∧
        (branches.filter Branch.isOtherwise).length ≤ (if seen then 0 else 1) := by
  induction items generalizing seen branches with
  | nil =>
    rw [branchList, List.mapM_nil, pure_eq_ok, Except.ok.injEq]
    refine ⟨?_, And.left⟩
    rintro rfl
    exact ⟨rfl, Nat.zero_le _⟩
  | cons item rest ih =>
    rw [branchList, List.mapM_cons, bind_eq_ok, bind_eq_ok]
    constructor
    · rintro ⟨branch, hbranch, h⟩
      obtain ⟨others, hothers, h⟩ := bind_eq_ok.1 h
      obtain ⟨hread, hseen⟩ := Branch.ofDatum_eq_ok_iff.1 hbranch
      obtain ⟨hrest, hcount⟩ := ih.1 hothers
      obtain rfl := pure_eq_ok.1 h
      exact ⟨⟨branch, hread, bind_eq_ok.2 ⟨others, hrest, rfl⟩⟩,
        length_filter_isOtherwise_cons_le.2 ⟨hseen, hcount⟩⟩
    · rintro ⟨⟨branch, hread, h⟩, hlength⟩
      obtain ⟨others, hrest, h⟩ := bind_eq_ok.1 h
      obtain rfl := pure_eq_ok.1 h
      obtain ⟨hseen, hcount⟩ := length_filter_isOtherwise_cons_le.1 hlength
      exact ⟨branch, Branch.ofDatum_eq_ok_iff.2 ⟨hread, hseen⟩,
        bind_eq_ok.2 ⟨others, ih.2 ⟨hrest, hcount⟩, rfl⟩⟩

namespace Rule.Conditional

theorem define_eq_ok_iff {branches : Datum} {items : List Datum}
    (hitems : branches.listItems? = some items) :
    define branches = .ok rule ↔ items ≠ [] ∧ branchList false items = .ok rule.branches := by
  cases items with
  | nil =>
    rw [define, hitems]
    refine iff_of_false ?_ fun h => h.1 rfl
    rintro ⟨⟩
  | cons item rest =>
    have hdefine : define branches = (do
        return { branches := ← branchList false (item :: rest) } : Except Failure Rule.Conditional) := by
      rw [define, hitems]
    rw [hdefine, bind_eq_ok]
    refine ⟨?_, fun h => ⟨_, h.2, rfl⟩⟩
    rintro ⟨branches, hbranches, h⟩
    obtain rfl := pure_eq_ok.1 h
    exact ⟨List.cons_ne_nil _ _, hbranches⟩

section Moved

variable {branches movedBranches : Datum} {before after before' after' : List Datum} {item : Datum}
  {values : List String}

/-- A default branch may be anywhere among the others: it is read wherever it stands. -/
theorem exists_define_moved (h : define branches = .ok rule)
    (hitems : branches.listItems? = some (before ++ item :: after))
    (hitem : Branch.ofDatum false item = .ok (.otherwise values))
    (hothers : before' ++ after' = before ++ after)
    (hmoved : movedBranches.listItems? = some (before' ++ item :: after')) :
    ∃ moved, define movedBranches = .ok moved ∧
      moved.tests = rule.tests ∧ moved.fallbacks = rule.fallbacks := by
  obtain ⟨hread, hcount⟩ := branchList_eq_ok_iff.1 ((define_eq_ok_iff hitems).1 h).2
  obtain ⟨first, second, hfirst, hsecond, hbranches⟩ := mapM_append_eq_ok.1 hread
  obtain ⟨branch, last, hbranch, hlast, rfl⟩ := mapM_cons_eq_ok.1 hsecond
  obtain rfl : branch = .otherwise values := Except.ok.inj (hbranch.symm.trans hitem)
  have hrest : (before' ++ after').mapM (Branch.ofDatum false) = .ok (first ++ last) := by
    rw [hothers]
    exact mapM_append_eq_ok.2 ⟨first, last, hfirst, hlast, rfl⟩
  obtain ⟨first', last', hfirst', hlast', hsame⟩ := mapM_append_eq_ok.1 hrest
  let moved : Rule.Conditional := { branches := first' ++ .otherwise values :: last' }
  have hdefine : define movedBranches = .ok moved := by
    refine (define_eq_ok_iff hmoved).2 ⟨by simp, branchList_eq_ok_iff.2 ⟨?_, ?_⟩⟩
    · have hsecond' : (item :: after').mapM (Branch.ofDatum false) = .ok (.otherwise values :: last') :=
        mapM_cons_eq_ok.2 ⟨_, last', hitem, hlast', rfl⟩
      exact mapM_append_eq_ok.2 ⟨first', _, hfirst', hsecond', rfl⟩
    · have hlength := congrArg (fun branches => (branches.filter Branch.isOtherwise).length) hsame
      rw [hbranches] at hcount
      simp only [List.filter_append, List.length_append, List.filter_cons, moved] at hlength hcount ⊢
      simp only [Branch.isOtherwise, if_true, List.length_cons] at hcount ⊢
      omega
  refine ⟨moved, hdefine, ?_, ?_⟩
  · have htests := congrArg (List.filterMap Branch.given?) hsame
    simp only [List.filterMap_append] at htests
    simp only [tests, hbranches, moved, List.filterMap_append, List.filterMap_cons, Branch.given?,
      htests]
  · have hfallback {other : Rule.Conditional} {items : Datum} (hother : define items = .ok other)
        (hmem : .otherwise values ∈ other.branches) : other.fallbacks = [values] :=
      fallbacks_of_mem (accepted_of_define hother) hmem
    rw [hfallback h (by simp [hbranches]), hfallback hdefine (by simp [moved])]

end Moved

/-- A rule that is defined draws from the first branch whose test holds, or else from its default
branch, and the default branch may just as well stand anywhere else among the branches. -/
theorem selects_of_define {branches : Datum} (h : define branches = .ok rule) :
    (∀ name scope source, rule.Selects name scope source) ∧
    ∀ before item after before' after' values movedBranches,
      branches.listItems? = some (before ++ item :: after) →
      Branch.ofDatum false item = .ok (.otherwise values) → before' ++ after' = before ++ after →
      movedBranches.listItems? = some (before' ++ item :: after') →
        ∃ moved, define movedBranches = .ok moved ∧
          ∀ name scope source,
            (moved.draw name scope source).1 = (rule.draw name scope source).1 ∧
            (moved.draw name scope source).2.2 = (rule.draw name scope source).2.2 := by
  refine ⟨selects (accepted_of_define h), ?_⟩
  intro before item after before' after' values movedBranches hitems hitem hothers hlist
  obtain ⟨moved, hdefine, htests, hfallbacks⟩ := exists_define_moved h hitems hitem hothers hlist
  refine ⟨moved, hdefine, fun name scope source => ?_⟩
  exact draw_congr htests (by rw [hfallbacks])

def isStormy : Predicate
  | .run values => .ok (values.get? "sky" == some "storm")
  | .other _ => .ok false

def calmItem : Datum := .branch .nothing .nothing (.list [.text "a calm day"])

/-- A test of the context, and one that fails whenever it is asked. -/
def stormItems : List Datum :=
  [.branch (.function (.predicate isStormy)) (.list [.text "a gale"]) .nothing,
    .branch (.function (.predicate fun _ => .error (.noBranch "wind"))) (.list [.text "a breeze"])
      .nothing]

def stormRule : Rule.Conditional where
  branches := [.otherwise ["a calm day"], .given isStormy ["a gale"],
    .given (fun _ => .error (.noBranch "wind")) ["a breeze"]]

/-- In a storm the test that fails is not asked, with the default branch first or last. -/
theorem selects_stormRule :
    define (.list (calmItem :: stormItems)) = .ok stormRule ∧
    (∀ source, stormRule.draw "weather" (.run ⟨[("sky", "storm")]⟩) source =
      chosen stormRule ["a gale"] source) ∧
    (∀ source, stormRule.draw "weather" (.run ∅) source =
      (.error (.noBranch "wind"), stormRule, source)) ∧
    ∃ moved, define (.list (stormItems ++ [calmItem])) = .ok moved ∧
      ∀ name scope source,
        (moved.draw name scope source).1 = (stormRule.draw name scope source).1 ∧
        (moved.draw name scope source).2.2 = (stormRule.draw name scope source).2.2 := by
  have hdefine : define (.list (calmItem :: stormItems)) = .ok stormRule := rfl
  obtain ⟨hselects, hmoved⟩ := selects_of_define hdefine
  refine ⟨hdefine, fun source => ?_, fun source => ?_, ?_⟩
  · have htests : stormRule.tests = [] ++ (isStormy, ["a gale"]) :: stormRule.tests.tail := rfl
    refine (hselects _ _ source).holds htests ?_ rfl
    rintro given ⟨⟩
  · have htests : stormRule.tests = [(isStormy, ["a gale"])] ++ _ :: [] := rfl
    refine (hselects _ _ source).raises htests ?_ rfl
    intro given hgiven
    rw [List.mem_singleton.1 hgiven]
    rfl
  · exact hmoved [] calmItem stormItems stormItems [] _ _ rfl rfl (List.append_nil _) rfl

end Rule.Conditional

end TextGrammar
