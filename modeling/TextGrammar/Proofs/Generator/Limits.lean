import TextGrammar.Proofs.Expansion.Depth
import TextGrammar.Proofs.Generator.Attempts
import TextGrammar.Proofs.Number.Share

/-! Limits of attempts: they get smaller from one above the minimum, and may grow from below it. -/
namespace TextGrammar

/-- Settings in numbers: the limit is reduced by a factor, and to a minimum that allows a text. -/
structure RetrySettings.IsNumeric (retry : RetrySettings) (least : Int) (factor : Amount) : Prop where
  minDepth : retry.minDepth = .number (.whole least)
  depthReduction : retry.depthReduction = .number factor
  least_pos : 1 ≤ least

/-- The settings that are not set otherwise. -/
theorem RetrySettings.isNumeric_default :
    ({} : RetrySettings).IsNumeric 10 (.real (.ofQuotient false 7 10)) :=
  ⟨rfl, rfl, by decide⟩

namespace Generator

section Limit

variable {retry : RetrySettings} {least depth : Int} {factor : Amount}

/-- The next limit is a part of the present one or the minimum, whichever is more. -/
theorem reducedDepth_eq (hretry : retry.IsNumeric least factor) (depth : Int) :
    reducedDepth retry depth = do
      let reduced ← (Data.number factor : Value).timesToInteger depth
      let () ← (if least < reduced then (Amount.checkWritable reduced).mapError .number else .ok ())
      return max least reduced := by
  have hok {n : Int} (hn : 1 ≤ n) : checkDepth (.number (.whole n) : Value) = .ok n :=
    checkDepth_eq_ok.2 ⟨rfl, hn⟩
  have hleast := hretry.least_pos
  rw [reducedDepth, hretry.minDepth, hretry.depthReduction]
  refine bind_congr fun reduced => ?_
  change (if (Amount.whole least).lt (.whole reduced) = true then _ else _) = _
  simp only [Amount.lt_whole, decide_eq_true_eq]
  by_cases hmore : least < reduced
  · rw [if_pos hmore, if_pos hmore, hok (by omega), max_eq_right hmore.le]
    rfl
  · rw [if_neg hmore, if_neg hmore, hok hleast, max_eq_left (not_lt.1 hmore)]
    rfl

theorem reducedDepth_eq_ok (hretry : retry.IsNumeric least factor) {next : Int}
    (h : reducedDepth retry depth = .ok next) :
    ∃ reduced, (Data.number factor : Value).timesToInteger depth = .ok reduced ∧
      next = max least reduced := by
  rw [reducedDepth_eq hretry] at h
  obtain ⟨reduced, hreduced, h⟩ := bind_eq_ok.1 h
  obtain ⟨⟨⟩, -, h⟩ := bind_eq_ok.1 h
  exact ⟨reduced, hreduced, (pure_eq_ok.1 h).symm⟩

end Limit

/-- Under a larger limit a text comes to the same. -/
theorem parseText_settles {keepContext : Bool} {prompt : Prompt} {generator after : Generator}
    {value : Value} {depth : Int} (hdepth : generator.maxDepth ≤ depth)
    (h : parseText keepContext prompt generator = (.ok value, after)) :
    parseText keepContext prompt { generator with maxDepth := depth } =
      (.ok value, { after with maxDepth := depth }) := by
  have hsettles := Engine.expand_settles hdepth generator.stackRoom keepContext prompt.text
    generator.engine
  simp only [parseText, expandText] at h ⊢
  rcases hrun : generator.engine.expand generator.stackRoom generator.maxDepth keepContext
    prompt.text with ⟨failure | expanded, engine⟩
  · rw [hrun] at h
    cases (Prod.ext_iff.1 h).1
  · rw [hrun] at h hsettles
    have hnot : ¬ Engine.IsTooDeep (Except.ok expanded, engine) := by
      rintro ⟨limit, hlimit⟩
      cases hlimit
    obtain ⟨hvalue, rfl⟩ := Prod.ext_iff.1 h
    rw [hsettles hnot]
    exact Prod.ext hvalue rfl

theorem parse_settles {text : Datum} {keepContext : Bool} {generator after : Generator}
    {value : Value} {depth : Int} (hdepth : generator.maxDepth ≤ depth)
    (h : parse text keepContext generator = (.ok value, after)) :
    parse text keepContext { generator with maxDepth := depth } =
      (.ok value, { after with maxDepth := depth }) := by
  rw [parse, check_bind] at h ⊢
  cases hprompt : checkText text with
  | error failure =>
    rw [hprompt] at h
    cases (Prod.ext_iff.1 h).1
  | ok prompt =>
    rw [hprompt] at h
    exact parseText_settles hdepth h

/-- The limits that attempts ran under, and that of the next one. -/
def limits (tried : List FailedAttempt) (current : Generator) : List Int :=
  tried.map (·.depth) ++ [current.maxDepth]

section Limits

variable {text : Datum} {keepContext : Bool} {start current : Generator}
  {tried : List FailedAttempt} {least : Int} {factor : Amount}

theorem Retried.retry (h : Retried text keepContext start tried current) :
    current.retry = start.retry := by
  induction h with
  | first => rfl
  | again htried hparse hfailure hnext ih =>
    have hafter := (retry_of_configuration (configuration_parse hparse)).trans ih
    rcases afterFailure_eq_ok hnext with ⟨limit, depth, -, -, rfl⟩ | ⟨-, rfl⟩
    · exact hafter
    · exact hafter

/-- A share of a limit is not above it, so the limit only grows up to the minimum. -/
theorem reducedDepth_le {retry : RetrySettings} (hretry : retry.IsNumeric least factor)
    (hshare : factor.IsShare) {depth next : Int} (hdepth : 1 ≤ depth) (hexact : depth ≤ 2 ^ 53)
    (h : reducedDepth retry depth = .ok next) : next ≤ max least depth := by
  obtain ⟨reduced, hreduced, rfl⟩ := reducedDepth_eq_ok hretry h
  obtain ⟨n, rfl⟩ : ∃ n : ℕ, depth = n := ⟨depth.toNat, by omega⟩
  obtain ⟨k, hk, hpart⟩ := Data.exists_share hshare (by exact_mod_cast hexact : n ≤ 2 ^ 53)
  obtain rfl : (k : Int) = reduced := Except.ok.inj (hpart.symm.trans hreduced)
  omega

theorem maxDepth_afterFailure {failure : Failure} {generator next : Generator}
    (hretry : generator.retry.IsNumeric least factor) (hshare : factor.IsShare)
    (hleast : least ≤ generator.maxDepth) (hexact : generator.maxDepth ≤ 2 ^ 53)
    (h : generator.afterFailure failure = .ok next) :
    least ≤ next.maxDepth ∧ next.maxDepth ≤ generator.maxDepth := by
  rcases afterFailure_eq_ok h with ⟨limit, depth, -, hdepth, rfl⟩ | ⟨-, rfl⟩
  · have hpos := hretry.least_pos
    have hle := reducedDepth_le hretry hshare (by omega) hexact hdepth
    obtain ⟨reduced, -, rfl⟩ := reducedDepth_eq_ok hretry hdepth
    dsimp only
    omega
  · exact ⟨hleast, le_rfl⟩

theorem limits_again (failure : Failure) (next : Generator) :
    limits (tried ++ [⟨current.maxDepth, failure⟩]) next =
      limits tried current ++ [next.maxDepth] := by
  simp [limits]

theorem maxDepth_le_of_mem_limits (h : (limits tried current).Pairwise (· ≥ ·)) {limit : Int}
    (hlimit : limit ∈ limits tried current) : current.maxDepth ≤ limit := by
  obtain ⟨-, -, hlast⟩ := List.pairwise_append.1 h
  rcases List.mem_append.1 hlimit with hbefore | hnow
  · exact hlast limit hbefore _ (List.mem_singleton_self _)
  · exact (List.mem_singleton.1 hnow).ge

/-- From a limit that is not below the minimum on, limits only get smaller. -/
theorem Retried.limits_pairwise (hretry : start.retry.IsNumeric least factor)
    (hshare : factor.IsShare) (hleast : least ≤ start.maxDepth) (hexact : start.maxDepth ≤ 2 ^ 53)
    (h : Retried text keepContext start tried current) :
    least ≤ current.maxDepth ∧ (limits tried current).head? = some start.maxDepth ∧
      (limits tried current).Pairwise (· ≥ ·) := by
  induction h with
  | first => exact ⟨hleast, rfl, List.pairwise_singleton _ _⟩
  | @again tried current after next failure htried hparse hfailure hnext ih =>
    obtain ⟨hcurrent, hhead, hpairwise⟩ := ih
    have hstart := maxDepth_le_of_mem_limits hpairwise (List.mem_of_mem_head? hhead)
    have hafter := configuration_parse hparse
    have hdepth := maxDepth_of_configuration hafter
    rw [← htried.retry, ← retry_of_configuration hafter] at hretry
    obtain ⟨hnextleast, hnextle⟩ :=
      maxDepth_afterFailure hretry hshare (by omega) (by omega) hnext
    rw [limits_again]
    refine ⟨hnextleast, ?_, List.pairwise_append.2 ⟨hpairwise, List.pairwise_singleton _ _, ?_⟩⟩
    · rw [List.head?_append, hhead]
      rfl
    · intro limit hlimit other hother
      have hle := maxDepth_le_of_mem_limits hpairwise hlimit
      rw [List.mem_singleton.1 hother]
      omega

/-- An attempt that nested too deep is followed by limits that are not below the minimum. -/
theorem Retried.least_le (hretry : start.retry.IsNumeric least factor)
    (h : Retried text keepContext start tried current)
    (hdeep : ∃ attempt ∈ tried, ∃ limit, attempt.failure = .tooDeep limit) :
    least ≤ current.maxDepth := by
  induction h with
  | first => simp at hdeep
  | @again tried current after next failure htried hparse hfailure hnext ih =>
    have hafter := configuration_parse hparse
    have hdepth := maxDepth_of_configuration hafter
    rw [← htried.retry, ← retry_of_configuration hafter] at hretry
    rcases afterFailure_eq_ok hnext with ⟨limit, depth, -, hdepth, rfl⟩ | ⟨hother, rfl⟩
    · obtain ⟨reduced, -, rfl⟩ := reducedDepth_eq_ok hretry hdepth
      exact le_max_left _ _
    · obtain ⟨attempt, hattempt, limit, hlimit⟩ := hdeep
      rcases List.mem_append.1 hattempt with hbefore | hnow
      · exact hdepth ▸ ih ⟨attempt, hbefore, limit, hlimit⟩
      · rw [List.mem_singleton.1 hnow] at hlimit
        exact absurd hlimit (hother limit)

end Limits

/-- Where the minimum is not above the limit, attempts run under smaller and smaller limits from it
on, and a text that is answered nests no deeper than it. Where the minimum is above the limit, what
nests too deep is tried again under a larger limit. -/
theorem limits_of_retries {generator : Generator} {least : Int} {factor : Amount}
    (hretry : generator.retry.IsNumeric least factor) (hshare : factor.IsShare)
    (hexact : generator.maxDepth ≤ 2 ^ 53) (text : Datum) {options : Tolerance}
    (hattempts : 1 ≤ options.maxAttempts) :
    (least ≤ generator.maxDepth →
      (∀ tried current, Retried text options.preserveContext generator tried current →
        (limits tried current).head? = some generator.maxDepth ∧
          (limits tried current).Pairwise (· ≥ ·)) ∧
      ∀ shown number validation after,
        parseTolerantly text (some options) generator =
          (.ok { result := .ok shown, attempts := number, validation }, after) →
        ∃ tried current value, Retried text options.preserveContext generator tried current ∧
          number = tried.length + 1 ∧ tolerantText value = .ok shown ∧
          (parse text options.preserveContext
            { current with maxDepth := generator.maxDepth }).1 = .ok value) ∧
    (generator.maxDepth < least →
      ∀ tried current, Retried text options.preserveContext generator tried current →
        (∃ attempt ∈ tried, ∃ limit, attempt.failure = .tooDeep limit) →
          generator.maxDepth < current.maxDepth) := by
  refine ⟨fun hleast => ⟨?_, ?_⟩, ?_⟩
  · intro tried current htried
    exact (htried.limits_pairwise hretry hshare hleast hexact).2
  · intro shown number validation after hrun
    obtain ⟨tried, current, value, last, htried, hnumber, hparse, hvalue⟩ :=
      exists_retried_of_ok hattempts hrun
    obtain ⟨-, hhead, hpairwise⟩ := htried.limits_pairwise hretry hshare hleast hexact
    have hbound := maxDepth_le_of_mem_limits hpairwise (List.mem_of_mem_head? hhead)
    exact ⟨tried, current, value, htried, hnumber, hvalue,
      congrArg Prod.fst (parse_settles hbound hparse)⟩
  · intro hlow tried current htried hdeep
    exact hlow.trans_le (htried.least_le hretry hdeep)

/-- A generator with a rule that leads back to itself. -/
def circularGenerator : Generator :=
  { (Generator.default 0 100).withStore ⟨[{ name := "a", rule := .static { values := ["%a%"] } }]⟩ with
    maxDepth := 20 }

theorem isShare_sevenTenths : (Amount.real (.ofQuotient false 7 10)).IsShare := by
  have hvalue : Double.ofQuotient false 7 10 = .finite false 6305039478318694 (-53) := by
    decide
  refine ⟨?_, ?_, ?_⟩
  · rintro x ⟨⟩
    rw [hvalue]
    rfl
  · rw [Amount.toRat, hvalue, Double.toRat_finite_false]
    positivity
  · rw [Amount.toRat, hvalue, Double.toRat_finite_false]
    norm_num

theorem limits_circularGenerator :
    circularGenerator.retry.IsNumeric 10 (.real (.ofQuotient false 7 10)) ∧
      (Amount.real (.ofQuotient false 7 10)).IsShare ∧
      circularGenerator.maxDepth ≤ 2 ^ 53 ∧ 1 ≤ ({} : Tolerance).maxAttempts ∧
      10 ≤ circularGenerator.maxDepth ∧
      (∀ tried current, Retried (.text "%a%") false circularGenerator tried current →
        (limits tried current).head? = some 20 ∧ (limits tried current).Pairwise (· ≥ ·)) ∧
      shallowGenerator.maxDepth < 10 ∧
      (∀ tried current, Retried (.text "%a%") false shallowGenerator tried current →
        (∃ attempt ∈ tried, ∃ limit, attempt.failure = .tooDeep limit) → 1 < current.maxDepth) := by
  have hnumeric := RetrySettings.isNumeric_default
  refine ⟨hnumeric, isShare_sevenTenths, by decide, by decide, by decide, ?_, by decide, ?_⟩
  · exact ((limits_of_retries hnumeric isShare_sevenTenths (by decide) (.text "%a%")
      (by decide : 1 ≤ ({} : Tolerance).maxAttempts)).1 (by decide)).1
  · exact (limits_of_retries hnumeric isShare_sevenTenths (by decide) (.text "%a%")
      (by decide : 1 ≤ ({} : Tolerance).maxAttempts)).2 (by decide)

deriving instance DecidableEq for Except, TolerantResult

theorem parse_shallowGenerator_fst :
    (parse (.text "%a%") false shallowGenerator).1 = .error (.tooDeep "1") := by
  have hfailure : (parse (.text "%a%") false shallowGenerator).1.map (fun _ => ()) =
      .error (.tooDeep "1") := by decide +kernel
  generalize (parse (.text "%a%") false shallowGenerator).1 = result at hfailure ⊢
  cases result with
  | error failure => exact congrArg Except.error (Except.error.inj hfailure)
  | ok value => cases hfailure

/-- What nests too deep for the limit is answered, by the next attempt under the minimum. -/
theorem limits_shallowGenerator :
    (∃ tried current, Retried (.text "%a%") false shallowGenerator tried current ∧
      limits tried current = [1, 10] ∧ ¬ (limits tried current).Pairwise (· ≥ ·)) ∧
    (parse (.text "%a%") false shallowGenerator).1 = .error (.tooDeep "1") ∧
    (parseTolerantly (.text "%a%") (some {}) shallowGenerator).1 =
      .ok { result := .ok (some "x"), attempts := 2, validation := none } := by
  have hfirst := parse_shallowGenerator_fst
  refine ⟨?_, hfirst, by decide +kernel⟩
  rcases hrun : parse (.text "%a%") false shallowGenerator with ⟨result, after⟩
  obtain rfl : result = .error (.tooDeep "1") := by rw [← hfirst, hrun]
  have hkept := configuration_parse hrun
  have hdepth : reducedDepth after.retry after.maxDepth = .ok 10 := by
    rw [retry_of_configuration hkept, maxDepth_of_configuration hkept]
    decide
  have hnext : after.afterFailure (.tooDeep "1") = .ok { after with maxDepth := 10 } := by
    rw [afterFailure, hdepth]
    rfl
  refine ⟨_, _, Retried.first.again hrun rfl hnext, rfl, ?_⟩
  change ¬ ([1, 10] : List Int).Pairwise (· ≥ ·)
  decide

end Generator

end TextGrammar
