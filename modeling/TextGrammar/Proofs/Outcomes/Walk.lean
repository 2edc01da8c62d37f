import TextGrammar.Outcomes.Distribution
import TextGrammar.Proofs.Expansion.Chain
import TextGrammar.Proofs.Result
import TextGrammar.Proofs.Rule.Accepted

/-! What the parts of a walk have to find for the whole of it to end. -/
namespace TextGrammar.Distribution

variable {W : Type} {setting : Setting W} {result : Found W}

def Setting.withCap (setting : Setting W) (cap : Cap) : Setting W := { setting with cap }

@[simp] theorem withCap_store {cap : Cap} : (setting.withCap cap).store = setting.store := rfl

@[simp] theorem withCap_limit {cap : Cap} : (setting.withCap cap).limit = setting.limit := rfl

@[simp] theorem withCap_cap {cap : Cap} : (setting.withCap cap).cap = cap := rfl

@[simp] theorem cuts_none {count : Nat} : Cap.cuts none count = false := rfl

/-- The warnings that some outcome was left out. -/
def LeavesOut (warnings : List Warning) : Prop := ∃ cap, Warning.truncated cap ∈ warnings

def Found.IsTruncated (found : Found W) : Prop := LeavesOut found.warnings

@[simp] theorem leavesOut_nil : ¬LeavesOut [] := by simp [LeavesOut]

@[simp] theorem leavesOut_append {ws ws' : List Warning} :
    LeavesOut (ws ++ ws') ↔ LeavesOut ws ∨ LeavesOut ws' := by
  simp [LeavesOut, exists_or]

@[simp] theorem leavesOut_cut {cap : Bound} : LeavesOut (Cap.cut (some cap)) :=
  ⟨_, List.mem_singleton_self _⟩

@[simp] theorem leavesOut_ite {cap : Bound} {p : Prop} [Decidable p] :
    LeavesOut (if p then (Cap.cut (some cap)) else []) ↔ p := by
  split <;> simp_all

section Range

variable [One W] [Div W] [NatCast W] {shown : String} {range : Rule.Range}

/-- How many values of a range are listed. -/
def Cap.shownOf (cap : Cap) (count : Nat) : Nat :=
  if cap.cuts count then cap.room.getD count else count

theorem Cap.cuts_ofInt {cap : ℤ} {count : ℕ} :
    Cap.cuts (some (.ofInt cap)) count = decide (cap < count) := by
  simp only [Cap.cuts, Bound.ofInt, Limit.ofInt, Limit.cuts, Limit.amount, Option.any_some]
  exact Amount.lt_whole cap count

theorem Cap.shownOf_ofInt {cap : ℤ} {count : ℕ} :
    Cap.shownOf (some (.ofInt cap)) count = min count cap.toNat := by
  rw [Cap.shownOf, Cap.cuts_ofInt]
  simp only [decide_eq_true_eq, Cap.room, Bound.ofInt, Option.map_some, Option.getD_some]
  split <;> omega

/-- The first so many values of a range. -/
def nthTexts (range : Rule.Range) (count : Nat) : Except NumberFault (List String) :=
  (List.range count).mapM fun (index : Nat) => range.nth (.whole index)

theorem nthTexts_take {count : Nat} {texts : List String} (h : nthTexts range count = .ok texts)
    (places : Nat) : nthTexts range (min places count) = .ok (texts.take places) := by
  rw [nthTexts, ← List.take_range]
  exact mapM_take h places

theorem length_of_nthTexts {count : Nat} {texts : List String}
    (h : nthTexts range count = .ok texts) : texts.length = count := by
  rw [(mapM_eq_ok h).1, List.length_range]

theorem rangeFound_of_open (h : (range.step.isNone && setting.openRangesInfinite) = true) :
    rangeFound setting shown range = .ok (marked "range" shown (.openRange shown)) := by
  rw [rangeFound, if_pos h]

theorem rangeFound_eq_ok (h : ¬(range.step.isNone && setting.openRangesInfinite) = true) :
    rangeFound setting shown range = .ok result ↔
      ∃ count, range.size = .ok count ∧ (setting.cap.cuts count → setting.cap.isWhole) ∧
        ∃ texts, nthTexts range (setting.cap.shownOf count) = .ok texts ∧
          { outcomes := texts.map fun text => (text, 1 / (count : W))
            warnings := if setting.cap.cuts count then setting.cap.cut else [] } = result := by
  simp only [rangeFound, if_neg h, bind_eq_ok, mapError_eq_ok]
  refine exists_congr fun count => and_congr_right fun _ => ?_
  cases hc : setting.cap.cuts count with
  | false => simp [map_eq_ok, mapError_eq_ok, nthTexts, Cap.shownOf, hc]
  | true =>
    cases setting.cap.isWhole with
    | false => exact iff_of_false (by rintro ⟨⟩) (by simp)
    | true => simp [map_eq_ok, mapError_eq_ok, nthTexts, Cap.shownOf, hc]

end Range

section Texts

variable [Mul W] {nested : String → Walk (Found W)} {room : Room} {text : String} {weight : W}
  {rest : List (String × W)}

/-- What the first of several texts and the ones after it have found. -/
def Found.followedBy (cap : Cap) (room : Room) (first others : Found W) : Found W where
  outcomes := (fit room first.outcomes).1 ++ others.outcomes
  warnings := first.warnings ++ (if (fit room first.outcomes).2 then cap.cut else [])
    ++ others.warnings

theorem textsFound_cons_of_no_room :
    textsFound setting nested (some 0) ((text, weight) :: rest)
      = .ok { outcomes := [], warnings := setting.cap.cut } := rfl

theorem textsFound_cons_eq_ok (h : room ≠ some 0) :
    textsFound setting nested room ((text, weight) :: rest) = .ok result ↔
      setting.cap.isWhole ∧ ∃ first others, textFound setting nested text weight = .ok first ∧
        textsFound setting nested (room.after (fit room first.outcomes).1.length) rest
          = .ok others ∧
        first.followedBy setting.cap room others = result := by
  simp only [textsFound, if_neg h]
  cases hw : setting.cap.isWhole with
  | false =>
    cases textFound setting nested text weight with
    | error => exact iff_of_false (by rintro ⟨⟩) (by simp)
    | ok first => exact iff_of_false (by rintro ⟨⟩) (by simp)
  | true =>
    simp only [Bool.not_true, Bool.false_eq_true, if_false, bind_eq_ok, pure_eq_ok, true_and]
    constructor
    · rintro ⟨first, hf, others, ho, rfl⟩
      exact ⟨first, others, hf, ho, rfl⟩
    · rintro ⟨first, others, hf, ho, rfl⟩
      exact ⟨first, hf, others, ho, rfl⟩

end Texts

theorem map_fst_evenly [Div W] [NatCast W] {share : W} {values : List String} :
    (evenly share values).map Prod.fst = values := by
  rw [evenly, List.map_map]
  exact List.map_id values

theorem map_fst_weightedValues [Zero W] [Add W] [Div W] {values : List String}
    {weights : List Double} (h : values.length = weights.length) :
    (weightedValues setting values weights).map Prod.fst = values := by
  simp only [weightedValues, List.map_map]
  have hle : values.length ≤ (weights.map setting.ofWeight).length := by simp [h]
  exact List.map_fst_zip hle

theorem map_fst_branches [Div W] [NatCast W] {share : W} {branches : List Branch} :
    (branches.flatMap fun branch => evenly share branch.values).map Prod.fst
      = branches.flatMap Branch.values := by
  rw [List.map_flatMap]
  exact congrArg (List.flatMap · branches) (funext fun _ => map_fst_evenly)

theorem foundShown_eq_foundWithin [Zero W] [One W] [Add W] [Mul W] [Div W] [NatCast W]
    {name : String} :
    foundShown setting name name = foundWithin setting setting.limit.value.toNat [] name := by
  rw [foundShown]
  cases setting.limit.value.toNat <;> rfl

theorem foundWithin_of_rule? [Zero W] [One W] [Add W] [Mul W] [Div W] [NatCast W] {name : String}
    {rule : Rule} {room : ℕ} {visited : List String} (hrule : setting.store.rule? name = some rule)
    (hnew : name ∉ visited) :
    foundWithin setting (room + 1) visited name
      = ruleFound setting (foundWithin setting room (name :: visited)) name rule := by
  simp only [foundWithin, nameFound, if_neg hnew, hrule]

theorem nestedStore_found {W : Type} [Zero W] [One W] [Add W] [Mul W] [Div W] [NatCast W]
    {cap : Cap} (hcap : cap = none ∨ cap = some 100) {openRangesInfinite : Bool}
    {ofWeight : Double → W} :
    foundShown ⟨nestedStore, 5, cap, openRangesInfinite, ofWeight⟩ "a" "a" = .ok { outcomes := [
      ("x", 1 / ((2 : ℕ) : W)),
      ("y", 1 / ((2 : ℕ) : W) * (1 / ((2 : ℕ) : W))),
      ("z", 1 / ((2 : ℕ) : W) * (1 / ((2 : ℕ) : W)))] } := by
  have hlimit : (5 : Bound).value.toNat = 5 := rfl
  have hreplay : isReplay "b" = false := by decide
  obtain ⟨hx, hb, hy, hz⟩ := nestedStore_split
  simp only [foundShown, hlimit, foundWithin, nameFound, nestedStore_rule?_a, nestedStore_rule?_b,
    ruleFound, evenly, List.map, textsFound, textFound, hx, hb, hy, hz, segmentsFound, hreplay]
  rcases hcap with rfl | rfl <;> rfl

section Chain

variable {setting : Setting ℚ} {count place left : ℕ}

/-- A rule of the chain is followed to what its value is followed to. -/
theorem foundWithin_chain_step {setting : Setting ℚ} (hstore : setting.store = chainStore count)
    (hcap : setting.cap = some 1000) (hplace : place < count) {places : ℕ} {visited : List String}
    (hvisited : ∀ name ∈ visited, ∃ earlier < place, name = earlier.repr)
    (h : textFound setting (foundWithin setting places (place.repr :: visited))
      (chainValue count place) 1 = .ok { outcomes := [("x", 1)] }) :
    foundWithin setting (places + 1) visited place.repr = .ok { outcomes := [("x", 1)] } := by
  have hnew : place.repr ∉ visited := by
    intro hmem
    obtain ⟨earlier, hearlier, heq⟩ := hvisited _ hmem
    exact hearlier.ne' (Nat.repr_injective heq)
  have hrule : setting.store.rule? place.repr =
      some (.static { values := [chainValue count place] }) := by
    rw [hstore]
    exact chainStore_rule?_eq_some_iff.2 ⟨hplace, rfl⟩
  have hone : (1 : ℚ) / (([chainValue count place].length : ℕ) : ℚ) = 1 := by norm_num
  simp only [foundWithin, nameFound, if_neg hnew, hrule, ruleFound, evenly, List.map, textsFound, hone,
    h, hcap]
  rfl

/-- The walk comes to the last rule of the chain, and leaves nothing out. -/
theorem foundWithin_chain {setting : Setting ℚ} (hstore : setting.store = chainStore count)
    (hcap : setting.cap = some 1000) (hplace : place + left + 1 = count) {places : ℕ}
    (hplaces : left < places) {visited : List String}
    (hvisited : ∀ name ∈ visited, ∃ earlier < place, name = earlier.repr) :
    foundWithin setting places visited place.repr = .ok { outcomes := [("x", 1)] } := by
  induction left generalizing place places visited with
  | zero =>
    obtain ⟨places, rfl⟩ := Nat.exists_eq_add_of_lt hplaces
    refine foundWithin_chain_step hstore hcap (by omega) hvisited ?_
    rw [chainValue, if_neg (by omega), textFound, nestedStore_split.1]
    rfl
  | succ left ih =>
    obtain ⟨places, rfl⟩ := Nat.exists_eq_add_of_lt hplaces
    refine foundWithin_chain_step hstore hcap (by omega) hvisited ?_
    have hnext : ∀ name ∈ place.repr :: visited, ∃ earlier < place + 1, name = earlier.repr := by
      intro name hname
      rcases List.mem_cons.1 hname with rfl | hname
      · exact ⟨place, Nat.lt_succ_self place, rfl⟩
      · obtain ⟨earlier, hearlier, heq⟩ := hvisited name hname
        exact ⟨earlier, Nat.lt_succ_of_lt hearlier, heq⟩
    have hbelow := @ih (place + 1) (by omega) (left + 1 + places) (by omega) _ hnext
    rw [chainValue, if_pos (by omega), textFound, split_reprToken]
    have htimes : Found.times (some 1000) (· ++ ·) { outcomes := [("", (1 : ℚ))] }
        { outcomes := [("x", 1)] } = { outcomes := [("x", 1 * 1)] } := rfl
    rw [one_mul] at htimes
    simp only [segmentsFound, isReplay_repr, Bool.false_eq_true, if_false, hbelow, hcap]
    exact congrArg Except.ok htimes

end Chain

end TextGrammar.Distribution
