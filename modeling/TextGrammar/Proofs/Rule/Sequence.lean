import TextGrammar.Proofs.Rule.Accepted

/-! What a sequence gives in the course of its turns: one value after the other. -/
namespace TextGrammar

/-- What happens to a sequence: a draw gives a value, or it is put back to its start. -/
inductive Turn where
  | gave (value : String)
  | restarted
  deriving DecidableEq

/-- How many values are given since the last restart, if there were so many before the turns. -/
def givenAfter (given : Nat) (turns : List Turn) : Nat :=
  turns.foldl (fun given turn => match turn with
    | .gave _ => given + 1
    | .restarted => 0) given

theorem givenAfter_append (given : Nat) (turns later : List Turn) :
    givenAfter given (turns ++ later) = givenAfter (givenAfter given turns) later := by
  simp only [givenAfter, List.foldl_append]

namespace Rule.Sequential

variable (rule : Rule.Sequential)

/-- The value that comes after so many from the start on. -/
def valueAt? (given : Nat) : Option String :=
  rule.values[if rule.cycle then given % rule.values.length
    else min given (rule.values.length - 1)]?

/-- The index after so many values from the start on. It is one past the last value once that is
given, and only the next draw of a cycle puts it back. -/
def indexAfter : Nat → Nat
  | 0 => 0
  | given + 1 =>
    if rule.cycle then given % rule.values.length + 1 else min (given + 1) rule.values.length

/-- The rule after so many values from the start on. -/
def after (given : Nat) : Rule.Sequential := { rule with index := rule.indexAfter given }

/-- The values that turns give are those that are due, if so many were given before. -/
def InTurn (given : Nat) (turns : List Turn) : Prop :=
  ∀ before value later, turns = before ++ .gave value :: later →
    rule.valueAt? (givenAfter given before) = some value

variable {rule} {values : List String} {given : Nat} {turns later : List Turn}

/-- In a cycle the index is the place of the value that is due, or one past the last value if that is
the first again. -/
theorem indexAfter_of_cycle (hcycle : rule.cycle = true) (hvalues : 0 < rule.values.length)
    (given : Nat) :
    rule.indexAfter given = given % rule.values.length ∨
      rule.indexAfter given = rule.values.length ∧ given % rule.values.length = 0 := by
  cases given with
  | zero => exact .inl (Nat.zero_mod _).symm
  | succ given =>
    have hlt := Nat.mod_lt given hvalues
    simp only [indexAfter, hcycle, if_true]
    rw [← Nat.mod_add_mod given rule.values.length 1]
    rcases Nat.lt_or_eq_of_le (Nat.add_one_le_of_lt hlt) with hinside | hend
    · exact .inl (Nat.mod_eq_of_lt hinside).symm
    · exact .inr ⟨hend, by rw [hend, Nat.mod_self]⟩

theorem indexAfter_of_end (hcycle : rule.cycle = false) (given : Nat) :
    rule.indexAfter given = min given rule.values.length := by
  cases given with
  | zero => exact (Nat.zero_min _).symm
  | succ given => simp only [indexAfter, hcycle, Bool.false_eq_true, if_false]

theorem draw_of_lt (hindex : rule.index < rule.values.length) (source : Source) :
    rule.draw source = (.ok (some rule.values[rule.index]),
      { rule with index := rule.index + 1 }, source) := by
  have hnot : (decide (rule.index ≥ rule.values.length) && !rule.cycle) = false := by
    simp [hindex]
  simp only [draw, hindex, hnot, if_true, List.getElem?_eq_getElem]
  rfl

/-- After the last value of a cycle comes the first. -/
theorem draw_of_cycle (hindex : rule.values.length ≤ rule.index) (hcycle : rule.cycle = true)
    (hvalues : 0 < rule.values.length) (source : Source) :
    rule.draw source = (.ok (some rule.values[0]), { rule with index := 1 }, source) := by
  have hnot : ¬ rule.index < rule.values.length := Nat.not_lt.2 hindex
  simp only [draw, hcycle, hnot, Bool.not_true, Bool.and_false, Bool.false_eq_true, if_false,
    List.getElem?_eq_getElem hvalues]

/-- Without a cycle the last value stays for good. -/
theorem draw_of_end (hindex : rule.values.length ≤ rule.index) (hcycle : rule.cycle = false)
    (hvalues : rule.values ≠ []) (source : Source) :
    rule.draw source = (.ok (some (rule.values.getLast hvalues)), rule, source) := by
  simp only [draw, hcycle, hindex, decide_true, Bool.not_false, Bool.and_true, if_true,
    List.getLast?_eq_some_getLast hvalues]

theorem draw_after_of_cycle (hcycle : rule.cycle = true) (hvalues : 0 < rule.values.length)
    (given : Nat) (source : Source) :
    (rule.after given).draw source =
      (.ok (some (rule.values.get ⟨given % rule.values.length, Nat.mod_lt given hvalues⟩)),
        rule.after (given + 1), source) := by
  have hnext : rule.after (given + 1) =
      { rule with index := given % rule.values.length + 1 } := by
    simp only [after, indexAfter, hcycle, if_true]
  rcases indexAfter_of_cycle hcycle hvalues given with hindex | ⟨hindex, hfirst⟩
  · have hlt : (rule.after given).index < (rule.after given).values.length := by
      rw [after, hindex]
      exact Nat.mod_lt given hvalues
    rw [draw_of_lt hlt, hnext, List.get_eq_getElem]
    simp only [after, hindex]
  · rw [@draw_of_cycle (rule.after given) hindex.ge hcycle hvalues source, hnext,
      List.get_eq_getElem]
    simp only [after, hfirst]

theorem draw_after_of_end (hcycle : rule.cycle = false) (hvalues : 0 < rule.values.length)
    (given : Nat) (source : Source) :
    (rule.after given).draw source =
      (.ok (some (rule.values.get ⟨min given (rule.values.length - 1), by omega⟩)),
        rule.after (given + 1), source) := by
  have hindex := indexAfter_of_end hcycle given
  have hnext : rule.after (given + 1) =
      { rule with index := min (given + 1) rule.values.length } := by
    rw [after, indexAfter_of_end hcycle]
  by_cases hgiven : given < rule.values.length
  · have hlt : (rule.after given).index < (rule.after given).values.length := by
      rw [after, hindex]
      exact Nat.lt_of_le_of_lt (Nat.min_le_left _ _) hgiven
    have hdue : min given rule.values.length = min given (rule.values.length - 1) := by omega
    have hmoved : min given (rule.values.length - 1) + 1 = min (given + 1) rule.values.length := by
      omega
    rw [draw_of_lt hlt, hnext, List.get_eq_getElem]
    simp only [after, hindex, hdue, hmoved]
  · have hge : (rule.after given).values.length ≤ (rule.after given).index := by
      rw [after, hindex]
      exact Nat.le_min_of_le_of_le (Nat.not_lt.1 hgiven) (Nat.le_refl _)
    have hlast : min given (rule.values.length - 1) = rule.values.length - 1 := by omega
    have hstays : min given rule.values.length = min (given + 1) rule.values.length := by omega
    rw [draw_of_end hge hcycle (List.length_pos_iff.1 hvalues), hnext, List.get_eq_getElem]
    simp only [after, hindex, hlast, hstays, List.getLast_eq_getElem]

/-- A draw gives the value that is due and moves on by one. -/
theorem draw_after (hvalues : rule.values ≠ []) (given : Nat) (source : Source) :
    ∃ value, rule.valueAt? given = some value ∧
      (rule.after given).draw source = (.ok (some value), rule.after (given + 1), source) := by
  have hlength : 0 < rule.values.length := List.length_pos_iff.2 hvalues
  cases hcycle : rule.cycle with
  | true =>
    refine ⟨_, ?_, draw_after_of_cycle hcycle hlength given source⟩
    rw [valueAt?, hcycle, if_pos rfl, List.getElem?_eq_getElem (Nat.mod_lt given hlength)]
    rfl
  | false =>
    refine ⟨_, ?_, draw_after_of_end hcycle hlength given source⟩
    rw [valueAt?, hcycle, if_neg Bool.false_ne_true, List.getElem?_eq_getElem (by omega)]
    rfl

theorem inTurn_nil : rule.InTurn given [] := by
  intro before value later heq
  exact absurd heq (by simp)

theorem InTurn.append (h : rule.InTurn given turns)
    (hlater : rule.InTurn (givenAfter given turns) later) :
    rule.InTurn given (turns ++ later) := by
  intro before value after heq
  rcases List.append_eq_append_iff.1 heq with ⟨between, rfl, hlast⟩ | ⟨between, hfirst, hlast⟩
  · rw [givenAfter_append]
    exact hlater between value after hlast
  · cases between with
    | nil =>
      obtain rfl : turns = before := by rw [hfirst, List.append_nil]
      exact hlater [] value after hlast.symm
    | cons turn between =>
      obtain ⟨rfl, -⟩ := List.cons.inj hlast
      exact h before value between hfirst

theorem inTurn_gave_cons {value : String} (hvalue : rule.valueAt? given = some value)
    (h : rule.InTurn (given + 1) turns) : rule.InTurn given (.gave value :: turns) := by
  rintro (_ | ⟨turn, before⟩) other later heq
  · cases heq
    exact hvalue
  · obtain ⟨rfl, hrest⟩ := List.cons.inj heq
    exact h before other later hrest

theorem inTurn_restarted : rule.InTurn given [.restarted] := by
  rintro (_ | ⟨turn, before⟩) value later heq
  · cases heq
  · exact absurd (List.cons.inj heq).2 (by simp)

end Rule.Sequential

end TextGrammar
