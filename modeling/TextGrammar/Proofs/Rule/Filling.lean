import TextGrammar.Proofs.Random
import TextGrammar.Proofs.Rule.Texts
import TextGrammar.Proofs.Token.Canonical

/-! How a template is filled: one name after the other, in the text that the names before left. -/
namespace TextGrammar

section Replace

variable {marker new text rest skipped : List Char} {places : List (List Char)} {c : Char}

/-- The marker starts nowhere in the text when the rest follows it. -/
def Unmarked (marker text rest : List Char) : Prop :=
  ∀ back, back <:+ text → back ≠ [] → ¬ marker <+: back ++ rest

theorem unmarked_nil : Unmarked marker [] rest := by
  intro back hback hne
  exact absurd (List.suffix_nil.1 hback) hne

theorem unmarked_cons :
    Unmarked marker (c :: text) rest ↔
      ¬ marker <+: c :: (text ++ rest) ∧ Unmarked marker text rest :=
  @Segment.forall_suffix_cons c text fun back => ¬ marker <+: back ++ rest

theorem unmarked_append {text' : List Char} :
    Unmarked marker (text ++ text') rest ↔
      Unmarked marker text (text' ++ rest) ∧ Unmarked marker text' rest := by
  induction text with
  | nil => exact (and_iff_right unmarked_nil).symm
  | cons c text ih => simp only [List.cons_append, unmarked_cons, ih, List.append_assoc, and_assoc]

/-- A marker that starts with a letter starts in no text without that letter. -/
theorem unmarked_of_notMem (h : c ∉ text) : Unmarked (c :: marker) text rest := by
  induction text with
  | nil => exact unmarked_nil
  | cons c' text ih =>
    obtain ⟨hne, htext⟩ := not_or.1 (mt List.mem_cons.2 h)
    refine unmarked_cons.2 ⟨?_, ih htext⟩
    intro hprefix
    exact hne (List.cons_prefix_cons.1 hprefix).1

theorem piecesFrom_append :
    piecesFrom marker skipped.length (skipped ++ text) = pieces marker text := by
  induction skipped with
  | nil => rfl
  | cons c skipped ih => exact ih

theorem intercalate_nil_cons (h : places ≠ []) :
    List.intercalate new ([] :: places) = new ++ List.intercalate new places := by
  obtain ⟨place, places, rfl⟩ := List.exists_cons_of_ne_nil h
  simp [List.intercalate, List.intersperse]

theorem intercalate_modifyHead (h : places ≠ []) :
    List.intercalate new (places.modifyHead (c :: ·)) = c :: List.intercalate new places := by
  obtain ⟨place, places, rfl⟩ := List.exists_cons_of_ne_nil h
  cases places <;> simp [List.intercalate, List.intersperse]

theorem replaceAll_eq (hm : marker ≠ []) :
    replaceAll marker new text = List.intercalate new (pieces marker text) := by
  rw [replaceAll, if_neg (by simpa using hm)]

theorem replaceAll_nil (hm : marker ≠ []) : replaceAll marker new [] = [] := by
  rw [replaceAll_eq hm]
  rfl

/-- Where the marker stands, the new text comes in its place. -/
theorem replaceAll_marker (hm : marker ≠ []) :
    replaceAll marker new (marker ++ text) = new ++ replaceAll marker new text := by
  rw [replaceAll_eq hm, replaceAll_eq hm]
  obtain ⟨c, later, rfl⟩ := List.exists_cons_of_ne_nil hm
  have hprefix : (c :: later).isPrefixOf (c :: (later ++ text)) = true := by
    rw [List.isPrefixOf_iff_prefix]
    exact List.prefix_append (c :: later) text
  have hpieces : pieces (c :: later) (c :: (later ++ text)) = [] :: pieces (c :: later) text := by
    rw [pieces, piecesFrom, if_pos hprefix]
    congr 1
    exact piecesFrom_append
  rw [List.cons_append, hpieces]
  exact intercalate_nil_cons (piecesFrom_ne_nil _ _)

/-- Where it does not start, the text stays. -/
theorem replaceAll_append (hm : marker ≠ []) (h : Unmarked marker text rest) :
    replaceAll marker new (text ++ rest) = text ++ replaceAll marker new rest := by
  induction text with
  | nil => rfl
  | cons c text ih =>
    obtain ⟨hfirst, hlater⟩ := unmarked_cons.1 h
    have hprefix : ¬ marker.isPrefixOf (c :: (text ++ rest)) = true := by
      rw [List.isPrefixOf_iff_prefix]
      exact hfirst
    rw [List.cons_append, List.cons_append, ← ih hlater, replaceAll_eq hm, replaceAll_eq hm, pieces,
      piecesFrom, if_neg hprefix]
    exact intercalate_modifyHead (piecesFrom_ne_nil _ _)

end Replace

namespace Segment

variable {name value other : String} {segments : List Segment}

/-- A segment after a name is filled in. -/
def filledWith (name value : String) : Segment → Segment
  | token other => if other = name then literal value else token other
  | literal text => literal text

/-- The token for the name starts nowhere but where one of the segments is this token. -/
def OnlyOwn (name : String) : List Segment → Prop
  | [] => True
  | segment :: rest =>
    (segment = token name ∨
      Unmarked (tokenText name).toList segment.text.toList (render rest).toList) ∧ OnlyOwn name rest

theorem tokenText_ne_nil : (tokenText name).toList ≠ [] := by
  simp [tokenText]

theorem toList_tokenText : (tokenText name).toList = '%' :: (name.toList ++ ['%']) := by
  simp [tokenText]

theorem filledWith_of_ne {segment : Segment} (h : segment ≠ token name) :
    segment.filledWith name value = segment := by
  cases segment with
  | literal text => rfl
  | token other => exact if_neg fun he => h (congrArg token he)

theorem fillToken_render (h : OnlyOwn name segments) :
    fillToken name value (render segments) = render (segments.map (filledWith name value)) := by
  apply String.toList_injective
  rw [fillToken, String.toList_ofList]
  induction segments with
  | nil => exact replaceAll_nil tokenText_ne_nil
  | cons segment rest ih =>
    obtain ⟨hsegment, hrest⟩ := h
    rw [List.map_cons, render_cons, render_cons, String.toList_append, String.toList_append,
      ← ih hrest]
    by_cases hown : segment = token name
    · subst hown
      have hfilled : (token name).filledWith name value = literal value := if_pos rfl
      rw [hfilled]
      exact replaceAll_marker tokenText_ne_nil
    · rw [filledWith_of_ne hown]
      exact replaceAll_append tokenText_ne_nil (hsegment.resolve_left hown)

/-- What stands for a segment when all tokens are filled at once: the value picked for it, or what
is written. -/
def substituted (picks : List (String × String)) : Segment → String
  | literal text => text
  | token name => (picks.lookup name).getD (tokenText name)

/-- At the turn of each name, its token is found in the text only where the template has it. -/
def FillsInPlace : List (String × String) → List Segment → Prop
  | [], _ => True
  | (name, value) :: picks, segments =>
    OnlyOwn name segments ∧ FillsInPlace picks (segments.map (filledWith name value))

end Segment

namespace Segment

variable {name value other : String} {segments rest : List Segment}

/-- What a token is followed by, if it does not end the text, is a literal with a blank. -/
def IsSetOff : List Segment → Prop
  | [] => True
  | literal text :: _ => ' ' ∈ text.toList
  | token _ :: _ => False

/-- No `%` but those of the tokens, and a blank between each token and the next, while names have
none. -/
def Spaced : List Segment → Prop
  | [] => True
  | literal text :: rest => '%' ∉ text.toList ∧ Spaced rest
  | token name :: rest =>
    (IsName name.toList ∧ ' ' ∉ name.toList) ∧ IsSetOff rest ∧ Spaced rest

theorem Spaced.notMem_name (h : Spaced segments) (hmem : token name ∈ segments) :
    ' ' ∉ name.toList ∧ '%' ∉ name.toList := by
  induction segments with
  | nil => cases hmem
  | cons segment rest ih =>
    cases segment with
    | literal text => exact ih h.2 ((List.mem_cons.1 hmem).resolve_left (by rintro ⟨⟩))
    | token other =>
      rcases List.mem_cons.1 hmem with he | hmem
      · cases he
        exact ⟨h.1.2, h.1.1.2⟩
      · exact ih h.2.2 hmem

/-- Behind a token, the next `%` comes after a blank. -/
theorem Spaced.not_prefix (hrest : Spaced rest) (hoff : IsSetOff rest) (hblank : ' ' ∉ name.toList)
    (after : List Char) : (render rest).toList ≠ name.toList ++ '%' :: after := by
  intro heq
  cases rest with
  | nil => simp at heq
  | cons next rest =>
    cases next with
    | token other => exact hoff
    | literal text =>
      have htext : ' ' ∈ text.toList := hoff
      have hplain : '%' ∉ text.toList := hrest.1
      rw [render_cons, String.toList_append] at heq
      change text.toList ++ _ = _ at heq
      rcases List.append_eq_append_iff.1 heq with ⟨back, hname, -⟩ | ⟨back, htext', hback⟩
      · apply hblank
        rw [hname]
        exact List.mem_append_left _ htext
      · cases back with
        | nil =>
          apply hblank
          rw [htext', List.append_nil] at htext
          exact htext
        | cons c back =>
          obtain rfl : '%' = c := (List.cons.inj hback).1
          apply hplain
          rw [htext']
          exact List.mem_append_right _ List.mem_cons_self

theorem Spaced.onlyOwn (h : Spaced segments) (hblank : ' ' ∉ name.toList)
    (hname : '%' ∉ name.toList) : OnlyOwn name segments := by
  induction segments with
  | nil => trivial
  | cons segment rest ih =>
    cases segment with
    | literal text =>
      refine ⟨.inr ?_, ih h.2⟩
      rw [toList_tokenText]
      exact unmarked_of_notMem h.1
    | token other =>
      obtain ⟨⟨hother, -⟩, hoff, hrest⟩ := h
      refine ⟨?_, ih hrest⟩
      by_cases he : other = name
      · exact .inl (congrArg token he)
      · refine .inr ?_
        have htext : (token other).text.toList = ('%' :: other.toList) ++ ['%'] := toList_tokenText
        rw [toList_tokenText, htext, unmarked_append]
        refine ⟨unmarked_cons.2 ⟨?_, unmarked_of_notMem hother.2⟩,
          unmarked_cons.2 ⟨?_, unmarked_nil⟩⟩
        · rintro ⟨after, heq⟩
          have hopened :
              name.toList ++ '%' :: after = other.toList ++ '%' :: (render rest).toList := by
            simpa using heq
          obtain ⟨hsame, -⟩ := run_inj hname hother.2 hopened
          exact he (String.toList_injective hsame.symm)
        · rintro ⟨after, heq⟩
          have hbehind : name.toList ++ '%' :: after = (render rest).toList := by
            simpa using heq
          exact hrest.not_prefix hoff hblank after hbehind.symm

/-- A literal stays what it is. -/
theorem IsSetOff.map_filledWith (h : IsSetOff rest) :
    IsSetOff (rest.map (filledWith name value)) := by
  cases rest with
  | nil => trivial
  | cons next rest =>
    cases next with
    | literal text => exact h
    | token other => exact h.elim

theorem Spaced.map_filledWith (h : Spaced segments) (hvalue : '%' ∉ value.toList) :
    Spaced (segments.map (filledWith name value)) := by
  induction segments with
  | nil => trivial
  | cons segment rest ih =>
    cases segment with
    | literal text => exact ⟨h.1, ih h.2⟩
    | token other =>
      obtain ⟨hother, hoff, hrest⟩ := h
      by_cases he : other = name
      · have hfilled : (token other).filledWith name value = literal value := if_pos he
        rw [List.map_cons, hfilled]
        exact ⟨hvalue, ih hrest⟩
      · rw [List.map_cons, filledWith_of_ne fun h => he (Segment.token.inj h)]
        exact ⟨hother, hoff.map_filledWith, ih hrest⟩

/-- Only the values that are picked before the last one have to be free of `%`. -/
theorem Spaced.fillsInPlace {picks : List (String × String)} (h : Spaced segments)
    (hnames : ∀ pick ∈ picks, ' ' ∉ pick.1.toList ∧ '%' ∉ pick.1.toList)
    (hvalues : ∀ pick ∈ picks.dropLast, '%' ∉ pick.2.toList) : FillsInPlace picks segments := by
  induction picks generalizing segments with
  | nil => trivial
  | cons pick picks ih =>
    obtain ⟨name, value⟩ := pick
    obtain ⟨hblank, hname⟩ := hnames _ List.mem_cons_self
    refine ⟨h.onlyOwn hblank hname, ?_⟩
    cases picks with
    | nil => trivial
    | cons next picks =>
      have hvalue : '%' ∉ value.toList := hvalues (name, value) List.mem_cons_self
      refine ih (h.map_filledWith hvalue) (fun pick hpick => hnames pick ?_)
        fun pick hpick => hvalues pick ?_
      · exact List.mem_cons_of_mem _ hpick
      · exact List.mem_cons_of_mem _ hpick

end Segment

open Segment

/-- Fills in one pick after the other. -/
def fillAll (picks : List (String × String)) (text : String) : String :=
  picks.foldl (fun text pick => fillToken pick.1 pick.2 text) text

theorem Segment.substituted_filledWith {name value : String} {picks : List (String × String)}
    (segment : Segment) :
    (segment.filledWith name value).substituted picks
      = segment.substituted ((name, value) :: picks) := by
  cases segment with
  | literal text => rfl
  | token other =>
    by_cases hname : other = name
    · subst hname
      simp [filledWith, substituted]
    · have hlookup : ((name, value) :: picks).lookup other = picks.lookup other := by
        rw [List.lookup_cons, beq_eq_false_iff_ne.2 hname]
      rw [filledWith, if_neg hname, substituted, substituted, hlookup]

/-- In place, filling one name after the other fills all tokens at once. -/
theorem fillAll_eq_join {picks : List (String × String)} {segments : List Segment}
    (h : FillsInPlace picks segments) :
    fillAll picks (render segments) = String.join (segments.map (substituted picks)) := by
  induction picks generalizing segments with
  | nil =>
    induction segments with
    | nil => rfl
    | cons segment rest ih =>
      have hstays : segment.substituted [] = segment.text := by
        cases segment <;> rfl
      have htail : render rest = String.join (rest.map (substituted [])) := ih trivial
      rw [List.map_cons, String.join_cons, hstays, ← htail]
      rfl
  | cons pick picks ih =>
    obtain ⟨name, value⟩ := pick
    obtain ⟨hown, hlater⟩ := h
    have hturn : fillAll ((name, value) :: picks) (render segments)
        = fillAll picks (render (segments.map (filledWith name value))) := by
      rw [← fillToken_render hown]
      rfl
    rw [hturn, ih hlater, List.map_map]
    congr 1
    apply List.map_congr_left
    intro segment _
    exact substituted_filledWith segment

namespace Rule.Template

variable {rule : Rule.Template} {names : List String} {text : String} {source : Source}

/-- All ways to pick a value for each of the names. -/
def picks (rule : Rule.Template) : List String → List (List (String × String))
  | [] => [[]]
  | name :: rest =>
    ((rule.values? name).getD []).flatMap fun value => (rule.picks rest).map ((name, value) :: ·)

theorem fillings_eq_map : rule.fillings names text = (rule.picks names).map (fillAll · text) := by
  induction names generalizing text with
  | nil => rfl
  | cons name rest ih =>
    simp only [fillings, picks, List.map_flatMap, List.map_map, ih]
    rfl

/-- A template whose names have values ends in one of its fillings. -/
theorem exists_picks_of_fill
    (h : ∀ name ∈ names, ∃ values, rule.values? name = some values ∧ values ≠ [] ∧
      values.length ≤ 2 ^ 53) :
    ∃ picks ∈ rule.picks names, (rule.fill names text source).1 = .ok (fillAll picks text) := by
  induction names generalizing text source with
  | nil => exact ⟨[], List.mem_singleton_self _, rfl⟩
  | cons name rest ih =>
    obtain ⟨values, hvalues, hne, hlength⟩ := h name List.mem_cons_self
    obtain ⟨value, hvalue⟩ := @Source.exists_choose _ values source hne (hlength.trans (by norm_num))
    rcases hchoose : source.choose values with ⟨result, after⟩
    obtain rfl : result = .ok value := (congrArg Prod.fst hchoose).symm.trans hvalue
    obtain ⟨picks, hpicks, hfill⟩ := @ih (fillToken name value text) after
      fun other hother => h other (List.mem_cons_of_mem _ hother)
    refine ⟨(name, value) :: picks, ?_, ?_⟩
    · rw [Rule.Template.picks, hvalues]
      exact List.mem_flatMap.2 ⟨value, Source.mem_of_choose hvalue, List.mem_map_of_mem hpicks⟩
    · simp only [fill, hvalues, Option.getD_some, hchoose]
      exact hfill

theorem map_fst_of_mem_picks {picks : List (String × String)} (h : picks ∈ rule.picks names) :
    picks.map Prod.fst = names := by
  induction names generalizing picks with
  | nil =>
    rw [List.mem_singleton.1 h]
    rfl
  | cons name rest ih =>
    obtain ⟨value, -, hlater⟩ := List.mem_flatMap.1 h
    obtain ⟨later, hmem, rfl⟩ := List.mem_map.1 hlater
    rw [List.map_cons, ih hmem]

theorem mem_names_of_mem_picks {picks : List (String × String)} (h : picks ∈ rule.picks names)
    {pick : String × String} (hpick : pick ∈ picks) : pick.1 ∈ names := by
  rw [← map_fst_of_mem_picks h]
  exact List.mem_map_of_mem hpick

theorem mem_openNames {name : String} :
    name ∈ rule.openNames ↔ .token name ∈ split rule.template ∧ isReplay name = false := by
  rw [openNames, List.mem_filter, mem_tokenNames]
  simp

theorem fillsInPlace_of_spaced (hspaced : Spaced (split rule.template))
    {picks : List (String × String)} (hpicks : picks ∈ rule.picks rule.openNames)
    (hvalues : ∀ pick ∈ picks.dropLast, '%' ∉ pick.2.toList) :
    FillsInPlace picks (split rule.template) := by
  refine hspaced.fillsInPlace (fun pick hpick => hspaced.notMem_name ?_) hvalues
  exact (mem_openNames.1 (mem_names_of_mem_picks hpicks hpick)).1

/-- A draw fills in one value for each name, in their order, and if the token of each is only found
in its own places then, this fills all tokens of the template at once. Blanks between the tokens see
to that, if no value but the last one picked has a `%`. -/
theorem draw_fills {rule : Rule.Template} (haccepted : (Rule.template rule).Accepted)
    (hshort : ∀ choice ∈ rule.choices, choice.2.length ≤ 2 ^ 53) :
    (∀ source, ∃ picks ∈ rule.picks rule.openNames,
        (rule.draw source).1 = .ok (some (fillAll picks rule.template))) ∧
      ∀ picks ∈ rule.picks rule.openNames,
        (FillsInPlace picks (split rule.template) →
          fillAll picks rule.template
            = String.join ((split rule.template).map (substituted picks))) ∧
        (Spaced (split rule.template) → (∀ pick ∈ picks.dropLast, '%' ∉ pick.2.toList) →
          FillsInPlace picks (split rule.template)) := by
  refine ⟨fun source => ?_, fun picks hpicks => ⟨fun hplace => ?_, fun hspaced hvalues => ?_⟩⟩
  · have hvalues : ∀ name ∈ rule.openNames, ∃ values, rule.values? name = some values ∧
        values ≠ [] ∧ values.length ≤ 2 ^ 53 := by
      intro name hname
      obtain ⟨values, hvalues, hne⟩ := haccepted.2 name hname
      obtain ⟨choice, hchoice, rfl⟩ := Option.map_eq_some_iff.1 hvalues
      exact ⟨choice.2, hvalues, hne, hshort choice (List.mem_of_find?_eq_some hchoice)⟩
    obtain ⟨picks, hpicks, hfill⟩ := exists_picks_of_fill hvalues
    refine ⟨picks, hpicks, ?_⟩
    change (rule.fill rule.openNames rule.template source).1.map some = _
    rw [hfill]
    rfl
  · rw [← fillAll_eq_join hplace, render_split]
  · exact fillsInPlace_of_spaced hspaced hpicks hvalues

end Rule.Template

/-- A template that uses one of its names twice, and picks a token for the other. -/
def phraseTemplate : Rule.Template where
  template := "%adj% %adj% %noun%"
  choices := [(.text "adj", ["big"]), (.text "noun", ["%animal%"])]

theorem draw_phraseTemplate : (Rule.template phraseTemplate).Accepted ∧
    Spaced (split phraseTemplate.template) ∧
    ∀ source, (phraseTemplate.draw source).1 = .ok (some "big big %animal%") := by
  have hsplit : split phraseTemplate.template =
      [.token "adj", .literal " ", .token "adj", .literal " ", .token "noun"] := by
    decide +kernel
  have hnames : phraseTemplate.openNames = ["adj", "noun"] := by decide +kernel
  have haccepted : (Rule.template phraseTemplate).Accepted := by
    refine ⟨by decide, fun name hname => ?_⟩
    rw [hnames, List.mem_cons, List.mem_singleton] at hname
    rcases hname with rfl | rfl
    · exact ⟨["big"], rfl, by decide⟩
    · exact ⟨["%animal%"], rfl, by decide⟩
  have hshort : ∀ choice ∈ phraseTemplate.choices, choice.2.length ≤ 2 ^ 53 := by
    simp [phraseTemplate]
  have hspaced : Spaced (split phraseTemplate.template) := by
    rw [hsplit]
    simp [Spaced, IsSetOff, IsName]
  obtain ⟨hdraw, hfill⟩ := Rule.Template.draw_fills haccepted hshort
  refine ⟨haccepted, hspaced, fun source => ?_⟩
  obtain ⟨picks, hpicks, hsource⟩ := hdraw source
  have hpicked : picks = [("adj", "big"), ("noun", "%animal%")] := by
    rw [hnames] at hpicks
    exact List.mem_singleton.1 hpicks
  obtain ⟨hjoin, hplace⟩ := hfill picks hpicks
  have hvalues : ∀ pick ∈ picks.dropLast, '%' ∉ pick.2.toList := by
    rw [hpicked]
    decide
  rw [hsource, hjoin (hplace hspaced hvalues), hsplit, hpicked]
  decide

/-- The value for the first name is the token of the second. -/
def echoingTemplate : Rule.Template where
  template := "%x% %y%"
  choices := [(.text "x", ["%y%"]), (.text "y", ["1"])]

/-- The token that was picked is filled in along with the template's own. -/
theorem draw_echoingTemplate : (Rule.template echoingTemplate).Accepted ∧
    echoingTemplate.picks echoingTemplate.openNames = [[("x", "%y%"), ("y", "1")]] ∧
    String.join ((split echoingTemplate.template).map
      (substituted [("x", "%y%"), ("y", "1")])) = "%y% 1" ∧
    ∀ source, (echoingTemplate.draw source).1 = .ok (some "1 1") := by
  have hnames : echoingTemplate.openNames = ["x", "y"] := by decide +kernel
  have hx : echoingTemplate.values? "x" = some ["%y%"] := rfl
  have hy : echoingTemplate.values? "y" = some ["1"] := rfl
  have hpicks : echoingTemplate.picks ["x", "y"] = [[("x", "%y%"), ("y", "1")]] := rfl
  have hnonempty : ∀ name ∈ echoingTemplate.openNames, ∃ values,
      echoingTemplate.values? name = some values ∧ values ≠ [] ∧ values.length ≤ 2 ^ 53 := by
    intro name hname
    rw [hnames, List.mem_cons, List.mem_singleton] at hname
    rcases hname with rfl | rfl
    · exact ⟨["%y%"], hx, by decide, by decide⟩
    · exact ⟨["1"], hy, by decide, by decide⟩
  refine ⟨⟨by decide, fun name hname => ?_⟩, by rw [hnames, hpicks], by decide +kernel, ?_⟩
  · obtain ⟨values, hvalues, hne, -⟩ := hnonempty name hname
    exact ⟨values, hvalues, hne⟩
  · intro source
    obtain ⟨picks, hmem, hfill⟩ : ∃ picks ∈ echoingTemplate.picks echoingTemplate.openNames,
        (echoingTemplate.fill echoingTemplate.openNames echoingTemplate.template source).1
          = .ok (fillAll picks echoingTemplate.template) :=
      Rule.Template.exists_picks_of_fill hnonempty
    rw [hnames, hpicks] at hmem
    rw [List.mem_singleton.1 hmem] at hfill
    change (echoingTemplate.fill echoingTemplate.openNames echoingTemplate.template source).1.map some
      = _
    rw [hfill]
    decide

end TextGrammar
