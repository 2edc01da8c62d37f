import TextGrammar.Proofs.Token.Canonical

/-! Texts made of texts: where each `%` belongs to a token, the tokens are those of the parts. -/
namespace TextGrammar.Segment

variable {name text rest : String} {segments : List Segment}

/-- The names in the tokens of a text, one for each token. -/
def names (text : String) : List String := (split text).filterMap tokenName?

theorem mem_names : name ∈ names text ↔ .token name ∈ split text := by
  rw [← mem_tokenNames, tokenNames, List.mem_eraseDups]
  rfl

/-- Each `%` belongs to a token. -/
def Paired (text : String) : Prop := ∀ part, literal part ∈ split text → '%' ∉ part.toList

theorem names_eq : names text = (scan text.toList).2.filterMap tokenName? :=
  filterMap_tokenName?_close _

theorem names_of_notMem (h : '%' ∉ text.toList) : names text = [] := by
  rw [names, split_of_notMem h]
  split
  · rfl
  · rfl

theorem names_plain_append (h : '%' ∉ text.toList) : names (text ++ rest) = names rest := by
  have hplain : NoTokenIn text.toList rest.toList := by
    simpa using noTokenIn_plain h noTokenIn_nil
  rw [names_eq, names_eq, String.toList_append, scan_append hplain]

theorem names_tokenText_append (h : IsName name.toList) :
    names (tokenText name ++ rest) = name :: names rest := by
  rw [names_eq, String.toList_append, toList_tokenText_append, scan_opened h, String.ofList_toList]
  rfl

theorem names_render_append (hliteral : ∀ part, literal part ∈ segments → '%' ∉ part.toList)
    (htoken : ∀ name, token name ∈ segments → IsName name.toList) :
    names (render segments ++ rest) = segments.filterMap tokenName? ++ names rest := by
  induction segments with
  | nil =>
    rw [render_nil, String.empty_append]
    rfl
  | cons segment others ih =>
    have hothers := ih (fun part hpart => hliteral part (List.mem_cons_of_mem _ hpart))
      fun name hname => htoken name (List.mem_cons_of_mem _ hname)
    rw [render_cons, String.append_assoc]
    cases segment with
    | literal part =>
      exact (names_plain_append (hliteral part List.mem_cons_self)).trans hothers
    | token name =>
      exact (names_tokenText_append (htoken name List.mem_cons_self)).trans
        (congrArg (name :: ·) hothers)

/-- A text in which each `%` belongs to a token is read to its end before the text behind it. -/
theorem Paired.names_append (h : Paired text) :
    names (text ++ rest) = names text ++ names rest := by
  have hread : names (render (split text) ++ rest) = names text ++ names rest :=
    names_render_append h fun _ => isName_of_mem_split
  rw [render_split] at hread
  exact hread

theorem names_join {texts : List String} (h : ∀ text ∈ texts, Paired text) :
    names (String.join texts) = texts.flatMap names := by
  induction texts with
  | nil => exact names_of_notMem (by simp [String.join])
  | cons text others ih =>
    obtain ⟨htext, hothers⟩ := List.forall_mem_cons.1 h
    rw [String.join_cons, htext.names_append, ih hothers, List.flatMap_cons]

theorem names_tokenText (h : IsName name.toList) : names (tokenText name) = [name] := by
  rw [names, split_tokenText (by simpa using h.1) h.2]
  rfl

theorem paired_of_notMem (h : '%' ∉ text.toList) : Paired text := by
  intro part hpart
  rw [split_of_notMem h] at hpart
  split at hpart
  · cases hpart
  · cases List.mem_singleton.1 hpart
    exact h

theorem paired_tokenText (h : IsName name.toList) : Paired (tokenText name) := by
  intro part hpart
  rw [split_tokenText (by simpa using h.1) h.2] at hpart
  cases List.mem_singleton.1 hpart

end TextGrammar.Segment
