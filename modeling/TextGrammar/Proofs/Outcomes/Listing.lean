import TextGrammar.Proofs.Number.Order
import TextGrammar.Proofs.Outcomes.Walk

/-! Reports of ranges: values that differ are all equally probable, so they keep their order. -/
namespace TextGrammar.Distribution

section Merge

variable {W : Type} [Zero W] [Add W] {texts : List String} {weight : W}

/-- Texts that differ are not merged. -/
theorem entries_merge_of_nodup (h : texts.Nodup) :
    (merge (texts.map fun text => (text, weight))).entries =
      texts.map fun text => (text, 0 + weight) := by
  have hfold (seen : List String) (hseen : (seen ++ texts).Nodup) :
      (texts.map fun text => (text, weight)).foldl addTo
          ⟨seen.map fun text => (text, 0 + weight)⟩ =
        ⟨(seen ++ texts).map fun text => (text, 0 + weight)⟩ := by
    induction texts generalizing seen with
    | nil => simp
    | cons text rest ih =>
      have hnew : text ∉ seen := fun hmem =>
        (List.disjoint_of_nodup_append hseen) hmem List.mem_cons_self
      have happend : seen ++ text :: rest = seen ++ [text] ++ rest := by simp
      rw [happend] at hseen ⊢
      rw [List.map_cons, List.foldl_cons, ← ih h.of_cons _ hseen, addTo, Table.get?, lookup_map,
        if_neg hnew, Table.put, putEntry_map_of_not_mem _ _ _ _ hnew]
      simp
  rw [merge_eq_foldl]
  exact congrArg Table.entries (hfold [] h)

end Merge

variable {store : Store} {limit : Bound} {openRangesInfinite : Bool} {name : String}
  {range : Rule.Range} {texts : List String} {count : ℕ} {cap : ℤ}

/-- A range whose values differ is listed in its own order, up to the cap. -/
theorem ofRule_of_range (hrule : store.rule? name = some (.range range)) (hlimit : 0 < limit.value)
    (hstep : range.step ≠ none) (hsize : range.size = .ok count)
    (htexts : nthTexts range (min count cap.toNat) = .ok texts) (hdistinct : texts.Nodup)
    (mergeOutcomes : Bool) :
    ∃ distribution, ofRule (.capped store limit (.ofInt cap) openRangesInfinite) mergeOutcomes name
        = .ok distribution ∧ distribution.outcomes.map Prod.fst = texts := by
  let setting := Setting.capped store limit (.ofInt cap) openRangesInfinite
  have hopen : ¬(range.step.isNone && setting.openRangesInfinite) = true := by
    simp [Option.isNone_eq_false_iff.2 (Option.isSome_iff_ne_none.2 hstep)]
  obtain ⟨found, hfound, houtcomes⟩ : ∃ found, foundShown setting name name = .ok found ∧
      found.outcomes = texts.map fun text => (text, 1 / (count : Double)) := by
    obtain ⟨room, hroom⟩ : ∃ room, limit.value.toNat = room + 1 :=
      ⟨limit.value.toNat - 1, by omega⟩
    have hlimit : setting.limit.value.toNat = room + 1 := hroom
    rw [foundShown_eq_foundWithin, hlimit, foundWithin_of_rule? hrule List.not_mem_nil]
    rw [← Cap.shownOf_ofInt] at htexts
    exact ⟨_, (rangeFound_eq_ok hopen).2 ⟨count, hsize, fun _ => rfl, texts, htexts, rfl⟩, rfl⟩
  have hlisted (weight : Double) : ((texts.map fun text => (text, weight)).mergeSort
      fun a b => !a.2.lt b.2) = texts.map fun text => (text, weight) := by
    refine List.mergeSort_of_pairwise (List.pairwise_map.2 (List.pairwise_of_forall ?_))
    simp [Double.lt_self]
  obtain ⟨weight, hweight⟩ : ∃ weight : Double, (if mergeOutcomes then
      (merge found.outcomes).entries else found.outcomes) = texts.map fun text => (text, weight) := by
    rw [houtcomes]
    cases mergeOutcomes with
    | false => exact ⟨_, rfl⟩
    | true => exact ⟨_, entries_merge_of_nodup hdistinct⟩
  refine ⟨{ name, warnings := found.warnings, outcomes := texts.map fun text => (text, weight) },
    ?_, ?_⟩
  · have hname : setting.store.hasName name = true := Store.exists_rule?_iff.1 ⟨_, hrule⟩
    change ofRule setting mergeOutcomes name = _
    simp only [ofRule, ofRuleShown, reportedShown, hname, hfound]
    change Except.ok _ = Except.ok _
    simp only [hweight, hlisted]
  · rw [List.map_map]
    exact List.map_id texts

end TextGrammar.Distribution
