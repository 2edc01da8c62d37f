import TextGrammar.English.Article

/-! What is documented of the forms that a library makes, as far as the modifiers rely on it. -/
namespace TextGrammar.English

/-- The library tells nothing of an empty word, nor of a `y` with nothing before it. -/
structure BaseForms.Documented (forms : BaseForms) : Prop where
  article_soft : ∀ word, startsSoft word = true → forms.withArticle word = 'a' :: ' ' :: word
  article_vowel : ∀ word, startsSoft word = false → word.head?.any isVowelAnyCase = true →
    forms.withArticle word = 'a' :: 'n' :: ' ' :: word
  plural_hiss : ∀ stem, ∀ c ∈ ['s', 'h', 'x'], forms.plural (stem ++ [c]) = stem ++ [c] ++ ['e', 's']
  plural_vowel_y : ∀ stem c, isVowel c = true →
    forms.plural (stem ++ [c] ++ ['y']) = stem ++ [c] ++ ['y'] ++ ['s']
  plural_y : ∀ stem c, isVowel c = false →
    forms.plural (stem ++ [c] ++ ['y']) = stem ++ [c] ++ ['i', 'e', 's']
  plural_other : ∀ stem, ∀ c ∉ ['s', 'h', 'x', 'y'], forms.plural (stem ++ [c]) = stem ++ [c] ++ ['s']

theorem baseEnglish_documented : baseEnglish.Documented where
  article_soft word hsoft := if_pos hsoft
  article_vowel word hsoft hvowel := by simp [baseEnglish, hsoft, hvowel]
  plural_hiss stem c hc := by
    simp only [List.mem_cons, List.not_mem_nil, or_false] at hc
    rcases hc with rfl | rfl | rfl <;> simp [baseEnglish]
  plural_vowel_y stem c hc := by simp [baseEnglish, hc]
  plural_y stem c hc := by simp [baseEnglish, hc]
  plural_other stem c hc := by
    simp only [List.mem_cons, List.not_mem_nil, or_false, not_or] at hc
    simp [baseEnglish, hc]

section Documented

variable {forms : BaseForms} {word : List Char}

theorem articleFor_of_soft (hforms : forms.Documented) (hsoft : startsSoft word = true) :
    articleFor forms word = ['a'] := by
  rw [articleFor, hforms.article_soft word hsoft]
  rfl

theorem articleFor_of_vowel (hforms : forms.Documented) (hsoft : startsSoft word = false)
    (hvowel : word.head?.any isVowelAnyCase = true) : articleFor forms word = ['a', 'n'] := by
  rw [articleFor, hforms.article_vowel word hsoft hvowel]
  rfl

end Documented

end TextGrammar.English
