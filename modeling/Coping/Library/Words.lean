import Mathlib.Init

/-!
# The words of a text

Separators are given by a predicate. The words of a text are its longest runs without a
separator; a separator anywhere splits them in two lists.
-/

/-- The longest runs without a separator, in their order. -/
def words {α : Type} (sep : α → Bool) (text : List α) : List (List α) :=
  (text.splitOnP sep).filter fun word => !word.isEmpty

section Words

variable {α : Type} {sep : α → Bool} {c : α} {word text : List α}

theorem words_nil : words sep [] = [] := rfl

theorem words_append_cons (front back : List α) (separates : sep c = true) :
    words sep (front ++ c :: back) = words sep front ++ words sep back := by
  rw [words, List.splitOnP_append_cons front back separates, List.filter_append, words, words]

theorem words_cons (separates : sep c = true) (text : List α) :
    words sep (c :: text) = words sep text := by
  have happend := words_append_cons [] text separates
  rwa [List.nil_append, words_nil, List.nil_append] at happend

theorem words_run (run : ∀ c ∈ word, sep c = false) (nonempty : word ≠ []) :
    words sep word = [word] := by
  cases word with
  | nil => exact absurd rfl nonempty
  | cons c word =>
      rw [words, List.splitOnP_eq_singleton run]
      rfl

/-- A word that stands first. -/
theorem words_append (run : ∀ c ∈ word, sep c = false) (nonempty : word ≠ [])
    (separated : ∀ c, text.head? = some c → sep c = true) :
    words sep (word ++ text) = word :: words sep text := by
  cases text with
  | nil => rw [List.append_nil, words_run run nonempty, words_nil]
  | cons c text =>
      have hc : sep c = true := separated c rfl
      rw [words_append_cons _ _ hc, words_run run nonempty, words_cons hc, List.singleton_append]

/-- The first word and what follows it. -/
theorem words_takeWhile (first : sep c = false) (text : List α) :
    words sep (c :: text) = (c :: text).takeWhile (fun c => !sep c) ::
      words sep ((c :: text).dropWhile fun c => !sep c) := by
  have hrun : ∀ d ∈ (c :: text).takeWhile (fun c => !sep c), sep d = false := by
    intro d hd
    have hall := List.all_eq_true.mp (List.all_takeWhile (p := fun c => !sep c)) d hd
    rwa [Bool.not_eq_true'] at hall
  have hnonempty : (c :: text).takeWhile (fun c => !sep c) ≠ [] := by
    rw [List.takeWhile_cons_of_pos (by rw [first]; rfl)]
    exact List.cons_ne_nil _ _
  have hseparated : ∀ d, ((c :: text).dropWhile fun c => !sep c).head? = some d →
      sep d = true := by
    intro d hd
    have hhead := List.head?_dropWhile_not (fun c => !sep c) (c :: text)
    rw [hd] at hhead
    change (!sep d) = false at hhead
    rwa [Bool.not_eq_false'] at hhead
  rw [← words_append hrun hnonempty hseparated, List.takeWhile_append_dropWhile]

end Words
