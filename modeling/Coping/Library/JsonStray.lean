import Coping.Library.Json

/-!
# Texts with which no object begins

Something is printed in front of an object, and what is read as a whole is no object any
more. A text is *stray* if it has a byte that is neither space nor a brace; it must not
open a string by itself, so a quote has to stand behind a backslash.
-/

namespace Json

/-- Every quote stands behind a backslash. -/
inductive EscapedText : List UInt8 → Prop where
  | nil : EscapedText []
  | other {c : UInt8} {rest : List UInt8} (h : c ≠ quote) (escaped : EscapedText rest) :
      EscapedText (c :: rest)
  | quoted {rest : List UInt8} (escaped : EscapedText rest) :
      EscapedText (backslash :: quote :: rest)

/-- Neither space nor one of the braces around an object. -/
def isStray (c : UInt8) : Bool := !isSpace c && c != openBrace && c != closeBrace

section EscapedText

variable {a b text rest : List UInt8} {c : UInt8}

theorem EscapedText.append (h : EscapedText a) (h' : EscapedText b) : EscapedText (a ++ b) := by
  induction h with
  | nil => exact h'
  | other hc _ ih => exact .other hc ih
  | quoted _ ih => exact .quoted ih

theorem EscapedText.of_notMem (h : quote ∉ text) : EscapedText text := by
  induction text with
  | nil => exact .nil
  | cons c text ih =>
      rw [List.mem_cons, not_or] at h
      exact .other (Ne.symm h.1) (ih h.2)

theorem EscapedText.tail (h : EscapedText (c :: text)) (other : c ≠ backslash) :
    EscapedText text := by
  cases h with
  | other _ escaped => exact escaped
  | quoted _ => exact absurd rfl other

/-- Behind its space, a text with a stray byte begins with a byte that is no quote. -/
theorem EscapedText.front (h : EscapedText text) (stray : ∃ c ∈ text, isStray c = true) :
    ∃ c tail, (∀ rest, skipSpace (text ++ rest) = c :: (tail ++ rest)) ∧ c ≠ quote ∧
      isSpace c = false ∧ (isStray c = true ∨ EscapedText tail ∧ ∃ d ∈ tail, isStray d = true) := by
  induction text with
  | nil =>
      obtain ⟨c, hc, -⟩ := stray
      cases hc
  | cons c text ih =>
      obtain ⟨d, hd, hstray⟩ := stray
      cases hspace : isSpace c with
      | true =>
          have hother : c ≠ backslash := by
            intro heq
            rw [heq] at hspace
            cases hspace
          have hmem : d ∈ text := by
            rcases List.mem_cons.mp hd with rfl | hmem
            · rw [isStray, hspace] at hstray
              cases hstray
            · exact hmem
          obtain ⟨b, tail, hskip, hrest⟩ := ih (h.tail hother) ⟨d, hmem, hstray⟩
          refine ⟨b, tail, fun rest => ?_, hrest⟩
          rw [List.cons_append, skipSpace, List.dropWhile_cons_of_pos hspace]
          exact hskip rest
      | false =>
          refine ⟨c, text, fun rest => ?_, ?_, hspace, ?_⟩
          · rw [List.cons_append, skipSpace, List.dropWhile_cons_of_neg (by rw [hspace]; decide)]
          · intro heq
            rw [heq] at h
            cases h with
            | other hc _ => exact hc rfl
          · by_cases hfirst : isStray c = true
            · exact .inl hfirst
            · have hbrace : c ≠ backslash := by
                intro heq
                rw [heq] at hfirst
                exact hfirst rfl
              rcases List.mem_cons.mp hd with rfl | hmem
              · exact absurd hstray hfirst
              · exact .inr ⟨h.tail hbrace, d, hmem, hstray⟩

theorem literal_value {word bytes : List UInt8} {v v' : Value}
    (h : literal word v bytes = some (v', rest)) : v' = v := by
  rw [literal] at h
  split at h
  · cases h
    rfl
  · cases h

/-- Only what begins with a brace is an object. -/
theorem value_other {ms : List (List UInt8 × Value)} {n : Nat} {bytes : List UInt8}
    (skip : skipSpace bytes = c :: text) (other : c ≠ openBrace) :
    value n bytes ≠ some (.object ms, rest) := by
  intro h
  cases n with
  | zero => cases h
  | succ n =>
      rw [value, skip] at h
      dsimp only at h
      rw [if_neg other] at h
      split at h
      · obtain ⟨_, -, h⟩ := Option.map_eq_some_iff.mp h
        cases h
      split at h
      · split at h
        · cases h
        · obtain ⟨_, -, h⟩ := Option.map_eq_some_iff.mp h
          cases h
      split at h
      · cases literal_value h
      split at h
      · cases literal_value h
      split at h
      · cases literal_value h
      · obtain ⟨_, -, h⟩ := Option.map_eq_some_iff.mp h
        cases h

/-- A text with a stray byte and without a quote that opens a string begins no object. -/
theorem EscapedText.parse_ne (h : EscapedText text) (stray : ∃ c ∈ text, isStray c = true)
    (ms : List (List UInt8 × Value)) : parse (text ++ rest) ≠ some (.object ms) := by
  intro hparse
  obtain ⟨⟨v, behind⟩, hvalue, hend⟩ := Option.bind_eq_some_iff.mp hparse
  dsimp only at hend
  split at hend
  case isFalse => cases hend
  next hspace =>
    cases hend
    obtain ⟨c, tail, hskip, -, -, hcase⟩ := h.front stray
    by_cases hopen : c = openBrace
    · rw [hopen] at hskip hcase
      obtain hcase | ⟨htail, hstray⟩ := hcase
      · cases hcase
      obtain ⟨d, tail', hskip', hquote, -, hcase'⟩ := htail.front hstray
      rw [value_openBrace _ (hskip rest)] at hvalue
      by_cases hclose : d = closeBrace
      · rw [hclose] at hskip' hcase'
        obtain hcase' | ⟨htail', hstray'⟩ := hcase'
        · cases hcase'
        have hexpect : expect closeBrace (tail ++ rest) = some (tail' ++ rest) := by
          rw [expect, hskip']
          exact if_pos rfl
        rw [hexpect] at hvalue
        cases hvalue
        obtain ⟨e, tail'', hskip'', -⟩ := htail'.front hstray'
        rw [hskip''] at hspace
        cases hspace
      · have hexpect : ∀ b, b ≠ d → expect b (tail ++ rest) = none := by
          intro b hb
          rw [expect, hskip']
          exact if_neg (Ne.symm hb)
        rw [hexpect closeBrace (Ne.symm hclose)] at hvalue
        obtain ⟨⟨_, _⟩, hmembers, -⟩ := Option.map_eq_some_iff.mp hvalue
        cases hlength : (text ++ rest).length with
        | zero =>
            rw [hlength] at hmembers
            cases hmembers
        | succ n =>
            rw [hlength, members, hexpect quote (Ne.symm hquote)] at hmembers
            cases hmembers
    · exact value_other (hskip rest) hopen hvalue

end EscapedText

end Json
