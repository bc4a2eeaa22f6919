import Mathlib.Data.List.Chain

/-!
# Calls that share a state

A procedure with static variables gets a state and the arguments of a call, and yields the next
state and an answer. `after` and `answers` are the state and the answers of a row of calls.
When an invariant of the state determines every answer, the state is a matter of speed only:
`answers_eq_map` replaces the row by independent calls. A state that remembers the answer of the
last call under a key is that where neighbours of one key have one answer, and nowhere else.
-/

namespace Calls

variable {σ ι ω : Type*}

def after (call : σ → ι → σ × ω) : σ → List ι → σ
  | s, [] => s
  | s, i :: calls => after call (call s i).1 calls

def answers (call : σ → ι → σ × ω) : σ → List ι → List ω
  | _, [] => []
  | s, i :: calls => (call s i).2 :: answers call (call s i).1 calls

variable {call : σ → ι → σ × ω} {I : σ → Prop} {s : σ}

theorem after_invariant (start : I s) (keep : ∀ s i, I s → I (call s i).1) (calls : List ι) :
    I (after call s calls) := by
  induction calls generalizing s with
  | nil => exact start
  | cons i calls ih => exact ih (keep s i start)

theorem answers_eq_map {f : ι → ω} (start : I s) (keep : ∀ s i, I s → I (call s i).1)
    (answer : ∀ s i, I s → (call s i).2 = f i) (calls : List ι) :
    answers call s calls = calls.map f := by
  induction calls generalizing s with
  | nil => rfl
  | cons i calls ih =>
      rw [answers, answer s i start, ih (keep s i start), List.map_cons]

/-- The state remembers a key and its answer. A call of that key gets the answer, and a call of
another key replaces both. -/
structure OneEntry {κ : Type*} (call : σ → ι → σ × ω) (key : ι → κ) (f : ι → ω)
    (Holds : σ → κ → ω → Prop) : Prop where
  hit : ∀ s i w, Holds s (key i) w → (call s i).2 = w ∧ Holds (call s i).1 (key i) w
  miss : ∀ s i k w, Holds s k w → k ≠ key i → (call s i).2 = f i ∧ Holds (call s i).1 (key i) (f i)

section OneEntry

variable {κ : Type*} {key : ι → κ} {f : ι → ω} {Holds : σ → κ → ω → Prop}

theorem OneEntry.answers_eq_map_iff (entry : OneEntry call key f Holds) {first : ι}
    (holds : Holds s (key first) (f first)) (calls : List ι) :
    answers call s calls = calls.map f ↔
      (first :: calls).IsChain fun i j => key i = key j → f i = f j := by
  induction calls generalizing s first with
  | nil => exact ⟨fun _ => .singleton first, fun _ => rfl⟩
  | cons i calls ih =>
      rw [answers, List.map_cons, List.cons_eq_cons, List.isChain_cons_cons]
      by_cases hkey : key first = key i
      · rw [hkey] at holds
        obtain ⟨hanswer, hholds⟩ := entry.hit s i _ holds
        rw [hanswer]
        constructor
        · rintro ⟨hsame, hrest⟩
          rw [hsame] at hholds
          exact ⟨fun _ => hsame, (ih hholds).mp hrest⟩
        · rintro ⟨hsame, hchain⟩
          rw [hsame hkey] at hholds
          exact ⟨hsame hkey, (ih hholds).mpr hchain⟩
      · obtain ⟨hanswer, hholds⟩ := entry.miss s i _ _ holds hkey
        rw [hanswer, ih hholds]
        exact ⟨fun ⟨_, hchain⟩ => ⟨fun hsame => absurd hsame hkey, hchain⟩,
          fun ⟨_, hchain⟩ => ⟨rfl, hchain⟩⟩

/-- From a state that remembers nothing. -/
theorem OneEntry.answers_eq_map_iff_of_empty (entry : OneEntry call key f Holds)
    (empty : ∀ i, (call s i).2 = f i ∧ Holds (call s i).1 (key i) (f i)) (calls : List ι) :
    answers call s calls = calls.map f ↔
      calls.IsChain fun i j => key i = key j → f i = f j := by
  cases calls with
  | nil => exact ⟨fun _ => .nil, fun _ => rfl⟩
  | cons i calls =>
      obtain ⟨hanswer, hholds⟩ := empty i
      rw [answers, List.map_cons, hanswer, List.cons_inj_right]
      exact entry.answers_eq_map_iff hholds calls

end OneEntry

end Calls
