import Coping.Library.Json

/-!
# Objects that are put together

A `Member` carries the text of its value together with the proof that it is read as that
value, so the text of an object that is made from members is read without a look at their
kinds.

The second half is about an object that is cut off and closed all the same. A cut inside a
member is noticed: the brace and the end of line behind it do not complete a member.
-/

namespace Json

structure Member where
  key : List UInt8
  written : List UInt8
  value : Value
  plain : key.all isPlain = true
  nonempty : written ≠ []
  reads : ∀ (n : Nat) (c : UInt8) (rest : List UInt8), written.length ≤ n → isStop c = true →
    Json.value n (written ++ c :: rest) = some (value, c :: rest)

namespace Member

def text (m : Member) : List UInt8 := quote :: (m.key ++ quote :: colon :: space :: m.written)

def pair (m : Member) : List UInt8 × Value := (m.key, m.value)

/-- Members behind others. -/
def others (ms : List Member) : List UInt8 := ms.flatMap fun m => comma :: space :: m.text

def objectText (m : Member) (ms : List Member) : List UInt8 :=
  openBrace :: (m.text ++ (others ms ++ [closeBrace]))

variable {m : Member} {ms : List Member} {n : Nat} {tail rest : List UInt8}

theorem text_append (m : Member) (tail : List UInt8) :
    m.text ++ tail = quote :: (m.key ++ quote :: colon :: (space :: (m.written ++ tail))) := by
  rw [text, List.cons_append, List.append_assoc]
  rfl

theorem others_cons (m : Member) (ms : List Member) (tail : List UInt8) :
    others (m :: ms) ++ tail = comma :: space :: (m.text ++ (others ms ++ tail)) := by
  rw [others, List.flatMap_cons, List.append_assoc]
  rfl

theorem others_nil : others [] = [] := rfl

theorem others_eq (m : Member) (ms : List Member) :
    others (m :: ms) = comma :: space :: (m.text ++ others ms) := rfl

theorem others_append (ms ms' : List Member) : others (ms ++ ms') = others ms ++ others ms' :=
  List.flatMap_append

theorem length_text (m : Member) : m.written.length + 4 ≤ m.text.length := by
  rw [text, List.length_cons, List.length_append, List.length_cons, List.length_cons,
    List.length_cons]
  omega

theorem length_others_cons (m : Member) (ms : List Member) :
    (others (m :: ms)).length = m.text.length + (others ms).length + 2 := by
  rw [others, List.flatMap_cons, List.length_append, List.length_cons, List.length_cons]
  change m.text.length + 1 + 1 + (others ms).length = _
  omega

/-! ## Reading -/

/-- A member is read, and the others behind it. -/
theorem members_text (m : Member) (tail : List UInt8) (fuel : m.written.length ≤ n) :
    members (n + 1) (m.text ++ comma :: tail) =
      (members n tail).map fun (more, rest) => (m.pair :: more, rest) := by
  rw [text_append, members_key n _ (Spells.of_plain m.plain), value_space,
    m.reads n comma tail fuel (by decide), Option.bind_some]
  simp only [@expect_cons tail comma (by decide)]
  cases members n tail <;> rfl

theorem members_text_last (m : Member) (tail : List UInt8) (fuel : m.written.length ≤ n) :
    members (n + 1) (m.text ++ closeBrace :: tail) = some ([m.pair], tail) := by
  rw [text_append]
  apply members_last (Spells.of_plain m.plain)
  rw [value_space]
  exact m.reads n closeBrace tail fuel (by decide)

/-- Behind the members in front, the reader goes on with the others. -/
theorem members_front (m : Member) (ms : List Member) (n : Nat) (tail : List UInt8)
    (fuel : (m.text ++ others ms).length ≤ n + ms.length + 1) :
    members (n + ms.length + 1) (m.text ++ (others ms ++ comma :: tail)) =
      (members n tail).map fun (more, rest) => ((m :: ms).map pair ++ more, rest) := by
  have hlength := length_text m
  rw [List.length_append] at fuel
  induction ms generalizing m with
  | nil =>
      rw [List.length_nil] at fuel
      exact members_text m tail (by omega)
  | cons next ms ih =>
      rw [length_others_cons, List.length_cons] at fuel
      have hfuel : m.written.length ≤ n + ms.length + 1 := by omega
      rw [others_cons]
      change members (n + ms.length + 1 + 1) _ = _
      rw [members_text m _ hfuel, members_space, ih next (by omega) (length_text next)]
      cases members n tail <;> rfl

/-- All members of an object are read. -/
theorem members_all (m : Member) (ms : List Member) (rest : List UInt8)
    (fuel : (m.text ++ others ms).length ≤ n) :
    members n (m.text ++ (others ms ++ closeBrace :: rest)) = some ((m :: ms).map pair, rest) := by
  have hlength := length_text m
  rw [List.length_append] at fuel
  induction ms generalizing m n with
  | nil =>
      obtain ⟨n, rfl⟩ : ∃ k, n = k + 1 := Nat.exists_eq_add_of_le' (by omega)
      exact members_text_last m rest (by omega)
  | cons next ms ih =>
      rw [length_others_cons] at fuel
      obtain ⟨n, rfl⟩ : ∃ k, n = k + 1 := Nat.exists_eq_add_of_le' (by omega)
      have hfuel : m.written.length ≤ n := by omega
      have hnext : next.text.length + (others ms).length ≤ n := by omega
      rw [others_cons, members_text m _ hfuel, members_space, ih next hnext (length_text next)]
      rfl

theorem value_objectText (m : Member) (ms : List Member) (rest : List UInt8)
    (fuel : (objectText m ms).length ≤ n) :
    Json.value n (objectText m ms ++ rest) = some (.object ((m :: ms).map pair), rest) := by
  rw [objectText, List.length_cons, List.length_append, List.length_append] at fuel
  obtain ⟨n, rfl⟩ : ∃ k, n = k + 1 := Nat.exists_eq_add_of_le' (by omega)
  have hfuel : (m.text ++ others ms).length ≤ n := by
    rw [List.length_append]
    omega
  have hmembers := members_all m ms rest hfuel
  rw [objectText, List.cons_append, List.append_assoc, List.append_assoc]
  rw [text_append] at hmembers ⊢
  exact value_object hmembers

/-- An object of members on a line of its own. -/
theorem parse_objectText (m : Member) (ms : List Member) :
    parse (objectText m ms ++ [0x0a]) = some (.object ((m :: ms).map pair)) := by
  rw [parse, value_objectText m ms [0x0a] (by rw [List.length_append]; omega)]
  rfl

theorem objectText_append (m : Member) (ms : List Member) (tail : List UInt8) :
    objectText m ms ++ tail = openBrace :: (m.text ++ (others ms ++ closeBrace :: tail)) := by
  rw [objectText, List.cons_append, List.append_assoc, List.append_assoc]
  rfl

theorem field_cons (key : List UInt8) (first : List UInt8 × Value)
    (rest : List (List UInt8 × Value)) :
    (Value.object (first :: rest)).field key =
      if first.1 = key then some first.2 else (Value.object rest).field key := by
  rw [Value.field, Value.field, List.find?_cons]
  by_cases h : first.1 = key
  · rw [if_pos h, beq_iff_eq.mpr h]
    rfl
  · rw [if_neg h, beq_eq_false_iff_ne.mpr h]

/-- With different keys, a member is found by its key. -/
theorem field_of_mem (nodup : (ms.map key).Nodup) (mem : m ∈ ms) :
    (Value.object (ms.map pair)).field m.key = some m.value := by
  induction ms with
  | nil => exact absurd mem List.not_mem_nil
  | cons first ms ih =>
      rw [List.map_cons, List.nodup_cons] at nodup
      rw [List.map_cons, field_cons]
      rcases List.mem_cons.mp mem with rfl | mem
      · exact if_pos rfl
      · have hother : first.key ≠ m.key := fun h => nodup.1 (h ▸ List.mem_map_of_mem mem)
        rw [pair, if_neg hother]
        exact ih nodup.2 mem

theorem newline_text (h : 0x0a ∉ m.written) : 0x0a ∉ m.text := by
  have hkey : 0x0a ∉ m.key := fun hmem =>
    absurd (List.all_eq_true.mp m.plain _ hmem) (by decide)
  simp only [text, List.mem_cons, List.mem_append, not_or]
  exact ⟨by decide, hkey, by decide, by decide, by decide, h⟩

theorem newline_objectText (h : ∀ x ∈ m :: ms, 0x0a ∉ x.written) : 0x0a ∉ objectText m ms := by
  have hothers : 0x0a ∉ others ms := by
    rw [others, List.mem_flatMap]
    intro hmem
    obtain ⟨x, hx, hmem⟩ := hmem
    simp only [List.mem_cons] at hmem
    rcases hmem with hcomma | hspace | hmem
    · exact absurd hcomma (by decide)
    · exact absurd hspace (by decide)
    · exact newline_text (h x (List.mem_cons_of_mem _ hx)) hmem
  simp only [objectText, List.mem_cons, List.mem_append, List.not_mem_nil, or_false, not_or]
  exact ⟨by decide, newline_text (h m List.mem_cons_self), hothers, by decide⟩

theorem length_le_others (ms : List Member) : ms.length ≤ (others ms).length := by
  induction ms with
  | nil => exact Nat.zero_le _
  | cons m ms ih =>
      rw [length_others_cons, List.length_cons]
      omega

/-- Behind a comma there has to be another member. -/
theorem parse_front_none (m : Member) (ms : List Member)
    (h : ∀ n, tail.length ≤ n → members n tail = none) :
    parse (openBrace :: (m.text ++ (others ms ++ comma :: tail))) = none := by
  have hlength := length_le_others ms
  obtain ⟨k, hk⟩ : ∃ k, (m.text ++ (others ms ++ comma :: tail)).length.succ =
      k + ms.length + 1 ∧ tail.length ≤ k := by
    refine ⟨(m.text ++ (others ms ++ comma :: tail)).length - ms.length, ?_, ?_⟩
    · rw [List.length_append, List.length_append]
      omega
    · rw [List.length_append, List.length_append, List.length_cons]
      omega
  have hfuel : (m.text ++ others ms).length ≤ k + ms.length + 1 := by
    rw [← hk.1, List.length_append, List.length_append, List.length_append]
    omega
  have hmembers := members_front m ms k tail hfuel
  rw [h k hk.2, ← hk.1] at hmembers
  have hvalue := value_object_eq (m.text ++ (others ms ++ comma :: tail)).length.succ
    (m.key ++ quote :: colon :: (space :: (m.written ++ (others ms ++ comma :: tail))))
  rw [← text_append, hmembers] at hvalue
  rw [parse, List.length_cons, hvalue]
  rfl

/-! ## Kinds of members -/

def ofString (key s : List UInt8) (plainKey : key.all isPlain = true)
    (plainValue : s.all isPlain = true) : Member where
  key := key
  written := quote :: (s ++ [quote])
  value := .string s
  plain := plainKey
  nonempty := List.cons_ne_nil _ _
  reads := by
    intro n c rest fuel _
    obtain ⟨n, rfl⟩ : ∃ k, n = k + 1 := Nat.exists_eq_add_of_le' (Nat.le_of_add_left_le fuel)
    rw [List.cons_append, List.append_assoc]
    exact value_string (Spells.of_plain plainValue)

def ofInt (key : List UInt8) (x : Int) (plainKey : key.all isPlain = true) : Member where
  key := key
  written := CFormat.decimal x
  value := .number (CFormat.decimal x)
  plain := plainKey
  nonempty := CFormat.decimal_ne_nil x
  reads := by
    intro n c rest fuel stop
    obtain ⟨n, rfl⟩ : ∃ k, n = k + 1 := by
      refine Nat.exists_eq_add_of_le' (Nat.le_trans ?_ fuel)
      exact List.length_pos_iff.mpr (CFormat.decimal_ne_nil x)
    exact value_decimal n x stop

def ofObject (key : List UInt8) (m : Member) (ms : List Member)
    (plainKey : key.all isPlain = true) : Member where
  key := key
  written := objectText m ms
  value := .object ((m :: ms).map pair)
  plain := plainKey
  nonempty := List.cons_ne_nil _ _
  reads := fun _ _ _ fuel _ => value_objectText m ms _ fuel

/-! ## Cuts -/

/-- What stands behind a text that is cut off. -/
def ending : List UInt8 := [closeBrace, 0x0a]

/-- When a text is cut off, its value either cannot be read, or takes the brace. -/
def CutSafe (written : List UInt8) : Prop :=
  ∀ (n : Nat) (p : List UInt8) (v : Value) (rest : List UInt8), p <+: written → p ≠ written →
    p ≠ [] → p.length ≤ n → Json.value n (p ++ ending) = some (v, rest) → rest = [0x0a]

theorem prefix_append_cases {p a b : List UInt8} (h : p <+: a ++ b) :
    (p <+: a ∧ p ≠ a) ∨ ∃ q, p = a ++ q ∧ q <+: b := by
  rcases List.prefix_or_prefix_of_prefix h (List.prefix_append a b) with hpa | ⟨q, rfl⟩
  · by_cases heq : p = a
    · exact .inr ⟨[], by rw [heq, List.append_nil], List.nil_prefix⟩
    · exact .inl ⟨hpa, heq⟩
  · exact .inr ⟨q, rfl, (List.prefix_append_right_inj a).mp h⟩

theorem prefix_cons_cases {c : UInt8} {p a : List UInt8} (h : p <+: c :: a) :
    p = [] ∨ ∃ q, p = c :: q ∧ q <+: a := by
  cases p with
  | nil => exact .inl rfl
  | cons d q =>
      obtain ⟨rfl, hq⟩ := List.cons_prefix_cons.mp h
      exact .inr ⟨q, rfl, hq⟩

theorem plain_of_isPrefix {p s : List UInt8} (h : p <+: s) (plain : s.all isPlain = true) :
    p.all isPlain = true := by
  rw [List.all_eq_true] at plain ⊢
  exact fun c hc => plain c (h.subset hc)

/-- A string that is cut off runs into the end of the line. -/
theorem string_ending {p : List UInt8} (plain : p.all isPlain = true) :
    string (p ++ ending) = none := by
  have htail : ∀ n, stringTail n (p ++ ending) = none := by
    induction p with
    | nil =>
        intro n
        rcases n with _ | _ | n <;> rfl
    | cons c p ih =>
        obtain ⟨hc, hp⟩ := Bool.and_eq_true_iff.mp (List.all_cons.symm.trans plain)
        obtain ⟨hquote, hbackslash, hcontrol⟩ := isPlain_iff.mp hc
        intro n
        cases n with
        | zero => rfl
        | succ n =>
            rw [List.cons_append, stringTail, if_neg hquote, if_neg hbackslash, if_neg hcontrol,
              ih hp]
            rfl
  exact htail _

theorem value_ending (n : Nat) : Json.value n ending = none := by
  cases n <;> rfl

theorem members_ending (n : Nat) : members n ending = none := by
  cases n <;> rfl

theorem cutSafe_string {s : List UInt8} (plain : s.all isPlain = true) :
    CutSafe (quote :: (s ++ [quote])) := by
  intro n p v rest hfront hproper hnonempty _ hread
  exfalso
  obtain rfl | ⟨q, rfl, hq⟩ := prefix_cons_cases hfront
  · exact hnonempty rfl
  have hplain : q.all isPlain = true := by
    rcases prefix_append_cases hq with ⟨hq, -⟩ | ⟨r, rfl, hr⟩
    · exact plain_of_isPrefix hq plain
    · obtain rfl | ⟨r', rfl, hr'⟩ := prefix_cons_cases hr
      · rwa [List.append_nil]
      · rw [List.prefix_nil.mp hr'] at hproper
        exact absurd rfl hproper
  cases n with
  | zero => cases hread
  | succ n =>
      change (string (q ++ ending)).map _ = _ at hread
      rw [string_ending hplain] at hread
      cases hread

/-- A member that is cut off is not read. -/
theorem members_cut (m : Member) (safe : CutSafe m.written) {p : List UInt8}
    (cut : p <+: m.text) (proper : p ≠ m.text) (fuel : p.length ≤ n) :
    members n (p ++ ending) = none := by
  obtain rfl | ⟨p, rfl, hp⟩ := prefix_cons_cases cut
  · exact members_ending n
  rw [List.length_cons] at fuel
  obtain ⟨n, rfl⟩ := Nat.exists_eq_add_of_le' (Nat.le_of_add_left_le fuel)
  have hopen : ∀ bytes, string bytes = none → members (n + 1) (quote :: bytes) = none := by
    intro bytes hnone
    rw [members, expect_cons (by decide), Option.bind_eq_bind, Option.bind_some, hnone]
    rfl
  rcases prefix_append_cases hp with ⟨hkey, -⟩ | ⟨q₁, rfl, hquote⟩
  · exact hopen _ (string_ending (plain_of_isPrefix hkey m.plain))
  obtain rfl | ⟨q₂, rfl, hcolon⟩ := prefix_cons_cases hquote
  · rw [List.append_nil]
    exact hopen _ (string_ending m.plain)
  have hkey : quote :: (m.key ++ quote :: q₂) ++ ending =
      quote :: (m.key ++ quote :: (q₂ ++ ending)) := by
    rw [List.cons_append, List.append_assoc]
    rfl
  rw [hkey]
  obtain rfl | ⟨q₃, rfl, hspace⟩ := prefix_cons_cases hcolon
  · rw [members, expect_cons (by decide), Option.bind_eq_bind, Option.bind_some,
      string_of_spells (Spells.of_plain m.plain)]
    rfl
  rw [List.cons_append, members_key n _ (Spells.of_plain m.plain)]
  obtain rfl | ⟨q, rfl, hwritten⟩ := prefix_cons_cases hspace
  · rw [List.nil_append, value_ending]
    rfl
  rw [List.cons_append, value_space]
  by_cases hnil : q = []
  · rw [hnil, List.nil_append, value_ending]
    rfl
  have hproper : q ≠ m.written := by
    rintro rfl
    exact proper rfl
  have hfuel : q.length ≤ n := by
    rw [List.length_append, List.length_cons, List.length_cons, List.length_cons] at fuel
    omega
  cases hvalue : Json.value n (q ++ ending) with
  | none => rfl
  | some read =>
      obtain ⟨v, rest⟩ := read
      have hrest := safe n q v rest hwritten hproper hnil hfuel hvalue
      rw [hrest]
      rfl

/-- An object is not read when it ends inside of its last member, or in front of it. -/
theorem parse_cut_none (m : Member) (ms : List Member) {last : Member}
    (safe : CutSafe last.written) {q : List UInt8} (cut : q <+: space :: last.text)
    (proper : q ≠ space :: last.text) :
    parse (openBrace :: (m.text ++ (others ms ++ comma :: (q ++ ending)))) = none := by
  apply parse_front_none
  intro n fuel
  obtain rfl | ⟨p, rfl, hp⟩ := prefix_cons_cases cut
  · exact members_ending n
  · rw [List.cons_append, members_space]
    rw [List.length_append, List.length_cons] at fuel
    have hproper : p ≠ last.text := by
      rintro rfl
      exact proper rfl
    exact members_cut last safe hp hproper (by omega)

/-- When an object is cut off, the brace behind it is the one that was cut. -/
theorem members_cut_all (m : Member) (ms : List Member) (safe : ∀ x ∈ m :: ms, CutSafe x.written)
    {p : List UInt8} (cut : p <+: m.text ++ (others ms ++ [closeBrace]))
    (proper : p ≠ m.text ++ (others ms ++ [closeBrace])) (fuel : p.length ≤ n)
    {read : List (List UInt8 × Value)} (h : members n (p ++ ending) = some (read, rest)) :
    rest = [0x0a] := by
  have hlength := length_text m
  induction ms generalizing m p n read with
  | nil =>
      rcases prefix_append_cases cut with ⟨hp, hpm⟩ | ⟨q, rfl, hq⟩
      · rw [members_cut m (safe m List.mem_cons_self) hp hpm fuel] at h
        cases h
      obtain rfl | ⟨q, rfl, hq'⟩ := prefix_cons_cases (hq : q <+: [closeBrace])
      · rw [List.append_nil] at h fuel
        obtain ⟨n, rfl⟩ : ∃ k, n = k + 1 := Nat.exists_eq_add_of_le' (by omega)
        have hread := members_text_last m [0x0a] (by omega : m.written.length ≤ n)
        rw [ending, hread] at h
        cases h
        rfl
      · rw [List.prefix_nil.mp hq'] at proper
        exact absurd rfl proper
  | cons next ms ih =>
      rw [others_cons] at cut proper
      rcases prefix_append_cases cut with ⟨hp, hpm⟩ | ⟨q, rfl, hq⟩
      · rw [members_cut m (safe m List.mem_cons_self) hp hpm fuel] at h
        cases h
      rw [List.length_append] at fuel
      obtain ⟨n, rfl⟩ : ∃ k, n = k + 1 := Nat.exists_eq_add_of_le' (by omega)
      have hwritten : m.written.length ≤ n := by omega
      rw [List.append_assoc] at h
      obtain rfl | ⟨q₁, rfl, hcomma⟩ := prefix_cons_cases hq
      · have hread := members_text_last m [0x0a] hwritten
        rw [List.nil_append, ending, hread] at h
        cases h
        rfl
      rw [List.cons_append, members_text m _ hwritten] at h
      obtain ⟨⟨more, rest'⟩, hmore, heq⟩ := Option.map_eq_some_iff.mp h
      cases heq
      rw [List.length_cons] at fuel
      obtain rfl | ⟨q₂, rfl, hspace⟩ := prefix_cons_cases hcomma
      · rw [List.nil_append, members_ending] at hmore
        cases hmore
      rw [List.cons_append, members_space] at hmore
      have hproper : q₂ ≠ next.text ++ (others ms ++ [closeBrace]) := by
        rintro rfl
        exact proper rfl
      rw [List.length_cons] at fuel
      exact ih next (fun x hx => safe x (List.mem_cons_of_mem _ hx)) hspace hproper (by omega)
        hmore (length_text next)

theorem cutSafe_object (m : Member) (ms : List Member) (safe : ∀ x ∈ m :: ms, CutSafe x.written) :
    CutSafe (objectText m ms) := by
  intro n p v rest cut proper nonempty fuel h
  obtain rfl | ⟨q, rfl, hq⟩ := prefix_cons_cases cut
  · exact absurd rfl nonempty
  rw [List.length_cons] at fuel
  obtain ⟨n, rfl⟩ := Nat.exists_eq_add_of_le' (Nat.le_of_add_left_le fuel)
  have hproper : q ≠ m.text ++ (others ms ++ [closeBrace]) := by
    rintro rfl
    exact proper rfl
  obtain rfl | ⟨q', rfl, hq'⟩ := prefix_cons_cases hq
  · cases h
    rfl
  · change Json.value (n + 1) (openBrace :: quote :: (q' ++ ending)) = _ at h
    rw [value_object_eq] at h
    obtain ⟨⟨read, rest'⟩, hread, heq⟩ := Option.map_eq_some_iff.mp h
    cases heq
    exact members_cut_all m ms safe hq hproper (by omega) hread

end Member

end Json
