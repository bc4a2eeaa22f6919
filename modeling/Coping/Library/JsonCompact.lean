import Coping.Library.Json

/-!
# Compact texts

JSON written without white space, as the row of its strings, its keys and what is between
them. A key takes its colon along, so a string with a comma or a bracket behind it is never
taken for one.

A quote inside of a string has a backslash in front. That is enough to tell where a word
between quotes can be found in such a text: only where a key ends with it.
-/

namespace Json

/-- A string, as it is written between its quotes. -/
structure Spelled where
  meant : List UInt8
  text : List UInt8
  spells : Spells meant text

mutual

inductive Compact where
  /-- A number or a literal. -/
  | atom (text : List UInt8) (nonempty : text ≠ []) (unquoted : quote ∉ text)
  | string (s : Spelled)
  | array (items : Items)
  | object (members : Members)

inductive Items where
  | nil
  | cons (v : Compact) (rest : Items)

inductive Members where
  | nil
  | cons (key : Spelled) (v : Compact) (rest : Members)

end

inductive Token where
  | other (text : List UInt8) (nonempty : text ≠ []) (unquoted : quote ∉ text)
  | str (s : Spelled)
  /-- A key with its colon. -/
  | key (k : Spelled)

def Token.bytes : Token → List UInt8
  | .other text _ _ => text
  | .str s => quote :: (s.text ++ [quote])
  | .key k => quote :: (k.text ++ [quote, colon])

def bytes (ts : List Token) : List UInt8 := ts.flatMap Token.bytes

theorem unquoted_comma : quote ∉ [comma] := by decide

theorem unquoted_openBracket : quote ∉ [openBracket] := by decide

theorem unquoted_openBrace : quote ∉ [openBrace] := by decide

def Token.mark (c : UInt8) (unquoted : quote ∉ [c] := by decide) : Token :=
  .other [c] (List.cons_ne_nil _ _) unquoted

def Items.separator : Items → List Token
  | .nil => []
  | .cons _ _ => [.mark comma]

def Members.separator : Members → List Token
  | .nil => []
  | .cons _ _ _ => [.mark comma]

mutual

def Compact.tokens : Compact → List Token
  | .atom text nonempty unquoted => [.other text nonempty unquoted]
  | .string s => [.str s]
  | .array items => .mark openBracket :: items.tokens
  | .object members => .mark openBrace :: members.tokens

/-- Items up to their bracket. -/
def Items.tokens : Items → List Token
  | .nil => [.mark closeBracket]
  | .cons v rest => v.tokens ++ (rest.separator ++ rest.tokens)

/-- Members up to their brace. -/
def Members.tokens : Members → List Token
  | .nil => [.mark closeBrace]
  | .cons k v rest => .key k :: (v.tokens ++ (rest.separator ++ rest.tokens))

end

/-- Members that are followed by another one. -/
def Members.front : Members → List Token
  | .nil => []
  | .cons k v rest => .key k :: (v.tokens ++ .mark comma :: rest.front)

/-! ## Objects without a member -/

def Compact.text : Compact → Option (List UInt8)
  | .string s => some s.meant
  | _ => none

mutual

/-- No object has this string as the member of this key. -/
def Compact.Free (key value : List UInt8) : Compact → Prop
  | .atom _ _ _ => True
  | .string _ => True
  | .array items => items.Free key value
  | .object members => members.Free key value

def Items.Free (key value : List UInt8) : Items → Prop
  | .nil => True
  | .cons v rest => v.Free key value ∧ rest.Free key value

def Members.Free (key value : List UInt8) : Members → Prop
  | .nil => True
  | .cons k v rest =>
      ¬(k.meant = key ∧ v.text = some value) ∧ v.Free key value ∧ rest.Free key value

end

/-- What stands behind a string that is no key. -/
def Breaks : List Token → Prop
  | .other text _ _ :: _ =>
      ∃ c rest, text = c :: rest ∧ (c = comma ∨ c = closeBracket ∨ c = closeBrace)
  | _ => False

/-- What stands behind a key. -/
def Follows (key value : List UInt8) (k : Spelled) : List Token → Prop
  | .other _ _ _ :: _ => True
  | .str s :: _ => ¬(k.meant = key ∧ s.meant = value)
  | _ => False

/-- The tokens stand in an order that a compact text can have. -/
def Clean (key value : List UInt8) : List Token → Prop
  | [] => True
  | .other _ _ _ :: ts => Clean key value ts
  | .str _ :: ts => Breaks ts ∧ Clean key value ts
  | .key k :: ts => Follows key value k ts ∧ Clean key value ts

section Clean

variable {key value : List UInt8} {ts : List Token}

theorem breaks_mark (ts : List Token) {c : UInt8} (unquoted : quote ∉ [c])
    (h : c = comma ∨ c = closeBracket ∨ c = closeBrace) : Breaks (.mark c unquoted :: ts) :=
  ⟨c, [], rfl, h⟩

theorem Items.breaks (items : Items) (ts : List Token) :
    Breaks (items.separator ++ items.tokens ++ ts) := by
  cases items with
  | nil => exact breaks_mark ts _ (.inr (.inl rfl))
  | cons v rest => exact breaks_mark _ _ (.inl rfl)

theorem Members.breaks (members : Members) (ts : List Token) :
    Breaks (members.separator ++ members.tokens ++ ts) := by
  cases members with
  | nil => exact breaks_mark ts _ (.inr (.inr rfl))
  | cons k v rest => exact breaks_mark _ _ (.inl rfl)

theorem Items.clean_separator (items : Items) (clean : Clean key value ts) :
    Clean key value (items.separator ++ ts) := by
  cases items <;> exact clean

theorem Members.clean_separator (members : Members) (clean : Clean key value ts) :
    Clean key value (members.separator ++ ts) := by
  cases members <;> exact clean

/-- A key may stand in front of every value but the one string. -/
theorem Compact.follows (v : Compact) {k : Spelled} (other : ¬(k.meant = key ∧ v.text = some value))
    (ts : List Token) : Follows key value k (v.tokens ++ ts) := by
  cases v with
  | string s => exact fun h => other ⟨h.1, congrArg some h.2⟩
  | _ => trivial

mutual

theorem Compact.clean (v : Compact) {ts : List Token} (free : v.Free key value)
    (breaks : Breaks ts) (clean : Clean key value ts) : Clean key value (v.tokens ++ ts) :=
  match v with
  | .atom _ _ _ => clean
  | .string _ => ⟨breaks, clean⟩
  | .array items => items.clean free clean
  | .object members => members.clean free clean

theorem Items.clean (items : Items) {ts : List Token} (free : items.Free key value)
    (clean : Clean key value ts) : Clean key value (items.tokens ++ ts) :=
  match items with
  | .nil => clean
  | .cons v rest => by
      have hrest := rest.clean_separator (rest.clean free.2 clean)
      have hbreaks := rest.breaks ts
      rw [List.append_assoc] at hbreaks
      rw [Items.tokens, List.append_assoc, List.append_assoc]
      exact v.clean free.1 hbreaks hrest

theorem Members.clean (members : Members) {ts : List Token} (free : members.Free key value)
    (clean : Clean key value ts) : Clean key value (members.tokens ++ ts) :=
  match members with
  | .nil => clean
  | .cons k v rest => by
      have hrest := rest.clean_separator (rest.clean free.2.2 clean)
      have hbreaks := rest.breaks ts
      rw [List.append_assoc] at hbreaks
      rw [Members.tokens, List.cons_append, List.append_assoc, List.append_assoc]
      exact ⟨v.follows free.1 _, v.clean free.2.1 hbreaks hrest⟩

end

theorem Members.clean_front (members : Members) {ts : List Token} (free : members.Free key value)
    (clean : Clean key value ts) : Clean key value (members.front ++ ts) :=
  match members with
  | .nil => clean
  | .cons k v rest => by
      have hrest := rest.clean_front free.2.2 clean
      rw [Members.front, List.cons_append, List.append_assoc]
      exact ⟨v.follows free.1 _, v.clean free.2.1 (breaks_mark _ _ (.inl rfl)) hrest⟩

end Clean

/-! ## Quotes -/

section Quotes

variable {s text x y w tail : List UInt8}

/-- Every quote has a backslash in front. -/
def Quoted (x : List UInt8) : Prop :=
  ∀ i : Nat, x[i]? = some quote → ∃ j, i = j + 1 ∧ x[j]? = some backslash

theorem Closed.quoted_text {meant written : List UInt8} (h : Closed meant written) :
    Quoted (backslash :: written) := by
  intro i hi
  cases i with
  | zero => cases hi
  | succ i =>
      rw [List.getElem?_cons_succ] at hi
      obtain ⟨hwritten, -⟩ := h.quoted (List.mem_of_getElem? hi)
      rw [hwritten] at hi
      have hzero : i = 0 := by
        have hlt := (List.getElem?_eq_some_iff.mp hi).1
        rw [List.length_singleton] at hlt
        omega
      subst hzero
      exact ⟨0, rfl, rfl⟩

theorem Quoted.append (hx : Quoted x) (hy : Quoted y) : Quoted (x ++ y) := by
  intro i hi
  by_cases hinside : i < x.length
  · rw [List.getElem?_append_left hinside] at hi
    obtain ⟨j, rfl, hj⟩ := hx i hi
    exact ⟨j, rfl, by rw [List.getElem?_append_left (Nat.lt_of_succ_lt hinside), hj]⟩
  · rw [List.getElem?_append_right (Nat.le_of_not_lt hinside)] at hi
    obtain ⟨j, hj, hback⟩ := hy _ hi
    refine ⟨x.length + j, by omega, ?_⟩
    rw [List.getElem?_append_right (Nat.le_add_right _ _), Nat.add_sub_cancel_left, hback]

theorem Spells.quoted (h : Spells s text) : Quoted text := by
  induction h with
  | nil =>
      intro i hi
      cases hi
  | @plain c s text hc _ ih =>
      have hone : Quoted [c] := by
        intro i hi
        have hmem := List.mem_singleton.mp (List.mem_of_getElem? hi)
        exact absurd hmem.symm (isPlain_iff.mp hc).1
      exact hone.append ih
  | @escape meant written s text hwritten _ ih =>
      obtain ⟨written', hsame, hclosed⟩ := escapeSequence_cases (hwritten [])
      rw [List.append_nil, List.append_nil] at hsame
      exact (hsame ▸ hclosed.quoted_text).append ih

/-- A spelling means one thing. -/
theorem Spells.unique {s' : List UInt8} (h : Spells s text) (h' : Spells s' text) : s = s' := by
  have hread := string_of_spells h []
  rw [string_of_spells h' []] at hread
  exact (Prod.mk.inj (Option.some.inj hread)).1.symm

/-- Behind a quote that is not in front of it, a quoted text is quoted. -/
theorem Quoted.of_cons {c : UInt8} (h : Quoted (c :: x)) (other : c ≠ backslash) : Quoted x := by
  intro i hi
  obtain ⟨j, hj, hback⟩ := h (i + 1) hi
  cases j with
  | zero => exact absurd (Option.some.inj hback) other
  | succ j => exact ⟨j, Nat.succ.inj hj, hback⟩

/-- Behind each of its quotes, too. -/
theorem Quoted.behind {front : List UInt8} (h : Quoted (front ++ quote :: x)) : Quoted x := by
  intro i hi
  obtain ⟨j, hj, hback⟩ := h (front.length + 1 + i)
    (by rw [List.getElem?_append_right (by omega)]; rwa [Nat.add_assoc, Nat.add_sub_cancel_left,
      Nat.add_comm 1 i])
  have hj' : j = front.length + i := by omega
  rw [hj', List.getElem?_append_right (Nat.le_add_right _ _), Nat.add_sub_cancel_left] at hback
  cases i with
  | zero => exact absurd (Option.some.inj hback) (by decide)
  | succ i => exact ⟨i, rfl, hback⟩

/-- A word and the quote behind it are found in front of a quoted text only if they are all
of it. -/
theorem Quoted.word (h : Quoted x) (quotes : quote ∉ w) (backslashes : backslash ∉ w) :
    w ++ quote :: tail <+: x ++ quote :: y ↔ x = w ∧ tail <+: y := by
  induction w generalizing x with
  | nil =>
      cases x with
      | nil =>
          exact List.cons_prefix_cons.trans (and_congr_left fun _ => ⟨fun _ => rfl, fun _ => rfl⟩)
      | cons c x =>
          constructor
          · intro hfront
            obtain ⟨rfl, -⟩ := List.cons_prefix_cons.mp hfront
            obtain ⟨j, hj, -⟩ := h 0 rfl
            cases hj
          · intro hnil
            cases hnil.1
  | cons c w ih =>
      rw [List.mem_cons, not_or] at quotes backslashes
      cases x with
      | nil =>
          constructor
          · intro hfront
            exact absurd (List.cons_prefix_cons.mp hfront).1.symm quotes.1
          · intro hnil
            cases hnil.1
      | cons d x =>
          rw [List.cons_append, List.cons_append, List.cons_prefix_cons, List.cons.injEq, and_assoc,
            eq_comm (a := c)]
          apply and_congr_right
          intro hd
          subst hd
          exact ih (h.of_cons (Ne.symm backslashes.1)) quotes.2 backslashes.2

end Quotes

end Json
