import Coping.Ai.Response
import Coping.Library.JsonCompact

/-!
# The text that is found in a response

The two markers are found where keys end with their words. Apart from the text block itself
that takes a key with an escaped quote in it: the markers do not tell an escaped quote from
one that opens a string.

What is read from a string is `heard`: every backslash is dropped, and three letters behind
one are control characters. That is the text as long as no other escape is used.
-/

namespace Coping.Response

open CFormat
open Json (quote backslash colon comma openBrace closeBrace openBracket closeBracket)
open Json (Spells Spelled Token Quoted Members Clean Breaks Follows)
open Json (unquoted_comma unquoted_openBracket unquoted_openBrace)

/-! ## A response -/

def typeWord : List UInt8 := ascii "type"

def textWord : List UInt8 := ascii "text"

def contentWord : List UInt8 := ascii "content"

theorem spells_type : Spells typeWord typeWord := by
  apply Spells.of_plain
  rw [typeWord, ascii_ofList]
  decide

theorem spells_text : Spells textWord textWord := by
  apply Spells.of_plain
  rw [textWord, ascii_ofList]
  decide

theorem spells_content : Spells contentWord contentWord := by
  apply Spells.of_plain
  rw [contentWord, ascii_ofList]
  decide

/-- The tokens in front of the first content block. -/
def opening (before : Members) : List Token :=
  .mark openBrace unquoted_openBrace ::
    (before.front ++ [.key ⟨_, _, spells_content⟩, .mark openBracket unquoted_openBracket,
      .mark openBrace unquoted_openBrace])

/-- The beginning of a text block. -/
def textBlock : List Token :=
  [.key ⟨_, _, spells_type⟩, .str ⟨_, _, spells_text⟩, .mark comma unquoted_comma]

/-- A response whose first content block is a text, spelled `encoded`. -/
def response (before : Members) (encoded after : List UInt8) : List UInt8 :=
  Json.bytes (opening before) ++ (Json.bytes textBlock ++
    (textMarker ++ (encoded ++ quote :: closeBrace :: after)))

/-! ## What is read -/

/-- A text without its backslashes. -/
def heard : List UInt8 → List UInt8
  | [] => []
  | [c] => [c]
  | c :: d :: rest =>
      if c = backslash then unescape d :: heard rest else c :: heard (d :: rest)

/-- The spelling has, up to the first `n` bytes of the text, only escapes that are read as
what they stand for. The last case is a `\u` that stands for the letter u itself: its four
digits are read as text, and the text may happen to go on like that. -/
inductive Readable : Nat → List UInt8 → List UInt8 → Prop where
  | full {text encoded : List UInt8} : Readable 0 text encoded
  | done {n : Nat} : Readable n [] []
  | plain {n : Nat} {c : UInt8} {text encoded : List UInt8} (h : Json.isPlain c = true)
      (rest : Readable n text encoded) : Readable (n + 1) (c :: text) (c :: encoded)
  | escape {n : Nat} {c : UInt8} {text encoded : List UInt8}
      (h : c ≠ 0x62 ∧ c ≠ 0x66 ∧ c ≠ 0x75) (rest : Readable n text encoded) :
      Readable (n + 1) (unescape c :: text) (backslash :: c :: encoded)
  | letter {n : Nat} {text encoded : List UInt8}
      (h : text.take n = (ascii "0075" ++ heard encoded).take n) :
      Readable (n + 1) (0x75 :: text) (backslash :: 0x75 :: (ascii "0075" ++ encoded))

/-! ## What is found -/

/-- The tokens behind a key that only ends with the word `type`, with the string `text`. -/
def decoyType : List Token → Option (List Token)
  | [] => none
  | .key k :: .str s :: ts =>
      if quote :: typeWord <:+ k.text ∧ s.text = textWord then some (.str s :: ts)
      else decoyType (.str s :: ts)
  | _ :: ts => decoyType ts

/-- The string of the first key that is or ends with the word `text`. -/
def decoyText : List Token → Option Spelled
  | [] => none
  | .key k :: .str s :: ts =>
      if quote :: textWord <:+ quote :: k.text then some s else decoyText (.str s :: ts)
  | _ :: ts => decoyText ts

/-- The string that is taken for the text. -/
def decoy (before : Members) : Option Spelled := (decoyType (opening before)).bind decoyText

/-- The text is read: it is readable, or what is taken for it happens to begin like it. -/
def Reads (before : Members) (text encoded : List UInt8) : Prop :=
  match decoy before with
  | none => Readable (RESPONSE_CAP - 4) text encoded
  | some s => (heard s.text).take (RESPONSE_CAP - 4) = text.take (RESPONSE_CAP - 4)

/-! ## Where a marker is found -/

section Search

variable {w tail x y text back : List UInt8} {key value : List UInt8} {ts : List Token}
variable {k s : Spelled}

/-- A word, a colon and what comes behind it. -/
def marker (w tail : List UInt8) : List UInt8 := quote :: (w ++ quote :: colon :: tail)

/-- A word has no byte that has a meaning of its own. -/
structure Word (w : List UInt8) : Prop where
  nonempty : w ≠ []
  quotes : quote ∉ w
  backslashes : backslash ∉ w
  separators : ∀ c ∈ w, c ∉ [colon, comma, closeBracket, closeBrace]

theorem word_type : Word typeWord := by
  have hbytes : typeWord = [0x74, 0x79, 0x70, 0x65] := ascii_ofList _
  rw [hbytes]
  exact ⟨by decide, by decide, by decide,
    by simp [colon, comma, closeBracket, closeBrace]⟩

theorem word_text : Word textWord := by
  have hbytes : textWord = [0x74, 0x65, 0x78, 0x74] := ascii_ofList _
  rw [hbytes]
  exact ⟨by decide, by decide, by decide,
    by simp [colon, comma, closeBracket, closeBrace]⟩

/-- Without a quote there is no marker. -/
theorem strstr_unquoted (unquoted : quote ∉ text) :
    strstr (quote :: w) (text ++ y) = strstr (quote :: w) y := by
  induction text with
  | nil => rfl
  | cons c text ih =>
      rw [List.mem_cons, not_or] at unquoted
      have hnot : ¬quote :: w <+: c :: (text ++ y) := fun h =>
        unquoted.1 (List.cons_prefix_cons.mp h).1
      rw [List.cons_append, strstr_cons hnot, ih unquoted.2]

/-- Up to a quote, a word is found only at the end, behind a quote. -/
theorem strstr_quote (word : Word w) (other : ¬w ++ quote :: tail <+: y)
    (behind : ∀ front back, x = front ++ quote :: back → Quoted back) :
    strstr (quote :: (w ++ quote :: tail)) (x ++ quote :: y) =
      if quote :: w <:+ x ∧ tail <+: y then some (quote :: (w ++ quote :: y))
      else strstr (quote :: (w ++ quote :: tail)) y := by
  induction x with
  | nil =>
      have hnot : ¬quote :: (w ++ quote :: tail) <+: quote :: y := fun h =>
        other (List.cons_prefix_cons.mp h).2
      have hnone : ¬(quote :: w <:+ [] ∧ tail <+: y) := fun h =>
        absurd (List.suffix_nil.mp h.1) (List.cons_ne_nil _ _)
      rw [if_neg hnone, List.nil_append, strstr_cons hnot]
  | cons c x ih =>
      have hrest := ih fun front back h => behind (c :: front) back (by rw [h, List.cons_append])
      by_cases hc : c = quote
      · subst hc
        have hquoted : Quoted x := behind [] x rfl
        have hword : w ++ quote :: tail <+: x ++ quote :: y ↔ x = w ∧ tail <+: y :=
          hquoted.word word.quotes word.backslashes
        by_cases hfound : x = w ∧ tail <+: y
        · obtain ⟨rfl, htail⟩ := hfound
          rw [if_pos ⟨List.suffix_refl _, htail⟩]
          exact strstr_of_isPrefix (List.cons_prefix_cons.mpr ⟨rfl, hword.mpr ⟨rfl, htail⟩⟩)
        · have hnot : ¬quote :: (w ++ quote :: tail) <+: quote :: (x ++ quote :: y) := fun h =>
            hfound (hword.mp (List.cons_prefix_cons.mp h).2)
          rw [List.cons_append, strstr_cons hnot, hrest]
          have hiff : quote :: w <:+ quote :: x ∧ tail <+: y ↔ quote :: w <:+ x ∧ tail <+: y := by
            rw [List.suffix_cons_iff]
            constructor
            · rintro ⟨hsame | hsuffix, htail⟩
              · exact absurd ⟨(List.cons.inj hsame).2.symm, htail⟩ hfound
              · exact ⟨hsuffix, htail⟩
            · rintro ⟨hsuffix, htail⟩
              exact ⟨.inr hsuffix, htail⟩
          simp only [hiff]
      · have hnot : ¬quote :: (w ++ quote :: tail) <+: c :: (x ++ quote :: y) := fun h =>
          hc (List.cons_prefix_cons.mp h).1.symm
        have hiff : quote :: w <:+ c :: x ↔ quote :: w <:+ x := by
          rw [List.suffix_cons_iff]
          exact or_iff_right fun h => hc (List.cons.inj h).1.symm
        rw [List.cons_append, strstr_cons hnot, hrest]
        simp only [hiff]

/-- A word does not begin with a byte between strings. -/
theorem Word.not_prefix (word : Word w) {c : UInt8}
    (h : c ∈ [colon, comma, closeBracket, closeBrace]) : ¬w ++ tail <+: c :: y := by
  intro hfront
  cases w with
  | nil => exact word.nonempty rfl
  | cons d w =>
      have hd := (List.cons_prefix_cons.mp hfront).1
      exact word.separators d List.mem_cons_self (hd ▸ h)

theorem quoted_behind (s : Spelled) (front back : List UInt8)
    (h : quote :: s.text = front ++ quote :: back) : Quoted back := by
  cases front with
  | nil =>
      rw [← (List.cons.inj h).2]
      exact s.spells.quoted
  | cons c front =>
      have hsplit := (List.cons.inj h).2
      exact Quoted.behind (hsplit ▸ s.spells.quoted)

theorem bytes_cons (t : Token) (ts : List Token) (back : List UInt8) :
    Json.bytes (t :: ts) ++ back = t.bytes ++ (Json.bytes ts ++ back) := by
  rw [Json.bytes, List.flatMap_cons, List.append_assoc]
  rfl

/-- What stands behind a string does not begin with a quote or a colon. -/
theorem breaks_bytes (breaks : Breaks ts) (back : List UInt8) :
    ∃ c rest, Json.bytes ts ++ back = c :: rest ∧ c ∈ [comma, closeBracket, closeBrace] := by
  rcases ts with _ | ⟨⟨bytes, nonempty, unquoted⟩ | s | k, ts⟩
  · exact absurd breaks id
  · obtain ⟨c, rest, rfl, hc⟩ := breaks
    refine ⟨c, rest ++ (Json.bytes ts ++ back), by rw [bytes_cons]; rfl, ?_⟩
    rcases hc with rfl | rfl | rfl <;> decide
  · exact absurd breaks id
  · exact absurd breaks id

/-- A string that is no key has no marker in it. -/
theorem strstr_str (word : Word w) (s : Spelled) (breaks : Breaks ts) (back : List UInt8) :
    strstr (marker w tail) (Json.bytes (.str s :: ts) ++ back) =
      strstr (marker w tail) (Json.bytes ts ++ back) := by
  obtain ⟨c, rest, hbytes, hc⟩ := breaks_bytes breaks back
  have hother : ¬w ++ quote :: colon :: tail <+: Json.bytes ts ++ back := by
    rw [hbytes]
    exact word.not_prefix (List.mem_cons_of_mem _ hc)
  have hcolon : ¬(quote :: w <:+ quote :: s.text ∧ colon :: tail <+: Json.bytes ts ++ back) := by
    rw [hbytes]
    intro h
    rw [← (List.cons_prefix_cons.mp h.2).1] at hc
    exact absurd hc (by decide)
  have hsearch := strstr_quote word hother (quoted_behind s)
  rw [if_neg hcolon] at hsearch
  rw [bytes_cons, Token.bytes, List.cons_append, List.append_assoc]
  exact hsearch

/-- A key has a marker in it when it ends with the word, and the rest fits. -/
theorem strstr_key (word : Word w) (k : Spelled) (ts : List Token) (back : List UInt8) :
    strstr (marker w tail) (Json.bytes (.key k :: ts) ++ back) =
      if quote :: w <:+ quote :: k.text ∧ tail <+: Json.bytes ts ++ back then
        some (marker w (Json.bytes ts ++ back))
      else strstr (marker w tail) (Json.bytes ts ++ back) := by
  have hother : ∀ rest, ¬w ++ quote :: colon :: tail <+: colon :: rest :=
    fun rest => word.not_prefix List.mem_cons_self
  have hsearch := strstr_quote word (hother (Json.bytes ts ++ back)) (quoted_behind k)
  have hcolon : ¬marker w tail <+: colon :: (Json.bytes ts ++ back) := by
    intro h
    exact absurd (List.cons_prefix_cons.mp h).1 (by decide)
  have hnext := strstr_cons hcolon
  rw [marker] at hnext
  simp only [hnext, List.prefix_cons_inj] at hsearch
  rw [bytes_cons, Token.bytes, List.cons_append, List.append_assoc]
  exact hsearch

theorem typeMarker_eq : typeMarker = marker typeWord (quote :: (textWord ++ [quote])) := by
  have htype : typeWord = [0x74, 0x79, 0x70, 0x65] := ascii_ofList _
  have htext : textWord = [0x74, 0x65, 0x78, 0x74] := ascii_ofList _
  rw [htype, htext]
  exact ascii_ofList _

theorem textMarker_eq : textMarker = marker textWord [quote] := by
  have htext : textWord = [0x74, 0x65, 0x78, 0x74] := ascii_ofList _
  rw [htext]
  exact ascii_ofList _

theorem prefix_str (word : Word w) (s : Spelled) (ts : List Token) (back : List UInt8) :
    quote :: (w ++ [quote]) <+: Json.bytes (.str s :: ts) ++ back ↔ s.text = w := by
  have hword : w ++ [quote] <+: s.text ++ quote :: (Json.bytes ts ++ back) ↔
      s.text = w ∧ [] <+: Json.bytes ts ++ back :=
    s.spells.quoted.word word.quotes word.backslashes
  rw [and_iff_left List.nil_prefix] at hword
  rw [bytes_cons, Token.bytes, List.cons_append, List.append_assoc, List.prefix_cons_inj]
  exact hword

theorem not_prefix_other {nonempty : text ≠ []} {unquoted : quote ∉ text} :
    ¬quote :: tail <+: Json.bytes (.other text nonempty unquoted :: ts) ++ back := by
  rw [bytes_cons]
  intro h
  cases text with
  | nil => exact nonempty rfl
  | cons c text =>
      have hc := (List.cons_prefix_cons.mp h).1
      exact unquoted (hc ▸ List.mem_cons_self)

theorem strstr_other {nonempty : text ≠ []} {unquoted : quote ∉ text} :
    strstr (marker w tail) (Json.bytes (.other text nonempty unquoted :: ts) ++ back) =
      strstr (marker w tail) (Json.bytes ts ++ back) := by
  rw [bytes_cons]
  exact strstr_unquoted unquoted

/-- The key `type` does not have the string `text`, so a key that has it only ends with it. -/
theorem ends_type (follows : Follows typeWord textWord k (.str s :: ts)) :
    quote :: typeWord <:+ quote :: k.text ∧ s.text = textWord ↔
      quote :: typeWord <:+ k.text ∧ s.text = textWord := by
  rw [List.suffix_cons_iff]
  constructor
  · rintro ⟨hsame | hends, htext⟩
    · have hk : typeWord = k.text := (List.cons.inj hsame).2
      have hkey : k.meant = typeWord := (hk ▸ k.spells).unique (hk ▸ spells_type)
      have hvalue : s.meant = textWord := (htext ▸ s.spells).unique (htext ▸ spells_text)
      exact absurd ⟨hkey, hvalue⟩ follows
    · exact ⟨hends, htext⟩
  · rintro ⟨hends, htext⟩
    exact ⟨.inr hends, htext⟩

/-- The first marker, or what is behind all tokens. -/
theorem strstr_typeMarker (clean : Clean typeWord textWord ts) (back : List UInt8) :
    strstr typeMarker (Json.bytes ts ++ back) =
      match decoyType ts with
      | some rest => some (marker typeWord (Json.bytes rest ++ back))
      | none => strstr typeMarker back := by
  rw [typeMarker_eq]
  induction ts with
  | nil => rfl
  | cons t ts ih =>
      cases t with
      | other text nonempty unquoted =>
          rw [strstr_other]
          exact ih clean
      | str s =>
          rw [strstr_str word_type s clean.1]
          exact ih clean.2
      | key k =>
          have hrest := ih clean.2
          rw [strstr_key word_type]
          rcases ts with _ | ⟨⟨text, nonempty, unquoted⟩ | s | k', ts⟩
          · exact absurd clean.1 id
          · rw [if_neg fun h => not_prefix_other h.2, hrest]
            rfl
          · rw [decoyType]
            simp only [prefix_str word_text, ends_type clean.1]
            split
            next => rfl
            next => exact hrest
          · exact absurd clean.1 id

/-- The same for the second marker. -/
theorem strstr_textMarker (clean : Clean key value ts) (back : List UInt8) :
    match decoyText ts with
    | some s => ∃ rest, strstr textMarker (Json.bytes ts ++ back) =
        some (textMarker ++ (s.text ++ quote :: rest))
    | none => strstr textMarker (Json.bytes ts ++ back) = strstr textMarker back := by
  rw [textMarker_eq]
  induction ts with
  | nil => rfl
  | cons t ts ih =>
      cases t with
      | other text nonempty unquoted =>
          rw [strstr_other]
          exact ih clean
      | str s =>
          rw [strstr_str word_text s clean.1]
          exact ih clean.2
      | key k =>
          have hrest := ih clean.2
          rw [strstr_key word_text]
          rcases ts with _ | ⟨⟨text, nonempty, unquoted⟩ | s | k', ts⟩
          · exact absurd clean.1 id
          · rw [if_neg fun h => not_prefix_other h.2]
            exact hrest
          · have hquote : [quote] <+: Json.bytes (.str s :: ts) ++ back := by
              rw [bytes_cons]
              exact List.prefix_append [quote] _
            simp only [hquote, and_true, decoyText]
            by_cases hends : quote :: textWord <:+ quote :: k.text
            · simp only [if_pos hends]
              refine ⟨Json.bytes ts ++ back, ?_⟩
              rw [bytes_cons, Token.bytes, marker, marker]
              simp only [List.cons_append, List.append_assoc, List.nil_append]
            · simp only [if_neg hends]
              exact hrest
          · exact absurd clean.1 id

theorem clean_of_decoyType {rest : List Token} (h : decoyType ts = some rest)
    (clean : Clean key value ts) : Clean key value rest := by
  induction ts with
  | nil => cases h
  | cons t ts ih =>
      cases t with
      | other text nonempty unquoted => exact ih h clean
      | str s => exact ih h clean.2
      | key k =>
          rcases ts with _ | ⟨⟨text, nonempty, unquoted⟩ | s | k', ts⟩
          · cases h
          · exact ih h clean.2
          · rw [decoyType] at h
            split at h
            · cases h
              exact clean.2
            · exact ih h clean.2
          · exact ih h clean.2

theorem clean_opening {before : Members} (free : before.Free typeWord textWord) :
    Clean typeWord textWord (opening before) :=
  before.clean_front free ⟨trivial, trivial⟩

theorem type_not_text : ¬quote :: textWord <:+ quote :: typeWord := by
  have htype : typeWord = [0x74, 0x79, 0x70, 0x65] := ascii_ofList _
  have htext : textWord = [0x74, 0x65, 0x78, 0x74] := ascii_ofList _
  rw [htype, htext]
  decide

/-- Between the markers of the block there is no other one. -/
theorem strstr_textBlock (back : List UInt8) :
    strstr typeMarker (Json.bytes textBlock ++ back) = some (Json.bytes textBlock ++ back) ∧
      strstr textMarker (Json.bytes textBlock ++ (textMarker ++ back)) =
        some (textMarker ++ back) := by
  have hclean : Clean [] [] textBlock :=
    ⟨fun h => word_type.nonempty h.1, Json.breaks_mark [] _ (.inl rfl), trivial⟩
  constructor
  · apply strstr_of_isPrefix
    rw [typeMarker_eq, textBlock, bytes_cons, Token.bytes, marker, List.cons_append,
      List.append_assoc, List.prefix_cons_inj, List.prefix_append_right_inj]
    exact List.cons_prefix_cons.mpr ⟨rfl, List.cons_prefix_cons.mpr
      ⟨rfl, (prefix_str word_text ⟨_, _, spells_text⟩ _ _).mpr rfl⟩⟩
  · have hsearch := strstr_textMarker hclean (textMarker ++ back)
    have hnone : decoyText textBlock = none := by
      rw [textBlock, decoyText, if_neg type_not_text]
      rfl
    rw [hnone] at hsearch
    exact hsearch.trans (strstr_of_isPrefix (List.prefix_append textMarker back))

/-- A key is not taken for the one behind it. -/
theorem strstr_behind_type (back : List UInt8) :
    strstr textMarker (marker typeWord back) = strstr textMarker back := by
  have hsearch := @strstr_key textWord [quote] word_text ⟨_, _, spells_type⟩ [] back
  have hbytes : Json.bytes [.key ⟨_, _, spells_type⟩] ++ back = marker typeWord back := by
    rw [bytes_cons, Token.bytes, marker, List.cons_append, List.append_assoc]
    rfl
  rw [hbytes, if_neg fun h => type_not_text h.1] at hsearch
  rw [textMarker_eq, hsearch]
  rfl

end Search

/-- What is taken for the text is read. -/
theorem extract_response {before : Members} (free : before.Free typeWord textWord)
    (encoded after : List UInt8) :
    ∃ rest, extractTextFromResponse (response before encoded after) =
      some (decodeText ((match decoy before with | some s => s.text | none => encoded) ++
        quote :: rest) 0) := by
  have hclean := clean_opening free
  obtain ⟨htype, htext⟩ := strstr_textBlock (encoded ++ quote :: closeBrace :: after)
  obtain ⟨hblock, -⟩ := strstr_textBlock (textMarker ++ (encoded ++ quote :: closeBrace :: after))
  have hfirst := strstr_typeMarker hclean (Json.bytes textBlock ++
    (textMarker ++ (encoded ++ quote :: closeBrace :: after)))
  have hextract : ∀ found rest, strstr typeMarker (response before encoded after) = some found →
      strstr textMarker found = some (textMarker ++ rest) →
      extractTextFromResponse (response before encoded after) = some (decodeText rest 0) := by
    intro found rest hfound hrest
    rw [extractTextFromResponse, hfound]
    change (strstr textMarker found >>= _) = _
    rw [hrest]
    change some (decodeText ((textMarker ++ rest).drop textMarker.length) 0) = _
    rw [List.drop_left]
  rw [decoy]
  cases hdecoy : decoyType (opening before) with
  | none =>
      rw [hdecoy] at hfirst
      exact ⟨_, hextract _ _ (hfirst.trans hblock) htext⟩
  | some ts =>
      rw [hdecoy] at hfirst
      have hsecond := strstr_textMarker (clean_of_decoyType hdecoy hclean) (Json.bytes textBlock ++
        (textMarker ++ (encoded ++ quote :: closeBrace :: after)))
      rw [Option.bind_some]
      cases hstring : decoyText ts with
      | none =>
          rw [hstring] at hsecond
          exact ⟨_, hextract _ _ hfirst ((strstr_behind_type _).trans (hsecond.trans htext))⟩
      | some s =>
          rw [hstring] at hsecond
          obtain ⟨rest, hrest⟩ := hsecond
          exact ⟨rest, hextract _ _ hfirst ((strstr_behind_type _).trans hrest)⟩

/-! ## What a string is read as -/

section Heard

variable {text encoded x rest meant written : List UInt8}

/-- Pairs that begin with a backslash, and other bytes but quotes. -/
inductive Scanned : List UInt8 → Prop where
  | nil : Scanned []
  | char {c : UInt8} {x : List UInt8} (quotes : c ≠ quote) (backslashes : c ≠ backslash)
      (rest : Scanned x) : Scanned (c :: x)
  | pair {c : UInt8} {x : List UInt8} (rest : Scanned x) : Scanned (backslash :: c :: x)

theorem Scanned.append (h : Scanned x) (h' : Scanned rest) : Scanned (x ++ rest) := by
  induction h with
  | nil => exact h'
  | char hquote hbackslash _ ih => exact .char hquote hbackslash ih
  | pair _ ih => exact .pair ih

theorem heard_char {c : UInt8} (other : c ≠ backslash) (x : List UInt8) :
    heard (c :: x) = c :: heard x := by
  cases x with
  | nil => rfl
  | cons d x => rw [heard, if_neg other]

theorem heard_pair (c : UInt8) (x : List UInt8) :
    heard (backslash :: c :: x) = unescape c :: heard x := by
  rw [heard, if_pos rfl]

theorem heard_append (h : Scanned x) (rest : List UInt8) :
    heard (x ++ rest) = heard x ++ heard rest := by
  induction h with
  | nil => rfl
  | char _ hbackslash _ ih =>
      rw [List.cons_append, heard_char hbackslash, heard_char hbackslash, ih, List.cons_append]
  | pair _ ih =>
      rw [List.cons_append, List.cons_append, heard_pair, heard_pair, ih, List.cons_append]

/-- The loop reads up to the quote, as long as there is room. -/
theorem decodeText_scanned (h : Scanned x) (rest : List UInt8) (ri : Nat) :
    decodeText (x ++ quote :: rest) ri = (heard x).take (RESPONSE_CAP - 4 - ri) := by
  have hcap : RESPONSE_CAP = 2048 := rfl
  induction h generalizing ri with
  | nil =>
      rw [List.nil_append, heard, List.take_nil]
      cases rest with
      | nil =>
          rw [decodeText, if_neg]
          exact fun h => h.2 rfl
      | cons d rest =>
          rw [decodeText]
          split
          · rw [if_neg (by decide), if_pos rfl]
          · rfl
  | @char c x hquote hbackslash _ ih =>
      rw [heard_char hbackslash]
      obtain ⟨d, tail, htail⟩ : ∃ d tail, x ++ quote :: rest = d :: tail := by
        cases x with
        | nil => exact ⟨_, _, rfl⟩
        | cons d x => exact ⟨_, _, rfl⟩
      rw [List.cons_append, htail, decodeText, ← htail, if_neg hbackslash, if_neg hquote]
      split
      next hroom =>
        have hnext : RESPONSE_CAP - 4 - ri = (RESPONSE_CAP - 4 - (ri + 1)) + 1 := by omega
        rw [ih, hnext, List.take_succ_cons]
      next hfull =>
        have hzero : RESPONSE_CAP - 4 - ri = 0 := by omega
        rw [hzero, List.take_zero]
  | @pair c x _ ih =>
      rw [heard_pair, List.cons_append, List.cons_append, decodeText]
      split
      next hroom =>
        have hnext : RESPONSE_CAP - 4 - ri = (RESPONSE_CAP - 4 - (ri + 1)) + 1 := by omega
        rw [if_pos rfl, ih, hnext, List.take_succ_cons]
      next hfull =>
        have hzero : RESPONSE_CAP - 4 - ri = 0 := by omega
        rw [hzero, List.take_zero]

theorem hexDigit_char {c : UInt8} {d : Nat} (h : Json.hexDigit c = some d) :
    c ≠ quote ∧ c ≠ backslash := by
  constructor
  · rintro rfl
    cases h
  · rintro rfl
    cases h

/-- A hexadecimal digit is less than sixteen, and below ten there is one way to write it. -/
theorem hexDigit_spec {c : UInt8} {d : Nat} (h : Json.hexDigit c = some d) :
    d < 16 ∧ (d < 10 → c.toNat = 0x30 + d) := by
  rw [Json.hexDigit] at h
  split at h
  next hdigit =>
    have hlower : 0x30 ≤ c.toNat := hdigit.1
    have hupper : c.toNat ≤ 0x39 := hdigit.2
    cases h
    exact ⟨by omega, fun _ => by omega⟩
  split at h
  next hletter =>
    have hlower : 0x61 ≤ c.toNat := hletter.1
    have hupper : c.toNat ≤ 0x66 := hletter.2
    cases h
    exact ⟨by omega, fun _ => by omega⟩
  split at h
  next hletter =>
    have hlower : 0x41 ≤ c.toNat := hletter.1
    have hupper : c.toNat ≤ 0x46 := hletter.2
    cases h
    exact ⟨by omega, fun _ => by omega⟩
  next => cases h

/-- Four digits, and what they stand for. -/
theorem codeUnit_shape {bytes : List UInt8} {unit : Nat}
    (h : Json.codeUnit bytes = some (unit, rest)) :
    ∃ digits, bytes = digits ++ rest ∧ Scanned digits ∧
      (unit = 0x75 → digits = [0x30, 0x30, 0x37, 0x35]) ∧ unit < 0x10000 := by
  obtain ⟨a, b, c, d, tail, rfl⟩ : ∃ a b c d tail, bytes = a :: b :: c :: d :: tail := by
    obtain ⟨digits, rfl, hlength, -, -⟩ := Json.codeUnit_cases h
    rcases digits with _ | ⟨a, _ | ⟨b, _ | ⟨c, _ | ⟨d, _ | ⟨e, more⟩⟩⟩⟩⟩
    · cases hlength
    · cases hlength
    · cases hlength
    · cases hlength
    · exact ⟨a, b, c, d, rest, rfl⟩
    · cases hlength
  simp only [Json.codeUnit, Option.bind_eq_bind, Option.bind_eq_some_iff, Option.some.injEq,
    Prod.mk.injEq] at h
  obtain ⟨p, hp, q, hq, r, hr, s, hs, rfl, rfl⟩ := h
  have hscanned : Scanned [a, b, c, d] :=
    .char (hexDigit_char hp).1 (hexDigit_char hp).2
      (.char (hexDigit_char hq).1 (hexDigit_char hq).2
        (.char (hexDigit_char hr).1 (hexDigit_char hr).2
          (.char (hexDigit_char hs).1 (hexDigit_char hs).2 .nil)))
  obtain ⟨hp16, hpdigit⟩ := hexDigit_spec hp
  obtain ⟨hq16, hqdigit⟩ := hexDigit_spec hq
  obtain ⟨hr16, hrdigit⟩ := hexDigit_spec hr
  obtain ⟨hs16, hsdigit⟩ := hexDigit_spec hs
  refine ⟨[a, b, c, d], rfl, hscanned, ?_, by omega⟩
  intro hunit
  have ha : a = 0x30 := UInt8.toNat_inj.mp ((hpdigit (by omega)).trans (by omega : _ = 0x30))
  have hb : b = 0x30 := UInt8.toNat_inj.mp ((hqdigit (by omega)).trans (by omega : _ = 0x30))
  have hc : c = 0x37 := UInt8.toNat_inj.mp ((hrdigit (by omega)).trans (by omega : _ = 0x37))
  have hd : d = 0x35 := UInt8.toNat_inj.mp ((hsdigit (by omega)).trans (by omega : _ = 0x35))
  rw [ha, hb, hc, hd]

/-- The first byte of a character tells the letter u. -/
theorem utf8_head {code : Nat} (range : code < 0x110000) {more : List UInt8}
    (h : Json.utf8 code = 0x75 :: more) : code = 0x75 := by
  have hhead : ∀ n : Nat, n < 256 → UInt8.ofNat n = 0x75 → n = 0x75 := by
    intro n hn hsame
    have htoNat := congrArg UInt8.toNat hsame
    rw [UInt8.toNat_ofNat', Nat.mod_eq_of_lt hn] at htoNat
    exact htoNat
  rw [Json.utf8] at h
  split at h
  · exact hhead code (by omega) (List.cons.inj h).1
  split at h
  · have := hhead _ (by omega) (List.cons.inj h).1
    omega
  split at h
  · have := hhead _ (by omega) (List.cons.inj h).1
    omega
  · have := hhead _ (by omega) (List.cons.inj h).1
    omega

theorem utf8_ne_nil (code : Nat) : Json.utf8 code ≠ [] := by
  rw [Json.utf8]
  split
  · exact List.cons_ne_nil _ _
  split
  · exact List.cons_ne_nil _ _
  split <;> exact List.cons_ne_nil _ _

/-- A character that is written with digits. -/
theorem unicode_shape {bytes : List UInt8} (h : Json.unicode bytes = some (meant, rest)) :
    ∃ digits code, bytes = digits ++ rest ∧ Scanned digits ∧ meant = Json.utf8 code ∧
      code < 0x110000 ∧ (code = 0x75 → digits = [0x30, 0x30, 0x37, 0x35]) := by
  simp only [Json.unicode, Option.bind_eq_bind, Option.bind_eq_some_iff] at h
  obtain ⟨⟨unit, behind⟩, hunit, h⟩ := h
  obtain ⟨digits, rfl, hscanned, hletter, hrange⟩ := codeUnit_shape hunit
  dsimp only at h
  split at h
  · cases h
    exact ⟨digits, unit, rfl, hscanned, rfl, by omega, hletter⟩
  next hsurrogate =>
  split at h
  · cases h
  rcases behind with _ | ⟨b, _ | ⟨u, behind⟩⟩
  · cases h
  · cases h
  -- A pair of surrogates.
  simp only [Option.bind_eq_some_iff] at h
  obtain ⟨⟨low, last⟩, hlow, h⟩ := h
  obtain ⟨digits', rfl, hscanned', -, -⟩ := codeUnit_shape hlow
  dsimp only at h
  split at h
  next hpair =>
    simp only [Option.some.injEq, Prod.mk.injEq] at h
    obtain ⟨rfl, rfl⟩ := h
    obtain ⟨rfl, rfl, hrange'⟩ := hpair
    refine ⟨digits ++ backslash :: 0x75 :: digits', _, by rw [List.append_assoc]; rfl,
      hscanned.append (.pair hscanned'), rfl, by omega, fun hcode => ?_⟩
    omega
  next => cases h

/-- An escape is one letter, or a u with digits. -/
theorem escape_shape
    (h : ∀ bytes, Json.escapeSequence (written ++ bytes) = some (meant, bytes)) :
    (∃ c m, written = [c] ∧ meant = [m] ∧ (m = unescape c ∧ c ≠ 0x62 ∧ c ≠ 0x66 ∧ c ≠ 0x75 ∨
        m ≠ unescape c)) ∨
      ∃ digits code, written = 0x75 :: digits ∧ Scanned digits ∧ meant = Json.utf8 code ∧
        code < 0x110000 ∧ (code = 0x75 → digits = [0x30, 0x30, 0x37, 0x35]) := by
  have hread := h []
  rw [List.append_nil] at hread
  cases written with
  | nil => cases hread
  | cons c w =>
      have single : ∀ m, Json.escapeSequence (c :: w) = some ([m], w) →
          (m = unescape c ∧ c ≠ 0x62 ∧ c ≠ 0x66 ∧ c ≠ 0x75 ∨ m ≠ unescape c) →
          ∃ c' m', c :: w = [c'] ∧ meant = [m'] ∧
            (m' = unescape c' ∧ c' ≠ 0x62 ∧ c' ≠ 0x66 ∧ c' ≠ 0x75 ∨ m' ≠ unescape c') := by
        intro m hsame hm
        rw [hsame] at hread
        cases hread
        exact ⟨c, m, rfl, rfl, hm⟩
      by_cases hself : c = quote ∨ c = backslash ∨ c = 0x2f
      · apply Or.inl
        apply single c (by rw [Json.escapeSequence, if_pos hself])
        rcases hself with rfl | rfl | rfl <;> decide
      by_cases hb : c = 0x62
      · subst hb
        exact .inl (single 0x08 rfl (by decide))
      by_cases hf : c = 0x66
      · subst hf
        exact .inl (single 0x0c rfl (by decide))
      by_cases hn : c = 0x6e
      · subst hn
        exact .inl (single 0x0a rfl (by decide))
      by_cases hr : c = 0x72
      · subst hr
        exact .inl (single 0x0d rfl (by decide))
      by_cases ht : c = 0x74
      · subst ht
        exact .inl (single 0x09 rfl (by decide))
      rw [Json.escapeSequence, if_neg hself, if_neg hb, if_neg hf, if_neg hn, if_neg hr,
        if_neg ht] at hread
      by_cases hu : c = 0x75
      · subst hu
        rw [if_pos rfl] at hread
        obtain ⟨digits, code, hw, hdigits⟩ := unicode_shape hread
        rw [List.append_nil] at hw
        exact .inr ⟨digits, code, by rw [hw], hdigits⟩
      · rw [if_neg hu] at hread
        cases hread

theorem scanned_of_spells (h : Spells text encoded) : Scanned encoded := by
  induction h with
  | nil => exact .nil
  | plain hc _ ih =>
      obtain ⟨hquote, hbackslash, -⟩ := Json.isPlain_iff.mp hc
      exact .char hquote hbackslash ih
  | escape hwritten _ ih =>
      rcases escape_shape hwritten with ⟨c, m, rfl, -⟩ | ⟨digits, code, rfl, hdigits, -⟩
      · exact .pair ih
      · exact .pair (hdigits.append ih)

theorem letter_digits : ascii "0075" = [0x30, 0x30, 0x37, 0x35] := ascii_ofList _

theorem scanned_letter : Scanned (ascii "0075") := by
  rw [letter_digits]
  exact .char (by decide) (by decide) (.char (by decide) (by decide)
    (.char (by decide) (by decide) (.char (by decide) (by decide) .nil)))

theorem heard_letter (rest : List UInt8) :
    heard (ascii "0075" ++ rest) = ascii "0075" ++ heard rest := by
  have hdigits : heard (ascii "0075") = ascii "0075" := by
    rw [letter_digits]
    decide
  rw [heard_append scanned_letter, hdigits]

theorem heard_of_readable {n : Nat} (h : Readable n text encoded) :
    (heard encoded).take n = text.take n := by
  induction h with
  | full => rw [List.take_zero, List.take_zero]
  | done => rw [heard]
  | plain hc _ ih =>
      rw [heard_char (Json.isPlain_iff.mp hc).2.1, List.take_succ_cons, List.take_succ_cons, ih]
  | escape _ _ ih => rw [heard_pair, List.take_succ_cons, List.take_succ_cons, ih]
  | letter hrest =>
      rw [heard_pair, heard_letter, List.take_succ_cons, List.take_succ_cons, hrest]
      rfl

theorem readable_of_heard (h : Spells text encoded) {n : Nat}
    (same : (heard encoded).take n = text.take n) : Readable n text encoded := by
  induction h generalizing n with
  | nil =>
      cases n with
      | zero => exact .full
      | succ n => exact .done
  | @plain c s text hc _ ih =>
      cases n with
      | zero => exact .full
      | succ n =>
          rw [heard_char (Json.isPlain_iff.mp hc).2.1, List.take_succ_cons, List.take_succ_cons]
            at same
          exact .plain hc (ih (List.cons.inj same).2)
  | @escape meant written s text hwritten _ ih =>
      cases n with
      | zero => exact .full
      | succ n =>
          rcases escape_shape hwritten with ⟨c, m, rfl, rfl, hm⟩ |
            ⟨digits, code, rfl, hdigits, rfl, hrange, hletter⟩
          · change (heard (backslash :: c :: text)).take _ = (m :: s).take _ at same
            rw [heard_pair, List.take_succ_cons, List.take_succ_cons] at same
            obtain ⟨hhead, htail⟩ := List.cons.inj same
            rcases hm with ⟨rfl, hother⟩ | hm
            · exact .escape hother (ih htail)
            · exact absurd hhead.symm hm
          · change (heard (backslash :: 0x75 :: (digits ++ text))).take _ = _ at same
            obtain ⟨d, more, hutf8⟩ := List.exists_cons_of_ne_nil (utf8_ne_nil code)
            rw [heard_pair, hutf8, List.cons_append, List.take_succ_cons, List.take_succ_cons]
              at same
            obtain ⟨hhead, htail⟩ := List.cons.inj same
            rw [← hhead] at hutf8
            have hcode := utf8_head hrange hutf8
            rw [hletter hcode, ← letter_digits] at htail ⊢
            subst hcode
            have hmore : more = [] := (List.cons.inj hutf8).2.symm
            rw [hmore, List.nil_append] at htail
            rw [heard_letter] at htail
            exact .letter htail.symm

end Heard

/-- The text of the first content block is given back exactly if it is what is found, and no
escape is in its way. -/
theorem extract_text_iff (before : Members) (free : before.Free typeWord textWord)
    (text encoded after : List UInt8) (spells : Spells text encoded) :
    extractTextFromResponse (response before encoded after) =
      some (text.take (RESPONSE_CAP - 4)) ↔ Reads before text encoded := by
  obtain ⟨rest, hextract⟩ := extract_response free encoded after
  rw [hextract, Reads]
  cases decoy before with
  | none =>
      dsimp only
      rw [decodeText_scanned (scanned_of_spells spells), Nat.sub_zero, Option.some_inj]
      exact ⟨readable_of_heard spells, heard_of_readable⟩
  | some s =>
      dsimp only
      rw [decodeText_scanned (scanned_of_spells s.spells), Nat.sub_zero, Option.some_inj]

theorem spells_decoy : Spells ([quote] ++ typeWord) (backslash :: [quote] ++ typeWord) :=
  .escape (fun _ => rfl) spells_type

example : (decoy (.cons ⟨_, _, spells_decoy⟩ (.string ⟨_, _, spells_text⟩)
    (.cons ⟨_, _, spells_text⟩ (.string ⟨_, _, spells_content⟩) .nil))).map Spelled.text =
      some contentWord := by decide

/-- A line feed is read. -/
theorem extract_text_iff_line :
    extractTextFromResponse (response .nil [backslash, 0x6e] []) = some [0x0a] := by
  have hspells : Spells [0x0a] [backslash, 0x6e] := Spells.singleton fun _ => rfl
  have hreads : Reads .nil [0x0a] [backslash, 0x6e] :=
    .escape (c := 0x6e) (by decide) .done
  exact (extract_text_iff .nil trivial [0x0a] [backslash, 0x6e] [] hspells).mpr hreads

/-- `\u0001`, as `json_escape` writes that byte, is read as its letters. -/
theorem extract_text_loses_control :
    ¬∀ (before : Members), before.Free typeWord textWord → ∀ text encoded after : List UInt8,
      0 ∉ text → Spells text encoded →
        extractTextFromResponse (response before encoded after) =
          some (text.take (RESPONSE_CAP - 4)) := by
  intro h
  have hspells : Spells [0x01] (backslash :: (ascii "u0001")) := by
    have hbytes : ascii "u0001" = [0x75, 0x30, 0x30, 0x30, 0x31] := ascii_ofList _
    rw [hbytes]
    exact Spells.singleton fun _ => rfl
  have hread := h .nil trivial [0x01] _ [] (by decide) hspells
  have hfree : Members.nil.Free typeWord textWord := trivial
  obtain ⟨rest, hextract⟩ := extract_response hfree (backslash :: (ascii "u0001")) []
  have hnone : decoy .nil = none := rfl
  rw [hextract, hnone, decodeText_scanned (scanned_of_spells hspells), Option.some_inj] at hread
  exact absurd hread (by decide)

end Coping.Response
