import Mathlib.Algebra.Ring.Parity
import Coping.Ai.Response

/-!
# The scan of a response

`extract_text_from_response` reads no byte behind the terminator and writes none outside its
buffer, whatever the response. The scan of the value goes on to the first quote that is not
escaped, unless the response or the room for the text ends before.
-/

namespace Coping.ResponseScan

open Json (quote backslash)

/-- Behind these bytes of the value a byte is escaped: the run of backslashes at their end is
odd. -/
def Escaped (before : List UInt8) : Prop :=
  Odd (before.reverse.takeWhile (· = backslash)).length

/-- At this index there is a quote that is not escaped. -/
def Closes (json : CString) (start i : Nat) : Prop :=
  json.bytes[i]? = some quote ∧ ¬Escaped ((json.bytes.take i).drop start)

/-- How the scan of a value ends. -/
structure Scanned (json : CString) (start : Nat) (scan : TextScan) : Prop where
  behind : start ≤ scan.p
  inside : scan.p ≤ json.bytes.length
  first : ∀ i, start ≤ i → i < scan.p → ¬Closes json start i
  stopped : Closes json start scan.p ∨ scan.p = json.bytes.length ∨ scan.ri = 2044
  room : scan.ri ≤ 2044
  length : (decodeText (json.bytes.drop start) 0).length = scan.ri
  holds : scan.result.Holds (decodeText (json.bytes.drop start) 0)

section Accesses

variable {json : CString} {p ri : Nat} {result result' : CBuffer RESPONSE_CAP} {c d : UInt8}

theorem escapes_other (other : c ≠ backslash) : escapes json p c = some false := if_neg other

theorem escapes_backslash (behind : json.byte (p + 1) = some d) :
    escapes json p backslash = some (decide (d ≠ 0)) := by
  rw [escapes, if_pos rfl, behind, Option.map_some]

theorem scanText_stop (here : json.byte p = some c) (stop : ¬(c ≠ 0 ∧ ri + 4 < RESPONSE_CAP)) :
    scanText json p ri result = some ⟨p, ri, result⟩ := by
  rw [scanText, here, Option.bind_eq_bind, Option.bind_some, dif_neg stop]
  rfl

theorem scanText_quote (here : json.byte p = some quote) :
    scanText json p ri result = some ⟨p, ri, result⟩ := by
  by_cases hroom : quote ≠ 0 ∧ ri + 4 < RESPONSE_CAP
  · rw [scanText, here, Option.bind_eq_bind, Option.bind_some, dif_pos hroom,
      escapes_other (by decide), Option.bind_eq_bind, Option.bind_some, if_neg Bool.false_ne_true,
      if_pos rfl]
    rfl
  · exact scanText_stop here hroom

theorem scanText_pair (here : json.byte p = some backslash) (behind : json.byte (p + 1) = some d)
    (nonzero : d ≠ 0) (room : ri + 4 < RESPONSE_CAP)
    (stored : result.write ri [unescape d] = some result') :
    scanText json p ri result = scanText json (p + 2) (ri + 1) result' := by
  rw [scanText, here, Option.bind_eq_bind, Option.bind_some, dif_pos ⟨by decide, room⟩,
    escapes_backslash behind, Option.bind_eq_bind, Option.bind_some,
    if_pos (decide_eq_true nonzero), behind, Option.bind_eq_bind, Option.bind_some, stored,
    Option.bind_some]

theorem scanText_char (here : json.byte p = some c) (single : escapes json p c = some false)
    (nonzero : c ≠ 0) (open_ : c ≠ quote) (room : ri + 4 < RESPONSE_CAP)
    (stored : result.write ri [c] = some result') :
    scanText json p ri result = scanText json (p + 1) (ri + 1) result' := by
  rw [scanText, here, Option.bind_eq_bind, Option.bind_some, dif_pos ⟨nonzero, room⟩, single,
    Option.bind_eq_bind, Option.bind_some, if_neg Bool.false_ne_true, if_neg open_, stored,
    Option.bind_eq_bind, Option.bind_some]

end Accesses

section Escapes

variable {before : List UInt8} {c : UInt8}

theorem not_escaped_nil : ¬Escaped [] := Nat.not_odd_zero

theorem escaped_backslash : Escaped (before ++ [backslash]) ↔ ¬Escaped before := by
  rw [Escaped, List.reverse_append, List.reverse_singleton, List.singleton_append,
    List.takeWhile_cons_of_pos (by decide), List.length_cons, Nat.odd_add_one, Escaped]

theorem not_escaped_other (other : c ≠ backslash) : ¬Escaped (before ++ [c]) := by
  rw [Escaped, List.reverse_append, List.reverse_singleton, List.singleton_append,
    List.takeWhile_cons_of_neg (by simpa using other)]
  exact Nat.not_odd_zero

theorem unescape_ne_zero (nonzero : c ≠ 0) : unescape c ≠ 0 := by
  unfold unescape
  grind

end Escapes

section Loop

variable {json : CString} {start ri : Nat} {head front back text : List UInt8} {c : UInt8}
variable {result : CBuffer RESPONSE_CAP}

/-- The loop has read `front` of the value and stored `text`; `back` is to come. -/
structure Scanning (json : CString) (head front back text : List UInt8)
    (result : CBuffer RESPONSE_CAP) : Prop where
  split : json.bytes = head ++ front ++ back
  unescaped : back ≠ [] → ¬Escaped front
  first : ∀ i, head.length ≤ i → i < (head ++ front).length → ¬Closes json head.length i
  stored : text <+: result.bytes
  nonzero : 0 ∉ text
  room : text.length ≤ 2044
  decoded : decodeText (front ++ back) 0 = text ++ decodeText back text.length

theorem decodeText_pair {d : UInt8} (room : ri + 4 < RESPONSE_CAP) :
    decodeText (backslash :: d :: back) ri = unescape d :: decodeText back (ri + 1) := by
  rw [decodeText, if_pos room, if_pos rfl]

theorem decodeText_char (room : ri + 4 < RESPONSE_CAP) (open_ : c ≠ quote)
    (single : c ≠ backslash ∨ back = []) :
    decodeText (c :: back) ri = c :: decodeText back (ri + 1) := by
  cases back with
  | nil => exact if_pos ⟨room, open_⟩
  | cons d back =>
      have hother : c ≠ backslash := single.resolve_right (List.cons_ne_nil d back)
      rw [decodeText, if_pos room, if_neg hother, if_neg open_]

/-- Nothing more is stored behind the closing quote or in a full buffer. -/
theorem decodeText_stopped (stopped : back.head? = some quote ∨ back = [] ∨ ri = 2044) :
    decodeText back ri = [] := by
  have hquote : quote ≠ backslash := by decide
  have hcap : RESPONSE_CAP = 2048 := rfl
  match back with
  | [] => rfl
  | [c] =>
      rw [decodeText, if_neg]
      rintro ⟨hroom, hother⟩
      obtain hc | hc | hc := stopped
      · exact hother (Option.some.inj hc)
      · cases hc
      · omega
  | c :: d :: back =>
      rw [decodeText]
      split
      next hroom =>
        obtain hc | hc | hc := stopped
        · rw [Option.some.inj hc, if_neg hquote, if_pos rfl]
        · cases hc
        · omega
      next => rfl

/-- Whether the byte that comes next closes the value. -/
theorem Scanning.closes_iff (h : Scanning json head front back text result) :
    Closes json head.length (head ++ front).length ↔ back.head? = some quote := by
  have hbefore : (json.bytes.take (head ++ front).length).drop head.length = front := by
    rw [h.split, List.take_left, List.drop_left]
  have hbyte : json.bytes[(head ++ front).length]? = back.head? := by
    rw [h.split, List.getElem?_append_right (Nat.le_refl _), Nat.sub_self, List.head?_eq_getElem?]
  rw [Closes, hbefore, hbyte]
  constructor
  · exact fun hcloses => hcloses.1
  · intro hquote
    refine ⟨hquote, h.unescaped ?_⟩
    rintro rfl
    cases hquote

/-- One more byte of the text is stored, for one or two bytes of the value. -/
theorem Scanning.next {read rest : List UInt8} {result' : CBuffer RESPONSE_CAP}
    (h : Scanning json head front (read ++ rest) text result)
    (stored : text ++ [c] <+: result'.bytes) (nonzero : c ≠ 0)
    (room : text.length + 4 < RESPONSE_CAP)
    (decoded : decodeText (read ++ rest) text.length = c :: decodeText rest (text.length + 1))
    (unescaped : rest ≠ [] → ¬Escaped (front ++ read))
    (passed : ∀ i, (head ++ front).length ≤ i → i < (head ++ (front ++ read)).length →
      ¬Closes json head.length i) :
    Scanning json head (front ++ read) rest (text ++ [c]) result' where
  split := by rw [h.split, ← List.append_assoc, List.append_assoc head]
  unescaped := unescaped
  first i hfrom hto := by
    by_cases hbefore : i < (head ++ front).length
    · exact h.first i hfrom hbefore
    · exact passed i (by omega) hto
  stored := stored
  nonzero := by
    rw [List.mem_append, List.mem_singleton]
    exact fun hzero => hzero.elim h.nonzero fun hzero => nonzero hzero.symm
  room := by
    rw [List.length_append, List.length_singleton]
    have hcap : RESPONSE_CAP = 2048 := rfl
    omega
  decoded := by
    rw [List.append_assoc, h.decoded, decoded, List.append_assoc, List.singleton_append,
      List.length_append, List.length_singleton]

theorem Scanning.byte (h : Scanning json head front back text result) :
    json.byte (head ++ front).length = some (back.headD 0) := CString.byte_append h.split

theorem Scanning.ne_zero (h : Scanning json head front back text result) (mem : c ∈ back) :
    c ≠ 0 := by
  rintro rfl
  apply json.nonzero
  rw [h.split]
  exact List.mem_append_right _ mem

theorem Scanning.store (h : Scanning json head front back text result)
    (room : text.length + 4 < RESPONSE_CAP) (d : UInt8) :
    ∃ result', result.write text.length [d] = some result' ∧ text ++ [d] <+: result'.bytes := by
  apply CBuffer.write_behind h.stored
  rw [List.length_singleton]
  omega

/-- A backslash and the byte behind it, whatever that is. -/
theorem Scanning.pair {d : UInt8} {rest : List UInt8}
    (h : Scanning json head front (backslash :: d :: rest) text result)
    (room : text.length + 4 < RESPONSE_CAP) :
    ∃ result', scanText json (head ++ front).length text.length result =
        scanText json (head ++ (front ++ [backslash, d])).length
          (text ++ [unescape d]).length result' ∧
      Scanning json head (front ++ [backslash, d]) rest (text ++ [unescape d]) result' := by
  have hd : d ≠ 0 := h.ne_zero (List.mem_cons_of_mem _ List.mem_cons_self)
  have heven : ¬Escaped front := h.unescaped (List.cons_ne_nil _ _)
  have hodd : Escaped (front ++ [backslash]) := escaped_backslash.mpr heven
  have hsplit : json.bytes = (head ++ front ++ [backslash]) ++ d :: rest := by
    rw [h.split, List.append_assoc _ [backslash], List.singleton_append]
  have hbehind : json.byte ((head ++ front).length + 1) = some d := by
    have hbyte := CString.byte_append hsplit
    rwa [List.length_append, List.length_singleton] at hbyte
  obtain ⟨result', hwrite, hstored⟩ := h.store room (unescape d)
  refine ⟨result', ?_, ?_⟩
  · rw [scanText_pair h.byte hbehind hd room hwrite]
    simp only [List.length_append, List.length_cons, List.length_nil, Nat.add_assoc]
  · refine h.next hstored (unescape_ne_zero hd) room (decodeText_pair room) ?_ ?_
    · intro _
      rw [List.append_cons]
      by_cases hother : d = backslash
      · rw [hother, escaped_backslash]
        exact not_not_intro hodd
      · exact not_escaped_other hother
    · intro i hfrom hto hcloses
      simp only [List.length_append, List.length_cons, List.length_nil] at hfrom hto
      obtain rfl | rfl : i = (head ++ front).length ∨
          i = (head ++ front ++ [backslash]).length := by
        simp only [List.length_append, List.length_singleton]
        omega
      · rw [h.closes_iff] at hcloses
        exact absurd (Option.some.inj hcloses) (by decide)
      · have hbefore : (json.bytes.take (head ++ front ++ [backslash]).length).drop
            head.length = front ++ [backslash] := by
          rw [hsplit, List.take_left, List.append_assoc, List.drop_left]
        exact hcloses.2 (hbefore ▸ hodd)

/-- Another byte, or a backslash at the end. -/
theorem Scanning.char (h : Scanning json head front (c :: back) text result)
    (open_ : c ≠ quote) (single : c ≠ backslash ∨ back = [])
    (room : text.length + 4 < RESPONSE_CAP) :
    ∃ result', scanText json (head ++ front).length text.length result =
        scanText json (head ++ (front ++ [c])).length (text ++ [c]).length result' ∧
      Scanning json head (front ++ [c]) back (text ++ [c]) result' := by
  have hc : c ≠ 0 := h.ne_zero List.mem_cons_self
  have hescapes : escapes json (head ++ front).length c = some false := by
    by_cases hother : c = backslash
    · have hback : back = [] := single.resolve_left (not_not_intro hother)
      have hsplit : json.bytes = (head ++ front ++ [c]) ++ [] := by
        rw [h.split, hback, List.append_nil]
      have hbyte := CString.byte_append hsplit
      rw [List.length_append, List.length_singleton] at hbyte
      rw [hother, escapes_backslash hbyte]
      rfl
    · exact escapes_other hother
  obtain ⟨result', hwrite, hstored⟩ := h.store room c
  refine ⟨result', ?_, ?_⟩
  · rw [scanText_char h.byte hescapes hc open_ room hwrite]
    simp only [List.length_append, List.length_singleton, Nat.add_assoc]
  · have hread : Scanning json head front ([c] ++ back) text result := h
    refine hread.next hstored hc room (decodeText_char room open_ single) ?_ ?_
    · exact fun hback => not_escaped_other (single.resolve_right hback)
    · intro i hfrom hto
      simp only [List.length_append, List.length_singleton] at hfrom hto
      obtain rfl : i = (head ++ front).length := by
        rw [List.length_append]
        omega
      rw [h.closes_iff]
      exact fun hhead => open_ (Option.some.inj hhead)

/-- The loop comes to the closing quote, to the end or to the limit, with all of its accesses
inside. -/
theorem Scanning.run : ∀ {back front text : List UInt8} {result : CBuffer RESPONSE_CAP},
    Scanning json head front back text result →
    ∃ front' back' text' result',
      scanText json (head ++ front).length text.length result =
        some ⟨(head ++ front').length, text'.length, result'⟩ ∧
      Scanning json head front' back' text' result' ∧
      (back'.head? = some quote ∨ back' = [] ∨ text'.length = 2044)
  | [], front, text, result, h =>
      ⟨front, [], text, result, scanText_stop h.byte fun hgo => hgo.1 rfl, h, .inr (.inl rfl)⟩
  | c :: back, front, text, result, h => by
      have hcap : RESPONSE_CAP = 2048 := rfl
      by_cases hquote : c = quote
      · subst hquote
        exact ⟨front, _, text, result, scanText_quote h.byte, h, .inl rfl⟩
      by_cases hfull : RESPONSE_CAP ≤ text.length + 4
      · have hroom := h.room
        refine ⟨front, _, text, result, scanText_stop h.byte fun hgo => ?_, h, .inr (.inr ?_)⟩
        · exact absurd hgo.2 (Nat.not_lt.mpr hfull)
        · omega
      have hroom : text.length + 4 < RESPONSE_CAP := Nat.lt_of_not_le hfull
      by_cases hsingle : c ≠ backslash ∨ back = []
      · obtain ⟨result', hstep, hnext⟩ := h.char hquote hsingle hroom
        rw [hstep]
        exact hnext.run
      · obtain ⟨hc, hback⟩ := not_or.mp hsingle
        obtain rfl := not_not.mp hc
        obtain ⟨d, rest, rfl⟩ := List.exists_cons_of_ne_nil hback
        obtain ⟨result', hstep, hnext⟩ := h.pair hroom
        rw [hstep]
        exact hnext.run

/-- At its end the loop has stored the whole text, and the terminator goes behind it. -/
theorem Scanning.finish (h : Scanning json head front back text result)
    (stopped : back.head? = some quote ∨ back = [] ∨ text.length = 2044) :
    ∃ result', result.write text.length [0] = some result' ∧
      Scanned json head.length ⟨(head ++ front).length, text.length, result'⟩ := by
  have hroom := h.room
  obtain ⟨result', hwrite, hstored⟩ := CBuffer.write_behind h.stored
    (show text.length + [(0 : UInt8)].length ≤ RESPONSE_CAP from by
      rw [RESPONSE_CAP, List.length_singleton]
      omega)
  have hvalue : json.bytes.drop head.length = front ++ back := by
    rw [h.split, List.append_assoc, List.drop_left]
  have htext : decodeText (json.bytes.drop head.length) 0 = text := by
    rw [hvalue, h.decoded, decodeText_stopped stopped, List.append_nil]
  refine ⟨result', hwrite, ?_⟩
  constructor
  case behind => exact (List.prefix_append head front).length_le
  case inside =>
    rw [h.split]
    exact (List.prefix_append (head ++ front) back).length_le
  case first => exact h.first
  case stopped =>
    obtain hhead | hend | hlimit := stopped
    · exact .inl (h.closes_iff.mpr hhead)
    · exact .inr (.inl (by rw [h.split, hend, List.append_nil]))
    · exact .inr (.inr hlimit)
  case room => exact hroom
  case length => rw [htext]
  case holds =>
    rw [htext]
    exact ⟨hstored, h.nonzero⟩

end Loop

section Response

variable {json : CString} {start : Nat}

/-- The value begins inside the response, behind the second marker. -/
theorem textStart_spec (h : textStart json = some start) :
    ∃ head value, json.bytes = head ++ value ∧ start = head.length ∧
      extractTextFromResponse json.bytes = some (decodeText value 0) := by
  rw [textStart] at h
  obtain ⟨typeMarkerAt, htype, h⟩ := Option.bind_eq_some_iff.mp h
  obtain ⟨textMarkerAt, htext, h⟩ := Option.bind_eq_some_iff.mp h
  obtain ⟨value, hvalue⟩ := (strstr_spec htext).1
  obtain ⟨front, hfront⟩ := (strstr_spec htext).2.trans (strstr_spec htype).2
  refine ⟨front ++ textMarker, value, ?_, ?_, ?_⟩
  · rw [List.append_assoc, hvalue, hfront]
  · rw [← Option.some.inj h, ← hfront, List.length_append, List.length_append]
    omega
  · rw [extractTextFromResponse, htype, Option.bind_eq_bind, Option.bind_some, htext,
      Option.bind_some, ← hvalue, List.drop_left]
    rfl

/-- Without a start there is no text. -/
theorem extractTextFromResponse_eq_none (h : textStart json = none) :
    extractTextFromResponse json.bytes = none := by
  rw [textStart] at h
  rw [extractTextFromResponse]
  cases htype : strstr typeMarker json.bytes with
  | none => rfl
  | some typeMarkerAt =>
      cases htext : strstr textMarker typeMarkerAt with
      | none => rw [Option.bind_eq_bind, Option.bind_some, htext, Option.bind_none]
      | some textMarkerAt =>
          rw [htype, Option.bind_eq_bind, Option.bind_some, htext, Option.bind_some] at h
          cases h

end Response

/-- Every access is inside, and what is returned is the decoded value. -/
theorem extract_text_safe (json : CString) (malloc : Option (CBuffer RESPONSE_CAP)) :
    ∃ returned, extractText json malloc = some returned ∧
      (returned.map fun scan => scan.result.text) =
        malloc.bind (fun _ => extractTextFromResponse json.bytes) ∧
      ∀ scan, returned = some scan →
        ∃ start, textStart json = some start ∧ Scanned json start scan := by
  cases hstart : textStart json with
  | none =>
      refine ⟨none, ?_, ?_, ?_⟩
      · rw [extractText, hstart]
      · rw [extractTextFromResponse_eq_none hstart]
        cases malloc <;> rfl
      · intro scan hscan
        cases hscan
  | some start =>
      cases malloc with
      | none =>
          refine ⟨none, ?_, rfl, ?_⟩
          · rw [extractText, hstart]
          · intro scan hscan
            cases hscan
      | some result =>
          obtain ⟨head, value, hsplit, rfl, hvalue⟩ := textStart_spec hstart
          have hfirst : Scanning json head [] value [] result := by
            constructor
            case split => rw [hsplit, List.append_nil]
            case unescaped => exact fun _ => not_escaped_nil
            case first =>
              intro i hfrom hto
              rw [List.append_nil] at hto
              omega
            case stored => exact List.nil_prefix
            case nonzero => exact List.not_mem_nil
            case room => exact Nat.zero_le _
            case decoded => rfl
          obtain ⟨front, back, text, result', hrun, hscanning, hstopped⟩ := hfirst.run
          rw [List.append_nil, List.length_nil] at hrun
          obtain ⟨result'', hwrite, hscanned⟩ := hscanning.finish hstopped
          refine ⟨some ⟨(head ++ front).length, text.length, result''⟩, ?_, ?_, ?_⟩
          · rw [extractText, hstart]
            change (scanText json head.length 0 result).bind _ = _
            rw [hrun, Option.bind_some, hwrite]
            rfl
          · rw [Option.map_some, hscanned.holds.text, Option.bind_some, hvalue, hsplit,
              List.drop_left]
          · intro scan hscan
            obtain rfl := Option.some.inj hscan
            exact ⟨head.length, rfl, hscanned⟩

end Coping.ResponseScan
