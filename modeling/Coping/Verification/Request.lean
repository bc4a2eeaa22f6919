import Coping.Ai.Context
import Coping.Library.Json

/-!
# The request is a JSON text

`escape` is what `json_escape` is for: every byte of a string written in its own
way. `json_escape` writes `escape src` when `src` fits its buffer (`Fits`), and
otherwise the escapes of a proper front part of it, or it puts its terminator
outside. Whatever it writes inside is the inside of a JSON string, so the request is
a JSON object in any case; its content is the right one exactly when both strings
fit.
-/

namespace Coping.Request

open CFormat Json

/-! ## Escaping without a buffer -/

def escapeByte (c : UInt8) : List UInt8 :=
  if c = 0x22 then [0x5c, 0x22]
  else if c = 0x5c then [0x5c, 0x5c]
  else if c = 0x0a then [0x5c, 0x6e]
  else if c = 0x0d then [0x5c, 0x72]
  else if c = 0x09 then [0x5c, 0x74]
  else if c < 0x20 then [0x5c, 0x75] ++ hex4 c
  else [c]

def escape (s : List UInt8) : List UInt8 := s.flatMap escapeByte

@[simp] theorem escape_nil : escape [] = [] := rfl

@[simp] theorem escape_cons (c : UInt8) (s : List UInt8) :
    escape (c :: s) = escapeByte c ++ escape s := List.flatMap_cons

@[simp] theorem escape_append (s t : List UInt8) : escape (s ++ t) = escape s ++ escape t :=
  List.flatMap_append

theorem hexDigit_inverse : ∀ n < 16, Json.hexDigit (CFormat.hexDigit n) = some n := by decide

/-- A control character is written by its code. -/
theorem escapeSequence_hex4 {c : UInt8} (control : c < 0x20) (bytes : List UInt8) :
    escapeSequence ([0x75] ++ hex4 c ++ bytes) = some ([c], bytes) := by
  have hlt : c.toNat < 32 := control
  have hhigh := hexDigit_inverse (c.toNat / 16) (by omega)
  have hlow := hexDigit_inverse (c.toNat % 16) (by omega)
  have hunit : codeUnit (hex4 c ++ bytes) = some (c.toNat, bytes) := by
    have hzero : Json.hexDigit 0x30 = some 0 := by decide
    simp only [hex4, List.cons_append, List.nil_append, codeUnit, hzero, hhigh, hlow,
      Option.bind_eq_bind, Option.bind_some]
    congr 2
    omega
  change unicode (hex4 c ++ bytes) = _
  rw [unicode, hunit]
  have hcode : utf8 c.toNat = [c] := by
    rw [utf8, if_pos (by omega), UInt8.ofNat_toNat]
  simp only [Option.bind_eq_bind, Option.bind_some]
  rw [if_pos (.inl (by omega)), hcode]

theorem spells_escapeByte (c : UInt8) : Spells [c] (escapeByte c) := by
  simp only [escapeByte]
  split
  next h =>
    rw [h]
    exact Spells.singleton fun _ => rfl
  split
  next h =>
    rw [h]
    exact Spells.singleton fun _ => rfl
  split
  next h =>
    rw [h]
    exact Spells.singleton fun _ => rfl
  split
  next h =>
    rw [h]
    exact Spells.singleton fun _ => rfl
  split
  next h =>
    rw [h]
    exact Spells.singleton fun _ => rfl
  split
  next h => exact Spells.singleton (escapeSequence_hex4 h)
  next hquote hbackslash _ _ _ hcontrol =>
    exact .plain (isPlain_iff.mpr ⟨hquote, hbackslash, hcontrol⟩) .nil

/-- The escaped string, between quotes, is read as the string. -/
theorem spells_escape (s : List UInt8) : Spells s (escape s) := by
  induction s with
  | nil => exact .nil
  | cons c s ih => exact (spells_escapeByte c).append ih

/-! ## Escaping into a buffer -/

/-- The escapes leave room for the last one when it begins, and for the terminator
behind it. -/
def Fits (dstlen : Nat) (src : List UInt8) : Prop :=
  (escape src.dropLast).length + 4 < dstlen ∧ (escape src).length < dstlen

instance (dstlen : Nat) (src : List UInt8) : Decidable (Fits dstlen src) :=
  inferInstanceAs (Decidable (_ ∧ _))

@[simp] theorem put_put (dst : Escaped) (s t : List UInt8) :
    (dst.put s).put t = dst.put (s ++ t) := by
  simp [Escaped.put, Nat.add_assoc]

theorem put_nil (dst : Escaped) : dst.put [] = dst := by
  simp [Escaped.put]

/-- A pass writes the escape of its byte, or moves the terminator past the end. -/
theorem escapeStep_cases (dstlen : Nat) (dst : Escaped) (c : UInt8) :
    (escapeStep dstlen dst c).terminator = dst.terminator + (escapeByte c).length ∧
      (dst.terminator + (escapeByte c).length < dstlen →
        escapeStep dstlen dst c = dst.put (escapeByte c)) := by
  simp only [escapeStep, escapeByte]
  split
  · exact ⟨rfl, fun _ => rfl⟩
  split
  · exact ⟨rfl, fun _ => rfl⟩
  split
  · exact ⟨rfl, fun _ => rfl⟩
  split
  · exact ⟨rfl, fun _ => rfl⟩
  split
  · exact ⟨rfl, fun _ => rfl⟩
  split
  · refine ⟨rfl, ?_⟩
    intro hroom
    have hwhole : truncated (dstlen - dst.terminator) ([0x5c, 0x75] ++ hex4 c) =
        [0x5c, 0x75] ++ hex4 c := by
      apply List.take_of_length_le
      change dst.terminator + 6 < dstlen at hroom
      change 6 ≤ dstlen - dst.terminator - 1
      omega
    rw [hwhole]
    rfl
  · exact ⟨rfl, fun _ => rfl⟩

theorem escapeFrom_full {dstlen : Nat} {dst : Escaped} (full : dstlen ≤ dst.terminator + 4)
    (src : List UInt8) : escapeFrom dstlen src dst = dst := by
  cases src with
  | nil => rfl
  | cons c src => rw [escapeFrom, if_neg (by omega)]

theorem escape_dropLast_cons {c : UInt8} {s : List UInt8} (h : s ≠ []) :
    (escape (c :: s).dropLast).length = (escapeByte c).length + (escape s.dropLast).length := by
  rw [List.dropLast_cons_of_ne_nil h, escape_cons, List.length_append]

/-- A string that fits is written as a whole. -/
theorem escapeFrom_fits {dstlen : Nat} {src : List UInt8} {dst : Escaped}
    (last : src ≠ [] → dst.terminator + (escape src.dropLast).length + 4 < dstlen)
    (whole : dst.terminator + (escape src).length < dstlen) :
    escapeFrom dstlen src dst = dst.put (escape src) := by
  induction src generalizing dst with
  | nil => exact (put_nil dst).symm
  | cons c src ih =>
      have hlast := last (List.cons_ne_nil c src)
      rw [escape_cons, List.length_append] at whole
      obtain ⟨hterminator, hput⟩ := escapeStep_cases dstlen dst c
      rw [escapeFrom, if_pos (by omega), ih, hput (by omega), put_put, ← escape_cons]
      · intro hne
        rw [escape_dropLast_cons hne] at hlast
        omega
      · omega

/-- What is written inside the buffer is the escaped front of the string. -/
theorem escapeFrom_inside {dstlen : Nat} {src : List UInt8} {dst : Escaped}
    (inside : (escapeFrom dstlen src dst).terminator < dstlen) :
    ∃ front back, src = front ++ back ∧ escapeFrom dstlen src dst = dst.put (escape front) ∧
      (front ≠ [] → dst.terminator + (escape front.dropLast).length + 4 < dstlen) := by
  induction src generalizing dst with
  | nil => exact ⟨[], [], rfl, (put_nil dst).symm, fun hne => absurd rfl hne⟩
  | cons c src ih =>
      rw [escapeFrom] at inside ⊢
      by_cases hroom : dst.terminator + 4 < dstlen
      · rw [if_pos hroom] at inside ⊢
        obtain ⟨hterminator, hput⟩ := escapeStep_cases dstlen dst c
        have hfits : dst.terminator + (escapeByte c).length < dstlen := by
          by_contra hover
          rw [escapeFrom_full (by omega)] at inside
          omega
        rw [hput hfits] at inside ⊢
        obtain ⟨front, back, rfl, hescaped, hlast⟩ := ih inside
        refine ⟨c :: front, back, rfl, ?_, fun _ => ?_⟩
        · rw [hescaped, put_put, ← escape_cons]
        · by_cases hne : front = []
          · rw [hne]
            exact hroom
          · have hroomLast := hlast hne
            change dst.terminator + (escapeByte c).length + _ + 4 < dstlen at hroomLast
            rw [escape_dropLast_cons hne]
            omega
      · rw [if_neg hroom]
        exact ⟨[], c :: src, rfl, (put_nil dst).symm, fun hne => absurd rfl hne⟩

theorem jsonEscape_of_fits {dstlen : Nat} {src : List UInt8} (h : Fits dstlen src) :
    jsonEscape src dstlen = { text := escape src, terminator := (escape src).length } := by
  obtain ⟨hlast, hwhole⟩ := h
  have hescaped := @escapeFrom_fits dstlen src {} (fun _ => by simpa using hlast)
    (by simpa using hwhole)
  simpa [jsonEscape, Escaped.put] using hescaped

/-- Inside its buffer `json_escape` leaves the escaped front of the string, and all of
it only if the string fits. -/
theorem jsonEscape_inside {dstlen : Nat} {src : List UInt8} (room : 4 < dstlen)
    (inside : (jsonEscape src dstlen).terminator < dstlen) :
    ∃ front back, src = front ++ back ∧ (jsonEscape src dstlen).text = escape front ∧
      (escape front).length < dstlen ∧ (back = [] → Fits dstlen src) := by
  obtain ⟨front, back, hsplit, hescaped, hlast⟩ := escapeFrom_inside inside
  have htext : jsonEscape src dstlen =
      { text := escape front, terminator := (escape front).length } := by
    rw [jsonEscape, hescaped]
    simp [Escaped.put]
  rw [htext] at inside ⊢
  refine ⟨front, back, hsplit, rfl, inside, ?_⟩
  intro hall
  rw [hsplit, hall, List.append_nil]
  refine ⟨?_, inside⟩
  by_cases hne : front = []
  · rw [hne]
    exact room
  · simpa using hlast hne

/-! ## Reading the request -/

theorem spells_ascii {text : List Char}
    (h : (text.map fun c => UInt8.ofNat c.toNat).all isPlain = true) :
    Spells (ascii (String.ofList text)) (ascii (String.ofList text)) := by
  rw [ascii_ofList]
  exact Spells.of_plain h

/-- The two characters of the prompt that are not ASCII are escaped. -/
theorem spells_systemPrompt : ∃ s, Spells s systemPrompt := by
  have hfirst : ∃ s, Spells s
      (ascii "You are the CoPing\\u2122 AI Context Engine \\u2014 the world's first ") := by
    have hsplit : ascii "You are the CoPing\\u2122 AI Context Engine \\u2014 the world's first " =
        ascii "You are the CoPing" ++ (backslash :: [0x75, 0x32, 0x31, 0x32, 0x32]) ++
          ascii " AI Context Engine " ++ (backslash :: [0x75, 0x32, 0x30, 0x31, 0x34]) ++
            ascii " the world's first " := by
      rw [ascii_ofList, ascii_ofList, ascii_ofList, ascii_ofList]
      rfl
    rw [hsplit]
    exact ⟨_, ((((spells_ascii (by decide)).append (Spells.singleton fun _ => rfl)).append
      (spells_ascii (by decide))).append (Spells.singleton fun _ => rfl)).append
        (spells_ascii (by decide))⟩
  obtain ⟨first, hfirst⟩ := hfirst
  exact ⟨_, (((((((hfirst.append (spells_ascii (by decide +kernel))).append
    (spells_ascii (by decide +kernel))).append (spells_ascii (by decide +kernel))).append
      (spells_ascii (by decide +kernel))).append (spells_ascii (by decide +kernel))).append
        (spells_ascii (by decide +kernel))).append (spells_ascii (by decide +kernel))).append
          (spells_ascii (by decide +kernel))⟩

/-- The value of the member `content` of the first message. -/
def messageContent (v : Value) : Option (List UInt8) := do
  let messages ← v.field (ascii "messages")
  let message ← messages.item 0
  let content ← message.field (ascii "content")
  content.text

/-- Around any spelled content the format of the request is an object that holds it. -/
theorem parse_request {content text : List UInt8} (spelled : Spells content text) :
    ∃ members, parse (requestHead ++ systemPrompt ++ requestMiddle ++ text ++ requestTail) =
        some (.object members) ∧
      messageContent (.object members) = some content := by
  obtain ⟨system, hsystem⟩ := spells_systemPrompt
  obtain ⟨k, hk⟩ : ∃ k, (requestHead ++ systemPrompt ++ requestMiddle ++ text ++
      requestTail).length + 1 = k + 11 := by
    apply Nat.exists_eq_add_of_le'
    have hhead : 11 ≤ requestHead.length := by
      rw [requestHead, ascii_ofList]
      decide
    simp only [List.length_append]
    omega
  have hmodelKey : Spells (ascii "model") _ := spells_ascii (by decide)
  have hmodelName : Spells (ascii "claude-haiku-4-5-20251001") _ := spells_ascii (by decide)
  have hmaxTokens : Spells (ascii "max_tokens") _ := spells_ascii (by decide)
  have hsystemKey : Spells (ascii "system") _ := spells_ascii (by decide)
  have hmessagesKey : Spells (ascii "messages") _ := spells_ascii (by decide)
  have hroleKey : Spells (ascii "role") _ := spells_ascii (by decide)
  have huser : Spells (ascii "user") _ := spells_ascii (by decide)
  have hcontentKey : Spells (ascii "content") _ := spells_ascii (by decide)
  -- From the inside out: the message, the list of messages, the other members.
  have hcontent := @value_string k [closeBrace, closeBracket, closeBrace] _ _ spelled
  have hmessage := members_cons hroleKey
    (value_string huser)
    (members_last hcontentKey hcontent)
  have hmessages := value_array (by decide) (by decide) (items_last (value_object hmessage))
  have hlast := members_last hmessagesKey hmessages
  have hprompt := members_cons hsystemKey (value_string hsystem) hlast
  have hnumber : ∀ n rest, value (n + 1) (0x33 :: 0x30 :: 0x30 :: comma :: rest) =
      some (.number [0x33, 0x30, 0x30], comma :: rest) := fun _ _ => rfl
  have hlimit := members_cons hmaxTokens (hnumber _ _) hprompt
  have hmodel := members_cons hmodelKey
    (value_string hmodelName) hlimit
  have hrequest := value_object hmodel
  have hhead : requestHead = openBrace :: quote :: (ascii "model" ++ quote :: colon :: quote ::
      (ascii "claude-haiku-4-5-20251001" ++ quote :: comma :: quote ::
        (ascii "max_tokens" ++ quote :: colon :: 0x33 :: 0x30 :: 0x30 :: comma :: quote ::
          (ascii "system" ++ quote :: colon :: [quote])))) := by
    rw [requestHead, ascii_ofList, ascii_ofList, ascii_ofList, ascii_ofList, ascii_ofList]
    rfl
  have hmiddle : requestMiddle = quote :: comma :: quote :: (ascii "messages" ++ quote :: colon ::
      openBracket :: openBrace :: quote :: (ascii "role" ++ quote :: colon :: quote ::
        (ascii "user" ++ quote :: comma :: quote :: (ascii "content" ++
          quote :: colon :: [quote])))) := by
    rw [requestMiddle, ascii_ofList, ascii_ofList, ascii_ofList, ascii_ofList, ascii_ofList]
    rfl
  have htail : requestTail = [quote, closeBrace, closeBracket, closeBrace] := by
    rw [requestTail, ascii_ofList]
    rfl
  refine ⟨?members, ?parsed, ?found⟩
  case parsed =>
    rw [parse, hk, hhead, hmiddle, htail]
    simp only [List.append_assoc, List.cons_append, List.nil_append] at hrequest ⊢
    rw [hrequest]
    rfl
  case found =>
    simp only [messageContent, Value.field, List.find?_cons]
    repeat rw [ascii_ofList]
    rfl

/-! ## The buffers of the request -/

/-- The content of the message, made of two strings that are joined by a space. -/
def joined (user extra : List UInt8) : List UInt8 :=
  if extra = [] then user else user ++ ascii " " ++ extra

theorem space_length : (ascii " ").length = 1 := ascii_length _

theorem joined_length (user extra : List UInt8) :
    (joined user extra).length =
      user.length + if extra.length = 0 then 0 else extra.length + 1 := by
  by_cases hempty : extra = []
  · rw [hempty, joined, if_pos rfl]
    rfl
  · rw [joined, if_neg hempty, if_neg (mt List.length_eq_zero_iff.mp hempty)]
    simp only [List.length_append, space_length]
    omega

theorem escapeByte_ne_nil (c : UInt8) : escapeByte c ≠ [] := by
  simp only [escapeByte]
  repeat' split
  all_goals exact List.cons_ne_nil _ _

theorem escape_eq_nil {s : List UInt8} : escape s = [] ↔ s = [] := by
  cases s with
  | nil => exact ⟨fun _ => rfl, fun _ => rfl⟩
  | cons c s =>
      refine ⟨?_, fun h => absurd h (List.cons_ne_nil c s)⟩
      intro h
      rw [escape_cons] at h
      exact absurd (List.append_eq_nil_iff.mp h).1 (escapeByte_ne_nil c)

theorem escape_joined (user extra : List UInt8) :
    escape (joined user extra) =
      if (escape extra).length > 0 then escape user ++ ascii " " ++ escape extra
      else escape user := by
  have hspace : escape (ascii " ") = ascii " " := by
    rw [ascii_ofList]
    rfl
  by_cases hempty : extra = []
  · rw [hempty, joined, if_pos rfl]
    rfl
  · have hpositive : (escape extra).length > 0 :=
      List.length_pos_iff.mpr fun h => hempty (escape_eq_nil.mp h)
    rw [joined, if_neg hempty, if_pos hpositive, escape_append, escape_append, hspace]

/-- Neither `full_user` nor `request_body` cuts anything off what the escape buffers
can hold. -/
theorem requestBody_of_escaped {a : ContextArguments} {promptExtra user extra : List UInt8}
    (userText : (jsonEscape (userContent a) 2048).text = escape user)
    (extraText : (jsonEscape promptExtra 768).text = escape extra)
    (userInside : (jsonEscape (userContent a) 2048).terminator < 2048)
    (extraInside : (jsonEscape promptExtra 768).terminator < 768)
    (userShort : (escape user).length < 2048) (extraShort : (escape extra).length < 768) :
    requestBody a promptExtra = some (requestHead ++ systemPrompt ++ requestMiddle ++
      escape (joined user extra) ++ requestTail) := by
  have hlength : (escape (joined user extra)).length ≤ 2815 := by
    rw [escape_joined]
    split
    · simp only [List.length_append, space_length]
      omega
    · omega
  have hfull : fullUser (escape user) (escape extra) = escape (joined user extra) := by
    rw [fullUser, ← escape_joined]
    exact List.take_of_length_le (by omega)
  have hhead : requestHead.length = 64 := by
    rw [requestHead, ascii_length]
    rfl
  have hprompt : systemPrompt.length = 620 := by
    rw [systemPrompt]
    -- Rewritten before the sum of lengths, which would decode the literals.
    repeat rw [ascii_ofList]
    simp only [List.length_append, List.length_map]
    rfl
  have hmiddle : requestMiddle.length = 40 := by
    rw [requestMiddle, ascii_length]
    rfl
  have htail : requestTail.length = 4 := by
    rw [requestTail, ascii_length]
    rfl
  have htotal : (requestHead ++ systemPrompt ++ requestMiddle ++ escape (joined user extra) ++
      requestTail).length ≤ 4096 - 1 := by
    simp only [List.length_append, hhead, hprompt, hmiddle, htail]
    omega
  rw [requestBody, if_pos ⟨userInside, extraInside⟩, userText, extraText, hfull, truncated,
    List.take_of_length_le htotal]

/-- The request is complete, a JSON object, and its message is the stats sentence,
cut to its buffer, with what the mechanisms have to say. -/
structure WellFormed (a : ContextArguments) (promptExtra body : List UInt8) : Prop where
  complete : requestTail <:+ body
  message : ∃ members, parse body = some (.object members) ∧
    messageContent (.object members) = some (joined (userContent a) promptExtra)

theorem wellFormed_of_fits {a : ContextArguments} {promptExtra : List UInt8}
    (user : Fits 2048 (userContent a)) (extra : Fits 768 promptExtra) :
    ∃ body, requestBody a promptExtra = some body ∧ WellFormed a promptExtra body := by
  have huser := jsonEscape_of_fits user
  have hextra := jsonEscape_of_fits extra
  refine ⟨_, requestBody_of_escaped (congrArg Escaped.text huser) (congrArg Escaped.text hextra)
    ?_ ?_ user.2 extra.2, List.suffix_append _ _, ?_⟩
  · rw [huser]
    exact user.2
  · rw [hextra]
    exact extra.2
  · exact parse_request (spells_escape _)

theorem fits_of_wellFormed {a : ContextArguments} {promptExtra body : List UInt8}
    (built : requestBody a promptExtra = some body) (h : WellFormed a promptExtra body) :
    Fits 2048 (userContent a) ∧ Fits 768 promptExtra := by
  have hinside : (jsonEscape (userContent a) 2048).terminator < 2048 ∧
      (jsonEscape promptExtra 768).terminator < 768 := by
    by_contra hout
    rw [requestBody, if_neg hout] at built
    cases built
  obtain ⟨user, userCut, huser, huserText, huserShort, huserFits⟩ :=
    jsonEscape_inside (by decide) hinside.1
  obtain ⟨extra, extraCut, hextra, hextraText, hextraShort, hextraFits⟩ :=
    jsonEscape_inside (by decide) hinside.2
  rw [requestBody_of_escaped huserText hextraText hinside.1 hinside.2 huserShort hextraShort]
    at built
  cases built
  obtain ⟨members, hparse, hcontent⟩ := h.message
  obtain ⟨members', hparse', hcontent'⟩ := parse_request (spells_escape (joined user extra))
  have hsame : joined user extra = joined (userContent a) promptExtra := by
    rw [hparse'] at hparse
    cases hparse
    exact Option.some.inj (hcontent'.symm.trans hcontent)
  -- What was cut off is missing from the length of the message.
  have hlength := congrArg List.length hsame
  rw [joined_length, joined_length, huser, hextra, List.length_append, List.length_append]
    at hlength
  have hnone : userCut.length = 0 ∧ extraCut.length = 0 := by
    split at hlength <;> split at hlength <;> omega
  exact ⟨huserFits (List.length_eq_zero_iff.mp hnone.1),
    hextraFits (List.length_eq_zero_iff.mp hnone.2)⟩

/-- The request is what it should be exactly when the stats sentence and the addition
of the mechanisms fit the buffers for their escapes. -/
theorem request_wellFormed_iff (a : ContextArguments) (promptExtra : List UInt8) :
    (∃ body, requestBody a promptExtra = some body ∧ WellFormed a promptExtra body) ↔
      Fits 2048 (userContent a) ∧ Fits 768 promptExtra := by
  constructor
  · rintro ⟨body, hbuilt, hformed⟩
    exact fits_of_wellFormed hbuilt hformed
  · rintro ⟨huser, hextra⟩
    exact wellFormed_of_fits huser hextra

/-- Four hundred line ends need 800 bytes. -/
theorem request_wellFormed_fails_on_lines :
    ¬∃ body, requestBody ⟨ascii "localhost", 1, 1, 42, 42, 42⟩ (List.replicate 400 0x0a) =
        some body ∧
      WellFormed ⟨ascii "localhost", 1, 1, 42, 42, 42⟩ (List.replicate 400 0x0a) body := by
  rintro ⟨body, hbuilt, hformed⟩
  exact absurd (fits_of_wellFormed hbuilt hformed).2 (by decide +kernel)

end Coping.Request
