import Coping.Library.JsonPlain
import Coping.Library.JsonSplice
import Coping.Ping.Reply
import Coping.Verification.JsonLine

/-!
# The line of a reply

With `-j` the fields of a reply go to the JSON buffer, and whatever does not look at
`opt_json` is written as it is, in front of the line. Such a remark is never the beginning
of an object: before a quote in it could open a string there is something stray. So a reply
is a line of its own exactly when there is no remark and no warning about it, and when the
name of the host, which is put between quotes as it is, leaves the object one.
-/

namespace Coping.ReplyLine

open CFormat JsonBuffer JsonLine
open Json (quote comma colon space openBrace closeBrace isPlain isStray EscapedText)

/-- One line, with an object. -/
def ObjectLine (out : List UInt8) : Prop :=
  ∃ body members, out = body ++ [0x0a] ∧ 0x0a ∉ body ∧ Json.parse out = some (.object members)

def MachineReadable (out : List UInt8) : Prop := out = [] ∨ ObjectLine out

/-- A program that stops in the middle of a packet has printed no line. -/
def Readable : Except JsonStop Screen → Prop
  | .error _ => False
  | .ok screen => MachineReadable screen.1

/-! ## Remarks and fields -/

/-- What is written as it is. -/
def rawText : List Printed → List UInt8
  | [] => []
  | .raw text :: items => text ++ rawText items
  | _ :: items => rawText items

/-- What goes to the buffer. -/
def jsonFields : List Printed → List JsonField
  | [] => []
  | .field f :: items => f :: jsonFields items
  | _ :: items => jsonFields items

/-- No line is printed by one of the items. -/
def NoError (items : List Printed) : Prop :=
  ∀ item ∈ items, ∀ errnum msg behind, item ≠ .error errnum msg behind

section Screen

variable {strerror : Int → CString} {items items' : List Printed} {b : PingJsonBuffer}

@[simp] theorem rawText_append (items items' : List Printed) :
    rawText (items ++ items') = rawText items ++ rawText items' := by
  induction items with
  | nil => rfl
  | cons item items ih =>
      cases item with
      | raw text =>
          rw [List.cons_append, rawText, rawText, ih, List.append_assoc]
      | field f => exact ih
      | error errnum msg behind => exact ih

@[simp] theorem jsonFields_append (items items' : List Printed) :
    jsonFields (items ++ items') = jsonFields items ++ jsonFields items' := by
  induction items with
  | nil => rfl
  | cons item items ih =>
      cases item with
      | raw text => exact ih
      | field f =>
          rw [List.cons_append, jsonFields, jsonFields, ih]
          rfl
      | error errnum msg behind => exact ih

theorem noError_append : NoError (items ++ items') ↔ NoError items ∧ NoError items' := by
  simp only [NoError, List.mem_append, or_imp, forall_and]

theorem noError_cons {item : Printed} :
    NoError (item :: items) ↔
      (∀ errnum msg behind, item ≠ .error errnum msg behind) ∧ NoError items := by
  simp only [NoError, List.mem_cons, forall_eq_or_imp]

/-- What is on the screen already stays in front. -/
theorem foldlM_out (items : List Printed) (out : List UInt8) (b : PingJsonBuffer) :
    items.foldlM (Printed.print strerror) (out, b) =
      (items.foldlM (Printed.print strerror) ([], b)).map fun screen =>
        (out ++ screen.1, screen.2) := by
  induction items generalizing out b with
  | nil => simp [Except.map, pure, Except.pure]
  | cons item items ih =>
      have hitem : Printed.print strerror (out, b) item =
          (Printed.print strerror ([], b) item).map fun screen => (out ++ screen.1, screen.2) := by
        cases item with
        | raw text => rfl
        | field f =>
            rw [Printed.print, Printed.print]
            cases constructJson true b f with
            | error stop => rfl
            | ok b' => simp [Except.map]
        | error errnum msg behind =>
            rw [Printed.print, Printed.print]
            cases constructJsonError true strerror behind b errnum (some msg) with
            | error stop => rfl
            | ok printed => simp [Except.map]
      rw [List.foldlM_cons, List.foldlM_cons, hitem]
      cases Printed.print strerror ([], b) item with
      | error stop => rfl
      | ok screen =>
          change items.foldlM (Printed.print strerror) (out ++ screen.1, screen.2) =
            (items.foldlM (Printed.print strerror) (screen.1, screen.2)).map _
          rw [ih (out ++ screen.1), ih screen.1]
          cases items.foldlM (Printed.print strerror) ([], screen.2) with
          | error stop => rfl
          | ok screen' =>
              change Except.ok (_ ++ _ ++ _, _) = Except.ok (_ ++ (_ ++ _), _)
              rw [List.append_assoc]

/-- The remarks are on the screen at once, and the fields in the buffer. -/
theorem foldlM_print (noError : NoError items) (out : List UInt8) :
    items.foldlM (Printed.print strerror) (out, b) =
      ((jsonFields items).foldlM (constructJson true) b).map fun b' =>
        (out ++ rawText items, b') := by
  induction items generalizing out b with
  | nil => simp [jsonFields, rawText, Except.map, pure, Except.pure]
  | cons item items ih =>
      obtain ⟨hitem, hitems⟩ := noError_cons.mp noError
      rw [List.foldlM_cons]
      cases item with
      | raw text =>
          change items.foldlM (Printed.print strerror) (out ++ text, b) = _
          rw [ih hitems, rawText, List.append_assoc]
          rfl
      | field f =>
          rw [jsonFields, List.foldlM_cons, Printed.print]
          cases constructJson true b f with
          | error stop => rfl
          | ok b' => exact ih hitems out
      | error errnum msg behind => exact absurd rfl (hitem errnum msg behind)

theorem printPacket_eq (noError : NoError items) :
    printPacket strerror items b =
      ((jsonFields items).foldlM (constructJson true) b).map fun b' =>
        (rawText items ++ (printJsonPacket true b').1, (printJsonPacket true b').2) := by
  rw [printPacket, printAll, foldlM_print noError]
  cases (jsonFields items).foldlM (constructJson true) b with
  | error stop => rfl
  | ok b' => rfl

end Screen

/-! ## A line of fields -/

section Line

variable {b : PingJsonBuffer} {field : JsonField} {fields : List JsonField}

theorem newline_plain {text : List UInt8} (plain : text.all isPlain = true) : 0x0a ∉ text :=
  fun h => Bool.false_ne_true (List.all_eq_true.mp plain _ h)

theorem newline_quoted {text : List UInt8} (plain : text.all isPlain = true) :
    0x0a ∉ quoted text := by
  rw [quoted, List.mem_cons, List.mem_append, List.mem_singleton, not_or, not_or]
  exact ⟨by decide, newline_plain plain, by decide⟩

theorem newline_items {vals : List CString} (plain : ∀ v ∈ vals, v.bytes.all isPlain = true) :
    0x0a ∉ itemsText vals := by
  intro h
  obtain ⟨val, hval, hmem⟩ := List.mem_flatMap.mp h
  rw [List.mem_cons, List.mem_cons] at hmem
  rcases hmem with h | h | h
  · cases h
  · cases h
  · exact newline_quoted (plain val hval) h

theorem newline_value (plain : Plain field) : 0x0a ∉ valueText field := by
  cases field with
  | str key val => exact newline_quoted plain
  | int key val => exact newline_plain (plain_decimal _)
  | uint key val => exact newline_plain (plain_decimal _)
  | arr key vals behind =>
      obtain ⟨hvals, rfl⟩ := plain
      rw [valueText, List.append_nil]
      cases vals with
      | nil => decide
      | cons val vals =>
          rw [List.mem_cons, List.mem_append, List.mem_append, List.mem_singleton]
          intro h
          rcases h with h | (h | h) | h
          · cases h
          · exact newline_quoted (hvals val List.mem_cons_self) h
          · exact newline_items (fun v hv => hvals v (List.mem_cons_of_mem _ hv)) h
          · cases h

theorem newline_member (plain : Plain field) : 0x0a ∉ memberText field := by
  simp only [memberText, keyed, List.mem_cons, List.mem_append, not_or]
  exact ⟨by decide, newline_plain (JsonKey.plain _), by decide, by decide, by decide,
    newline_value plain⟩

theorem newline_members (plain : ∀ f ∈ fields, Plain f) : 0x0a ∉ membersText fields := by
  intro h
  obtain ⟨f, hf, hmem⟩ := List.mem_flatMap.mp h
  rw [List.mem_cons, List.mem_cons] at hmem
  rcases hmem with h | h | h
  · cases h
  · cases h
  · exact newline_member (plain f hf) h

/-- The length of fields in an object, each with a brace or comma and a space. -/
def fieldsLength (fields : List JsonField) : Nat :=
  (fields.map fun f => (memberText f).length + 2).sum

@[simp] theorem fieldsLength_nil : fieldsLength [] = 0 := rfl

@[simp] theorem fieldsLength_cons (field : JsonField) (fields : List JsonField) :
    fieldsLength (field :: fields) = (memberText field).length + 2 + fieldsLength fields := rfl

@[simp] theorem fieldsLength_append (fields fields' : List JsonField) :
    fieldsLength (fields ++ fields') = fieldsLength fields + fieldsLength fields' := by
  rw [fieldsLength, List.map_append, List.sum_append]
  rfl

theorem length_member_str (key : JsonKey) (val : CString) :
    (memberText (.str key val)).length ≤ val.bytes.length + 18 := by
  have hkey := JsonKey.length_text_le key
  rw [memberText, length_keyed, valueText, length_quoted, JsonField.key]
  omega

theorem length_member_int (key : JsonKey) (val : Int32) :
    (memberText (.int key val)).length ≤ 30 := by
  have hkey := JsonKey.length_text_le key
  have hval : (decimal val.toInt).length ≤ 11 := by
    apply length_decimal_le (k := 9)
    have hlower := val.le_toInt
    have hupper := val.toInt_lt
    omega
  rw [memberText, length_keyed, valueText, JsonField.key]
  omega

theorem length_member_uint (key : JsonKey) (val : UInt32) :
    (memberText (.uint key val)).length ≤ 30 := by
  have hkey := JsonKey.length_text_le key
  have hval : (decimal val.toNat).length ≤ 11 := by
    apply length_decimal_le (k := 9)
    have hupper := val.toNat_lt
    omega
  rw [memberText, length_keyed, valueText, JsonField.key]
  omega

theorem length_object (fields : List JsonField) :
    (fieldTexts false fields).flatten.length ≤ fieldsLength fields := by
  cases fields with
  | nil => exact Nat.zero_le _
  | cons field fields =>
      have hothers : (membersText fields).length = fieldsLength fields := by
        rw [membersText, List.length_flatMap, fieldsLength]
        rfl
      rw [object_text, List.length_cons, List.length_append, hothers]
      change _ ≤ (memberText field).length + 2 + fieldsLength fields
      omega

/-- What is printed for fields. -/
def lineText (fields : List JsonField) : List UInt8 :=
  (fieldTexts false fields).flatten ++ [closeBrace, 0x0a]

theorem lineText_cons (field : JsonField) (fields : List JsonField) :
    lineText (field :: fields) =
      openBrace :: (memberText field ++ (membersText fields ++ [closeBrace, 0x0a])) := by
  rw [lineText, object_text, List.cons_append, List.append_assoc]

/-- Fields that fit are printed, and the buffer is empty again. -/
theorem line_of_fields (h : Sound b []) (nonempty : fields ≠ [])
    (fits : (fieldTexts false fields).flatten.length < PING_JSON_MAX) :
    ∃ b', fields.foldlM (constructJson true) b = .ok b' ∧
      (printJsonPacket true b').1 = lineText fields ∧ Sound (printJsonPacket true b').2 [] := by
  have hroom : ([] : List UInt8).length + (fieldTexts false fields).flatten.length <
      PING_JSON_MAX := by
    rw [List.length_nil, Nat.zero_add]
    exact fits
  obtain ⟨b', hb', hsound⟩ := h.constructAll fields hroom
  change Sound b' (fieldTexts false fields).flatten at hsound
  have htext : (fieldTexts false fields).flatten ≠ [] := by
    obtain ⟨field, fields, rfl⟩ := List.exists_cons_of_ne_nil nonempty
    rw [object_text]
    exact List.cons_ne_nil _ _
  have hstarted : true ∧ b'.started = true := by
    rw [hsound.started, decide_eq_true htext]
    exact ⟨rfl, rfl⟩
  refine ⟨b', hb', (printed hsound htext).1, ?_⟩
  rw [printJsonPacket, if_pos hstarted]
  exact ⟨CBuffer.Holds.clear (by decide), rfl⟩

theorem newline_line (h : 0x0a ∉ memberText field) (others : 0x0a ∉ membersText fields) :
    0x0a ∉ openBrace :: (memberText field ++ membersText fields) ++ [closeBrace] := by
  simp only [List.cons_append, List.mem_cons, List.mem_append, List.not_mem_nil, or_false, not_or]
  exact ⟨by decide, ⟨h, others⟩, by decide⟩

theorem lineText_eq (field : JsonField) (fields : List JsonField) :
    lineText (field :: fields) =
      openBrace :: (memberText field ++ membersText fields) ++ [closeBrace] ++ [0x0a] := by
  rw [lineText, object_text, List.append_assoc]
  rfl

/-- The only newline of a line is its last byte. -/
theorem objectLine_iff {body : List UInt8} :
    ObjectLine (body ++ [0x0a]) ↔
      0x0a ∉ body ∧ ∃ members, Json.parse (body ++ [0x0a]) = some (.object members) := by
  constructor
  · rintro ⟨body', members, heq, hbody, hparse⟩
    obtain rfl := List.append_cancel_right heq
    exact ⟨hbody, members, hparse⟩
  · rintro ⟨hbody, members, hparse⟩
    exact ⟨body, members, rfl, hbody, hparse⟩

/-- Plain fields are an object. -/
theorem objectLine_plain (nonempty : fields ≠ []) (plain : ∀ f ∈ fields, Plain f) :
    ObjectLine (lineText fields) := by
  obtain ⟨field, fields, rfl⟩ := List.exists_cons_of_ne_nil nonempty
  obtain ⟨ms, hparse, -⟩ := parse_plain plain
  rw [lineText_eq, objectLine_iff, ← lineText_eq, lineText_cons]
  exact ⟨newline_line (newline_member (plain field List.mem_cons_self))
    (newline_members fun f hf => plain f (List.mem_cons_of_mem _ hf)), ms, hparse⟩

theorem JsonKey.word (key : JsonKey) : Json.Word key.text := by
  cases key
  all_goals exact Json.Word.cons (by decide) (by decide)

/-- A plain field is a member that is read. -/
theorem exists_member (plain : Plain field) :
    ∃ m : Json.Member, m.text = memberText field ∧ m.key = field.key.text := by
  cases field with
  | str key val => exact ⟨.ofString key.text val.bytes (JsonKey.plain key) plain, rfl, rfl⟩
  | int key val => exact ⟨.ofInt key.text val.toInt (JsonKey.plain key), rfl, rfl⟩
  | uint key val => exact ⟨.ofInt key.text val.toNat (JsonKey.plain key), rfl, rfl⟩
  | arr key vals behind =>
      refine ⟨{
        key := key.text
        written := valueText (.arr key vals behind)
        value := .array (vals.map fun val => .string val.bytes)
        plain := JsonKey.plain key
        nonempty := ?_
        reads := ?_ }, rfl, rfl⟩
      · rw [valueText]
        split
        · exact List.cons_ne_nil _ _
        · exact List.cons_ne_nil _ _
      · intro n c rest fuel stop
        obtain ⟨v, hread, hdecodes⟩ := value_reads rest plain stop fuel
        rw [Decodes] at hdecodes
        rw [hread, hdecodes]

theorem exists_members (plain : ∀ f ∈ fields, Plain f) :
    ∃ ms, Json.Member.others ms = membersText fields ∧ ∀ m ∈ ms, Json.Word m.key := by
  induction fields with
  | nil => exact ⟨[], rfl, fun _ h => absurd h List.not_mem_nil⟩
  | cons field fields ih =>
      obtain ⟨m, htext, hkey⟩ := exists_member (plain field List.mem_cons_self)
      obtain ⟨ms, hothers, hwords⟩ := ih fun f hf => plain f (List.mem_cons_of_mem _ hf)
      refine ⟨m :: ms, ?_, List.forall_mem_cons.mpr ⟨hkey ▸ JsonKey.word _, hwords⟩⟩
      rw [Json.Member.others_eq, htext, hothers]
      rfl

/-- A text that leaves the line of a reply one, when it is printed as its host. Every text of
bytes that stand for themselves does, and none with a newline. -/
def HostShown (text : List UInt8) : Prop := 0x0a ∉ text ∧ Json.Spliced JsonKey.host.text text

theorem HostShown.of_plain {text : List UInt8} (plain : text.all isPlain = true) :
    HostShown text :=
  ⟨newline_plain plain, .of_spells (JsonKey.plain .host) (.of_plain plain)⟩

example : ¬HostShown [0x61, quote, 0x62] := by
  rintro ⟨-, ms, h⟩
  cases h

/-- Around the host there are other fields. -/
theorem objectLine_host_iff {val : CString} {before after : List JsonField}
    (nonempty : before ≠ []) (plain : ∀ f ∈ before, Plain f) (plain' : ∀ f ∈ after, Plain f) :
    ObjectLine (lineText (before ++ .str .host val :: after)) ↔ HostShown val.bytes := by
  obtain ⟨first, before, rfl⟩ := List.exists_cons_of_ne_nil nonempty
  obtain ⟨m, htext, -⟩ := exists_member (plain first List.mem_cons_self)
  obtain ⟨ms, hbefore, -⟩ :=
    exists_members fun f hf => plain f (List.mem_cons_of_mem first hf)
  obtain ⟨ms', hafter, hwords⟩ := exists_members plain'
  have hhost : memberText (.str .host val) = quote :: (JsonKey.host.text ++
      quote :: colon :: space :: quote :: (val.bytes ++ [quote])) := rfl
  have hmembers : membersText (before ++ .str .host val :: after) =
      membersText before ++ (comma :: space :: memberText (.str .host val)) ++
        membersText after := by
    rw [membersText, List.flatMap_append, List.flatMap_cons, ← List.append_assoc]
    rfl
  have hline : lineText (first :: (before ++ .str .host val :: after)) =
      openBrace :: (m.text ++ (Json.Member.others ms ++ comma :: space :: quote ::
        (JsonKey.host.text ++ quote :: colon :: space :: quote :: (val.bytes ++ quote ::
          (Json.Member.others ms' ++ [closeBrace, 0x0a]))))) := by
    rw [lineText_cons, hmembers, hhost, ← htext, ← hbefore, ← hafter]
    simp only [List.cons_append, List.append_assoc, List.nil_append]
  rw [List.cons_append, lineText_eq, objectLine_iff, ← lineText_eq, hline,
    Json.parse_spliced_iff _ _ _ _ _ hwords, HostShown]
  apply and_congr_left'
  have hfirst := newline_member (plain first List.mem_cons_self)
  have hothers := newline_members fun f hf => plain f (List.mem_cons_of_mem first hf)
  have hothers' := newline_members plain'
  have hkey : 0x0a ∉ JsonKey.host.text := newline_plain (JsonKey.plain .host)
  rw [hmembers, hhost]
  simp [hfirst, hothers, hothers', hkey, openBrace, closeBrace, quote, comma, colon, space]

theorem ObjectLine.ne_nil {out : List UInt8} (h : ObjectLine out) : out ≠ [] := by
  obtain ⟨body, -, rfl, -⟩ := h
  exact List.append_ne_nil_of_right_ne_nil body (List.cons_ne_nil _ _)

theorem line_append {line rest : List UInt8} (h : ObjectLine line) :
    MachineReadable (line ++ rest) ↔ rest = [] := by
  constructor
  · intro hread
    obtain ⟨body, members, rfl, hbody, -⟩ := h
    rcases hread with hnil | ⟨body', members', heq, hbody', -⟩
    · exact (List.append_eq_nil_iff.mp hnil).2
    -- The only newline of the whole is its last byte.
    · have hfront : body ++ [0x0a] <+: body' ++ [0x0a] := heq ▸ List.prefix_append _ _
      rcases List.prefix_concat_iff.mp hfront with hall | hfront
      · rw [hall] at heq
        exact List.append_right_eq_self.mp heq
      · exact absurd (hfront.subset (List.mem_append_right body List.mem_cons_self)) hbody'
  · rintro rfl
    rw [List.append_nil]
    exact .inr h

end Line

/-! ## Remarks -/

/-- A text with which no object begins: before a quote opens a string there is something
stray. -/
def Strays (text : List UInt8) : Prop :=
  ∃ front rest, text = front ++ rest ∧ EscapedText front ∧ ∃ c ∈ front, isStray c = true

section Remarks

variable {text a b : List UInt8} {items items' : List Printed}

theorem quote_of_plain (plain : text.all isPlain = true) : quote ∉ text :=
  fun h => Bool.false_ne_true (List.all_eq_true.mp plain _ h)

/-- Whatever comes behind it. -/
theorem Strays.append (h : Strays a) (b : List UInt8) : Strays (a ++ b) := by
  obtain ⟨front, rest, rfl, hescaped, hstray⟩ := h
  exact ⟨front, rest ++ b, List.append_assoc _ _ _, hescaped, hstray⟩

theorem Strays.behind (h : Strays b) (escaped : EscapedText a) : Strays (a ++ b) := by
  obtain ⟨front, rest, rfl, hescaped, c, hc, hstray⟩ := h
  exact ⟨a ++ front, rest, (List.append_assoc _ _ _).symm, escaped.append hescaped, c,
    List.mem_append_right a hc, hstray⟩

theorem Strays.ne_nil (h : Strays text) : text ≠ [] := by
  obtain ⟨front, rest, rfl, -, c, hc, -⟩ := h
  exact List.append_ne_nil_of_left_ne_nil (List.ne_nil_of_mem hc) rest

/-- Behind a stray text no object is read. -/
theorem Strays.not_readable (h : Strays text) (rest : List UInt8) :
    ¬MachineReadable (text ++ rest) := by
  have hnonempty := h.ne_nil
  obtain ⟨front, others, rfl, hescaped, hstray⟩ := h
  intro hread
  rcases hread with hnil | ⟨-, members, -, -, hparse⟩
  · exact hnonempty (List.append_eq_nil_iff.mp hnil).1
  · rw [List.append_assoc] at hparse
    exact hescaped.parse_ne hstray members hparse

end Remarks

/-! ## What is printed for a packet -/

/-- Fields of up to `length` bytes, and remarks if they are `made`. No line is printed yet. -/
structure Remarked (made : Prop) (length : Nat) (items : List Printed) : Prop where
  noError : NoError items
  short : fieldsLength (jsonFields items) ≤ length
  remark : ¬made ∧ rawText items = [] ∨ made ∧ Strays (rawText items)

/-- Nothing, or an object. -/
def Legible (fields : List JsonField) : Prop := fields = [] ∨ ObjectLine (lineText fields)

section Packet

variable {strerror : Int → CString} {items items' : List Printed} {b : PingJsonBuffer}
variable {made made' : Prop} {length length' : Nat}

theorem noError_nil : NoError [] := fun _ h => absurd h List.not_mem_nil

theorem noError_raw (text : List UInt8) : NoError [.raw text] :=
  noError_cons.mpr ⟨fun _ _ _ heq => (by cases heq), noError_nil⟩

theorem noError_field (f : JsonField) : NoError [.field f] :=
  noError_cons.mpr ⟨fun _ _ _ heq => (by cases heq), noError_nil⟩

theorem Remarked.nil (unmade : ¬made) : Remarked made length [] where
  noError := noError_nil
  short := Nat.zero_le _
  remark := .inl ⟨unmade, rfl⟩

theorem Remarked.append (h : Remarked made length items) (h' : Remarked made' length' items') :
    Remarked (made ∨ made') (length + length') (items ++ items') where
  noError := noError_append.mpr ⟨h.noError, h'.noError⟩
  short := by
    rw [jsonFields_append, fieldsLength_append]
    exact Nat.add_le_add h.short h'.short
  remark := by
    rw [rawText_append]
    obtain ⟨hunmade, hnil⟩ | ⟨hmade, hstrays⟩ := h.remark
    · rw [hnil]
      exact h'.remark.imp (fun h => ⟨not_or.mpr ⟨hunmade, h.1⟩, h.2⟩) fun h => ⟨.inr h.1, h.2⟩
    · exact .inr ⟨.inl hmade, hstrays.append _⟩

theorem Remarked.raw {text : List UInt8} (shown : made) (strays : Strays text) :
    Remarked made length [.raw text] where
  noError := noError_raw text
  short := Nat.zero_le _
  remark := by
    rw [rawText, rawText, List.append_nil]
    exact .inr ⟨shown, strays⟩

theorem Remarked.field {f : JsonField} (unmade : ¬made)
    (short : (memberText f).length + 2 ≤ length) : Remarked made length [.field f] where
  noError := noError_field f
  short := short
  remark := .inl ⟨unmade, rfl⟩

theorem Remarked.mono (h : Remarked made length items) (same : made ↔ made')
    (le : length ≤ length') : Remarked made' length' items where
  noError := h.noError
  short := Nat.le_trans h.short le
  remark := by
    rw [← same]
    exact h.remark

/-- Remarks and fields are printed in any case, and the buffer is empty again. -/
theorem printPacket_remarked (h : Sound b []) (remarked : Remarked made length items)
    (fits : length < PING_JSON_MAX) :
    ∃ line b', printPacket strerror items b = .ok (rawText items ++ line, b') ∧ Sound b' [] ∧
      (jsonFields items = [] ∧ line = [] ∨
        jsonFields items ≠ [] ∧ line = lineText (jsonFields items)) := by
  by_cases hfields : jsonFields items = []
  · have hclosed : ¬(true ∧ b.started = true) := by
      rw [h.started]
      decide
    refine ⟨[], b, ?_, h, .inl ⟨hfields, rfl⟩⟩
    rw [printPacket_eq remarked.noError, hfields]
    change Except.ok (_ ++ (printJsonPacket true b).1, (printJsonPacket true b).2) = _
    rw [printJsonPacket, if_neg hclosed]
  · obtain ⟨b', hb', htext, hsound⟩ :=
      line_of_fields h hfields
        (Nat.lt_of_le_of_lt (Nat.le_trans (length_object _) remarked.short) fits)
    refine ⟨_, (printJsonPacket true b').2, ?_, hsound, .inr ⟨hfields, htext⟩⟩
    rw [printPacket_eq remarked.noError, hb']
    rfl

/-- They are a line exactly when there are no remarks and the fields are an object. -/
theorem printPacket_fields (h : Sound b []) (remarked : Remarked made length items)
    (fits : length < PING_JSON_MAX) :
    ∃ out b', printPacket strerror items b = .ok (out, b') ∧
      (MachineReadable out ↔ ¬made ∧ Legible (jsonFields items)) ∧
      (out = [] ↔ ¬made ∧ jsonFields items = []) := by
  obtain ⟨line, b', hprint, -, hprinted⟩ :=
    @printPacket_remarked strerror items b made length h remarked fits
  refine ⟨rawText items ++ line, b', hprint, ?_, ?_⟩
  · obtain ⟨hunmade, hnil⟩ | ⟨hmade, hstrays⟩ := remarked.remark
    · rw [hnil, List.nil_append]
      obtain ⟨hfields, htext⟩ | ⟨hfields, htext⟩ := hprinted
      · rw [htext]
        exact ⟨fun _ => ⟨hunmade, .inl hfields⟩, fun _ => .inl rfl⟩
      · rw [htext]
        refine ⟨fun hread => ⟨hunmade, .inr (hread.resolve_left ?_)⟩,
          fun hread => .inr (hread.2.resolve_left hfields)⟩
        exact List.append_ne_nil_of_right_ne_nil _ (List.cons_ne_nil _ _)
    · exact ⟨fun hread => absurd hread (hstrays.not_readable _), fun hnot => absurd hmade hnot.1⟩
  · rw [List.append_eq_nil_iff]
    obtain ⟨hunmade, hnil⟩ | ⟨hmade, hstrays⟩ := remarked.remark
    · obtain ⟨hfields, htext⟩ | ⟨hfields, htext⟩ := hprinted
      · exact ⟨fun _ => ⟨hunmade, hfields⟩, fun _ => ⟨hnil, htext⟩⟩
      · refine ⟨fun hempty => absurd (htext ▸ hempty.2) ?_, fun hempty => absurd hempty.2 hfields⟩
        exact List.append_ne_nil_of_right_ne_nil _ (List.cons_ne_nil _ _)
    · exact ⟨fun hempty => absurd hempty.1 hstrays.ne_nil, fun hnot => absurd hmade hnot.1⟩

/-- The object of an error. -/
def errorMember (strerror : Int → CString) (errnum : Int) (msg : CString)
    (behind : List CString) : JsonField :=
  if errnum = 0 then .str .error msg else .arr .error [msg, strerror errnum] behind

/-- There is always room for the message alone. -/
theorem message_fits (text : List UInt8) :
    (fieldTexts false [.str .error (cString (truncated PING_ERROR_MAX text))]).flatten.length <
      PING_JSON_MAX := by
  have hobject := length_object [.str .error (cString (truncated PING_ERROR_MAX text))]
  have hmember := length_member_str .error (cString (truncated PING_ERROR_MAX text))
  have htext := length_truncated (by decide : 0 < PING_ERROR_MAX) text
  have hcut : (cString (truncated PING_ERROR_MAX text)).bytes.length ≤
      (truncated PING_ERROR_MAX text).length := (List.takeWhile_sublist _).length_le
  have hmax : PING_ERROR_MAX = 300 := rfl
  rw [fieldsLength_cons, fieldsLength_nil] at hobject
  exact Nat.lt_of_le_of_lt (by omega : _ ≤ 400) (by decide)

/-- An error for which there is room is a line of its own, and the buffer is empty again. -/
theorem print_error (h : Sound b []) {errnum : Int} {msg : CString} {behind : List CString}
    (nonneg : 0 ≤ errnum)
    (fits : (fieldTexts false [errorMember strerror errnum msg behind]).flatten.length <
      PING_JSON_MAX) :
    ∃ b', Printed.print strerror ([], b) (.error errnum msg behind) =
      .ok (lineText [errorMember strerror errnum msg behind], b') ∧ Sound b' [] := by
  obtain ⟨b', hb', htext, hsound⟩ := line_of_fields h (List.cons_ne_nil _ _) fits
  have hconstruct : constructJson true b (errorMember strerror errnum msg behind) = .ok b' := by
    rw [List.foldlM_cons] at hb'
    cases hone : constructJson true b (errorMember strerror errnum msg behind) with
    | error stop =>
        rw [hone] at hb'
        cases hb'
    | ok b'' =>
        rw [hone] at hb'
        exact hb'
  refine ⟨(printJsonPacket true b').2, ?_, hsound⟩
  rw [Printed.print, constructJsonError, if_neg (Int.not_lt.mpr nonneg)]
  change (constructJson true b (errorMember strerror errnum msg behind) >>= fun b =>
    pure (printJsonPacket true b)).map _ = _
  rw [hconstruct, ← htext]
  rfl

/-- A message is printed at once, and what comes behind it meets an empty buffer. -/
theorem printPacket_message (h : Sound b []) (text : List UInt8) :
    ∃ b', Sound b' [] ∧ ∀ items,
      printPacket strerror (pingError 0 text [] :: items) b =
        (printPacket strerror items b').map fun screen =>
          (lineText [.str .error (cString (truncated PING_ERROR_MAX text))] ++ screen.1,
            screen.2) := by
  obtain ⟨b', hprint, hsound⟩ :=
    @print_error strerror b h 0 _ [] (Int.le_refl 0) (message_fits text)
  refine ⟨b', hsound, ?_⟩
  intro items
  have hprint' : Printed.print strerror ([], b) (pingError 0 text []) =
      .ok (lineText [.str .error (cString (truncated PING_ERROR_MAX text))], b') := hprint
  rw [printPacket, printAll, List.foldlM_cons, hprint']
  change (items.foldlM (Printed.print strerror)
    (lineText [.str .error (cString (truncated PING_ERROR_MAX text))], b')).map _ = _
  rw [foldlM_out, printPacket, printAll]
  cases items.foldlM (Printed.print strerror) ([], b') with
  | error stop => rfl
  | ok screen =>
      change Except.ok (_ ++ screen.1 ++ _, _) = Except.ok (_ ++ (screen.1 ++ _), _)
      rw [List.append_assoc]

/-- A plain one is a line of its own. -/
theorem printPacket_warning (h : Sound b []) {text : List UInt8}
    (plain : text.all isPlain = true) :
    ∃ line b', ObjectLine line ∧ Sound b' [] ∧ ∀ items,
      printPacket strerror (pingError 0 text [] :: items) b =
        (printPacket strerror items b').map fun screen => (line ++ screen.1, screen.2) := by
  have hplain := plain_truncated plain PING_ERROR_MAX
  have hfield : Plain (.str .error (cString (truncated PING_ERROR_MAX text))) := by
    rw [Plain, cString_bytes hplain]
    exact hplain
  obtain ⟨b', hsound, hprint⟩ := @printPacket_message strerror b h text
  have hline := objectLine_plain (List.cons_ne_nil _ _) (List.forall_mem_singleton.mpr hfield)
  exact ⟨_, b', hline, hsound, hprint⟩

end Packet

end Coping.ReplyLine
