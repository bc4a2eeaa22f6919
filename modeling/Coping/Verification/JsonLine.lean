import Coping.Verification.JsonBuffer

/-!
# The line of a packet

What is printed for a packet is read back, field by field. `json_kv_str` and
`json_kv_array` put a string between quotes as it is, so the round trip is right for
strings without quotes, backslashes and control bytes, and for no others: a string that
is not plain and still reads as itself does not exist.
-/

namespace Coping.JsonLine

open CFormat JsonBuffer
open Json (quote comma colon space openBrace closeBrace openBracket closeBracket isPlain)

/-- The value that is read for a field is the one that was passed. -/
def Decodes : JsonField → Json.Value → Prop
  | .str _ val, v => v = .string val.bytes
  | .int _ val, v => v.int = some val.toInt
  | .uint _ val, v => v.int = some (val.toNat : Int)
  | .arr _ vals _, v => v = .array (vals.map fun val => .string val.bytes)

def ReadAs (field : JsonField) (m : List UInt8 × Json.Value) : Prop :=
  m.1 = field.key.text ∧ Decodes field m.2

/-- The line is an object with the same keys and values in the same order. -/
def ReadsBack (line : List UInt8) (fields : List JsonField) : Prop :=
  ∃ members, Json.parse line = some (.object members) ∧ List.Forall₂ ReadAs fields members

/-- A buffer in which the next call starts an object. -/
structure Reset (b : PingJsonBuffer) : Prop where
  size : b.size = 0
  text : b.object.text = []
  opens : ∀ field, constructJsonAppends b field = jsonStartObject ++ field.appends

/-- The fields are appended and printed, and are read back from the line. -/
def RoundTrip (fields : List JsonField) : Prop :=
  ∃ b, fields.foldlM (constructJson true) {} = .ok b ∧
    ReadsBack (printJsonPacket true b).1 fields ∧ Reset (printJsonPacket true b).2

/-- Strings that stand for themselves, and a null pointer behind those of an array. -/
def Plain : JsonField → Prop
  | .str _ val => val.bytes.all isPlain = true
  | .int _ _ => True
  | .uint _ _ => True
  | .arr _ vals behind => (∀ val ∈ vals, val.bytes.all isPlain = true) ∧ behind = []

/-! ## The text of an object -/

def itemsText (vals : List CString) : List UInt8 :=
  vals.flatMap fun val => comma :: space :: quoted val.bytes

def valueText : JsonField → List UInt8
  | .str _ val => quoted val.bytes
  | .int _ val => decimal val.toInt
  | .uint _ val => decimal val.toNat
  | .arr _ vals behind =>
      match vals ++ behind with
      | [] => [openBracket, closeBracket]
      | val :: vals => openBracket :: (quoted val.bytes ++ itemsText vals ++ [closeBracket])

def memberText (field : JsonField) : List UInt8 := keyed field.key (valueText field)

def membersText (fields : List JsonField) : List UInt8 :=
  fields.flatMap fun field => comma :: space :: memberText field

section Text

theorem itemsText_cons (val : CString) (vals : List CString) (rest : List UInt8) :
    itemsText (val :: vals) ++ rest =
      comma :: space :: (quoted val.bytes ++ (itemsText vals ++ rest)) := by
  rw [itemsText, List.flatMap_cons, List.append_assoc]
  rfl

theorem items_text (count : Nat) (vals : List CString) :
    ((jsonItems (count + 1) vals).map Append.text).flatten = itemsText vals := by
  induction vals generalizing count with
  | nil => rfl
  | cons val vals ih =>
      rw [jsonItems, if_pos (Nat.succ_pos count), List.map_append, List.flatten_append,
        ih (count + 1)]
      simp [itemsText, jsonContinue, Append.text]

theorem appends_text (field : JsonField) :
    (field.appends.map Append.text).flatten = memberText field := by
  cases field with
  | str key val => exact List.append_nil _
  | int key val => exact List.append_nil _
  | uint key val => exact List.append_nil _
  | arr key vals behind =>
      rw [JsonField.appends, jsonKvArray, memberText, valueText]
      cases vals ++ behind with
      | nil => simp [jsonItems, jsonEndArray, Append.text, keyed, JsonField.key]
      | cons val vals =>
          rw [jsonItems, List.map_append, List.map_append, List.map_append, List.flatten_append,
            List.flatten_append, List.flatten_append, items_text]
          simp [jsonEndArray, Append.text, keyed, JsonField.key]

theorem fieldTexts_text (fields : List JsonField) :
    (fieldTexts true fields).flatten = membersText fields := by
  induction fields with
  | nil => rfl
  | cons field fields ih =>
      rw [fieldTexts, List.flatten_cons, List.flatten_append, ih, appends_text]
      rfl

theorem object_text (field : JsonField) (fields : List JsonField) :
    (fieldTexts false (field :: fields)).flatten =
      openBrace :: (memberText field ++ membersText fields) := by
  rw [fieldTexts, List.flatten_cons, List.flatten_append, fieldTexts_text, appends_text]
  rfl

end Text

/-! ## Reading values -/

section Read

variable {n : Nat} {rest rest' : List UInt8} {c : UInt8}

theorem quoted_append (s tail : List UInt8) : quoted s ++ tail = quote :: (s ++ quote :: tail) := by
  rw [quoted, List.cons_append, List.append_assoc]
  rfl

theorem value_quoted {s : List UInt8} (plain : s.all isPlain = true) (tail : List UInt8) :
    Json.value (n + 1) (quoted s ++ tail) = some (.string s, tail) := by
  rw [quoted_append]
  exact Json.value_string (Json.Spells.of_plain plain)

/-- The items of an array of plain strings. -/
theorem items_reads {val : CString} {vals : List CString} (fuel : vals.length + 2 ≤ n)
    (plain : ∀ v ∈ val :: vals, v.bytes.all isPlain = true) :
    Json.items n (quoted val.bytes ++ (itemsText vals ++ closeBracket :: rest)) =
      some ((val :: vals).map fun v => .string v.bytes, rest) := by
  induction vals generalizing n val with
  | nil =>
      obtain ⟨n, rfl⟩ := Nat.exists_eq_add_of_le' fuel
      exact Json.items_last (value_quoted (plain val List.mem_cons_self) _)
  | cons next vals ih =>
      obtain ⟨n, rfl⟩ := Nat.exists_eq_add_of_le' fuel
      have hfuel : vals.length + 2 ≤ n + (vals.length + 2) := Nat.le_add_left _ _
      have hothers := ih hfuel (fun v hv => plain v (List.mem_cons_of_mem _ hv))
      rw [← Json.items_space] at hothers
      rw [itemsText_cons]
      exact Json.items_cons (value_quoted (plain val List.mem_cons_self) _) hothers

/-- The first item is read, and the others behind it. -/
theorem items_head {val : CString} {passed : List CString} {tail : List UInt8}
    (h : Json.items n (quoted val.bytes ++ tail) =
      some (passed.map fun v => .string v.bytes, rest')) :
    ∃ m first others, passed = first :: others ∧ (first = val →
      val.bytes.all isPlain = true ∧
        ((∃ more, Json.expect comma tail = some more ∧
            Json.items m more = some (others.map fun v => .string v.bytes, rest')) ∨
          (Json.expect comma tail = none ∧ others = [] ∧
            Json.expect closeBracket tail = some rest'))) := by
  obtain ⟨m, v, vs, behind, -, hvs, hvalue, hmore⟩ := Json.items_cases h
  cases passed with
  | nil => cases hvs
  | cons first others =>
      obtain ⟨rfl, rfl⟩ := List.cons.inj hvs
      refine ⟨m, first, others, rfl, ?_⟩
      rintro rfl
      rw [quoted_append] at hvalue
      obtain ⟨hplain, rfl⟩ := Json.plain_of_value hvalue
      refine ⟨hplain, ?_⟩
      rwa [List.map_eq_nil_iff] at hmore

/-- Items that read as strings which are their own texts are plain, and no others follow. -/
theorem items_plain {val : CString} {vals passed behind : List CString}
    (all : val :: vals = passed ++ behind)
    (h : Json.items n (quoted val.bytes ++ (itemsText vals ++ closeBracket :: rest)) =
      some (passed.map fun v => .string v.bytes, rest')) :
    (∀ v ∈ passed, v.bytes.all isPlain = true) ∧ behind = [] ∧ rest' = rest := by
  induction vals generalizing n val passed with
  | nil =>
      obtain ⟨m, first, others, rfl, hfirst⟩ := items_head h
      rw [List.cons_append, List.cons.injEq] at all
      obtain ⟨rfl, hbehind⟩ := all
      obtain ⟨hplain, hmore⟩ := hfirst rfl
      have hcomma : Json.expect comma (closeBracket :: rest) = none :=
        Json.expect_other (by decide) (by decide)
      have hclose : Json.expect closeBracket (closeBracket :: rest) = some rest :=
        Json.expect_cons (by decide)
      rw [itemsText, List.flatMap_nil, List.nil_append, hcomma, hclose] at hmore
      rcases hmore with ⟨_, hnone, _⟩ | ⟨-, rfl, hrest⟩
      · cases hnone
      · refine ⟨?_, hbehind.symm, (Option.some.inj hrest).symm⟩
        intro v hv
        rw [List.mem_singleton.mp hv]
        exact hplain
  | cons next vals ih =>
      obtain ⟨m, first, others, rfl, hfirst⟩ := items_head h
      rw [List.cons_append, List.cons.injEq] at all
      obtain ⟨rfl, hothers⟩ := all
      obtain ⟨hplain, hmore⟩ := hfirst rfl
      rw [itemsText_cons, Json.expect_cons (by decide)] at hmore
      rcases hmore with ⟨more, hmore, hitems⟩ | ⟨hnone, _⟩
      · cases hmore
        rw [Json.items_space] at hitems
        obtain ⟨hall, hbehind, hrest⟩ := ih hothers hitems
        refine ⟨?_, hbehind, hrest⟩
        intro v hv
        rcases List.mem_cons.mp hv with rfl | hv
        · exact hplain
        · exact hall v hv
      · cases hnone

theorem length_itemsText (vals : List CString) : vals.length ≤ (itemsText vals).length := by
  induction vals with
  | nil => exact Nat.zero_le _
  | cons val vals ih =>
      rw [itemsText, List.flatMap_cons, List.length_append, List.length_cons, List.length_cons,
        List.length_cons]
      rw [itemsText] at ih
      omega

theorem array_append (val : CString) (vals : List CString) (rest : List UInt8) :
    openBracket :: (quoted val.bytes ++ itemsText vals ++ [closeBracket]) ++ rest =
      openBracket :: (quoted val.bytes ++ (itemsText vals ++ closeBracket :: rest)) := by
  simp only [List.cons_append, List.append_assoc, List.nil_append]

/-- A plain field is read as what was passed. -/
theorem value_reads (rest : List UInt8) {field : JsonField} (plain : Plain field)
    (stop : Json.isStop c = true)
    (fuel : (valueText field).length ≤ n) :
    ∃ v, Json.value n (valueText field ++ c :: rest) = some (v, c :: rest) ∧ Decodes field v := by
  have hdecimal : ∀ x : Int, (decimal x).length ≤ n → ∃ v,
      Json.value n (decimal x ++ c :: rest) = some (v, c :: rest) ∧ v.int = some x := by
    intro x hx
    obtain ⟨m, rfl⟩ : ∃ m, n = m + 1 := by
      refine Nat.exists_eq_add_of_le' (Nat.le_trans ?_ hx)
      exact List.length_pos_iff.mpr (decimal_ne_nil x)
    exact ⟨_, Json.value_decimal m x stop, congrArg some (intOfDecimal_decimal x)⟩
  cases field with
  | str key val =>
      rw [valueText, length_quoted] at fuel
      obtain ⟨m, rfl⟩ := Nat.exists_eq_add_of_le' fuel
      exact ⟨_, value_quoted plain _, rfl⟩
  | int key val => exact hdecimal val.toInt fuel
  | uint key val => exact hdecimal val.toNat fuel
  | arr key vals behind =>
      obtain ⟨hplain, rfl⟩ := plain
      rw [valueText, List.append_nil] at fuel ⊢
      cases vals with
      | nil =>
          obtain ⟨m, rfl⟩ := Nat.exists_eq_add_of_le' fuel
          exact ⟨_, rfl, rfl⟩
      | cons val vals =>
          have hlength := length_itemsText vals
          simp only [List.length_cons, List.length_append, length_quoted] at fuel
          obtain ⟨m, rfl⟩ : ∃ m, n = m + 1 := Nat.exists_eq_add_of_le' (by omega)
          refine ⟨_, ?_, rfl⟩
          change Json.value (m + 1)
            (openBracket :: (quoted val.bytes ++ itemsText vals ++ [closeBracket]) ++ c :: rest) = _
          rw [array_append]
          exact Json.value_array (by decide) (by decide) (items_reads (by omega) hplain)

/-- A field that is read as what was passed is plain. -/
theorem value_plain {field : JsonField} {v : Json.Value} (stop : Json.isStop c = true)
    (h : Json.value n (valueText field ++ c :: rest) = some (v, rest'))
    (decodes : Decodes field v) :
    Plain field ∧ rest' = c :: rest := by
  obtain ⟨m, rfl⟩ : ∃ m, n = m + 1 := by
    cases n with
    | zero => cases h
    | succ m => exact ⟨m, rfl⟩
  cases field with
  | str key val =>
      rw [Decodes] at decodes
      rw [decodes, valueText, quoted_append] at h
      exact Json.plain_of_value h
  | int key val =>
      rw [valueText, Json.value_decimal m _ stop] at h
      cases h
      exact ⟨trivial, rfl⟩
  | uint key val =>
      rw [valueText, Json.value_decimal m _ stop] at h
      cases h
      exact ⟨trivial, rfl⟩
  | arr key vals behind =>
      rw [Decodes] at decodes
      rw [valueText, decodes] at h
      cases hall : vals ++ behind with
      | nil =>
          obtain ⟨rfl, rfl⟩ := List.append_eq_nil_iff.mp hall
          cases h
          exact ⟨⟨fun _ hv => absurd hv List.not_mem_nil, rfl⟩, rfl⟩
      | cons val others =>
          rw [hall] at h
          dsimp only at h
          rw [array_append] at h
          change Json.value (m + 1) (openBracket :: quote :: _) = _ at h
          rw [Json.value_array_eq m _ (by decide) (by decide)] at h
          obtain ⟨⟨vs, tail⟩, hitems, h⟩ := Option.map_eq_some_iff.mp h
          cases h
          obtain ⟨hplain, hbehind, hrest⟩ := items_plain hall.symm hitems
          exact ⟨⟨hplain, hbehind⟩, hrest⟩

end Read

/-! ## Reading members -/

section Members

variable {n : Nat} {rest rest' : List UInt8} {field : JsonField} {fields : List JsonField}
  {ms : List (List UInt8 × Json.Value)}

theorem key_spelled (key : JsonKey) : Json.Spells key.text key.text :=
  Json.Spells.of_plain (JsonKey.plain key)

theorem keyed_append (key : JsonKey) (value tail : List UInt8) :
    keyed key value ++ tail =
      quote :: (key.text ++ quote :: colon :: space :: (value ++ tail)) := by
  rw [keyed, List.cons_append, List.append_assoc]
  rfl

theorem membersText_cons (field : JsonField) (fields : List JsonField) (tail : List UInt8) :
    membersText (field :: fields) ++ tail =
      comma :: space :: (memberText field ++ (membersText fields ++ tail)) := by
  rw [membersText, List.flatMap_cons, List.append_assoc]
  rfl

theorem length_memberText (field : JsonField) :
    (valueText field).length + 4 ≤ (memberText field).length := by
  rw [memberText, length_keyed]
  omega

theorem members_reads (rest : List UInt8) (plain : ∀ f ∈ field :: fields, Plain f)
    (fuel : (memberText field ++ membersText fields).length ≤ n) :
    ∃ ms, Json.members n (memberText field ++ (membersText fields ++ closeBrace :: rest)) =
      some (ms, rest) ∧ List.Forall₂ ReadAs (field :: fields) ms := by
  induction fields generalizing field n with
  | nil =>
      have hlength := length_memberText field
      rw [List.length_append] at fuel
      obtain ⟨m, rfl⟩ : ∃ m, n = m + 1 := Nat.exists_eq_add_of_le' (by omega)
      obtain ⟨v, hvalue, hdecodes⟩ := value_reads rest (plain field List.mem_cons_self)
        (by decide : Json.isStop closeBrace = true) (by omega : _ ≤ m)
      refine ⟨[(field.key.text, v)], ?_, .cons ⟨rfl, hdecodes⟩ .nil⟩
      rw [memberText, keyed_append]
      apply Json.members_last (key_spelled field.key)
      rw [Json.value_space]
      exact hvalue
  | cons next fields ih =>
      have hlength := length_memberText field
      have hsplit := membersText_cons next fields []
      rw [List.append_nil, List.append_nil] at hsplit
      rw [hsplit, List.length_append, List.length_cons, List.length_cons] at fuel
      obtain ⟨m, rfl⟩ : ∃ m, n = m + 1 := Nat.exists_eq_add_of_le' (by omega)
      obtain ⟨ms, hmembers, hreads⟩ := @ih m next
        (fun f hf => plain f (List.mem_cons_of_mem _ hf)) (by omega)
      rw [membersText_cons]
      obtain ⟨v, hvalue, hdecodes⟩ := value_reads
        (space :: (memberText next ++ (membersText fields ++ closeBrace :: rest)))
        (plain field List.mem_cons_self) (by decide : Json.isStop comma = true) (by omega : _ ≤ m)
      refine ⟨(field.key.text, v) :: ms, ?_, .cons ⟨rfl, hdecodes⟩ hreads⟩
      rw [memberText, keyed_append]
      refine Json.members_cons (key_spelled field.key) ?_ ((Json.members_space m _).trans hmembers)
      rw [Json.value_space]
      exact hvalue

/-- The first member is read, and the others behind it. -/
theorem members_head {c : UInt8} {tail : List UInt8} (stop : Json.isStop c = true)
    (h : Json.members n (memberText field ++ c :: tail) = some (ms, rest'))
    (reads : List.Forall₂ ReadAs (field :: fields) ms) :
    Plain field ∧ ∃ m others, List.Forall₂ ReadAs fields others ∧
      ((∃ more, Json.expect comma (c :: tail) = some more ∧
          Json.members m more = some (others, rest')) ∨
        (Json.expect comma (c :: tail) = none ∧ others = [] ∧
          Json.expect closeBrace (c :: tail) = some rest')) := by
  rw [memberText, keyed_append] at h
  obtain ⟨m, v, others, behind, rfl, rfl, hvalue, hmore⟩ :=
    Json.members_cases (key_spelled field.key) h
  obtain _ | ⟨⟨-, hdecodes⟩, hothers⟩ := reads
  rw [Json.value_space] at hvalue
  obtain ⟨hplain, rfl⟩ := value_plain stop hvalue hdecodes
  exact ⟨hplain, m, others, hothers, hmore⟩

/-- Members that read as the fields are plain. -/
theorem members_plain (h : Json.members n (memberText field ++ (membersText fields ++
    closeBrace :: rest)) = some (ms, rest')) (reads : List.Forall₂ ReadAs (field :: fields) ms) :
    (∀ f ∈ field :: fields, Plain f) ∧ rest' = rest := by
  induction fields generalizing field n ms with
  | nil =>
      obtain ⟨hplain, m, others, hothers, hmore⟩ := members_head (by decide) h reads
      have hcomma : Json.expect comma (closeBrace :: rest) = none :=
        Json.expect_other (by decide) (by decide)
      have hclose : Json.expect closeBrace (closeBrace :: rest) = some rest :=
        Json.expect_cons (by decide)
      rw [hcomma, hclose] at hmore
      rcases hmore with ⟨_, hnone, _⟩ | ⟨-, -, hrest⟩
      · cases hnone
      · refine ⟨?_, (Option.some.inj hrest).symm⟩
        intro f hf
        rw [List.mem_singleton.mp hf]
        exact hplain
  | cons next fields ih =>
      rw [membersText_cons] at h
      obtain ⟨hplain, m, others, hothers, hmore⟩ := members_head (by decide) h reads
      rw [Json.expect_cons (by decide)] at hmore
      rcases hmore with ⟨more, hmore, hmembers⟩ | ⟨hnone, _⟩
      · cases hmore
        rw [Json.members_space] at hmembers
        obtain ⟨hall, hrest⟩ := ih hmembers hothers
        refine ⟨?_, hrest⟩
        intro f hf
        rcases List.mem_cons.mp hf with rfl | hf
        · exact hplain
        · exact hall f hf
      · cases hnone

end Members

/-! ## Every sequence of fields -/

section Line

variable {b : PingJsonBuffer} {t : List UInt8}

theorem printed (h : Sound b t) (nonempty : t ≠ []) :
    (printJsonPacket true b).1 = t ++ [closeBrace, 0x0a] ∧
      Reset (printJsonPacket true b).2 := by
  have hstarted : true ∧ b.started = true := ⟨rfl, by rw [h.started, decide_eq_true nonempty]⟩
  have hclear : Sound (printJsonAndReset b).2 [] := ⟨CBuffer.Holds.clear (by decide), rfl⟩
  rw [printJsonPacket, if_pos hstarted]
  refine ⟨by rw [printJsonAndReset, h.holds.text], hclear.size, hclear.holds.text, ?_⟩
  intro field
  rw [constructJsonAppends, PingJsonBuffer.opening, hclear.started]
  rfl

theorem parse_object (field : JsonField) (fields : List JsonField)
    (members : List (List UInt8 × Json.Value)) :
    Json.parse (openBrace :: (memberText field ++ (membersText fields ++ [closeBrace, 0x0a]))) =
        some (.object members) ↔
      ∃ rest, Json.members
        (memberText field ++ (membersText fields ++ [closeBrace, 0x0a])).length.succ
        (memberText field ++ (membersText fields ++ [closeBrace, 0x0a])) = some (members, rest) ∧
        Json.skipSpace rest = [] := by
  have hvalue := Json.value_object_eq
    (memberText field ++ (membersText fields ++ [closeBrace, 0x0a])).length.succ
    (field.key.text ++ quote :: colon :: space :: (valueText field ++
      (membersText fields ++ [closeBrace, 0x0a])))
  rw [← keyed_append, ← memberText] at hvalue
  rw [Json.parse, List.length_cons, hvalue, Option.bind_eq_bind, Option.bind_eq_some_iff]
  constructor
  · rintro ⟨⟨v, rest⟩, hread, hend⟩
    obtain ⟨⟨ms, rest'⟩, hmembers, heq⟩ := Option.map_eq_some_iff.mp hread
    cases heq
    dsimp only at hend
    split at hend
    next hspace =>
      cases hend
      exact ⟨rest, hmembers, hspace⟩
    · cases hend
  · rintro ⟨rest, hmembers, hspace⟩
    refine ⟨(.object members, rest), by rw [hmembers]; rfl, ?_⟩
    exact if_pos hspace

theorem roundTrip_iff_reads {field : JsonField} {fields : List JsonField}
    (fits : (fieldTexts false (field :: fields)).flatten.length < PING_JSON_MAX) :
    RoundTrip (field :: fields) ↔ ReadsBack
      (openBrace :: (memberText field ++ (membersText fields ++ [closeBrace, 0x0a])))
      (field :: fields) := by
  have hroom : ([] : List UInt8).length +
      (fieldTexts false (field :: fields)).flatten.length < PING_JSON_MAX := by
    rw [List.length_nil, Nat.zero_add]
    exact fits
  obtain ⟨b, hb, hsound⟩ := sound_empty.constructAll (field :: fields) hroom
  change Sound b (fieldTexts false (field :: fields)).flatten at hsound
  rw [object_text] at hsound
  obtain ⟨hline, hreset⟩ := printed hsound (List.cons_ne_nil _ _)
  rw [List.cons_append, List.append_assoc] at hline
  rw [← hline]
  constructor
  · rintro ⟨b', hb', hreads, -⟩
    rw [hb] at hb'
    cases hb'
    exact hreads
  · intro hreads
    exact ⟨b, hb, hreads, hreset⟩

theorem plain_of_roundTrip {field : JsonField} {fields : List JsonField}
    (fits : (fieldTexts false (field :: fields)).flatten.length < PING_JSON_MAX)
    (h : RoundTrip (field :: fields)) : ∀ f ∈ field :: fields, Plain f := by
  obtain ⟨members, hparse, hreads⟩ := (roundTrip_iff_reads fits).mp h
  obtain ⟨rest, hmembers, -⟩ := (parse_object field fields members).mp hparse
  exact (members_plain hmembers hreads).1

/-- An object of plain fields is read back. -/
theorem parse_plain {field : JsonField} {fields : List JsonField}
    (h : ∀ f ∈ field :: fields, Plain f) :
    ∃ ms, Json.parse (openBrace :: (memberText field ++
        (membersText fields ++ [closeBrace, 0x0a]))) = some (.object ms) ∧
      List.Forall₂ ReadAs (field :: fields) ms := by
  have hfuel : (memberText field ++ membersText fields).length ≤
      (memberText field ++ (membersText fields ++ [closeBrace, 0x0a])).length.succ := by
    rw [List.length_append, List.length_append, List.length_append]
    omega
  obtain ⟨ms, hmembers, hreads⟩ := members_reads [0x0a] h hfuel
  exact ⟨ms, (parse_object field fields ms).mpr ⟨[0x0a], hmembers, rfl⟩, hreads⟩

theorem roundTrip_of_plain {field : JsonField} {fields : List JsonField}
    (fits : (fieldTexts false (field :: fields)).flatten.length < PING_JSON_MAX)
    (h : ∀ f ∈ field :: fields, Plain f) : RoundTrip (field :: fields) :=
  (roundTrip_iff_reads fits).mpr (parse_plain h)

/-- A sequence of fields that fits in the buffer is read back from the line that is printed
exactly when its strings are plain and its arrays are terminated. -/
theorem round_trip_iff (fields : List JsonField) (nonempty : fields ≠ [])
    (fits : (fieldTexts false fields).flatten.length < PING_JSON_MAX) :
    RoundTrip fields ↔ ∀ field ∈ fields, Plain field := by
  obtain ⟨field, fields, rfl⟩ := List.exists_cons_of_ne_nil nonempty
  exact ⟨plain_of_roundTrip fits, roundTrip_of_plain fits⟩

/-- A lone string of a few bytes fits. -/
theorem fits_str (key : JsonKey) (val : CString) (short : val.bytes.length ≤ 100) :
    (fieldTexts false [.str key val]).flatten.length < PING_JSON_MAX := by
  have hkey := JsonKey.length_text_le key
  rw [object_text, membersText, List.flatMap_nil, List.append_nil, List.length_cons, memberText,
    length_keyed, valueText, length_quoted, JsonField.key]
  exact Nat.lt_of_le_of_lt (by omega : _ ≤ 200) (by decide)

theorem round_trip_iff_version :
    RoundTrip [.str .version ⟨[0x31], by decide⟩] ↔
      ∀ field ∈ [JsonField.str .version ⟨[0x31], by decide⟩], Plain field :=
  round_trip_iff [.str .version ⟨[0x31], by decide⟩] (by decide) (fits_str _ _ (by decide))

/-- A message with a quote in it, such as one that names a wrong pattern. -/
theorem quote_not_read_back :
    ¬∀ fields : List JsonField, fields ≠ [] →
      (fieldTexts false fields).flatten.length < PING_JSON_MAX → RoundTrip fields := by
  intro h
  have hfits := fits_str .error ⟨[0x61, 0x22, 0x62], by decide⟩ (by decide)
  have hplain := plain_of_roundTrip hfits (h _ (by decide) hfits)
  exact Bool.false_ne_true (hplain _ List.mem_cons_self)

end Line

end Coping.JsonLine
