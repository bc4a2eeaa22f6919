import Coping.Ping.Json

/-!
# The bounds of the JSON buffer

`json_bufsize` tests the length of each append by itself, and the sum of several can be
too much. As long as the sum fits, the buffer holds the text that was appended so far,
and its size is noted. A single append that is too long ends the program, and what comes
behind it does not matter.
-/

namespace Coping.JsonBuffer

open CFormat

/-- What an append is to leave. -/
structure InBounds (b : PingJsonBuffer) : Prop where
  size : b.size = b.object.text.length
  lt : b.size < PING_JSON_MAX

/-- Every append stops the program, or leaves the buffer in bounds. -/
def SoundAppends (b : PingJsonBuffer) : List Append → Prop
  | [] => True
  | a :: appends =>
      match b.append a with
      | .error stop => stop = .overflow
      | .ok b => InBounds b ∧ SoundAppends b appends

/-- The same for a sequence of calls of `construct_json`. -/
def SoundFields (b : PingJsonBuffer) : List JsonField → Prop
  | [] => True
  | field :: fields =>
      SoundAppends b (constructJsonAppends b field) ∧
        ∀ b', constructJson true b field = .ok b' → SoundFields b' fields

/-- The same for `construct_json_statistics`. -/
def SoundStatistics (stack : CBuffer PING_JSON_MAX) (b : PingJsonBuffer) (s : JsonStatistics)
    (rtt : RttTexts) : Prop :=
  SoundAppends b (b.opening ++ statisticsMembers s) ∧
    SoundAppends { size := 0, object := stack } (rttAppends rtt) ∧
    ∀ b' json_rtt, b.appendAll (b.opening ++ statisticsMembers s) = .ok b' →
      PingJsonBuffer.appendAll { size := 0, object := stack } (rttAppends rtt) = .ok json_rtt →
      SoundAppends b' (jsonKvObject .rtt json_rtt ++ pipeAppends s.pipesize)

/-- Up to the first text that is too long by itself, the texts fit together. -/
def Fits (size : Nat) (texts : List (List UInt8)) : Prop :=
  size + (texts.takeWhile (·.length < PING_JSON_MAX)).flatten.length < PING_JSON_MAX

def separator (started : Bool) : List UInt8 :=
  if started then [Json.comma, Json.space] else [Json.openBrace]

/-- The texts that a sequence of fields appends. -/
def fieldTexts : Bool → List JsonField → List (List UInt8)
  | _, [] => []
  | started, field :: fields =>
      separator started :: (field.appends.map Append.text ++ fieldTexts true fields)

def rttText (rtt : RttTexts) : List UInt8 := ((rttAppends rtt).map Append.text).flatten

/-- The texts that the statistics append to an empty buffer. -/
def statisticsTexts (s : JsonStatistics) (rtt : RttTexts) : List (List UInt8) :=
  [Json.openBrace] :: (statisticsMembers s).map Append.text ++
    (keyed .rtt (rttText rtt) :: (pipeAppends s.pipesize).map Append.text)

/-! ## One append -/

section Append

variable {b b' : PingJsonBuffer} {t x : List UInt8} {appends : List Append}

/-- The buffer holds a text, and its length is noted. -/
structure Sound (b : PingJsonBuffer) (t : List UInt8) : Prop where
  holds : b.object.Holds t
  size : b.size = t.length

theorem Sound.lt (h : Sound b t) : t.length < PING_JSON_MAX := h.holds.length_lt

theorem Sound.inBounds (h : Sound b t) : InBounds b where
  size := by rw [h.holds.text, h.size]
  lt := h.size ▸ h.lt

theorem Sound.started (h : Sound b t) : b.started = decide (t ≠ []) := by
  rw [PingJsonBuffer.started, decide_eq_decide, ne_eq, not_iff_not]
  exact h.holds.head

theorem Sound.room (h : Sound b t) : b.room = PING_JSON_MAX - t.length := by
  have hlt := h.lt
  rw [PingJsonBuffer.room, h.size, Int.emod_eq_of_lt]
  · omega
  · omega
  · have : (PING_JSON_MAX : Int) < 2 ^ 64 := by decide
    omega

theorem Sound.append_eq (h : Sound b t) {object : CBuffer PING_JSON_MAX}
    (written : b.object.snprintf t.length (PING_JSON_MAX - t.length) x = some object) :
    b.append (.atEnd x) = jsonBufsize { b with object := object } x.length := by
  have hwritten : b.object.snprintf (b.offset (.atEnd x)) b.room (Append.atEnd x).text =
      some object := by
    rw [h.room]
    exact h.size ▸ written
  rw [PingJsonBuffer.append, hwritten]
  rfl

/-- An append for which there is room. -/
theorem Sound.append (h : Sound b t) (nonzero : 0 ∉ x)
    (fits : t.length + x.length < PING_JSON_MAX) :
    ∃ b', b.append (.atEnd x) = .ok b' ∧ Sound b' (t ++ x) := by
  obtain ⟨object, hobject, hholds⟩ := h.holds.snprintf nonzero fits
  have hshort : ¬x.length ≥ PING_JSON_MAX := by omega
  refine ⟨{ size := b.size + x.length, object := object }, ?_, hholds, ?_⟩
  · rw [h.append_eq hobject, jsonBufsize, if_neg hshort]
  · rw [List.length_append, ← h.size]

/-- An append for which there is none is inside all the same, but only one that is too long
by itself is found out. -/
theorem Sound.append_long (h : Sound b t) (long : PING_JSON_MAX ≤ t.length + x.length) :
    (PING_JSON_MAX ≤ x.length ∧ b.append (.atEnd x) = .error .overflow) ∨
      (x.length < PING_JSON_MAX ∧ ∃ b', b.append (.atEnd x) = .ok b' ∧
        PING_JSON_MAX ≤ b'.size) := by
  obtain ⟨object, hobject⟩ := b.object.snprintf_inside (Nat.le_of_lt h.lt) x
  rw [h.append_eq hobject, jsonBufsize]
  by_cases hlong : x.length ≥ PING_JSON_MAX
  · exact .inl ⟨hlong, if_pos hlong⟩
  · refine .inr ⟨by omega, _, if_neg hlong, ?_⟩
    change PING_JSON_MAX ≤ b.size + x.length
    rw [h.size]
    exact long

theorem fits_cons {size : Nat} {texts : List (List UInt8)} (lt : size < PING_JSON_MAX) :
    Fits size (x :: texts) ↔ PING_JSON_MAX ≤ x.length ∨
      (size + x.length < PING_JSON_MAX ∧ Fits (size + x.length) texts) := by
  by_cases hlong : PING_JSON_MAX ≤ x.length
  · rw [Fits, List.takeWhile_cons_of_neg (by simpa using hlong)]
    exact ⟨fun _ => .inl hlong, fun _ => lt⟩
  · have hshort : x.length < PING_JSON_MAX := by omega
    rw [Fits, Fits, List.takeWhile_cons_of_pos (by simpa using hshort), List.flatten_cons,
      List.length_append]
    constructor
    · intro hfits
      exact .inr ⟨by omega, by omega⟩
    · rintro (h | ⟨-, hfits⟩)
      · exact absurd h hlong
      · omega

/-- A list of appends behind the text, none of them with a terminator inside. -/
def AtEnd (appends : List Append) : Prop := ∀ a ∈ appends, ∃ x, a = .atEnd x ∧ 0 ∉ x

theorem AtEnd.append {others : List Append} (h : AtEnd appends) (h' : AtEnd others) :
    AtEnd (appends ++ others) := by
  intro a ha
  rcases List.mem_append.mp ha with ha | ha
  · exact h a ha
  · exact h' a ha

theorem AtEnd.singleton (nonzero : 0 ∉ x) : AtEnd [.atEnd x] := by
  intro a ha
  exact ⟨x, List.mem_singleton.mp ha, nonzero⟩

theorem AtEnd.cons {a : Append} (h : AtEnd (a :: appends)) :
    (∃ x, a = .atEnd x ∧ 0 ∉ x) ∧ AtEnd appends :=
  ⟨h a List.mem_cons_self, fun a' ha' => h a' (List.mem_cons_of_mem _ ha')⟩

/-- Appends are sound as long as they fit together. -/
theorem Sound.soundAppends_iff (h : Sound b t) (atEnd : AtEnd appends) :
    SoundAppends b appends ↔ Fits t.length (appends.map Append.text) := by
  induction appends generalizing b t with
  | nil => exact ⟨fun _ => h.lt, fun _ => trivial⟩
  | cons a appends ih =>
      obtain ⟨⟨x, rfl, hnonzero⟩, hrest⟩ := atEnd.cons
      rw [List.map_cons, Append.text, fits_cons h.lt, SoundAppends]
      by_cases hfits : t.length + x.length < PING_JSON_MAX
      · obtain ⟨b', hb', hsound⟩ := h.append hnonzero hfits
        have hshort : ¬PING_JSON_MAX ≤ x.length := by omega
        rw [hb', or_iff_right hshort, and_iff_right hfits, ← List.length_append, ← ih hsound hrest]
        exact and_iff_right hsound.inBounds
      · rcases h.append_long (Nat.le_of_not_lt hfits) with
          ⟨hlong, happend⟩ | ⟨hshort, b', hb', hsize⟩
        · rw [happend]
          exact ⟨fun _ => .inl hlong, fun _ => rfl⟩
        · rw [hb']
          constructor
          · intro hsound
            exact absurd hsound.1.lt (Nat.not_lt_of_le hsize)
          · rintro (hlong | ⟨hfits', -⟩)
            · exact absurd hshort (Nat.not_lt_of_le hlong)
            · exact absurd hfits' hfits

/-- Sound appends that do not stop leave the buffer with their texts. -/
theorem Sound.appendAll (h : Sound b t) (atEnd : AtEnd appends)
    (sound : SoundAppends b appends) (ends : b.appendAll appends = .ok b') :
    Sound b' (t ++ (appends.map Append.text).flatten) := by
  induction appends generalizing b t with
  | nil =>
      cases ends
      rw [List.map_nil, List.flatten_nil, List.append_nil]
      exact h
  | cons a appends ih =>
      obtain ⟨⟨x, rfl, hnonzero⟩, hrest⟩ := atEnd.cons
      rw [SoundAppends] at sound
      rw [PingJsonBuffer.appendAll, List.foldlM_cons] at ends
      by_cases hfits : t.length + x.length < PING_JSON_MAX
      · obtain ⟨b'', hb'', hsound⟩ := h.append hnonzero hfits
        rw [hb''] at sound ends
        have hend := ih hsound hrest sound.2 ends
        rwa [List.append_assoc] at hend
      · rcases h.append_long (Nat.le_of_not_lt hfits) with ⟨-, happend⟩ | ⟨-, b'', hb'', hsize⟩
        · rw [happend] at ends
          cases ends
        · rw [hb''] at sound
          exact absurd sound.1.lt (Nat.not_lt_of_le hsize)

theorem appendAll_append (b : PingJsonBuffer) (appends others : List Append) :
    b.appendAll (appends ++ others) = b.appendAll appends >>= fun b => b.appendAll others :=
  List.foldlM_append

theorem stop_of_append {stop : JsonStop} (h : b.append (.atEnd x) = .error stop)
    (short : x.length < PING_JSON_MAX) : stop = .outside := by
  rw [PingJsonBuffer.append] at h
  split at h
  · cases h
    rfl
  · have hshort : ¬(Append.atEnd x).text.length ≥ PING_JSON_MAX := Nat.not_le_of_lt short
    rw [jsonBufsize, if_neg hshort] at h
    cases h

/-- Appends none of which is too long by itself stop by a write that is outside only. -/
theorem stop_of_appendAll {stop : JsonStop} (atEnd : AtEnd appends)
    (short : ∀ a ∈ appends, a.text.length < PING_JSON_MAX)
    (h : b.appendAll appends = .error stop) : stop = .outside := by
  induction appends generalizing b with
  | nil => cases h
  | cons a appends ih =>
      obtain ⟨⟨x, rfl, -⟩, hrest⟩ := atEnd.cons
      rw [PingJsonBuffer.appendAll, List.foldlM_cons] at h
      cases hx : b.append (.atEnd x) with
      | error stop' =>
          rw [hx] at h
          cases h
          exact stop_of_append hx (short _ List.mem_cons_self)
      | ok b' =>
          rw [hx] at h
          exact ih hrest (fun a ha => short a (List.mem_cons_of_mem _ ha)) h

/-- Texts that fit are all appended. -/
theorem Sound.appendAll_of_fits (h : Sound b t) (atEnd : AtEnd appends)
    (fits : t.length + (appends.map Append.text).flatten.length < PING_JSON_MAX) :
    ∃ b', b.appendAll appends = .ok b' ∧ Sound b' (t ++ (appends.map Append.text).flatten) := by
  induction appends generalizing b t with
  | nil => exact ⟨b, rfl, by rwa [List.map_nil, List.flatten_nil, List.append_nil]⟩
  | cons a appends ih =>
      obtain ⟨⟨x, rfl, hnonzero⟩, hrest⟩ := atEnd.cons
      rw [List.map_cons, List.flatten_cons, Append.text] at fits ⊢
      rw [List.length_append] at fits
      obtain ⟨b'', hb'', hsound⟩ := h.append hnonzero (by omega)
      obtain ⟨b', hb', hsound'⟩ := ih hsound hrest (by rw [List.length_append]; omega)
      refine ⟨b', ?_, by rwa [← List.append_assoc]⟩
      rw [PingJsonBuffer.appendAll, List.foldlM_cons, hb'']
      exact hb'

theorem length_lt_of_append (h : b.append (.atEnd x) = .ok b') : x.length < PING_JSON_MAX := by
  rw [PingJsonBuffer.append] at h
  split at h
  · cases h
  · rw [jsonBufsize] at h
    split at h
    · cases h
    next hshort => exact Nat.lt_of_not_ge hshort

/-- Behind the array nothing can be written. -/
theorem append_behind (behind : PING_JSON_MAX < b.size) (small : b.size < 2 * PING_JSON_MAX) :
    b.append (.atEnd x) = .error .outside := by
  have hroom : b.room ≠ 0 := by
    have hmod : ((PING_JSON_MAX : Int) - b.size) % 2 ^ 64 =
        (PING_JSON_MAX : Int) - b.size + 2 ^ 64 := by
      have hmax : (PING_JSON_MAX : Int) = 4000 := rfl
      omega
    rw [PingJsonBuffer.room, hmod]
    have hmax : PING_JSON_MAX = 4000 := rfl
    omega
  have hnone : b.object.snprintf (b.offset (.atEnd x)) b.room (Append.atEnd x).text = none := by
    rw [CBuffer.snprintf, ← Option.not_isSome_iff_eq_none, CBuffer.write_isSome_iff,
      CBuffer.printed,
      if_neg hroom, List.length_append, List.length_singleton]
    change ¬b.size + _ ≤ PING_JSON_MAX
    omega
  rw [PingJsonBuffer.append, hnone]

/-- At the very end of the array nothing is written, and nothing is noticed. -/
theorem append_full (full : b.size = PING_JSON_MAX) (h : b.append (.atEnd x) = .ok b') :
    b'.size = PING_JSON_MAX + x.length ∧ b'.object.bytes = b.object.bytes := by
  have hroom : b.room = 0 := by
    rw [PingJsonBuffer.room, full, Int.sub_self]
    rfl
  have hsnprintf : b.object.snprintf (b.offset (.atEnd x)) b.room (Append.atEnd x).text =
      b.object.write b.size [] := by
    rw [hroom]
    rfl
  have hinside : b.object.bytes.length = b.size := by rw [b.object.length_bytes, full]
  rw [PingJsonBuffer.append, hsnprintf] at h
  split at h
  · cases h
  next object hwrite =>
    rw [jsonBufsize] at h
    split at h
    · cases h
    · cases h
      refine ⟨by rw [full, Append.text], ?_⟩
      rw [CBuffer.bytes_of_write hwrite, List.append_nil, List.length_nil, Nat.add_zero,
        List.take_append_drop]

/-- At the end of the array at most one append goes by unnoticed. -/
theorem appendAll_behind (behind : PING_JSON_MAX ≤ b.size) (small : b.size < 2 * PING_JSON_MAX)
    (atEnd : AtEnd appends) (nonempty : ∀ a ∈ appends, a.text ≠ [])
    (ends : b.appendAll appends = .ok b') :
    b'.object.bytes = b.object.bytes ∧
      (appends = [] ∨ ∃ a, appends = [a] ∧ b.size = PING_JSON_MAX) := by
  cases appends with
  | nil =>
      cases ends
      exact ⟨rfl, .inl rfl⟩
  | cons a others =>
      obtain ⟨⟨y, rfl, -⟩, hothers⟩ := atEnd.cons
      change (b.append (.atEnd y) >>= fun b => others.foldlM _ b) = _ at ends
      have hfull : b.size = PING_JSON_MAX := by
        by_contra hne
        rw [append_behind (Nat.lt_of_le_of_ne behind (Ne.symm hne)) small] at ends
        cases ends
      cases hy : b.append (.atEnd y) with
      | error stop =>
          rw [hy] at ends
          cases ends
      | ok b₁ =>
          rw [hy] at ends
          obtain ⟨hsize, hbytes⟩ := append_full hfull hy
          cases others with
          | nil =>
              cases ends
              exact ⟨hbytes, .inr ⟨_, rfl, hfull⟩⟩
          | cons a others =>
              obtain ⟨⟨z, rfl, -⟩, -⟩ := hothers.cons
              change (b₁.append (.atEnd z) >>= fun b => others.foldlM _ b) = _ at ends
              have hshort := length_lt_of_append hy
              have hpositive : 0 < y.length := List.length_pos_iff.mpr
                (nonempty (.atEnd y) List.mem_cons_self)
              rw [append_behind (by omega) (by omega)] at ends
              cases ends

/-- Appends that do not fit together, none of which stops the program: only the last one, or the
last two when the first of them ends one byte too late, can be the ones without room. -/
theorem Sound.appendAll_over (h : Sound b t) (atEnd : AtEnd appends)
    (nonempty : ∀ a ∈ appends, a.text ≠ [])
    (exceeds : PING_JSON_MAX ≤ t.length + (appends.map Append.text).flatten.length)
    (ends : b.appendAll appends = .ok b') :
    ∃ front last, appends = front ++ [last] ∧
      t.length + (front.map Append.text).flatten.length ≤ PING_JSON_MAX ∧
      b'.object.Holds ((t ++ (appends.map Append.text).flatten).take (PING_JSON_MAX - 1)) := by
  induction appends generalizing b t with
  | nil => exact absurd h.lt (Nat.not_lt_of_le exceeds)
  | cons a appends ih =>
      obtain ⟨⟨x, rfl, hnonzero⟩, hrest⟩ := atEnd.cons
      rw [List.map_cons, List.flatten_cons, Append.text] at exceeds ⊢
      rw [List.length_append] at exceeds
      rw [PingJsonBuffer.appendAll, List.foldlM_cons] at ends
      by_cases hfits : t.length + x.length < PING_JSON_MAX
      · obtain ⟨b'', hb'', hsound⟩ := h.append hnonzero hfits
        rw [hb''] at ends
        obtain ⟨front, last, rfl, hle, hholds⟩ := ih hsound hrest
          (fun a ha => nonempty a (List.mem_cons_of_mem _ ha))
          (by rw [List.length_append]; omega) ends
        refine ⟨.atEnd x :: front, last, rfl, ?_, by rwa [← List.append_assoc]⟩
        rw [List.map_cons, List.flatten_cons, Append.text, List.length_append]
        rw [List.length_append] at hle
        omega
      · have hfull : PING_JSON_MAX ≤ t.length + x.length := Nat.le_of_not_lt hfits
        obtain ⟨object, hobject, hholds⟩ := h.holds.snprintf_cut hnonzero hfull
        have happend := h.append_eq hobject
        rw [jsonBufsize] at happend
        have hlt := h.lt
        by_cases hlong : x.length ≥ PING_JSON_MAX
        · rw [happend, if_pos hlong] at ends
          cases ends
        rw [happend, if_neg hlong] at ends
        have hsize : b.size + x.length = t.length + x.length := by rw [h.size]
        obtain ⟨hbytes, hlast⟩ := appendAll_behind (Nat.le_trans hfull (Nat.le_of_eq hsize.symm))
          (by change b.size + x.length < _; omega) hrest
          (fun a ha => nonempty a (List.mem_cons_of_mem _ ha)) ends
        have htake : (t ++ (x ++ (appends.map Append.text).flatten)).take (PING_JSON_MAX - 1) =
            (t ++ x).take (PING_JSON_MAX - 1) := by
          rw [← List.append_assoc, List.take_append_of_le_length]
          rw [List.length_append]
          omega
        have hend : b'.object.Holds ((t ++ x).take (PING_JSON_MAX - 1)) :=
          ⟨hbytes ▸ hholds.begins, hholds.nonzero⟩
        rw [htake]
        rcases hlast with rfl | ⟨last, rfl, hone⟩
        · exact ⟨[], .atEnd x, rfl, Nat.le_of_lt h.lt, hend⟩
        · refine ⟨[.atEnd x], last, rfl, ?_, hend⟩
          change t.length + (x ++ []).length ≤ PING_JSON_MAX
          change b.size + x.length = PING_JSON_MAX at hone
          rw [List.append_nil]
          omega

/-- Whatever is appended, the buffer stays begun. -/
theorem Sound.started_appendAll (h : Sound b t) (nonempty : t ≠ []) (atEnd : AtEnd appends)
    (texts : ∀ a ∈ appends, a.text ≠ []) (ends : b.appendAll appends = .ok b') :
    b'.started = true := by
  have hstarted : ∀ t', b'.object.Holds t' → t' ≠ [] → b'.started = true := by
    intro t' hholds hne
    rw [PingJsonBuffer.started]
    exact decide_eq_true (mt hholds.head.mp hne)
  by_cases hfits : t.length + (appends.map Append.text).flatten.length < PING_JSON_MAX
  · obtain ⟨b'', hb'', hsound⟩ := h.appendAll_of_fits atEnd hfits
    rw [ends] at hb''
    cases hb''
    exact hstarted _ hsound.holds (List.append_ne_nil_of_left_ne_nil nonempty _)
  · obtain ⟨-, -, -, -, hholds⟩ := h.appendAll_over atEnd texts (Nat.le_of_not_lt hfits) ends
    apply hstarted _ hholds
    intro hnil
    have hlength := congrArg List.length hnil
    rw [List.length_take, List.length_append, List.length_nil] at hlength
    have := List.length_pos_iff.mpr nonempty
    have hmax : PING_JSON_MAX - 1 = 3999 := rfl
    omega

theorem soundAppends_append {others : List Append} :
    SoundAppends b (appends ++ others) ↔ SoundAppends b appends ∧
      ∀ b', b.appendAll appends = .ok b' → SoundAppends b' others := by
  induction appends generalizing b with
  | nil =>
      refine ⟨fun h => ⟨trivial, ?_⟩, fun h => h.2 b rfl⟩
      intro b' hb'
      cases hb'
      exact h
  | cons a appends ih =>
      rw [List.cons_append, SoundAppends, SoundAppends, PingJsonBuffer.appendAll,
        List.foldlM_cons]
      cases b.append a with
      | error stop =>
          refine ⟨fun h => ⟨h, ?_⟩, fun h => h.1⟩
          intro b' hb'
          cases hb'
      | ok b'' =>
          simp only [and_assoc, ih]
          exact Iff.rfl

/-- At the start of the array is behind the text, when there is none. -/
theorem append_atStart (empty : b.size = 0) : b.append (.atStart x) = b.append (.atEnd x) := by
  have hoffset : b.offset (.atEnd x) = 0 := empty
  rw [PingJsonBuffer.append, PingJsonBuffer.append, hoffset]
  rfl

end Append

/-! ## The texts -/

section Texts

variable {b : PingJsonBuffer} {t : List UInt8}

theorem JsonKey.length_text_le (key : JsonKey) : key.text.length ≤ 11 := by
  cases key <;> rw [JsonKey.text, ascii_length] <;> decide

theorem JsonKey.nonzero (key : JsonKey) : 0 ∉ key.text := by
  cases key <;> rw [JsonKey.text, ascii_ofList] <;> decide

theorem JsonKey.plain (key : JsonKey) : key.text.all Json.isPlain = true := by
  cases key <;> rw [JsonKey.text, ascii_ofList] <;> decide

theorem nonzero_quoted {val : List UInt8} (nonzero : 0 ∉ val) : 0 ∉ quoted val := by
  simp only [quoted, List.mem_cons, List.mem_append, List.not_mem_nil, or_false, not_or]
  exact ⟨by decide, nonzero, by decide⟩

theorem nonzero_keyed {key : JsonKey} {value : List UInt8} (nonzero : 0 ∉ value) :
    0 ∉ keyed key value := by
  simp only [keyed, List.mem_cons, List.mem_append, not_or]
  exact ⟨by decide, JsonKey.nonzero key, by decide, by decide, by decide, nonzero⟩

theorem atEnd_continue : AtEnd jsonContinue := AtEnd.singleton (by decide)

theorem atEnd_str (key : JsonKey) (val : CString) : AtEnd (jsonKvStr key val.bytes) :=
  AtEnd.singleton (nonzero_keyed (nonzero_quoted val.nonzero))

theorem atEnd_decimal (key : JsonKey) (x : Int) : AtEnd [.atEnd (keyed key (decimal x))] :=
  AtEnd.singleton (nonzero_keyed (nonzero_decimal x))

theorem atEnd_int (key : JsonKey) (val : Int32) : AtEnd (jsonKvInt key val) :=
  atEnd_decimal key val.toInt

theorem atEnd_items (count : Nat) (vals : List CString) : AtEnd (jsonItems count vals) := by
  induction vals generalizing count with
  | nil => exact fun _ ha => absurd ha List.not_mem_nil
  | cons val vals ih =>
      rw [jsonItems]
      refine ((?_ : AtEnd _).append (AtEnd.singleton (nonzero_quoted val.nonzero))).append
        (ih (count + 1))
      split
      · exact atEnd_continue
      · exact fun _ ha => absurd ha List.not_mem_nil

theorem JsonField.atEnd (field : JsonField) : AtEnd field.appends := by
  cases field with
  | str key val => exact atEnd_str key val
  | int key val => exact atEnd_int key val
  | uint key val => exact atEnd_decimal key val.toNat
  | arr key vals behind =>
      exact ((AtEnd.singleton (nonzero_keyed (by decide))).append (atEnd_items 0 _)).append
        (AtEnd.singleton (by decide))

theorem atEnd_statistics (s : JsonStatistics) : AtEnd (statisticsMembers s) := by
  have hint : ∀ key val, AtEnd (jsonKvIntContinue key val) :=
    fun key val => (atEnd_int key val).append atEnd_continue
  exact (((((((((atEnd_str _ s.hostname).append atEnd_continue).append (hint _ _)).append
    (hint _ _)).append (hint _ _)).append (hint _ _)).append (hint _ _)).append
    (hint _ _)).append (hint _ _))

theorem atEnd_pipe (pipesize : Int32) : AtEnd (pipeAppends pipesize) := by
  rw [pipeAppends]
  split
  · exact atEnd_continue.append ((atEnd_int _ pipesize).append atEnd_continue)
  · exact fun _ ha => absurd ha List.not_mem_nil

end Texts

/-! ## Sequences of fields -/

section Fields

variable {b b' : PingJsonBuffer} {t : List UInt8} {appends : List Append}

/-- The opening is the separator, which goes behind the text in both cases. -/
theorem Sound.opening_cases (h : Sound b t) :
    b.opening = [.atEnd (separator (decide (t ≠ [])))] ∨
      b.size = 0 ∧ b.opening = [.atStart (separator (decide (t ≠ [])))] := by
  rw [PingJsonBuffer.opening, h.started]
  by_cases hnil : t = []
  · have hzero : b.size = 0 := by rw [h.size, hnil]; rfl
    refine .inr ⟨hzero, ?_⟩
    simp only [hnil, ne_eq, not_true, decide_false, Bool.false_eq_true, if_false]
    rfl
  · left
    simp only [hnil, ne_eq, not_false_eq_true, decide_true, if_true]
    rfl

theorem Sound.soundAppends_opening (h : Sound b t) :
    SoundAppends b (b.opening ++ appends) ↔
      SoundAppends b (.atEnd (separator (decide (t ≠ []))) :: appends) := by
  rcases h.opening_cases with hopening | ⟨hzero, hopening⟩
  · rw [hopening]
    exact Iff.rfl
  · rw [hopening, List.singleton_append, SoundAppends, SoundAppends, append_atStart hzero]

theorem Sound.appendAll_opening (h : Sound b t) :
    b.appendAll (b.opening ++ appends) =
      b.appendAll (.atEnd (separator (decide (t ≠ []))) :: appends) := by
  rcases h.opening_cases with hopening | ⟨hzero, hopening⟩
  · rw [hopening]
    rfl
  · rw [hopening, List.singleton_append, PingJsonBuffer.appendAll, PingJsonBuffer.appendAll,
      List.foldlM_cons, List.foldlM_cons, append_atStart hzero]

theorem nonzero_separator (started : Bool) : 0 ∉ separator started := by
  cases started <;> decide

theorem separator_ne_nil (started : Bool) : separator started ≠ [] := by
  cases started <;> decide

/-- Behind the first field the object has been started. -/
theorem started_append (text : List UInt8) (started : Bool) (field : JsonField) :
    decide (text ++ ((Append.atEnd (separator started) :: field.appends).map Append.text).flatten
      ≠ []) = true := by
  rw [List.map_cons, List.flatten_cons, decide_eq_true_eq]
  exact List.append_ne_nil_of_right_ne_nil _
    (List.append_ne_nil_of_left_ne_nil (separator_ne_nil _) _)

theorem AtEnd.map_text (h : AtEnd appends) : (appends.map Append.text).map .atEnd = appends := by
  induction appends with
  | nil => rfl
  | cons a appends ih =>
      obtain ⟨⟨x, rfl, -⟩, hrest⟩ := h.cons
      rw [List.map_cons, List.map_cons, ih hrest]
      rfl

theorem atEnd_map {texts : List (List UInt8)} (nonzero : ∀ x ∈ texts, 0 ∉ x) :
    AtEnd (texts.map .atEnd) := by
  intro a ha
  obtain ⟨x, hx, rfl⟩ := List.mem_map.mp ha
  exact ⟨x, rfl, nonzero x hx⟩

theorem AtEnd.nonzero_of_mem (h : AtEnd appends) {x : List UInt8}
    (mem : x ∈ appends.map Append.text) : 0 ∉ x := by
  obtain ⟨a, ha, rfl⟩ := List.mem_map.mp mem
  obtain ⟨x, rfl, hx⟩ := h a ha
  exact hx

theorem nonzero_fieldTexts (started : Bool) (fields : List JsonField) :
    ∀ x ∈ fieldTexts started fields, 0 ∉ x := by
  induction fields generalizing started with
  | nil => exact fun _ hx => absurd hx List.not_mem_nil
  | cons field fields ih =>
      intro x hx
      rw [fieldTexts, List.mem_cons, List.mem_append] at hx
      rcases hx with rfl | hx | hx
      · exact nonzero_separator started
      · exact (JsonField.atEnd field).nonzero_of_mem hx
      · exact ih true x hx

/-- What a field appends to a text. -/
theorem atEnd_field (started : Bool) (field : JsonField) :
    AtEnd (.atEnd (separator started) :: field.appends) := by
  have hsingle := AtEnd.singleton (nonzero_separator started)
  exact hsingle.append (JsonField.atEnd field)

theorem Sound.soundFields_appends (h : Sound b t) (fields : List JsonField) :
    SoundFields b fields ↔
      SoundAppends b ((fieldTexts (decide (t ≠ [])) fields).map .atEnd) := by
  induction fields generalizing b t with
  | nil => exact Iff.rfl
  | cons field fields ih =>
      have hatEnd := atEnd_field (decide (t ≠ [])) field
      have hsplit : (fieldTexts (decide (t ≠ [])) (field :: fields)).map Append.atEnd =
          (.atEnd (separator (decide (t ≠ []))) :: field.appends) ++
            (fieldTexts true fields).map .atEnd := by
        rw [fieldTexts, List.map_cons, List.map_append, (JsonField.atEnd field).map_text]
        rfl
      rw [hsplit, soundAppends_append, SoundFields, constructJsonAppends, h.soundAppends_opening]
      apply and_congr_right
      intro hsound
      apply forall_congr'
      intro b'
      have hconstruct : constructJson true b field =
          b.appendAll (.atEnd (separator (decide (t ≠ []))) :: field.appends) := by
        rw [constructJson, if_pos rfl, constructJsonAppends, h.appendAll_opening]
      rw [hconstruct]
      apply imp_congr_right
      intro hb'
      have hsound' := h.appendAll hatEnd hsound hb'
      rw [ih hsound', started_append]

/-- Calls whose texts fit together append them all. -/
theorem Sound.constructAll (h : Sound b t) (fields : List JsonField)
    (fits : t.length + (fieldTexts (decide (t ≠ [])) fields).flatten.length < PING_JSON_MAX) :
    ∃ b', fields.foldlM (constructJson true) b = .ok b' ∧
      Sound b' (t ++ (fieldTexts (decide (t ≠ [])) fields).flatten) := by
  induction fields generalizing b t with
  | nil => exact ⟨b, rfl, by rwa [fieldTexts, List.flatten_nil, List.append_nil]⟩
  | cons field fields ih =>
      have hfirst : (fieldTexts (decide (t ≠ [])) (field :: fields)).flatten =
          ((.atEnd (separator (decide (t ≠ []))) :: field.appends).map Append.text).flatten ++
            (fieldTexts true fields).flatten := by
        rw [fieldTexts, List.flatten_cons, List.flatten_append, ← List.append_assoc]
        rfl
      rw [hfirst] at fits ⊢
      rw [List.length_append] at fits
      obtain ⟨b'', hb'', hsound⟩ := h.appendAll_of_fits (atEnd_field (decide (t ≠ [])) field)
        (by omega)
      have hstarted := started_append t (decide (t ≠ [])) field
      obtain ⟨b', hb', hsound'⟩ := ih hsound (by rw [hstarted, List.length_append]; omega)
      rw [hstarted, List.append_assoc] at hsound'
      refine ⟨b', ?_, hsound'⟩
      rw [List.foldlM_cons, constructJson, if_pos rfl, constructJsonAppends, h.appendAll_opening,
        hb'']
      exact hb'

theorem atEnd_texts (texts : List (List UInt8)) :
    (texts.map Append.atEnd).map Append.text = texts := by
  rw [List.map_map]
  exact List.map_id texts

/-- Calls of `construct_json` are sound as long as the texts fit together. -/
theorem Sound.soundFields_iff (h : Sound b t) (fields : List JsonField) :
    SoundFields b fields ↔ Fits t.length (fieldTexts (decide (t ≠ [])) fields) := by
  rw [h.soundFields_appends,
    h.soundAppends_iff (atEnd_map (nonzero_fieldTexts (decide (t ≠ [])) fields)), atEnd_texts]

end Fields

/-! ## The statistics -/

section Statistics

variable {stack : CBuffer PING_JSON_MAX} {b b' : PingJsonBuffer}

theorem sound_empty : Sound {} [] where
  holds := CBuffer.Holds.of_head rfl
  size := rfl

theorem length_quoted (val : List UInt8) : (quoted val).length = val.length + 2 := by
  rw [quoted, List.length_cons, List.length_append, List.length_singleton]

theorem length_keyed (key : JsonKey) (value : List UInt8) :
    (keyed key value).length = key.text.length + value.length + 4 := by
  simp only [keyed, List.length_cons, List.length_append]
  omega

theorem fits_of_length {size : Nat} {texts : List (List UInt8)}
    (short : size + texts.flatten.length < PING_JSON_MAX) : Fits size texts := by
  rw [← List.takeWhile_append_dropWhile (p := fun x : List UInt8 => x.length < PING_JSON_MAX)
    (l := texts), List.flatten_append, List.length_append] at short
  rw [Fits]
  omega

/-- The members of `rtt`. -/
def rttMembers (rtt : RttTexts) : List Append :=
  jsonKvStrContinue .min rtt.rttmin.bytes ++ jsonKvStrContinue .avg rtt.rttavg.bytes ++
    jsonKvStrContinue .max rtt.rttmax.bytes ++ jsonKvStr .mdev rtt.rttmdev.bytes ++ jsonEndObject

theorem rttAppends_eq (rtt : RttTexts) :
    rttAppends rtt = .atStart [Json.openBrace] :: rttMembers rtt := by
  simp only [rttAppends, rttMembers, jsonStartObject, List.append_assoc]
  rfl

theorem atEnd_rtt (rtt : RttTexts) : AtEnd (rttMembers rtt) :=
  (((((atEnd_str _ rtt.rttmin.toCString).append atEnd_continue).append
    ((atEnd_str _ rtt.rttavg.toCString).append atEnd_continue)).append
    ((atEnd_str _ rtt.rttmax.toCString).append atEnd_continue)).append
    (atEnd_str _ rtt.rttmdev.toCString)).append (AtEnd.singleton (by decide))

theorem length_rttText_le (rtt : RttTexts) : (rttText rtt).length ≤ 200 := by
  have hmember : ∀ (key : JsonKey) (val : TimeText),
      ((jsonKvStr key val.bytes).map Append.text).flatten.length ≤ 46 := by
    intro key val
    have hkey := JsonKey.length_text_le key
    have hval := val.fits
    change (keyed key (quoted val.bytes) ++ []).length ≤ 46
    rw [List.append_nil, length_keyed, length_quoted]
    omega
  have hmin := hmember .min rtt.rttmin
  have havg := hmember .avg rtt.rttavg
  have hmax := hmember .max rtt.rttmax
  have hmdev := hmember .mdev rtt.rttmdev
  have hcontinue : (jsonContinue.map Append.text).flatten.length = 2 := rfl
  have hstart : (jsonStartObject.map Append.text).flatten.length = 1 := rfl
  have hend : (jsonEndObject.map Append.text).flatten.length = 1 := rfl
  simp only [rttText, rttAppends, jsonKvStrContinue, List.map_append, List.flatten_append,
    List.length_append, hcontinue, hstart, hend]
  omega

/-- The buffer of `rtt` is large enough for its four times. -/
theorem rtt_sound (stack : CBuffer PING_JSON_MAX) (rtt : RttTexts) :
    SoundAppends { size := 0, object := stack } (rttAppends rtt) ∧
      ∃ json_rtt, PingJsonBuffer.appendAll { size := 0, object := stack } (rttAppends rtt) =
        .ok json_rtt ∧ Sound json_rtt (rttText rtt) := by
  obtain ⟨object, hobject, hholds⟩ := stack.snprintf_start
    (by decide : 0 ∉ [Json.openBrace]) (by decide)
  have hfirst : PingJsonBuffer.append { size := 0, object := stack } (.atStart [Json.openBrace]) =
      .ok { size := 1, object := object } := by
    rw [PingJsonBuffer.append_eq _ _ hobject]
    rfl
  have hsound : Sound { size := 1, object := object } [Json.openBrace] := ⟨hholds, rfl⟩
  have htext : rttText rtt = [Json.openBrace] ++ ((rttMembers rtt).map Append.text).flatten := by
    rw [rttText, rttAppends_eq]
    rfl
  have hshort : [Json.openBrace].length + ((rttMembers rtt).map Append.text).flatten.length <
      PING_JSON_MAX := by
    have hle := length_rttText_le rtt
    rw [htext, List.length_append] at hle
    exact Nat.lt_of_le_of_lt hle (by decide)
  obtain ⟨json_rtt, hrtt, hsound'⟩ := hsound.appendAll_of_fits (atEnd_rtt rtt) hshort
  rw [rttAppends_eq, htext]
  refine ⟨?_, json_rtt, ?_, hsound'⟩
  · rw [SoundAppends, hfirst]
    exact ⟨hsound.inBounds, (hsound.soundAppends_iff (atEnd_rtt rtt)).mpr (fits_of_length hshort)⟩
  · rw [PingJsonBuffer.appendAll, List.foldlM_cons, hfirst]
    exact hrtt

theorem atEnd_ends (s : JsonStatistics) (rtt : RttTexts) :
    AtEnd (.atEnd [Json.openBrace] :: statisticsMembers s) ∧
      AtEnd (.atEnd (keyed .rtt (rttText rtt)) :: pipeAppends s.pipesize) := by
  obtain ⟨-, json_rtt, -, hsound⟩ := rtt_sound CBuffer.zero rtt
  constructor
  · have hsingle := AtEnd.singleton (by decide : 0 ∉ [Json.openBrace])
    exact hsingle.append (atEnd_statistics s)
  · have hsingle := AtEnd.singleton (@nonzero_keyed .rtt _ hsound.holds.nonzero)
    exact hsingle.append (atEnd_pipe s.pipesize)

/-- The statistics in an empty buffer are one row of appends. -/
theorem Sound.constructJsonStatistics (h : Sound b []) (stack : CBuffer PING_JSON_MAX)
    (s : JsonStatistics) (rtt : RttTexts) :
    constructJsonStatistics true stack b s rtt =
      b.appendAll ((.atEnd [Json.openBrace] :: statisticsMembers s) ++
        (.atEnd (keyed .rtt (rttText rtt)) :: pipeAppends s.pipesize)) := by
  obtain ⟨-, json_rtt, happend, hsound⟩ := rtt_sound stack rtt
  rw [Coping.constructJsonStatistics, if_pos rfl, h.appendAll_opening, happend,
    appendAll_append]
  change (_ >>= fun b => PingJsonBuffer.appendAll b (jsonKvObject .rtt json_rtt ++ _)) = _
  rw [jsonKvObject, hsound.holds.text]
  rfl

theorem soundStatistics_iff (stack : CBuffer PING_JSON_MAX) (s : JsonStatistics)
    (rtt : RttTexts) :
    SoundStatistics stack {} s rtt ↔ Fits 0 (statisticsTexts s rtt) := by
  obtain ⟨hrtt, json_rtt, happend, hsound⟩ := rtt_sound stack rtt
  obtain ⟨hatEnd, hobject⟩ := atEnd_ends s rtt
  have htexts : ((.atEnd [Json.openBrace] :: statisticsMembers s) ++
      (.atEnd (keyed .rtt (rttText rtt)) :: pipeAppends s.pipesize)).map Append.text =
      statisticsTexts s rtt := by
    rw [List.map_append, statisticsTexts]
    rfl
  have hends := sound_empty.soundAppends_iff (hatEnd.append hobject)
  rw [htexts, soundAppends_append] at hends
  refine Iff.trans ?_ hends
  rw [SoundStatistics, and_iff_right hrtt, sound_empty.soundAppends_opening,
    sound_empty.appendAll_opening]
  apply and_congr_right
  intro _
  constructor
  · intro h b' hb'
    have := h b' json_rtt hb' happend
    rwa [jsonKvObject, hsound.holds.text] at this
  · intro h b' r hb' hr
    rw [happend] at hr
    cases hr
    rw [jsonKvObject, hsound.holds.text]
    exact h b' hb'

end Statistics

/-! ## All calls -/

/-- The buffers are within their bounds exactly as long as the texts that are appended to
an empty buffer fit together, up to the first one that is too long by itself. -/
theorem json_bounds_iff (fields : List JsonField) (stack : CBuffer PING_JSON_MAX)
    (s : JsonStatistics) (rtt : RttTexts) :
    (SoundFields {} fields ↔ Fits 0 (fieldTexts false fields)) ∧
      (SoundStatistics stack {} s rtt ↔ Fits 0 (statisticsTexts s rtt)) :=
  ⟨sound_empty.soundFields_iff fields, soundStatistics_iff stack s rtt⟩

/-- An address with so many zeros in front that `"host"` takes all the room that one append
may take. -/
def longAddress : CString where
  bytes := List.replicate 3980 0x30 ++ [0x31, 0x32, 0x37, 0x2e, 0x30, 0x2e, 0x30, 0x2e, 0x31]
  nonzero := by
    rw [List.mem_append, List.mem_replicate, not_or]
    exact ⟨by decide, by decide⟩

def longMessage : CString where
  bytes := List.replicate 2100 0x61
  nonzero := by
    rw [List.mem_replicate]
    decide

/-- A text for which there is no room, though it is short enough by itself. -/
theorem not_fits {size : Nat} {x : List UInt8} {texts : List (List UInt8)}
    (lt : size < PING_JSON_MAX) (short : x.length < PING_JSON_MAX)
    (full : PING_JSON_MAX ≤ size + x.length) : ¬Fits size (x :: texts) := by
  rw [fits_cons lt, not_or, not_and]
  exact ⟨Nat.not_le_of_lt short, fun hlt => absurd hlt (Nat.not_lt_of_le full)⟩

/-- The host name alone fills the buffer of the statistics, and two messages the one of a
packet. -/
theorem json_bounds_exceeded :
    ¬((∀ fields : List JsonField, SoundFields {} fields) ∧
      ∀ (stack : CBuffer PING_JSON_MAX) (s : JsonStatistics) (rtt : RttTexts),
        SoundStatistics stack {} s rtt) ∧
      ¬SoundFields {} [.str .error longMessage, .str .error longMessage] := by
  constructor
  · rintro ⟨-, h⟩
    have htime : TimeText := ⟨⟨[0x31], by decide⟩, by decide⟩
    have hsound := h CBuffer.zero ⟨longAddress, 1, 1, 0, 0, 0, 0, 0, 1⟩
      ⟨htime, htime, htime, htime⟩
    have hhost : (keyed .host (quoted longAddress.bytes)).length = 3999 := by
      have hkey : JsonKey.host.text.length = 4 := ascii_length _
      have haddress : longAddress.bytes.length = 3989 := by
        rw [longAddress, List.length_append, List.length_replicate]
        rfl
      rw [length_keyed, length_quoted, hkey, haddress]
    have hshort : (keyed .host (quoted longAddress.bytes)).length < PING_JSON_MAX := by
      rw [hhost]
      decide
    have hfull : PING_JSON_MAX ≤ 0 + [Json.openBrace].length +
        (keyed .host (quoted longAddress.bytes)).length := by
      rw [hhost]
      decide
    rw [soundStatistics_iff, statisticsTexts, List.cons_append, fits_cons (by decide)] at hsound
    rcases hsound with hlong | ⟨-, hfits⟩
    · exact absurd hlong (by decide)
    · exact not_fits (by decide) hshort hfull hfits
  · have hmessage : (keyed .error (quoted longMessage.bytes)).length = 2111 := by
      have hkey : JsonKey.error.text.length = 5 := ascii_length _
      have hlength : longMessage.bytes.length = 2100 := List.length_replicate
      rw [length_keyed, length_quoted, hkey, hlength]
    have hshort : (keyed .error (quoted longMessage.bytes)).length < PING_JSON_MAX := by
      rw [hmessage]
      decide
    rw [sound_empty.soundFields_iff]
    change ¬Fits 0 [[Json.openBrace], keyed .error (quoted longMessage.bytes),
      [Json.comma, Json.space], keyed .error (quoted longMessage.bytes)]
    rw [fits_cons (by decide), fits_cons (by decide), fits_cons (by rw [hmessage]; decide),
      hmessage]
    intro h
    rcases h with hlong | ⟨-, hlong | ⟨-, hlong | ⟨-, hfits⟩⟩⟩
    · exact absurd hlong (by decide)
    · exact absurd hlong (by decide)
    · exact absurd hlong (by decide)
    · exact not_fits (by decide) hshort (by rw [hmessage]; decide) hfits

end Coping.JsonBuffer
