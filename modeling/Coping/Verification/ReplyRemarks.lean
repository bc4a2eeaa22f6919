import Coping.Verification.ReplyLine

/-!
# Remarks on a reply

The texts that are printed whether or not there is `-j`. Each of them begins with something
stray, whatever names are in it. In front of what ends a node information reply there are
names, in which a quote has a backslash in front.
-/

namespace Coping.ReplyLine

open CFormat JsonBuffer JsonLine
open Json (quote isPlain isStray EscapedText)

/-! ## Texts without quotes -/

section Unquoted

variable {a b text : List UInt8}

theorem unquoted_append : quote ∉ a ++ b ↔ quote ∉ a ∧ quote ∉ b := by
  rw [List.mem_append, not_or]

theorem unquoted_hex (width n : Nat) : quote ∉ based 16 width n :=
  quote_of_plain (plain_based (by decide) (by decide) width n)

theorem unquoted_literal (text : List Char)
    (check : text.all (fun c => UInt8.ofNat c.toNat != quote) = true) :
    quote ∉ ascii (String.ofList text) := by
  rw [ascii_ofList]
  intro h
  obtain ⟨c, hc, heq⟩ := List.mem_map.mp h
  have hother := List.all_eq_true.mp check c hc
  rw [heq] at hother
  cases hother

theorem stray_literal (text : List Char)
    (noQuote : text.all (fun c => UInt8.ofNat c.toNat != quote) = true)
    (stray : text.any (fun c => isStray (UInt8.ofNat c.toNat)) = true) :
    Strays (ascii (String.ofList text)) := by
  have hquote := unquoted_literal text noQuote
  rw [ascii_ofList] at hquote ⊢
  obtain ⟨c, hc, hstray⟩ := List.any_eq_true.mp stray
  exact ⟨_, [], (List.append_nil _).symm, .of_notMem hquote, _, List.mem_map_of_mem hc, hstray⟩

end Unquoted

/-! ## IP options -/

/-- An option that holds no route and no times yet. -/
def Unfilled (cp : Nat → UInt8) (start : Nat) : Prop :=
  let pointer := min (cp (start + 2)).toNat (cp (start + 1)).toNat
  cp start = IPOPT_RR ∧ pointer ≤ IPOPT_MINOFF.toNat ∨ cp start = IPOPT_TS ∧ pointer ≤ 5

/-- Nothing is printed for the options: there is nothing to be read in the list, or only
options that are not filled. -/
inductive Silent (cp : Nat → UInt8) : Nat → Nat → Prop where
  | empty (start : Nat) : Silent cp start 0
  | ended {start : Nat} (totlen : Nat) (h : cp start = IPOPT_EOL) : Silent cp start totlen
  | malformed {start totlen : Nat} (option : cp start ≠ IPOPT_NOP)
      (size : (cp (start + 1)).toNat < 2 ∨ totlen < (cp (start + 1)).toNat) :
      Silent cp start totlen
  | unfilled {start totlen : Nat} (lower : 2 ≤ (cp (start + 1)).toNat)
      (upper : (cp (start + 1)).toNat ≤ totlen) (h : Unfilled cp start)
      (rest : Silent cp (start + (cp (start + 1)).toNat) (totlen - (cp (start + 1)).toNat)) :
      Silent cp start totlen

section Options

variable (prAddr : PrAddr) (cp : Nat → UInt8)

theorem option_of_unfilled {start : Nat} (h : Unfilled cp start) (optFlood : Bool)
    (oldRr : List UInt8) : prOption prAddr cp optFlood start oldRr = ([], oldRr) := by
  rcases h with ⟨htype, hpointer⟩ | ⟨htype, hpointer⟩
  · rw [prOption, htype, if_neg (by decide), if_pos rfl]
    exact if_pos hpointer
  · rw [prOption, htype, if_neg (by decide), if_neg (by decide), if_pos rfl]
    exact if_pos hpointer

/-- Any other option shows. -/
theorem stray_option {start : Nat} (h : ¬Unfilled cp start) (optFlood : Bool)
    (oldRr : List UInt8) : Strays (prOption prAddr cp optFlood start oldRr).1 := by
  obtain ⟨hroute, htimes⟩ := not_or.mp h
  rw [prOption]
  split
  · have hnewline : EscapedText (ascii "\n") := .of_notMem (unquoted_literal _ (by decide))
    refine (Strays.append ?_ _).append _
    split
    · exact (stray_literal _ (by decide) (by decide)).behind hnewline
    · exact (stray_literal _ (by decide) (by decide)).behind hnewline
  split
  next htype =>
    dsimp only
    split
    next hpointer => exact absurd ⟨htype, hpointer⟩ hroute
    split
    · exact stray_literal _ (by decide) (by decide)
    · exact (stray_literal _ (by decide) (by decide)).append _
  split
  next htype =>
    split
    next hpointer => exact absurd ⟨htype, hpointer⟩ htimes
    · dsimp only
      rw [List.append_assoc]
      exact (stray_literal _ (by decide) (by decide)).append _
  · exact (stray_literal _ (by decide) (by decide)).append _

/-- The options are silent, or what is printed for them is stray. -/
theorem silent_or_stray (optFlood : Bool) (start totlen : Nat) (oldRr : List UInt8) :
    Silent cp start totlen ∧ (prOptions prAddr cp optFlood start totlen oldRr).1 = [] ∨
      ¬Silent cp start totlen ∧ Strays (prOptions prAddr cp optFlood start totlen oldRr).1 := by
  induction totlen using Nat.strongRecOn generalizing start oldRr with
  | ind totlen ih =>
      rw [prOptions]
      split
      next hover =>
        refine .inl ⟨?_, rfl⟩
        rcases hover with rfl | hend
        · exact .empty start
        · exact .ended totlen hend
      next hmore =>
      obtain ⟨hempty, hend⟩ := not_or.mp hmore
      split
      next hnop =>
        refine .inr ⟨?_, (stray_literal _ (by decide) (by decide)).append _⟩
        intro hsilent
        cases hsilent with
        | empty => exact hempty rfl
        | ended _ h => exact hend h
        | malformed h => exact h hnop
        | unfilled _ _ h =>
            rcases h with ⟨htype, -⟩ | ⟨htype, -⟩
            · cases hnop.symm.trans htype
            · cases hnop.symm.trans htype
      next hnop =>
      dsimp only
      split
      next hsize => exact .inl ⟨.malformed hnop hsize, rfl⟩
      next hsize =>
      obtain ⟨hlower, hupper⟩ := not_or.mp hsize
      by_cases hunfilled : Unfilled cp start
      · rw [option_of_unfilled prAddr cp hunfilled, List.nil_append]
        obtain ⟨hsilent, hrest⟩ | ⟨hsilent, hrest⟩ := ih (totlen - (cp (start + 1)).toNat)
          (by omega) (start + (cp (start + 1)).toNat) oldRr
        · exact .inl ⟨.unfilled (by omega) (by omega) hunfilled hsilent, hrest⟩
        · refine .inr ⟨?_, hrest⟩
          intro h
          cases h with
          | empty => exact hempty rfl
          | ended _ h => exact hend h
          | malformed _ h => exact hsize h
          | unfilled _ _ _ hrest => exact hsilent hrest
      · refine .inr ⟨?_, (stray_option prAddr cp hunfilled optFlood oldRr).append _⟩
        intro h
        cases h with
        | empty => exact hempty rfl
        | ended _ h => exact hend h
        | malformed _ h => exact hsize h
        | unfilled _ _ h => exact hunfilled h

end Options

/-! ## The parts of a reply -/

/-- Remarks and plain fields. -/
structure Part (made : Prop) (length : Nat) (items : List Printed) : Prop
    extends Remarked made length items where
  plain : ∀ f ∈ jsonFields items, Plain f

/-- Remarks without a quote that opens a string, and plain fields. -/
structure Piece (length : Nat) (items : List Printed) : Prop where
  noError : NoError items
  plain : ∀ f ∈ jsonFields items, Plain f
  escaped : EscapedText (rawText items)
  short : fieldsLength (jsonFields items) ≤ length

/-- Remarks and fields, of which one is the host and not the first. -/
structure HostPart (host : HostText) (made : Prop) (length : Nat) (items : List Printed) : Prop
    extends Remarked made length items where
  fields : ∃ before after, before ≠ [] ∧ (∀ f ∈ before, Plain f) ∧ (∀ f ∈ after, Plain f) ∧
    jsonFields items = before ++ .str .host (cString host.bytes) :: after

section Part

variable {made made' : Prop} {length length' : Nat} {items items' : List Printed}
  {host : HostText}

theorem plain_append (h : ∀ f ∈ jsonFields items, Plain f) (h' : ∀ f ∈ jsonFields items', Plain f) :
    ∀ f ∈ jsonFields (items ++ items'), Plain f := by
  intro f hf
  rw [jsonFields_append, List.mem_append] at hf
  exact hf.elim (h f) (h' f)

theorem Piece.nil : Piece length [] where
  noError := noError_nil
  plain := fun _ h => absurd h List.not_mem_nil
  escaped := .nil
  short := Nat.zero_le _

theorem Piece.append (h : Piece length items) (h' : Piece length' items') :
    Piece (length + length') (items ++ items') where
  noError := noError_append.mpr ⟨h.noError, h'.noError⟩
  plain := plain_append h.plain h'.plain
  escaped := by
    rw [rawText_append]
    exact h.escaped.append h'.escaped
  short := by
    rw [jsonFields_append, fieldsLength_append]
    exact Nat.add_le_add h.short h'.short

theorem Piece.mono (h : Piece length items) (le : length ≤ length') : Piece length' items where
  noError := h.noError
  plain := h.plain
  escaped := h.escaped
  short := Nat.le_trans h.short le

theorem Piece.raw {text : List UInt8} (escaped : EscapedText text) : Piece 0 [.raw text] where
  noError := noError_raw text
  plain := fun _ h => absurd h List.not_mem_nil
  escaped := by
    rw [rawText, rawText, List.append_nil]
    exact escaped
  short := Nat.zero_le _

theorem Piece.field {f : JsonField} (plain : Plain f) (short : (memberText f).length + 2 ≤ length) :
    Piece length [.field f] where
  noError := noError_field f
  plain := List.forall_mem_singleton.mpr plain
  escaped := .nil
  short := short

theorem Part.nil (unmade : ¬made) : Part made length [] where
  toRemarked := .nil unmade
  plain := fun _ h => absurd h List.not_mem_nil

theorem Part.append (h : Part made length items) (h' : Part made' length' items') :
    Part (made ∨ made') (length + length') (items ++ items') where
  toRemarked := h.toRemarked.append h'.toRemarked
  plain := plain_append h.plain h'.plain

/-- Behind something that is remarked on in any case it does not matter what is in front. -/
theorem Piece.followed (h : Piece length items) (h' : Part True length' items') :
    Part True (length + length') (items ++ items') where
  noError := noError_append.mpr ⟨h.noError, h'.noError⟩
  short := by
    rw [jsonFields_append, fieldsLength_append]
    exact Nat.add_le_add h.short h'.short
  remark := by
    rw [rawText_append]
    exact h'.remark.imp (fun hunmade => absurd trivial hunmade.1)
      fun hmade => ⟨trivial, hmade.2.behind h.escaped⟩
  plain := plain_append h.plain h'.plain

theorem Part.raw {text : List UInt8} (shown : made) (strays : Strays text) :
    Part made length [.raw text] where
  toRemarked := .raw shown strays
  plain := fun _ h => absurd h List.not_mem_nil

theorem Part.field {f : JsonField} (unmade : ¬made) (plain : Plain f)
    (short : (memberText f).length + 2 ≤ length) : Part made length [.field f] where
  toRemarked := .field unmade short
  plain := List.forall_mem_singleton.mpr plain

theorem Part.mono (h : Part made length items) (same : made ↔ made') (le : length ≤ length') :
    Part made' length' items where
  toRemarked := h.toRemarked.mono same le
  plain := h.plain

/-- The host stands between other fields. -/
theorem Part.around (host : HostText) (h : Part made length items)
    (nonempty : jsonFields items ≠ []) (h' : Part made' length' items') :
    HostPart host (made ∨ made') (length + host.bytes.length + 20 + length')
      (items ++ [hostField host] ++ items') where
  toRemarked := by
    have hlength := length_member_str .host (cString host.bytes)
    rw [cString_of_nonzero host.nonzero] at hlength
    have hfield : Remarked False (host.bytes.length + 20) [hostField host] :=
      .field not_false (by omega)
    exact ((h.toRemarked.append hfield).append h'.toRemarked).mono (by tauto) (by omega)
  fields := by
    refine ⟨jsonFields items, jsonFields items', nonempty, h.plain, h'.plain, ?_⟩
    rw [jsonFields_append, jsonFields_append, List.append_assoc]
    rfl

theorem HostPart.append (h : HostPart host made length items) (h' : Part made' length' items') :
    HostPart host (made ∨ made') (length + length') (items ++ items') where
  toRemarked := h.toRemarked.append h'.toRemarked
  fields := by
    obtain ⟨before, after, hnonempty, hplain, hplain', heq⟩ := h.fields
    refine ⟨before, after ++ jsonFields items', hnonempty, hplain, ?_, ?_⟩
    · intro f hf
      exact (List.mem_append.mp hf).elim (hplain' f) (h'.plain f)
    · rw [jsonFields_append, heq, List.append_assoc]
      rfl

theorem HostPart.mono (h : HostPart host made length items) (same : made ↔ made')
    (le : length ≤ length') : HostPart host made' length' items where
  toRemarked := h.toRemarked.mono same le
  fields := h.fields

/-- The fields are a line exactly when the host may stand in one. -/
theorem HostPart.legible_iff (h : HostPart host made length items) :
    Legible (jsonFields items) ↔ HostShown host.bytes := by
  obtain ⟨before, after, hnonempty, hplain, hplain', heq⟩ := h.fields
  have hfields : before ++ .str .host (cString host.bytes) :: after ≠ [] :=
    List.append_ne_nil_of_left_ne_nil hnonempty _
  have hbytes : (cString host.bytes).bytes = host.bytes := cString_of_nonzero host.nonzero
  rw [heq, Legible, or_iff_right hfields, objectLine_host_iff hnonempty hplain hplain', hbytes]

theorem part_int (key : JsonKey) (val : Int) : Part False 32 [intField key val] :=
  .field not_false trivial (Nat.add_le_add_right (length_member_int key _) 2)

theorem part_str {text : List UInt8} (key : JsonKey) (plain : text.all isPlain = true)
    (short : text.length + 20 ≤ length) : Part False length [.field (.str key (cString text))] := by
  have hbytes := cString_bytes plain
  have hmember := length_member_str key (cString text)
  rw [hbytes] at hmember
  refine .field not_false ?_ (by omega)
  rw [Plain, hbytes]
  exact plain

theorem part_remark (shown : Bool) (text : List Char)
    (noQuote : text.all (fun c => UInt8.ofNat c.toNat != quote) = true)
    (stray : text.any (fun c => isStray (UInt8.ofNat c.toNat)) = true) :
    Part (shown = true) 0 (remark shown (String.ofList text)) := by
  rw [remark]
  split
  next hshown => exact .raw hshown (stray_literal text noQuote stray)
  next hshown => exact .nil hshown

end Part

section Reply

variable {s : Settings} {rts : PingRts} {p : Packet}

theorem part_timestamp (rts : PingRts) (clock : Timeval) :
    Part (rts.optPtimeofday = true) 0 (timestampText rts clock) := by
  rw [timestampText]
  split
  next hshown =>
    apply Part.raw hshown
    exact ((((stray_literal _ (by decide) (by decide)).append _).append _).append _).append _
  next hshown => exact .nil hshown

/-- The data have come back as they were sent. -/
def Intact (rts : PingRts) (icmp : Nat → UInt8) : Prop :=
  ∀ i, 16 ≤ i → i < rts.datalen → icmp (8 + i) = (rts.outpack.bytes[8 + i]?).getD 0

theorem intact_iff (rts : PingRts) (icmp : Nat → UInt8) :
    Intact rts icmp ↔ wrongByte rts icmp = none := by
  rw [wrongByte, List.find?_eq_none]
  constructor
  · intro h i hi hwrong
    obtain ⟨hlower, hupper⟩ := List.mem_range'_1.mp hi
    exact of_decide_eq_true hwrong (h i hlower (by omega))
  · intro h i hlower hupper
    by_contra hwrong
    exact h i (List.mem_range'_1.mpr ⟨hlower, by omega⟩) (decide_eq_true hwrong)

theorem part_data (rts : PingRts) (icmp : Nat → UInt8) :
    Part (¬Intact rts icmp) 0 (dataText rts icmp) := by
  unfold dataText
  cases hwrong : wrongByte rts icmp with
  | none => exact .nil (not_not.mpr ((intact_iff rts icmp).mpr hwrong))
  | some i =>
      have hmade : ¬Intact rts icmp := by
        rw [intact_iff, hwrong]
        exact Option.some_ne_none i
      apply Part.raw hmade
      have hfront := stray_literal "\nwrong data byte #".toList (by decide) (by decide)
      exact (((((hfront.append _).append _).append _).append _).append _).append _

theorem part_audible (s : Settings) : Part (s.optAudible = true) 0 (audible s) := by
  rw [audible]
  split
  next hshown =>
    exact .raw hshown
      ⟨[0x07], [], rfl, .of_notMem (by decide), 0x07, List.mem_singleton_self _, rfl⟩
  next hshown => exact .nil hshown

/-- What a reply leaves on the screen with `-f`. -/
theorem remarked_flood (csfailed : Bool) :
    Remarked True 0 [.raw (if csfailed then ascii "\x08C" else ascii "\x08 \x08")] := by
  split
  · exact .raw trivial (stray_literal "\x08C".toList (by decide) (by decide))
  · exact .raw trivial (stray_literal "\x08 \x08".toList (by decide) (by decide))

theorem plain_replyTime (optRttPrecision : Bool) (triptime : Int) :
    (replyTime optRttPrecision triptime).all isPlain = true := by
  have hpoint : ∀ (width : Nat) (num dec : Int),
      (decimal num ++ ascii "." ++ zeroPadded width dec).all isPlain = true := by
    intro width num dec
    rw [List.all_append, List.all_append, plain_decimal, plain_zeroPadded, ascii_ofList]
    rfl
  rw [replyTime]
  apply plain_truncated
  dsimp only
  split
  · exact hpoint _ _ _
  split
  · exact plain_decimal _
  split
  · exact hpoint _ _ _
  split
  · exact hpoint _ _ _
  · exact hpoint _ _ _

theorem part_time (s : Settings) (rts : PingRts) (reply : Reply) :
    Part False 50 (timeField s rts reply) := by
  rw [timeField]
  split
  · refine part_str .time (plain_replyTime _ _) ?_
    have hlength : (replyTime s.optRttPrecision (shownTime rts reply)).length < 30 :=
      length_truncated (by decide) _
    omega
  · exact .nil not_false

theorem length_host (host : HostText) : host.bytes.length ≤ 2051 := by
  have hname := host.name.fits
  have haddress := host.address.fits
  have hmax : NI_MAXHOST = 1025 := rfl
  rw [HostText.bytes]
  split
  · rw [List.length_append, List.length_append, List.length_append, ascii_length, ascii_length]
    change _ + 2 + _ + 1 ≤ _
    omega
  · omega

theorem part_head {made : Prop} {length : Nat} {prReply : List Printed} (s : Settings)
    (rts : PingRts) (p : Packet) (h : Part made length prReply) :
    HostPart p.host (rts.optPtimeofday = true ∨ made) (2200 + length)
      (replyHead s rts p prReply) := by
  have hlength := length_host p.host
  have hident : Part False 32 (if s.optVerbose ∧ rts.ident ≠ -1 then
      [intField .ident (ntohs (UInt16.ofInt rts.ident)).toNat] else []) := by
    split
    · exact part_int .ident _
    · exact .nil not_false
  have httl : Part False 32 (if p.hops ≥ 0 then [intField .ttl p.hops] else []) := by
    split
    · exact part_int .ttl _
    · exact .nil not_false
  have hfront : Part (rts.optPtimeofday = true ∨ False) (0 + 32)
      (timestampText rts p.clock ++ [intField .bytes p.reply.cc]) :=
    (part_timestamp rts p.clock).append (part_int .bytes p.reply.cc)
  have hbytes : jsonFields (timestampText rts p.clock ++ [intField .bytes p.reply.cc]) ≠ [] := by
    rw [jsonFields_append]
    exact List.append_ne_nil_of_right_ne_nil _ (List.cons_ne_nil _ _)
  have hall := ((hfront.around p.host hbytes h).append hident).append httl
  rw [List.append_assoc (timestampText rts p.clock)] at hall
  exact hall.mono (by tauto) (by omega)

theorem part_tail (s : Settings) (rts : PingRts) (p : Packet) (wrongSource : Bool) :
    Part (dupShown s rts p.reply = true ∨ p.reply.csfailed = true ∨ wrongSource = true ∨
      ¬Intact rts p.icmp) 50 (replyTail s rts p wrongSource) := by
  have hdup : Part _ 0 (remark (dupShown s rts p.reply) " (DUP!)") :=
    part_remark _ _ (by decide) (by decide)
  have hchecksum : Part _ 0 (remark p.reply.csfailed " (BAD CHECKSUM!)") :=
    part_remark _ _ (by decide) (by decide)
  have hsource : Part _ 0 (remark wrongSource " (DIFFERENT ADDRESS!)") :=
    part_remark _ _ (by decide) (by decide)
  have hall := ((((part_time s rts p.reply).append hdup).append hchecksum).append hsource).append
    (part_data rts p.icmp)
  exact hall.mono (by tauto) (by omega)

theorem part_options (prAddr : PrAddr) (cp : Nat → UInt8) (optFlood : Bool) (start totlen : Nat)
    (oldRr : List UInt8) :
    Part (¬Silent cp start totlen) 0
      [.raw (prOptions prAddr cp optFlood start totlen oldRr).1] where
  noError := noError_raw _
  short := Nat.zero_le _
  remark := by
    rw [rawText, rawText, List.append_nil]
    exact (silent_or_stray prAddr cp optFlood start totlen oldRr).imp
      (fun h => ⟨not_not.mpr h.1, h.2⟩) id
  plain := fun _ h => absurd h List.not_mem_nil

end Reply

/-! ## Node information -/

section NodeInformation

theorem piece_comma (continued : Bool) : Piece 0 (commaBefore continued) := by
  rw [commaBefore]
  split
  · exact .raw (.of_notMem (unquoted_literal _ (by decide)))
  · exact .nil

theorem piece_error (reason : List Char) (plain : (ascii (String.ofList reason)).all isPlain = true)
    (short : reason.length ≤ 20) : Piece 40 [errorField (ascii (String.ofList reason))] := by
  have hpart : Part False 40 [errorField (ascii (String.ofList reason))] :=
    part_str .error plain (by rw [ascii_length]; omega)
  exact .field (hpart.plain _ List.mem_cons_self) hpart.short

theorem escaped_putcharSafe {c : UInt8} (other : c ≠ quote) : EscapedText (putcharSafe c) := by
  apply EscapedText.of_notMem
  rw [putcharSafe]
  split
  · rw [List.mem_singleton]
    exact Ne.symm other
  · rw [List.mem_cons, not_or]
    exact ⟨by decide, quote_of_plain (plain_based (by decide) (by decide) _ _)⟩

/-- A quote of a name keeps its backslash. -/
theorem escaped_name {bytes : List UInt8} (h : EscapedText bytes) :
    EscapedText (bytes.flatMap putcharSafe) := by
  induction h with
  | nil => exact .nil
  | other hc _ ih =>
      rw [List.flatMap_cons]
      exact (escaped_putcharSafe hc).append ih
  | quoted _ ih => exact .quoted ih

theorem piece_names (icmp : Nat → UInt8) (ni : NiReply) (size : Nat) (continued : Bool) (p : Nat) :
    Piece 40 (niNames icmp ni size continued p) := by
  induction hleft : size - p using Nat.strongRecOn generalizing p continued with
  | ind left ih =>
      rw [niNames]
      split
      case isFalse => exact .nil
      next hmore =>
        refine ((piece_comma continued).append ?_).mono (Nat.le_of_eq (Nat.zero_add 40))
        cases ni.name p with
        | none => exact piece_error _ (by decide) (by decide)
        | some name =>
            have hpositive := name.positive
            have hname : EscapedText (ascii " " ++ name.bytes.flatMap putcharSafe ++
                if ¬(p + name.ret < size ∧ icmp (p + name.ret) = 0) then ascii "." else []) := by
              refine ((EscapedText.of_notMem (unquoted_literal _ (by decide))).append
                (escaped_name name.escaped)).append ?_
              split
              · exact .of_notMem (unquoted_literal _ (by decide))
              · exact .nil
            exact (Piece.raw hname).append (ih _ (by omega) true _ rfl)

theorem piece_addresses (ni : NiReply) (size aflen : Nat) (continued : Bool) (p : Nat) :
    Piece 40 (niAddresses ni size aflen continued p) := by
  induction hleft : size - p using Nat.strongRecOn generalizing p continued with
  | ind left ih =>
      rw [niAddresses]
      split
      case isFalse => exact .nil
      next hmore =>
        refine ((piece_comma continued).append ?_).mono (Nat.le_of_eq (Nat.zero_add 40))
        split
        · exact piece_error _ (by decide) (by decide)
        · have haddress : quote ∉ ascii " " ++ (ni.address (p + 4)).bytes :=
            unquoted_append.mpr
              ⟨unquoted_literal _ (by decide), quote_of_plain (ni.address (p + 4)).plain⟩
          exact (Piece.raw (.of_notMem haddress)).append (ih _ (by omega) true _ rfl)

/-- A node information reply ends with a remark. -/
theorem part_niquery (icmp : Nat → UInt8) (ni : NiReply) (len : Int) :
    Part True 80 (prNiqueryReply icmp ni len) := by
  have hseq : Part True 0
      [.raw (ascii "; seq=" ++ decimal ni.nonceSeq.toNat ++ ascii ";")] := by
    apply Part.raw trivial
    exact ((stray_literal _ (by decide) (by decide)).append _).append _
  have haddresses : ∀ aflen, Piece 80 (niReplyAddr ni len aflen) := by
    intro aflen
    rw [niReplyAddr]
    split
    · exact (piece_error _ (by decide) (by decide)).mono (by decide)
    · have htruncated : Piece 40 (if ni.truncateFlag then [printTruncated] else []) := by
        split
        · have hinfo : Part False 40 [printTruncated] := part_str .info (by decide) (by decide)
          exact .field (hinfo.plain _ List.mem_cons_self) hinfo.short
        · exact .nil
      exact (piece_addresses ni len.toNat aflen false 16).append htruncated
  refine @Piece.followed 80 0 _ _ ?_ hseq
  split
  · split
    · rw [niReplyName]
      split
      · exact (piece_error _ (by decide) (by decide)).mono (by decide)
      · exact (piece_names icmp ni len.toNat false (16 + 4)).mono (by decide)
    split
    · exact haddresses 4
    split
    · exact haddresses 16
    · exact (piece_error _ (by decide) (by decide)).mono (by decide)
  split
  · exact (Piece.raw (.of_notMem (unquoted_literal _ (by decide)))).mono (by decide)
  split
  · exact (Piece.raw (.of_notMem (unquoted_literal _ (by decide)))).mono (by decide)
  · have hcode : quote ∉
        ascii " unknown code(" ++ based 16 2 (ni.code.toNat * 256) ++ ascii ")" := by
      rw [unquoted_append, unquoted_append]
      exact ⟨⟨unquoted_literal _ (by decide), unquoted_hex _ _⟩, unquoted_literal _ (by decide)⟩
    exact (Piece.raw (.of_notMem hcode)).mono (by decide)

end NodeInformation

/-! ## The whole reply -/

/-- The time in the reply is later than the one at which it was received. -/
def GoesBack (rts : PingRts) (reply : Reply) : Prop :=
  rts.timing = true ∧ reply.cc ≥ TIMED_LEN ∧ elapsed reply.tv reply.stamp = none

/-- It is so, too, after the clock is read again. -/
def StaysBack (rts : PingRts) (reply : Reply) : Prop :=
  GoesBack rts reply ∧ ¬rts.optLatency = true ∧ elapsed reply.now reply.stamp = none

/-- Nothing is printed but the fields. `made` is about the printer of the reply, and
`behind` about what comes after `gather_statistics`. -/
def Undisturbed (s : Settings) (rts : PingRts) (p : Packet) (wrongSource : Bool)
    (made behind : Prop) : Prop :=
  if rts.optQuiet then ¬StaysBack rts p.reply
  else
    rts.optFlood = false ∧ ¬GoesBack rts p.reply ∧ rts.optPtimeofday = false ∧
      HostShown p.host.bytes ∧ ¬made ∧
      (p.reply.cc < rts.datalen + 8 ∨
        dupShown s rts p.reply = false ∧ p.reply.csfailed = false ∧ wrongSource = false ∧
          Intact rts p.icmp ∧ ¬behind)

section Whole

variable {strerror : Int → CString} {b : PingJsonBuffer} {items : List Printed}

theorem plain_goesBack (tv stamp : Timeval) :
    (ascii "Warning: time of day goes back (" ++ decimal (clampUsec (tvsub tv stamp)).tvSec ++
      ascii " s), taking countermeasures").all isPlain = true := by
  rw [List.all_append, List.all_append, plain_decimal, ascii_ofList, ascii_ofList]
  rfl

theorem timeWarnings_forward {rts : PingRts} {reply : Reply} (h : ¬GoesBack rts reply) :
    timeWarnings rts reply = [] := by
  rw [timeWarnings]
  exact if_neg h

theorem timeWarnings_once {rts : PingRts} {reply : Reply} (h : GoesBack rts reply)
    (once : ¬StaysBack rts reply) :
    timeWarnings rts reply = [goesBack reply.tv reply.stamp] := by
  rw [timeWarnings, if_neg fun again => once ⟨h, again⟩]
  exact if_pos h

theorem timeWarnings_twice {rts : PingRts} {reply : Reply} (h : StaysBack rts reply) :
    timeWarnings rts reply =
      [goesBack reply.tv reply.stamp, goesBack reply.now reply.stamp] := by
  rw [timeWarnings, if_pos h.2]
  exact if_pos h.1

/-- Warnings are lines of their own, and leave room for nothing else. -/
theorem readable_warned {made : Prop} {length : Nat} (h : Sound b []) (rts : PingRts)
    (reply : Reply) (remarked : Remarked made length items) (fits : length < PING_JSON_MAX) :
    Readable (printPacket strerror (timeWarnings rts reply ++ items) b) ↔
      ¬made ∧ ¬StaysBack rts reply ∧ (GoesBack rts reply → jsonFields items = []) ∧
        Legible (jsonFields items) := by
  have hitems : ∀ {b}, Sound b [] → ∃ out b', printPacket strerror items b = .ok (out, b') ∧
      (MachineReadable out ↔ ¬made ∧ Legible (jsonFields items)) ∧
      (out = [] ↔ ¬made ∧ jsonFields items = []) :=
    fun hb => printPacket_fields hb remarked fits
  by_cases hback : GoesBack rts reply
  case neg =>
    obtain ⟨out, c, hprint, hread, -⟩ := hitems h
    rw [timeWarnings_forward hback, List.nil_append, hprint]
    exact hread.trans ⟨fun hall => ⟨hall.1, fun hstays => hback hstays.1,
      fun hgoes => absurd hgoes hback, hall.2⟩, fun hall => ⟨hall.1, hall.2.2.2⟩⟩
  case pos =>
    obtain ⟨line, b', hline, hsound, hwarning⟩ :=
      @printPacket_warning strerror _ h _ (plain_goesBack reply.tv reply.stamp)
    by_cases hstays : StaysBack rts reply
    · obtain ⟨line', b'', hline', hsound', hwarning'⟩ :=
        @printPacket_warning strerror _ hsound _ (plain_goesBack reply.now reply.stamp)
      obtain ⟨out, c, hprint, -⟩ := hitems hsound'
      have hprinted : printPacket strerror (timeWarnings rts reply ++ items) b =
          .ok (line ++ (line' ++ out), c) := by
        rw [timeWarnings_twice hstays]
        refine (hwarning (goesBack reply.now reply.stamp :: items)).trans ?_
        rw [goesBack, hwarning', hprint]
        rfl
      rw [hprinted]
      refine (line_append hline).trans ?_
      constructor
      · intro hnil
        exact absurd (List.append_eq_nil_iff.mp hnil).1 hline'.ne_nil
      · intro hnot
        exact absurd hstays hnot.2.1
    · obtain ⟨out, c, hprint, -, hnil⟩ := hitems hsound
      have hprinted : printPacket strerror (timeWarnings rts reply ++ items) b =
          .ok (line ++ out, c) := by
        rw [timeWarnings_once hback hstays]
        refine (hwarning items).trans ?_
        rw [hprint]
        rfl
      rw [hprinted]
      refine (line_append hline).trans (hnil.trans ?_)
      exact ⟨fun hempty => ⟨hempty.1, hstays, fun _ => hempty.2, .inl hempty.2⟩,
        fun hempty => ⟨hempty.1, hempty.2.2.1 hback⟩⟩

/-- The line of a reply is printed alone. -/
theorem readable_fields {host : HostText} {made : Prop} {length : Nat} (h : Sound b [])
    (rts : PingRts) (reply : Reply) (part : HostPart host made length items)
    (fits : length < PING_JSON_MAX) :
    Readable (printPacket strerror (timeWarnings rts reply ++ items) b) ↔
      ¬made ∧ ¬GoesBack rts reply ∧ HostShown host.bytes := by
  have hfields : jsonFields items ≠ [] := by
    obtain ⟨before, after, -, -, -, heq⟩ := part.fields
    rw [heq]
    exact List.append_ne_nil_of_right_ne_nil _ (List.cons_ne_nil _ _)
  rw [readable_warned h rts reply part.toRemarked fits, part.legible_iff]
  constructor
  · rintro ⟨hunmade, -, hback, hshown⟩
    exact ⟨hunmade, fun hgoes => hfields (hback hgoes), hshown⟩
  · rintro ⟨hunmade, hback, hshown⟩
    exact ⟨hunmade, fun hstays => hback hstays.1, fun hgoes => absurd hgoes hback, hshown⟩

/-- A reply with what its caller prints behind it. -/
theorem readable_gathered {made behind behind' : Prop} {length length' : Nat}
    {prReply ending : List Printed} (h : Sound b []) (s : Settings) (rts : PingRts) (p : Packet)
    (wrongSource : Bool) (part : Part made length prReply) (part' : Part behind' length' ending)
    (same : rts.optFlood = false → (behind' ↔ behind))
    (fits : 2300 + length + length' < PING_JSON_MAX) :
    Readable (printPacket strerror
        ((gatherPrinted s rts p prReply wrongSource).1 ++
          if (gatherPrinted s rts p prReply wrongSource).2 then [] else ending) b) ↔
      Undisturbed s rts p wrongSource made behind := by
  have hhead := part_head s rts p part
  rw [Undisturbed, gatherPrinted]
  cases hquiet : rts.optQuiet with
  | true =>
      have hnone : Remarked False 0 ([] : List Printed) := .nil not_false
      rw [if_pos rfl, if_pos rfl, if_pos rfl, readable_warned h rts p.reply hnone (by decide)]
      exact ⟨fun hall => hall.2.1, fun hall => ⟨not_false, hall, fun _ => rfl, .inl rfl⟩⟩
  | false =>
  rw [if_neg Bool.false_ne_true, if_neg Bool.false_ne_true]
  cases hflood : rts.optFlood with
  | true =>
      have hflooded := (remarked_flood p.reply.csfailed).append part'.toRemarked
      rw [if_pos rfl, if_neg Bool.false_ne_true, List.append_assoc,
        readable_warned h rts p.reply hflooded (by omega)]
      constructor
      · intro hall
        exact absurd (.inl trivial) hall.1
      · intro hall
        cases hall.1
  | false =>
  have hbehind := same hflood
  rw [if_neg Bool.false_ne_true]
  split
  next hshort =>
    have hinfo : Part False 40 [printTruncated] := part_str .info (by decide) (by decide)
    rw [if_pos rfl, List.append_nil, List.append_assoc,
      readable_fields h rts p.reply (hhead.append hinfo) (by omega)]
    constructor
    · rintro ⟨hunmade, hback, hshown⟩
      simp only [or_false, not_or, Bool.not_eq_true] at hunmade
      exact ⟨rfl, hback, hunmade.1, hshown, hunmade.2, .inl hshort⟩
    · rintro ⟨-, hback, htimestamp, hshown, hunmade, -⟩
      rw [htimestamp]
      simp only [Bool.false_eq_true, false_or, or_false]
      exact ⟨hunmade, hback, hshown⟩
  next hlong =>
    have hall := (hhead.append (part_tail s rts p wrongSource)).append part'
    rw [if_neg Bool.false_ne_true, List.append_assoc, List.append_assoc,
      ← List.append_assoc _ _ ending, readable_fields h rts p.reply hall (by omega)]
    simp only [not_or, Bool.not_eq_true, not_not, hbehind]
    constructor
    · rintro ⟨⟨⟨⟨htimestamp, hunmade⟩, hdup, hchecksum, hsource, hintact⟩, hsilent⟩, hback, hshown⟩
      exact ⟨trivial, hback, htimestamp, hshown, hunmade,
        .inr ⟨hdup, hchecksum, hsource, hintact, hsilent⟩⟩
    · rintro ⟨-, hback, htimestamp, hshown, hunmade,
        hshort | ⟨hdup, hchecksum, hsource, hintact, hsilent⟩⟩
      · exact absurd hshort hlong
      · exact ⟨⟨⟨⟨htimestamp, hunmade⟩, hdup, hchecksum, hsource, hintact⟩, hsilent⟩, hback, hshown⟩

/-- The packet is a reply of this program, which goes to `gather_statistics`. -/
def Gathered (family : Family) (sock : SockType) (rts : PingRts) (p : Packet) : Prop :=
  match family with
  | .inet =>
      ¬(sock = .raw ∧ (p.reply.cc < 8 ∨ p.ihl < 5)) ∧ p.type = ICMP_ECHOREPLY ∧
        isOurs rts sock p.id = true
  | .inet6 =>
      ¬p.reply.cc < 8 ∧
        (p.type = ICMP6_ECHO_REPLY ∧ isOurs rts sock p.id = true ∨
          p.type = IPUTILS_NI_ICMP6_REPLY ∧ niqueryCheckNonce rts.ni p.ni = true)

/-- The reply comes from somewhere else than it should. -/
def wrongSource (family : Family) (s : Settings) (rts : PingRts) (p : Packet) : Bool :=
  match family with
  | .inet => !rts.broadcastPings && !rts.multicast && p.source ≠ rts.whereto
  | .inet6 => !rts.multicast && !s.subnetRouterAnycast && p.source6 ≠ rts.whereto6

/-- Nothing disturbs the line of a reply. -/
def Clean (family : Family) (s : Settings) (sock : SockType) (rts : PingRts) (p : Packet) : Prop :=
  match family with
  | .inet =>
      Undisturbed s rts p (wrongSource .inet s rts p) False
        (s.optAudible = true ∨ ¬Silent p.options 0 (p.olen sock))
  | .inet6 =>
      Undisturbed s rts p.counted (wrongSource .inet6 s rts p) (p.type ≠ ICMP6_ECHO_REPLY)
        (s.optAudible = true)

theorem part_seq (seq : UInt16) : Part False 32 (prEchoReply seq) :=
  .field not_false trivial (Nat.add_le_add_right (length_member_uint .seq _) 2)

theorem part_end (prAddr : PrAddr) (s : Settings) (sock : SockType) (rts : PingRts) (p : Packet)
    (oldRr : List UInt8) :
    Part (s.optAudible = true ∨ rts.optFlood = false ∧ ¬Silent p.options 0 (p.olen sock)) 0
      (replyEnd prAddr s sock rts p oldRr).1 := by
  rw [replyEnd]
  cases rts.optFlood with
  | true =>
      rw [if_pos rfl]
      exact (part_audible s).mono (by simp) (Nat.le_refl 0)
  | false =>
      rw [if_neg Bool.false_ne_true]
      exact ((part_audible s).append (part_options prAddr p.options false 0 (p.olen sock)
        oldRr)).mono (by simp) (Nat.le_refl 0)

/-- Every reply is printed, and whether as a line is told by what disturbs it. -/
theorem readable_reply (strerror : Int → CString) (prAddr : PrAddr) (family : Family)
    (s : Settings) (sock : SockType) (rts : PingRts) (oldRr : List UInt8) (p : Packet)
    (h : Sound b []) (gathered : Gathered family sock rts p) :
    Readable (printPacket strerror (family.parseReply prAddr s sock rts oldRr p).printed b) ↔
      Clean family s sock rts p := by
  cases family with
  | inet =>
      obtain ⟨hlong, htype, hours⟩ := gathered
      change Readable (printPacket strerror (ping4ParseReply prAddr s sock rts oldRr p).printed b)
        ↔ _
      rw [ping4ParseReply, if_neg hlong, if_pos htype, if_neg (not_not.mpr hours)]
      have hread := @readable_gathered strerror b False
        (s.optAudible = true ∨ ¬Silent p.options 0 (p.olen sock)) _ _ _ _ _ h s rts p
        (wrongSource .inet s rts p) (part_seq p.reply.seq) (part_end prAddr s sock rts p oldRr)
        (fun hflood => by rw [hflood]; simp) (by decide)
      refine Iff.trans ?_ hread
      dsimp only
      rw [apply_ite Prod.fst]
      rfl
  | inet6 =>
      obtain ⟨hlong, hreply⟩ := gathered
      change Readable (printPacket strerror (ping6ParseReply s sock rts oldRr p).printed b) ↔ _
      rw [ping6ParseReply, if_neg hlong]
      have hread : ∀ {made : Prop} {length : Nat} {prReply : List Printed} (source : Bool),
          Part made length prReply → length ≤ 80 →
          (Readable (printPacket strerror
              ((gatherPrinted s rts p.counted prReply source).1 ++
                if (gatherPrinted s rts p.counted prReply source).2 then [] else audible s) b) ↔
            Undisturbed s rts p.counted source made (s.optAudible = true)) := by
        intro made length prReply source part hlength
        have hmax : PING_JSON_MAX = 4000 := rfl
        exact readable_gathered h s rts p.counted source part (part_audible s) (fun _ => Iff.rfl)
          (by omega)
      obtain ⟨htype, hours⟩ | ⟨htype, hnonce⟩ := hreply
      · have hmade : (p.type ≠ ICMP6_ECHO_REPLY) = False := by simp [htype]
        rw [if_pos htype, if_neg (not_not.mpr hours), Clean, hmade]
        exact hread _ (part_seq p.reply.seq) (by decide)
      · have hother : p.type ≠ ICMP6_ECHO_REPLY := by
          rw [htype]
          decide
        rw [if_neg hother, if_pos htype, if_neg (not_not.mpr hnonce), Clean, eq_true hother]
        refine (hread _ (part_niquery p.icmp p.ni p.reply.cc) (by decide)).trans ?_
        simp only [Undisturbed, not_true_eq_false, false_and, and_false]

end Whole

/-- With `-j` a reply is one line with an object, or nothing, exactly if nothing disturbs it. -/
theorem reply_line_iff (strerror : Int → CString) (prAddr : PrAddr) (family : Family)
    (s : Settings) (sock : SockType) (rts : PingRts) (oldRr : List UInt8) (p : Packet)
    (b : PingJsonBuffer) (empty : Sound b []) (gathered : Gathered family sock rts p) :
    Readable (printPacket strerror (family.parseReply prAddr s sock rts oldRr p).printed b) ↔
      Clean family s sock rts p :=
  readable_reply strerror prAddr family s sock rts oldRr p empty gathered

def noHost : HostText where
  name := .empty
  address := .empty

/-- A reply without data. -/
def bareReply (csfailed : Bool) : Packet where
  reply := { cc := 8, seq := 1, csfailed := csfailed }
  type := ICMP_ECHOREPLY
  host := noHost

theorem gathered_bareReply (csfailed : Bool) :
    Gathered .inet .dgram { datalen := 0 } (bareReply csfailed) :=
  ⟨fun h => SockType.noConfusion h.1, rfl, rfl⟩

theorem clean_bareReply : Clean .inet {} .dgram { datalen := 0 } (bareReply false) := by
  have hfirst : dupShown {} { datalen := 0 } (bareReply false).reply = false := by
    have hmark : marked { datalen := 0 } (bareReply false).reply.seq = false :=
      Bitmap.contains_empty _
    rw [dupShown, hmark]
    rfl
  have hforward : ¬GoesBack { datalen := 0 } (bareReply false).reply :=
    fun h => Bool.false_ne_true h.1
  have hintact : Intact { datalen := 0 } (bareReply false).icmp :=
    fun _ _ h => absurd h (Nat.not_lt_zero _)
  have hbehind : ¬(({} : Settings).optAudible = true ∨
      ¬Silent (bareReply false).options 0 ((bareReply false).olen .dgram)) := by
    rintro (h | h)
    · exact Bool.false_ne_true h
    · exact h (.empty 0)
  exact ⟨rfl, hforward, rfl, .of_plain rfl, not_false, .inr ⟨hfirst, rfl, rfl, hintact, hbehind⟩⟩

theorem reply_line_iff_bare :
    Readable (printPacket (fun _ => cString [])
      (Family.inet.parseReply (fun _ => noHost) {} .dgram { datalen := 0 } []
        (bareReply false)).printed {}) :=
  (reply_line_iff (fun _ => cString []) (fun _ => noHost) .inet {} .dgram { datalen := 0 } []
    (bareReply false) {} sound_empty (gathered_bareReply false)).mpr clean_bareReply

/-- With a bad checksum there is a remark in front of the object. -/
theorem reply_line_remarked :
    Gathered .inet .dgram { datalen := 0 } (bareReply true) ∧
      ¬Readable (printPacket (fun _ => cString [])
        (Family.inet.parseReply (fun _ => noHost) {} .dgram { datalen := 0 } []
          (bareReply true)).printed {}) := by
  refine ⟨gathered_bareReply true, fun hread => ?_⟩
  obtain ⟨-, -, -, -, -, hcomplete⟩ := (readable_reply (fun _ => cString []) (fun _ => noHost)
    .inet {} .dgram { datalen := 0 } [] (bareReply true) sound_empty
    (gathered_bareReply true)).mp hread
  obtain hshort | ⟨-, hchecksum, -⟩ := hcomplete
  · exact absurd hshort (by decide)
  · exact Bool.false_ne_true hchecksum.symm

end Coping.ReplyLine
