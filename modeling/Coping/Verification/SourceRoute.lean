import Coping.Ping.Addresses

/-!
# Hops over several attempts

`ping4_run` fills `rts->route` behind the hops that earlier attempts have left there, and
connects its probe socket to the first of them. One attempt alone is right: the checks on
the number of targets keep every write in the two arrays, and the option block reads as the
hops of the command line. With hops a second attempt is made only where the first hop is
unreachable, and then every attempt fails; what they write to the route is one list of hops
for each.
-/

namespace Coping.SourceRoute

/-! ## Reading an option block -/

structure IpOption where
  type : UInt8
  length : UInt8
  data : List UInt8

/-- The first option of a block that takes more than a byte. -/
def readOption : List UInt8 → Option IpOption
  | [] => none
  | type :: rest =>
      if type = IPOPT_NOOP then readOption rest
      else
        match rest with
        | [] => none
        | length :: data =>
            if 2 ≤ length.toNat ∧ length.toNat - 2 ≤ data.length then
              some ⟨type, length, data.take (length.toNat - 2)⟩
            else none

def word (a b c d : UInt8) : UInt32 :=
  UInt32.ofNat (a.toNat * 16777216 + b.toNat * 65536 + c.toNat * 256 + d.toNat)

/-- The addresses of a source route. -/
def words : List UInt8 → List UInt32
  | a :: b :: c :: d :: rest => word a b c d :: words rest
  | _ => []

/-- The addresses of a timestamp option, each with a slot for a timestamp behind it. -/
def slots : List UInt8 → List UInt32
  | a :: b :: c :: d :: _ :: _ :: _ :: _ :: rest => word a b c d :: slots rest
  | _ => []

/-- The hops that an option carries, where it is there to carry hops. -/
def IpOption.hops (o : IpOption) : Option (List UInt32) :=
  if o.type = IPOPT_LSRR ∨ o.type = IPOPT_SSRR then some (words (o.data.drop 1))
  else if o.type = IPOPT_TIMESTAMP ∧ o.data[1]? = some TsType.prespec.flag then
    some (slots (o.data.drop 2))
  else none

/-- What the kernel is given. -/
def given (b : OptionBlock) : List UInt8 := b.block.bytes.take b.optlen

/-! ## What an attempt is for -/

/-- The route is the one of the command line, and the options carry it. -/
structure Routed (o : RouteOptions) (hops : List UInt32) (s : Routing)
    (blocks : List OptionBlock) : Prop where
  nroute : s.nroute = hops.length
  route : s.hops = hops
  lengths : ∀ b ∈ blocks, b.optlen ≤ 40 ∧
    ∃ option, readOption (given b) = some option ∧ option.length.toNat ≤ 40
  carried : (blocks.filterMap fun b => (readOption (given b)).bind IpOption.hops) =
    if hops = [] ∧ o.optTimestamp ≠ some .prespec then [] else [hops]

/-- The command line passes the checks on the number of targets. -/
def Accepted (o : RouteOptions) (hops : List UInt32) : Prop :=
  ∃ s, checkTargets o {} (hops.length + 1) = .ok s

/-- Nothing is written outside, and an attempt that proceeds has the right route. -/
structure CleanRetry (o : RouteOptions) (hops : List UInt32) (connect : UInt32 → Int)
    (results : List UInt32) : Prop where
  inside : main4 o hops connect {} results ≠ .error .outside
  routed : ∀ s blocks, main4 o hops connect {} results = .ok (some (s, blocks)) →
    Routed o hops s blocks

/-! ## The arrays -/

section Arrays

variable {o : RouteOptions} {hops : List UInt32} {s s' : Routing}

theorem word_be32 (a : UInt32) (rest : List UInt8) : words (be32 a ++ rest) = a :: words rest := by
  change word _ _ _ _ :: words rest = _
  congr 1
  have hlt := a.toNat_lt
  rw [← UInt32.toNat_inj, word, UInt32.toNat_ofNat']
  simp only [UInt8.toNat_ofNat']
  omega

theorem words_flatMap (hops : List UInt32) : words (hops.flatMap be32) = hops := by
  induction hops with
  | nil => rfl
  | cons a hops ih => rw [List.flatMap_cons, word_be32, ih]

theorem slots_flatMap (hops : List UInt32) :
    slots (hops.flatMap fun a => be32 a ++ List.replicate 4 0) = hops := by
  induction hops with
  | nil => rfl
  | cons a hops ih =>
      have hword := (List.cons.inj (word_be32 a [])).1
      rw [List.flatMap_cons]
      change word _ _ _ _ :: slots (hops.flatMap fun a => be32 a ++ List.replicate 4 0) = _
      rw [ih]
      exact congrArg (· :: hops) hword

/-- What the checks leave of a command line with hops. -/
theorem Accepted.cases (h : Accepted o hops) (nonempty : hops ≠ []) :
    o.optRroute = false ∧
      ((o.optTimestamp = some .prespec ∧ hops.length ≤ 4 ∧
          ∀ s, checkTargets o s (hops.length + 1) = .ok s) ∨
        (o.optTimestamp = none ∧ hops.length ≤ 9 ∧
          ∀ s, checkTargets o s (hops.length + 1) = .ok { s with optSourceroute := true })) := by
  obtain ⟨s, hs⟩ := h
  have hmany : hops.length + 1 > 1 := Nat.succ_lt_succ (List.length_pos_iff.mpr nonempty)
  have hrroute : o.optRroute = false := by
    rw [checkTargets, if_pos hmany] at hs
    cases hr : o.optRroute
    · rfl
    · rw [if_pos hr] at hs
      cases hs
  refine ⟨hrroute, ?_⟩
  cases htype : o.optTimestamp with
  | none =>
      have hcheck : ∀ s, checkTargets o s (hops.length + 1) =
          if hops.length + 1 > 10 then .error .usage
          else .ok { s with optSourceroute := true } := by
        intro s
        rw [checkTargets, if_pos hmany, if_neg (ne_true_of_eq_false hrroute), htype]
      rw [hcheck] at hs
      have hfew : ¬ hops.length + 1 > 10 := by
        intro hlong
        rw [if_pos hlong] at hs
        cases hs
      refine .inr ⟨rfl, by omega, ?_⟩
      intro s
      rw [hcheck, if_neg hfew]
  | some type =>
      have hcheck : ∀ s, checkTargets o s (hops.length + 1) =
          if type ≠ .prespec ∨ hops.length + 1 > 5 then .error .usage else .ok s := by
        intro s
        rw [checkTargets, if_pos hmany, if_neg (ne_true_of_eq_false hrroute), htype]
      rw [hcheck] at hs
      have hright : ¬ (type ≠ .prespec ∨ hops.length + 1 > 5) := by
        intro hwrong
        rw [if_pos hwrong] at hs
        cases hs
      obtain ⟨hprespec, hfew⟩ := not_or.mp hright
      rw [not_not] at hprespec
      refine .inl ⟨by rw [hprespec], by omega, ?_⟩
      intro s
      rw [hcheck, if_neg hright]

theorem fillRoute_cons (s : Routing) (hop : UInt32) (hops : List UInt32) (whereto : UInt32) :
    fillRoute s (hop :: hops ++ [whereto]) =
      if h : s.nroute < 10 then
        fillRoute
          { s with nroute := s.nroute + 1, route := s.route.set s.nroute hop, whereto := hop }
          (hops ++ [whereto])
      else .error .outside := by
  obtain ⟨next, rest, hrest⟩ := List.exists_cons_of_ne_nil
    (List.append_ne_nil_of_right_ne_nil hops (List.cons_ne_nil whereto []))
  rw [List.cons_append, hrest, fillRoute]
  exact fun hnil => absurd hnil (List.cons_ne_nil _ _)

/-- The hops go behind those that are there already. -/
theorem fillRoute_ok (room : s.nroute + hops.length ≤ 10) (whereto : UInt32) :
    ∃ s', fillRoute s (hops ++ [whereto]) = .ok s' ∧ s'.nroute = s.nroute + hops.length ∧
      s'.hops = s.hops ++ hops ∧ s'.whereto = whereto ∧
      s'.optSourceroute = s.optSourceroute := by
  induction hops generalizing s with
  | nil => exact ⟨_, rfl, rfl, (List.append_nil _).symm, rfl, rfl⟩
  | cons hop hops ih =>
      rw [List.length_cons] at room
      have hlt : s.nroute < 10 := by omega
      obtain ⟨s', hs', hnroute, hhops, hwhereto, hsource⟩ := @ih
        { s with nroute := s.nroute + 1, route := s.route.set s.nroute hop, whereto := hop }
        (by change s.nroute + 1 + _ ≤ 10; omega)
      refine ⟨s', ?_, ?_, ?_, hwhereto, hsource⟩
      · rw [fillRoute_cons, dif_pos hlt]
        exact hs'
      · rw [hnroute, List.length_cons]
        change s.nroute + 1 + hops.length = _
        omega
      · rw [hhops]
        have htake : (s.route.set s.nroute hop).toList.take (s.nroute + 1) =
            s.route.toList.take s.nroute ++ [hop] := by
          have hlength : s.nroute < s.route.toList.length := by simpa using hlt
          rw [Vector.toList_set, List.take_succ_eq_append_getElem (by simpa using hlt),
            List.take_set_of_le (le_refl _), List.getElem_set_self]
        change (s.route.set s.nroute hop).toList.take (s.nroute + 1) ++ hops = _
        rw [htake, List.append_assoc]
        rfl

/-- Where they have no room, the one behind the last is written outside. -/
theorem fillRoute_outside (le : s.nroute ≤ 10) (full : 10 < s.nroute + hops.length)
    (whereto : UInt32) : fillRoute s (hops ++ [whereto]) = .error .outside := by
  induction hops generalizing s with
  | nil => exact absurd full (Nat.not_lt.mpr le)
  | cons hop hops ih =>
      rw [fillRoute_cons]
      by_cases hlt : s.nroute < 10
      · rw [dif_pos hlt]
        apply ih
        · exact hlt
        · rw [List.length_cons] at full
          change 10 < s.nroute + 1 + hops.length
          omega
      · rw [dif_neg hlt]

/-- Addresses written into a free part of the block, each with its padding. -/
theorem writeRoute_ok (pad : Nat) (hops : List UInt32) {b : Rspace} {front back : List UInt8}
    (free : b.bytes = front ++ List.replicate ((4 + pad) * hops.length) 0 ++ back) :
    ∃ b', writeRoute (4 + pad) front.length hops b = .ok b' ∧
      b'.bytes = front ++ (hops.flatMap fun a => be32 a ++ List.replicate pad 0) ++ back := by
  induction hops generalizing b front with
  | nil => exact ⟨b, rfl, free⟩
  | cons a hops ih =>
      have hsplit : List.replicate ((4 + pad) * (a :: hops).length) (0 : UInt8) =
          List.replicate 4 0 ++ (List.replicate pad 0 ++
            List.replicate ((4 + pad) * hops.length) 0) := by
        rw [← List.replicate_add, ← List.replicate_add, List.length_cons]
        congr 1
        rw [Nat.mul_succ]
        omega
      rw [hsplit] at free
      have hfree : b.bytes = front ++ List.replicate 4 0 ++
          (List.replicate pad 0 ++ List.replicate ((4 + pad) * hops.length) 0 ++ back) := by
        rw [free]
        simp only [List.append_assoc]
      have hfour : (be32 a).length = (List.replicate 4 (0 : UInt8)).length := rfl
      obtain ⟨b', hb', hbytes⟩ := CBuffer.write_eq hfree hfour
      obtain ⟨b'', hb'', hbytes'⟩ := @ih b' (front ++ be32 a ++ List.replicate pad 0)
        (by rw [hbytes]; simp only [List.append_assoc])
      have hlength : (front ++ be32 a ++ List.replicate pad (0 : UInt8)).length =
          front.length + (4 + pad) := by
        simp only [List.length_append, List.length_replicate, be32, List.length_cons,
          List.length_nil]
        omega
      refine ⟨b'', ?_, ?_⟩
      · rw [writeRoute, writeRspace, hb', ← hlength]
        exact hb''
      · rw [hbytes', List.flatMap_cons]
        simp only [List.append_assoc]

end Arrays

/-! ## The blocks -/

section Blocks

variable {o : RouteOptions} {hops : List UInt32} {s : Routing}

/-- A block reads as an option of at most 40 bytes, with these hops. -/
structure Reads (b : OptionBlock) (hops : Option (List UInt32)) : Prop where
  optlen_le : b.optlen ≤ 40
  option : ∃ option, readOption (given b) = some option ∧ option.length.toNat ≤ 40 ∧
    option.hops = hops

/-- All blocks can be read, and these are the hops that they carry. -/
structure Carry (blocks : List OptionBlock) (carried : List (List UInt32)) : Prop where
  lengths : ∀ b ∈ blocks, b.optlen ≤ 40 ∧
    ∃ option, readOption (given b) = some option ∧ option.length.toNat ≤ 40
  carried : (blocks.filterMap fun b => (readOption (given b)).bind IpOption.hops) = carried

theorem Carry.nil : Carry [] [] where
  lengths := fun _ hmem => absurd hmem List.not_mem_nil
  carried := rfl

theorem Reads.carry {b : OptionBlock} {hops : Option (List UInt32)} (h : Reads b hops) :
    Carry [b] hops.toList := by
  obtain ⟨option, hread, hlength, hhops⟩ := h.option
  refine ⟨?_, ?_⟩
  · intro b' hmem
    rw [List.mem_singleton.mp hmem]
    exact ⟨h.optlen_le, option, hread, hlength⟩
  · rw [List.filterMap_cons, hread, Option.bind_some, hhops]
    cases hops <;> rfl

theorem Carry.append {blocks blocks' : List OptionBlock} {carried carried' : List (List UInt32)}
    (h : Carry blocks carried) (h' : Carry blocks' carried') :
    Carry (blocks ++ blocks') (carried ++ carried') := by
  refine ⟨?_, ?_⟩
  · intro b hmem
    rcases List.mem_append.mp hmem with hmem | hmem
    · exact h.lengths b hmem
    · exact h'.lengths b hmem
  · rw [List.filterMap_append, h.carried, h'.carried]

/-- The header of a block, on a fresh array. -/
theorem writeHeader (header : List UInt8) (four : header.length = 4) :
    ∃ b, writeRspace CBuffer.zero 0 header = .ok b ∧
      b.bytes = header ++ List.replicate 36 0 := by
  have hzero : (CBuffer.zero : Rspace).bytes =
      [] ++ List.replicate 4 0 ++ List.replicate 36 0 := by
    rw [List.nil_append, ← List.replicate_add]
    rfl
  have hsame : header.length = (List.replicate 4 (0 : UInt8)).length := four
  obtain ⟨b, hb, hbytes⟩ := CBuffer.write_eq hzero hsame
  have hwrite : (CBuffer.zero : Rspace).write 0 header = some b := hb
  exact ⟨b, by rw [writeRspace, hwrite], hbytes⟩

theorem length_addresses (pad : Nat) (hops : List UInt32) :
    (hops.flatMap fun a => be32 a ++ List.replicate pad 0).length = (4 + pad) * hops.length := by
  induction hops with
  | nil => rfl
  | cons a hops ih =>
      rw [List.flatMap_cons, List.length_append, ih, List.length_append, List.length_replicate,
        List.length_cons, Nat.mul_succ, Nat.add_comm]
      rfl

/-- A header and the addresses behind it, where they have room. -/
theorem writeBlock (pad : Nat) (header : List UInt8) (hops : List UInt32)
    (four : header.length = 4) (room : (4 + pad) * hops.length ≤ 36) :
    ∃ b₀ b, writeRspace CBuffer.zero 0 header = .ok b₀ ∧
      writeRoute (4 + pad) 4 hops b₀ = .ok b ∧
      b.bytes.take (4 + (4 + pad) * hops.length) =
        header ++ hops.flatMap fun a => be32 a ++ List.replicate pad 0 := by
  obtain ⟨b₀, hb₀, hbytes₀⟩ := writeHeader header four
  have hfree : b₀.bytes = header ++ List.replicate ((4 + pad) * hops.length) 0 ++
      List.replicate (36 - (4 + pad) * hops.length) 0 := by
    rw [hbytes₀, List.append_assoc, ← List.replicate_add]
    congr 2
    omega
  obtain ⟨b, hb, hbytes⟩ := writeRoute_ok pad hops hfree
  refine ⟨b₀, b, hb₀, four ▸ hb, ?_⟩
  have hlength : (header ++ hops.flatMap fun a => be32 a ++ List.replicate pad 0).length =
      4 + (4 + pad) * hops.length := by
    rw [List.length_append, four, length_addresses]
  rw [hbytes, ← hlength, List.take_left]

/-- An option whose length byte counts it to the end of what is given. -/
theorem readOption_eq {type length : UInt8} {data : List UInt8} (other : type ≠ IPOPT_NOOP)
    (counts : length.toNat = data.length + 2) :
    readOption (type :: length :: data) = some ⟨type, length, data⟩ := by
  have htwo : length.toNat - 2 = data.length := by omega
  rw [readOption, if_neg other]
  simp only [htwo, le_refl, and_true, List.take_length]
  rw [if_pos (by omega)]

theorem recordRoute_reads : ∃ b, recordRoute = .ok b ∧ Reads b none := by
  obtain ⟨b, hb, hbytes⟩ := writeHeader [IPOPT_NOOP, IPOPT_RR, 39, IPOPT_MINOFF] rfl
  refine ⟨⟨b, 40⟩, by rw [recordRoute, hb]; rfl, le_refl _, ?_⟩
  refine ⟨⟨IPOPT_RR, 39, IPOPT_MINOFF :: List.replicate 36 0⟩, ?_, by decide, rfl⟩
  rw [given, List.take_of_length_le (le_of_eq b.length_bytes), hbytes]
  have hother : IPOPT_RR ≠ IPOPT_NOOP := by decide
  change readOption (IPOPT_RR :: 39 :: IPOPT_MINOFF :: List.replicate 36 0) = _
  apply readOption_eq hother
  rfl

theorem sourceRoute_reads (count : s.hops.length = s.nroute) (few : s.nroute ≤ 9) :
    ∃ b, sourceRoute o s = .ok b ∧ Reads b (some s.hops) := by
  obtain ⟨type, htype, hkind⟩ : ∃ type, (if o.optSoDontroute then IPOPT_SSRR else IPOPT_LSRR) = type
      ∧ (type = IPOPT_LSRR ∨ type = IPOPT_SSRR) := by
    refine ⟨_, rfl, ?_⟩
    cases o.optSoDontroute
    · exact .inl rfl
    · exact .inr rfl
  have hother : type ≠ IPOPT_NOOP := by
    rcases hkind with rfl | rfl <;> decide
  obtain ⟨b₀, b, hb₀, hb, hbytes⟩ := writeBlock 0
    [IPOPT_NOOP, type, UInt8.ofNat (3 + s.nroute * 4), IPOPT_MINOFF] s.hops rfl
    (by rw [count]; omega)
  simp only [Nat.add_zero, List.replicate_zero, List.append_nil] at hb hbytes
  have hoptlen : 4 + s.nroute * 4 ≤ 40 := by omega
  refine ⟨⟨b, 4 + s.nroute * 4⟩, ?_, hoptlen, ?_⟩
  · rw [sourceRoute, htype]
    simp only [hb₀, hb, bind, Except.bind, pure, Except.pure]
  · have hlength : (UInt8.ofNat (3 + s.nroute * 4)).toNat = 3 + s.nroute * 4 := by
      rw [UInt8.toNat_ofNat', Nat.mod_eq_of_lt (by omega)]
    refine ⟨⟨type, UInt8.ofNat (3 + s.nroute * 4), IPOPT_MINOFF :: s.hops.flatMap be32⟩,
      ?_, ?_, ?_⟩
    · have hgiven : given ⟨b, 4 + s.nroute * 4⟩ = IPOPT_NOOP :: type ::
          UInt8.ofNat (3 + s.nroute * 4) :: IPOPT_MINOFF :: s.hops.flatMap be32 := by
        rw [given, Nat.mul_comm s.nroute 4, ← count, hbytes, count, Nat.mul_comm 4]
        rfl
      rw [hgiven, readOption, if_pos rfl]
      apply readOption_eq hother
      have haddresses := length_addresses 0 s.hops
      simp only [Nat.add_zero, List.replicate_zero, List.append_nil] at haddresses
      rw [List.length_cons, haddresses, hlength, count]
      omega
    · change (UInt8.ofNat _).toNat ≤ 40
      omega
    · rw [IpOption.hops, if_pos hkind]
      exact congrArg some (words_flatMap _)

theorem timestampOption_reads (type : TsType) (count : s.hops.length = s.nroute)
    (few : s.nroute ≤ 4) :
    ∃ b, timestampOption s type = .ok b ∧
      Reads b (if type = .prespec then some s.hops else none) := by
  have hplain : ∀ (type : TsType) (length : Nat) (n : UInt8), n.toNat = length → 4 ≤ length →
      length ≤ 40 → type ≠ .prespec →
      ∃ b, writeRspace CBuffer.zero 0 [IPOPT_TIMESTAMP, n, 5, type.flag] = .ok b ∧
        Reads ⟨b, length⟩ none := by
    intro type length n hn hmin hmax htype
    obtain ⟨b, hb, hbytes⟩ := writeHeader [IPOPT_TIMESTAMP, n, 5, type.flag] rfl
    refine ⟨b, hb, hmax, ⟨IPOPT_TIMESTAMP, n, 5 :: type.flag :: List.replicate (length - 4) 0⟩,
      ?_, by rw [hn]; exact hmax, ?_⟩
    · have hgiven : given ⟨b, length⟩ =
          IPOPT_TIMESTAMP :: n :: 5 :: type.flag :: List.replicate (length - 4) 0 := by
        obtain ⟨k, rfl⟩ := Nat.exists_eq_add_of_le' hmin
        rw [given, hbytes]
        change _ :: _ :: _ :: _ :: List.take k (List.replicate 36 0) = _
        rw [List.take_replicate, Nat.min_eq_left (by omega), Nat.add_sub_cancel]
      rw [hgiven]
      apply readOption_eq (by decide)
      rw [List.length_cons, List.length_cons, List.length_replicate, hn]
      omega
    · cases type with
      | tsonly => rfl
      | tsandaddr => rfl
      | prespec => exact absurd rfl htype
  cases type with
  | tsonly =>
      obtain ⟨b, hb, hreads⟩ := hplain .tsonly 40 40 rfl (by decide) (by decide) (by decide)
      exact ⟨⟨b, 40⟩, by rw [timestampOption]; exact congrArg (· >>= _) hb, hreads⟩
  | tsandaddr =>
      obtain ⟨b, hb, hreads⟩ := hplain .tsandaddr 36 36 rfl (by decide) (by decide) (by decide)
      exact ⟨⟨b, 36⟩, by rw [timestampOption]; exact congrArg (· >>= _) hb, hreads⟩
  | prespec =>
      obtain ⟨b₀, b, hb₀, hb, hbytes⟩ := writeBlock 4
        [IPOPT_TIMESTAMP, UInt8.ofNat (4 + s.nroute * 8), 5, TsType.prespec.flag] s.hops rfl
        (by rw [count]; omega)
      have hbyte : (4 + s.nroute * 8) % 256 = 4 + s.nroute * 8 := Nat.mod_eq_of_lt (by omega)
      have hlength : (UInt8.ofNat (4 + s.nroute * 8)).toNat = 4 + s.nroute * 8 := by
        rw [UInt8.toNat_ofNat', hbyte]
      have hoptlen : 4 + s.nroute * 8 ≤ 40 := by omega
      refine ⟨⟨b, 4 + s.nroute * 8⟩, ?_, hoptlen, ?_⟩
      · rw [timestampOption]
        simp only [hbyte, hb₀, bind, Except.bind, pure, Except.pure, if_true]
        have hb' : writeRoute 8 4 s.hops b₀ = .ok b := hb
        rw [hb']
      · refine ⟨⟨IPOPT_TIMESTAMP, UInt8.ofNat (4 + s.nroute * 8), 5 :: TsType.prespec.flag ::
          s.hops.flatMap fun a => be32 a ++ List.replicate 4 0⟩, ?_, ?_, ?_⟩
        · have hgiven : given ⟨b, 4 + s.nroute * 8⟩ = IPOPT_TIMESTAMP ::
              UInt8.ofNat (4 + s.nroute * 8) :: 5 :: TsType.prespec.flag ::
              s.hops.flatMap fun a => be32 a ++ List.replicate 4 0 := by
            rw [given, Nat.mul_comm s.nroute 8, ← count]
            exact hbytes.trans (by rw [count, Nat.mul_comm 8]; rfl)
          rw [hgiven]
          apply readOption_eq (by decide)
          rw [List.length_cons, List.length_cons, length_addresses, hlength, count]
          omega
        · change (UInt8.ofNat _).toNat ≤ 40
          omega
        · exact congrArg some (slots_flatMap _)

theorem Accepted.few_stamped (h : Accepted o hops) (stamped : o.optTimestamp ≠ none) :
    hops.length ≤ 4 := by
  by_cases hnil : hops = []
  · rw [hnil]
    exact Nat.zero_le _
  · rcases (h.cases hnil).2 with ⟨_, hfew, _⟩ | ⟨hnone, _⟩
    · exact hfew
    · exact absurd hnone stamped

theorem Accepted.few (h : Accepted o hops) : hops.length ≤ 9 := by
  by_cases hnil : hops = []
  · rw [hnil]
    exact Nat.zero_le _
  · rcases (h.cases hnil).2 with ⟨_, hfew, _⟩ | ⟨_, hfew, _⟩
    · omega
    · exact hfew

theorem recordRouteBlocks_carry (o : RouteOptions) :
    ∃ blocks, recordRouteBlocks o = .ok blocks ∧ Carry blocks [] := by
  obtain ⟨b, hb, hreads⟩ := recordRoute_reads
  rw [recordRouteBlocks, hb]
  cases o.optRroute
  · exact ⟨[], rfl, Carry.nil⟩
  · exact ⟨[b], rfl, hreads.carry⟩

theorem timestampBlocks_carry (count : s.hops.length = s.nroute)
    (few : o.optTimestamp ≠ none → s.nroute ≤ 4) :
    ∃ blocks, timestampBlocks o s = .ok blocks ∧
      Carry blocks (if o.optTimestamp = some .prespec then [s.hops] else []) := by
  rw [timestampBlocks]
  cases htype : o.optTimestamp with
  | none => exact ⟨[], rfl, Carry.nil⟩
  | some type =>
      have hfew := few (by rw [htype]; exact Option.some_ne_none _)
      obtain ⟨b, hb, hreads⟩ := timestampOption_reads type count hfew
      refine ⟨[b], by simp only [hb]; rfl, ?_⟩
      cases type <;> exact hreads.carry

theorem sourceRouteBlocks_carry (count : s.hops.length = s.nroute) (few : s.nroute ≤ 9) :
    ∃ blocks, sourceRouteBlocks o s = .ok blocks ∧
      Carry blocks (if s.optSourceroute then [s.hops] else []) := by
  obtain ⟨b, hb, hreads⟩ := sourceRoute_reads (o := o) count few
  rw [sourceRouteBlocks, hb]
  cases s.optSourceroute
  · exact ⟨[], rfl, Carry.nil⟩
  · exact ⟨[b], rfl, hreads.carry⟩

/-- With the route in place, every option is written where it has room and carries it. -/
theorem Accepted.routed (h : Accepted o hops) (count : s.nroute = hops.length)
    (route : s.hops = hops)
    (source : s.optSourceroute = decide (hops ≠ [] ∧ o.optTimestamp = none)) :
    ∃ blocks, optionBlocks o s = .ok blocks ∧ Routed o hops s blocks := by
  have hlength : s.hops.length = s.nroute := by rw [route, count]
  have hfew := h.few
  obtain ⟨recorded, hrecorded, hcarry₁⟩ := recordRouteBlocks_carry o
  obtain ⟨stamped, hstamped, hcarry₂⟩ := timestampBlocks_carry (o := o) hlength
    (fun hsome => count ▸ h.few_stamped hsome)
  obtain ⟨routed, hrouted, hcarry₃⟩ := sourceRouteBlocks_carry (o := o) hlength (by omega)
  have hcarry := (hcarry₁.append hcarry₂).append hcarry₃
  refine ⟨recorded ++ stamped ++ routed, ?_, count, route, hcarry.lengths, ?_⟩
  · rw [optionBlocks, hrecorded, hstamped, hrouted]
    rfl
  · rw [hcarry.carried, route, source]
    by_cases hnil : hops = []
    · simp [hnil]
    · rcases (h.cases hnil).2 with ⟨htype, _⟩ | ⟨htype, _⟩
      · simp [hnil, htype]
      · simp [hnil, htype]

end Blocks

/-! ## The attempts -/

section Attempts

variable {o : RouteOptions} {hops : List UInt32} {s s' : Routing}
  {connect : UInt32 → Int} {whereto hop : UInt32} {results rest : List UInt32}

/-- What an attempt leaves of the route. -/
def Filled (o : RouteOptions) (hops : List UInt32) (s s' : Routing) (whereto : UInt32) : Prop :=
  ∃ checked, checkTargets o s (hops.length + 1) = .ok checked ∧
    fillRoute checked (hops ++ [whereto]) = .ok s'

/-- An attempt whose route is filled ends as its `connect` has it. -/
theorem Filled.ping4Probe (h : Filled o hops s s' whereto) (connect : UInt32 → Int)
    (aiNext : Bool) :
    ping4Probe o hops connect s whereto aiNext = .ok
      (if connect (s'.hops.headD s'.whereto) = 0 then .proceeds s'
        else if isUnreachable (connect (s'.hops.headD s'.whereto)) ∧ aiNext then .next s'
        else .exits) := by
  obtain ⟨checked, hchecked, hfill⟩ := h
  rw [Coping.ping4Probe, List.length_append, List.length_singleton]
  simp only [hchecked, hfill, bind, Except.bind, pure, Except.pure]
  split
  · rfl
  · split <;> rfl

theorem filled_of_ping4Probe {aiNext : Bool} {r : RunResult Routing Routing}
    (h : ping4Probe o hops connect s whereto aiNext = .ok r) :
    ∃ s', Filled o hops s s' whereto := by
  rw [ping4Probe, List.length_append, List.length_singleton] at h
  cases hchecked : checkTargets o s (hops.length + 1) with
  | error stop =>
      rw [hchecked] at h
      cases h
  | ok checked =>
      cases hfill : fillRoute checked (hops ++ [whereto]) with
      | error stop =>
          simp only [hchecked, hfill, bind, Except.bind] at h
          cases h
      | ok s' => exact ⟨s', checked, hchecked, hfill⟩

theorem unreachable_ne_zero {errno : Int} (h : isUnreachable errno = true) : errno ≠ 0 := by
  rintro rfl
  exact absurd h (by decide)

/-- One turn of the loop of `main`. -/
theorem main4_cons (filled : Filled o hops s s' whereto) (connect : UInt32 → Int)
    (rest : List UInt32) :
    main4 o hops connect s (whereto :: rest) =
      if connect (s'.hops.headD s'.whereto) = 0 then
        (optionBlocks o s').map fun blocks => some (s', blocks)
      else if isUnreachable (connect (s'.hops.headD s'.whereto)) ∧ rest ≠ [] then
        main4 o hops connect s' rest
      else .ok none := by
  have hmore : (!rest.isEmpty) = true ↔ rest ≠ [] := by
    rw [Bool.not_eq_true', List.isEmpty_eq_false_iff]
  rw [main4, filled.ping4Probe]
  simp only [hmore]
  split
  · change (optionBlocks o s' >>= fun blocks => pure (some (s', blocks))) = _
    cases optionBlocks o s' <;> rfl
  · split <;> rfl

/-- The checks pass for every attempt as for the first. -/
theorem Accepted.checked (h : Accepted o hops) (s : Routing) :
    ∃ checked, checkTargets o s (hops.length + 1) = .ok checked ∧ checked.nroute = s.nroute ∧
      checked.hops = s.hops ∧ (s.optSourceroute = false →
        checked.optSourceroute = decide (hops ≠ [] ∧ o.optTimestamp = none)) := by
  by_cases hnil : hops = []
  · subst hnil
    exact ⟨s, rfl, rfl, rfl, fun hclear => hclear.trans (by simp)⟩
  · obtain ⟨htype, -, hcheck⟩ | ⟨htype, -, hcheck⟩ := (h.cases hnil).2
    · exact ⟨s, hcheck s, rfl, rfl, fun hclear => hclear.trans (by simp [htype])⟩
    · exact ⟨_, hcheck s, rfl, rfl, fun _ => by simp [htype, hnil]⟩

/-- An attempt for which there is room fills the route further. -/
theorem Accepted.filled (h : Accepted o hops) (room : s.nroute + hops.length ≤ 10)
    (whereto : UInt32) :
    ∃ s', Filled o hops s s' whereto ∧ s'.nroute = s.nroute + hops.length ∧
      s'.hops = s.hops ++ hops ∧ s'.whereto = whereto ∧ (s.optSourceroute = false →
        s'.optSourceroute = decide (hops ≠ [] ∧ o.optTimestamp = none)) := by
  obtain ⟨checked, hchecked, hcount, hroute, hsource⟩ := h.checked s
  rw [← hcount] at room
  obtain ⟨s', hfill, hnroute, hhops, hwhereto, hkept⟩ := fillRoute_ok room whereto
  refine ⟨s', ⟨checked, hchecked, hfill⟩, ?_, ?_, hwhereto, fun hclear => ?_⟩
  · rw [hnroute, hcount]
  · rw [hhops, hroute]
  · rw [hkept, hsource hclear]

/-- One for which there is none writes outside. -/
theorem Accepted.outside (h : Accepted o hops) (le : s.nroute ≤ 10)
    (full : 10 < s.nroute + hops.length) (rest : List UInt32) :
    main4 o hops connect s (whereto :: rest) = .error .outside := by
  obtain ⟨checked, hchecked, hcount, -, -⟩ := h.checked s
  have hfill : fillRoute checked (hops ++ [whereto]) = .error .outside :=
    fillRoute_outside (hcount ▸ le) (hcount ▸ full) whereto
  rw [main4, ping4Probe, List.length_append, List.length_singleton]
  simp only [hchecked, hfill, bind, Except.bind]

/-- With an unreachable first hop every attempt fails, and the route fills up. -/
theorem main4_unreachable (accepted : Accepted o hops)
    (unreachable : isUnreachable (connect hop) = true)
    (first : (s.hops ++ hops).head? = some hop) (le : s.nroute ≤ 10) (results : List UInt32) :
    main4 o hops connect s results =
      if s.nroute + hops.length * results.length ≤ 10 then .ok none else .error .outside := by
  induction results generalizing s with
  | nil => exact (if_pos (by rw [List.length_nil]; omega)).symm
  | cons whereto rest ih =>
      rw [List.length_cons, Nat.mul_succ]
      by_cases hroom : s.nroute + hops.length ≤ 10
      case neg =>
        rw [accepted.outside le (by omega), if_neg (by omega)]
      obtain ⟨s', hfilled, hnroute, hhops, -⟩ := accepted.filled hroom whereto
      have hhead : s'.hops.headD s'.whereto = hop := by
        rw [hhops, List.headD_eq_head?_getD, first, Option.getD_some]
      rw [main4_cons hfilled, hhead, if_neg (unreachable_ne_zero unreachable)]
      by_cases hrest : rest = []
      · rw [if_neg fun h => h.2 hrest, hrest, List.length_nil, if_pos (by omega)]
      · have hfirst : (s'.hops ++ hops).head? = some hop := by
          rw [hhops, List.head?_append, first, Option.some_or]
        rw [if_pos ⟨unreachable, hrest⟩, ih hfirst (by omega), hnroute, Nat.add_assoc,
          Nat.add_comm hops.length]

/-- Without hops an attempt changes the destination only. -/
theorem main4_lone (accepted : Accepted o []) (results : List UInt32) (nroute : s.nroute = 0)
    (source : s.optSourceroute = false) :
    main4 o [] connect s results = .ok none ∨
      ∃ s' blocks, main4 o [] connect s results = .ok (some (s', blocks)) ∧
        Routed o [] s' blocks := by
  induction results generalizing s with
  | nil => exact .inl rfl
  | cons whereto rest ih =>
      have hroom : s.nroute + ([] : List UInt32).length ≤ 10 := by
        rw [nroute]
        decide
      obtain ⟨s', hfilled, hnroute, hhops, -, hsource⟩ := accepted.filled hroom whereto
      have hempty : s'.hops = [] := by
        rw [hhops, Routing.hops, nroute]
        rfl
      rw [main4_cons hfilled]
      split
      · obtain ⟨blocks, hblocks, hrouted⟩ :=
          accepted.routed (hnroute.trans nroute) hempty (hsource source)
        exact .inr ⟨s', blocks, by rw [hblocks]; rfl, hrouted⟩
      split
      · exact ih (hnroute.trans nroute) ((hsource source).trans (by simp))
      · exact .inl rfl

theorem CleanRetry.of_none (h : main4 o hops connect {} results = .ok none) :
    CleanRetry o hops connect results where
  inside := by
    rw [h]
    exact fun herror => by cases herror
  routed := by
    intro s blocks hok
    rw [h] at hok
    cases hok

theorem CleanRetry.of_routed {blocks : List OptionBlock}
    (h : main4 o hops connect {} results = .ok (some (s, blocks)))
    (routed : Routed o hops s blocks) : CleanRetry o hops connect results where
  inside := by
    rw [h]
    exact fun herror => by cases herror
  routed := by
    intro s' blocks' hok
    rw [h] at hok
    cases hok
    exact routed

theorem clean_iff (o : RouteOptions) (hops : List UInt32) (connect : UInt32 → Int)
    (results : List UInt32) (accepted : Accepted o hops) :
    CleanRetry o hops connect results ↔
      ∀ hop ∈ hops.head?, isUnreachable (connect hop) = true →
        hops.length * results.length ≤ 10 := by
  cases hcases : hops with
  | nil =>
      subst hcases
      refine ⟨fun _ hop hmem => absurd hmem (Option.not_mem_none hop), fun _ => ?_⟩
      obtain hnone | ⟨s, blocks, hok, hrouted⟩ := @main4_lone o {} connect accepted results rfl rfl
      · exact .of_none hnone
      · exact .of_routed hok hrouted
  | cons hop others =>
      rw [← hcases]
      have hfirst : hops.head? = some hop := by rw [hcases]; rfl
      simp only [hfirst, Option.mem_some_iff, forall_eq']
      by_cases hunreachable : isUnreachable (connect hop) = true
      · rw [forall_prop_of_true hunreachable]
        have hmain := @main4_unreachable o hops {} connect hop accepted hunreachable hfirst
          (by decide) results
        rw [Nat.zero_add] at hmain
        constructor
        · intro h
          by_contra hfull
          rw [if_neg hfull] at hmain
          exact h.inside hmain
        · intro hroom
          rw [if_pos hroom] at hmain
          exact .of_none hmain
      · refine ⟨fun _ h => absurd h hunreachable, fun _ => ?_⟩
        cases results with
        | nil => exact .of_none rfl
        | cons whereto rest =>
            have hroom : ({} : Routing).nroute + hops.length ≤ 10 := by
              have := accepted.few
              change 0 + _ ≤ 10
              omega
            obtain ⟨s, hfilled, hnroute, hhops, -, hsource⟩ := accepted.filled hroom whereto
            have hcount : s.nroute = hops.length := hnroute.trans (Nat.zero_add _)
            have hroute : s.hops = hops := hhops
            have hhead : s.hops.headD s.whereto = hop := by
              rw [hroute, List.headD_eq_head?_getD, hfirst, Option.getD_some]
            have hmain := main4_cons hfilled connect rest
            rw [hhead] at hmain
            by_cases hzero : connect hop = 0
            · obtain ⟨blocks, hblocks, hrouted⟩ :=
                accepted.routed hcount hroute (hsource rfl)
              rw [if_pos hzero, hblocks] at hmain
              exact .of_routed hmain hrouted
            · rw [if_neg hzero, if_neg fun h => hunreachable h.1] at hmain
              exact .of_none hmain

end Attempts

/-! ## Every command line -/

/-- Attempts are clean exactly where an unreachable first hop is not tried so often that the
hops of all attempts are more than there is room for. -/
theorem retry_clean_iff (o : RouteOptions) (hops : List UInt32) (connect : UInt32 → Int)
    (results : List UInt32) (accepted : Accepted o hops) :
    CleanRetry o hops connect results ↔
      ∀ hop ∈ hops.head?, isUnreachable (connect hop) = true →
        hops.length * results.length ≤ 10 :=
  clean_iff o hops connect results accepted

/-- A kernel without a route to anything. -/
def noRoute (_ : UInt32) : Int := ENETUNREACH

/-- Two addresses and five hops are just enough. -/
theorem retry_clean_iff_full :
    CleanRetry {} [1, 2, 3, 4, 5] noRoute [0x0a000001, 0x0a000002] ↔
      ∀ hop ∈ [(1 : UInt32), 2, 3, 4, 5].head?, isUnreachable (noRoute hop) = true →
        [(1 : UInt32), 2, 3, 4, 5].length * [(0x0a000001 : UInt32), 0x0a000002].length ≤ 10 :=
  retry_clean_iff {} [1, 2, 3, 4, 5] noRoute [0x0a000001, 0x0a000002] ⟨_, rfl⟩

/-- Six hops, the first of them unreachable, and a destination with two addresses: the
second attempt writes behind `route[9]`. -/
theorem retry_outgrows_route :
    ¬ ∀ (o : RouteOptions) (hops : List UInt32) (connect : UInt32 → Int) (results : List UInt32),
      Accepted o hops → CleanRetry o hops connect results := by
  intro hclean
  have haccepted : Accepted {} [1, 2, 3, 4, 5, 6] := ⟨_, rfl⟩
  have hroom := (clean_iff _ _ _ _ haccepted).mp
    (hclean {} [1, 2, 3, 4, 5, 6] noRoute [0x0a000001, 0x0a000002] haccepted) 1 rfl rfl
  exact absurd hroom (by decide)

end Coping.SourceRoute
